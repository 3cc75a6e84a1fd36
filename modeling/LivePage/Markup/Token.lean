import LivePage.Markup.Nodes

namespace LivePage.Markup

inductive Token
  | startTag (tag : String) (attributes : List Attribute) (selfClosing : Bool)
  | endTag (tag : String)
  | comment (content : String)
  | character (c : Char)
  | doctype (legacy : Bool)
  | finish
deriving DecidableEq, Repr

/-- How text is read. Inside a script, text after the start of a comment is `escaped`, and after a
script tag in it `nested`; both count the hyphens just read, up to two. -/
inductive Reading
  | markup
  | references
  | raw
  | script
  | escaped (hyphens : Nat)
  | nested (hyphens : Nat)
  | plain
deriving DecidableEq, Repr

end LivePage.Markup
