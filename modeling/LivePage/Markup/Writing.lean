import LivePage.Markup.Nodes
import LivePage.Text.Quoted

namespace LivePage.Markup

def voidTags : List String :=
  ["area", "base", "br", "col", "embed", "hr", "img", "input", "link", "meta", "source", "track",
    "wbr"]

def rawTags : List String :=
  ["script", "style", "xmp", "iframe", "noembed", "noframes", "plaintext"]

def escapeTextChar (c : Char) : List Char :=
  if c = '&' then ['&', 'a', 'm', 'p', ';']
  else if c = '<' then ['&', 'l', 't', ';']
  else if c = '>' then ['&', 'g', 't', ';']
  else [c]

def escapeValueChar (c : Char) : List Char :=
  if c = '"' then ['&', 'q', 'u', 'o', 't', ';'] else escapeTextChar c

def escapeText (s : String) : String :=
  String.ofList (s.toList.flatMap escapeTextChar)

def escapeValue (s : String) : String :=
  String.ofList (s.toList.flatMap escapeValueChar)

def Attribute.write (a : Attribute) : String :=
  " " ++ a.name ++ "=\"" ++ escapeValue a.value ++ "\""

def writeStartTag (tag : String) (attributes : List Attribute) : String :=
  "<" ++ tag ++ String.join (attributes.map Attribute.write) ++ ">"

def writeEndTag (tag : String) : String :=
  "</" ++ tag ++ ">"

def Attribute.debug (a : Attribute) : String :=
  "Attribute \x7b name: " ++ Text.quoted a.name ++ ", value: " ++ Text.quoted a.value ++ " \x7d"

def Label.debug (l : Label) : String :=
  "Element \x7b tag: " ++ Text.quoted l.tag ++ ", attributes: [" ++
    ", ".intercalate (l.attributes.map Attribute.debug) ++ "] \x7d"

namespace Nodes

variable {ι : Type}

/-- The markup of a row; `raw` if it is the content of an element with raw content. -/
def writeWith (raw : Bool) : Nodes ι → String
  | nil => ""
  | text s rest => (if raw then s else escapeText s) ++ rest.writeWith raw
  | comment s rest => "<!--" ++ s ++ "-->" ++ rest.writeWith raw
  | branch _ .document below rest => below.writeWith false ++ rest.writeWith raw
  | branch _ (.element tag attributes) below rest =>
    writeStartTag tag attributes ++
      (if voidTags.contains tag then ""
        else below.writeWith (rawTags.contains tag) ++ writeEndTag tag) ++
      rest.writeWith raw

def inner (l : Label) (below : Nodes ι) : String :=
  below.writeWith (rawTags.contains l.tag)

def outer (l : Label) (below : Nodes ι) : String :=
  (branch () l below.plain nil).writeWith false

end Nodes

end LivePage.Markup
