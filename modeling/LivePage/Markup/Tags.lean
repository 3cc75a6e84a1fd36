import LivePage.Markup.Nodes

namespace LivePage.Markup

inductive Vocabulary
  | html
  | svg
  | mathml
deriving DecidableEq, Repr

/-- An element that is still open. `embeds` marks a MathML annotation that holds HTML. -/
structure Open where
  id : Nat
  vocabulary : Vocabulary
  tag : String
  embeds : Bool
deriving DecidableEq, Repr

namespace Open

variable (e : Open)

def isHtml : Bool := e.vocabulary = .html

def isNamed (tag : String) : Bool := e.isHtml && e.tag = tag

def isIn (tags : List String) : Bool := e.isHtml && tags.contains e.tag

/-- MathML elements that hold text and HTML. -/
def holdsMathText : Bool :=
  e.vocabulary = .mathml && ["mi", "mo", "mn", "ms", "mtext"].contains e.tag

/-- SVG elements that hold HTML. -/
def holdsHtml : Bool :=
  e.vocabulary = .svg && ["foreignobject", "desc", "title"].contains e.tag

/-- The elements that bound the search for an open element. -/
def boundsScope : Bool :=
  e.isIn ["applet", "caption", "html", "table", "td", "th", "marquee", "object", "template"] ||
    e.holdsMathText || e.holdsHtml

def boundsItemScope : Bool := e.boundsScope || e.isIn ["ol", "ul"]

def boundsButtonScope : Bool := e.boundsScope || e.isNamed "button"

def boundsTableScope : Bool := e.isIn ["html", "table", "template"]

def boundsSelectScope : Bool := !e.isIn ["optgroup", "option"]

def isImplied : Bool :=
  e.isIn ["dd", "dt", "li", "option", "optgroup", "p", "rb", "rp", "rt", "rtc"]

def isImpliedInTemplate : Bool :=
  e.isImplied || e.isIn ["caption", "colgroup", "tbody", "td", "tfoot", "th", "thead", "tr"]

def headingTags : List String := ["h1", "h2", "h3", "h4", "h5", "h6"]

def isHeading : Bool := e.isIn headingTags

/-- Elements that a stray end tag does not reach through. -/
def isSpecial : Bool :=
  e.isIn ["address", "applet", "area", "article", "aside", "base", "basefont", "bgsound",
    "blockquote", "body", "br", "button", "caption", "center", "col", "colgroup", "dd", "details",
    "dir", "div", "dl", "dt", "embed", "fieldset", "figcaption", "figure", "footer", "form",
    "frame", "frameset", "h1", "h2", "h3", "h4", "h5", "h6", "head", "header", "hgroup", "hr",
    "html", "iframe", "img", "input", "isindex", "keygen", "li", "link", "listing", "main",
    "marquee", "menu", "meta", "nav", "noembed", "noframes", "noscript", "object", "ol", "p",
    "param", "plaintext", "pre", "script", "search", "section", "select", "source", "style",
    "summary", "table", "tbody", "td", "template", "textarea", "tfoot", "th", "thead", "title",
    "tr", "track", "ul", "wbr", "xmp"]

def isTablePart : Bool := e.isIn ["table", "tbody", "tfoot", "thead", "tr"]

end Open

/-- An entry of the list of formatting elements: a marker that bounds it, or an element with the
attributes of its tag. -/
inductive Formatting
  | marker
  | element (id : Nat) (tag : String) (attributes : List Attribute)
deriving DecidableEq, Repr

inductive Phase
  | initial
  | beforeHtml
  | beforeHead
  | inHead
  | afterHead
  | inBody
  | inContent
  | inTable
  | inTableText
  | inCaption
  | inColumnGroup
  | inTableBody
  | inRow
  | inCell
  | inSelect
  | inSelectInTable
  | inTemplate
  | afterBody
  | inFrameset
  | afterFrameset
  | afterAfterBody
  | afterAfterFrameset
deriving DecidableEq, Repr

end LivePage.Markup
