import LivePage.Markup.Rules.Select

namespace LivePage.Markup.Builder

def inPhase (b : Builder) (token : Token) : Builder × Bool :=
  match b.phase with
  | .initial => b.inInitial token
  | .beforeHtml => b.inBeforeHtml token
  | .beforeHead => b.inBeforeHead token
  | .inHead => b.inHead token
  | .afterHead => b.inAfterHead token
  | .inBody => b.inBody token
  | .inContent => b.inContent token
  | .inTable => b.inTable token
  | .inTableText => b.inTableText token
  | .inCaption => b.inCaption token
  | .inColumnGroup => b.inColumnGroup token
  | .inTableBody => b.inTableBody token
  | .inRow => b.inRow token
  | .inCell => b.inCell token
  | .inSelect => b.inSelect token
  | .inSelectInTable => b.inSelectInTable token
  | .inTemplate => b.inTemplate token
  | .afterBody => b.inAfterBody token
  | .inFrameset => b.inFrameset token
  | .afterFrameset => b.inAfterFrameset token
  | .afterAfterBody => b.inAfterAfterBody token
  | .afterAfterFrameset => b.inAfterAfterFrameset token

def breakingTags : List String :=
  ["b", "big", "blockquote", "body", "br", "center", "code", "dd", "div", "dl", "dt", "em",
    "embed", "h1", "h2", "h3", "h4", "h5", "h6", "head", "hr", "i", "img", "li", "listing", "menu",
    "meta", "nobr", "ol", "p", "pre", "ruby", "s", "small", "span", "strong", "strike", "sub",
    "sup", "table", "tt", "u", "ul", "var"]

def breaksForeign (tag : String) (attributes : List Attribute) : Bool :=
  breakingTags.contains tag ||
    (tag = "font" && attributes.any fun a ↦ ["color", "face", "size"].contains a.name)

def leaveForeign (b : Builder) (token : Token) : Builder × Bool :=
  (b.popTo fun e ↦ e.isHtml || e.holdsMathText || e.holdsHtml).inPhase token

/-- Where an end tag inside foreign elements leads: it closes a foreign element with its name, or
an HTML element around it takes it. The outermost element is never closed. -/
def endInForeign (b : Builder) (tag : String) : Bool → List Open → Builder × Bool
  | _, [] => b.done
  | _, [_] => b.done
  | first, e :: outer =>
    if !first && e.isHtml then b.inPhase (.endTag tag)
    else if Text.lower e.tag = tag then { b with opened := outer }.done
    else endInForeign b tag false outer

def inForeignContent (b : Builder) : Token → Builder × Bool
  | .character c =>
    if c = '\x00' then (b.addCharacter '\ufffd').done
    else ((if isSpace c then b else b.noFrameset).addCharacter c).done
  | .comment s => (b.addComment s).done
  | .startTag tag attributes selfClosing =>
    if breaksForeign tag attributes then b.leaveForeign (.startTag tag attributes selfClosing)
    else
      let vocabulary := (b.opened.head?.map (·.vocabulary)).getD .html
      (b.insertForeign vocabulary tag attributes selfClosing).done
  | .endTag tag =>
    if tag = "br" ∨ tag = "p" then b.leaveForeign (.endTag tag)
    else b.endInForeign tag true b.opened
  | _ => b.done

def isForeign (b : Builder) (token : Token) : Bool :=
  match b.opened.head?, token with
  | none, _ => false
  | _, .finish => false
  | some e, .character _ => !(e.isHtml || e.holdsMathText || e.holdsHtml || e.embeds)
  | some e, .startTag tag _ _ =>
    !(e.isHtml || (e.holdsMathText && tag ≠ "mglyph" && tag ≠ "malignmark") || e.holdsHtml ||
      (e.vocabulary = .mathml && e.tag = "annotation-xml" && (tag = "svg" || e.embeds)))
  | some e, _ => !e.isHtml

def handleOnce (b : Builder) (token : Token) : Builder × Bool :=
  if b.isForeign token then b.inForeignContent token else b.inPhase token

/-- Handles a token until no rule hands it on, at most `fuel` times. -/
def handle (token : Token) : Nat → Builder → Builder
  | 0, b => b
  | fuel + 1, b =>
    let (b, retry) := b.handleOnce token
    if retry then handle token fuel b else b

/-- Rules hand a token on only to later phases or after closing an element. -/
def handleFuel (b : Builder) : Nat := 4 * b.opened.length + 2 * b.templates.length + 20

/-- Takes in a token. A newline right after the start of preformatted text is dropped. -/
def take (b : Builder) (token : Token) : Builder :=
  let drops := b.dropsNewline && token = .character '\n'
  let b := { b with dropsNewline := false }
  if drops then b else handle token b.handleFuel b

end LivePage.Markup.Builder
