import LivePage.Markup.Rules.Head

namespace LivePage.Markup.Builder

def blockTags : List String :=
  ["address", "article", "aside", "blockquote", "center", "details", "dialog", "dir", "div", "dl",
    "fieldset", "figcaption", "figure", "footer", "header", "hgroup", "main", "menu", "nav", "ol",
    "p", "search", "section", "summary", "ul"]

def blockEndTags : List String :=
  ["address", "article", "aside", "blockquote", "button", "center", "details", "dialog", "dir",
    "div", "dl", "fieldset", "figcaption", "figure", "footer", "header", "hgroup", "listing",
    "main", "menu", "nav", "ol", "pre", "search", "section", "summary", "ul"]

def formattingTags : List String :=
  ["b", "big", "code", "em", "font", "i", "s", "small", "strike", "strong", "tt", "u"]

def formattingEndTags : List String := "a" :: "nobr" :: formattingTags

def objectTags : List String := ["applet", "marquee", "object"]

def strayTags : List String :=
  ["caption", "col", "colgroup", "frame", "head", "tbody", "td", "tfoot", "th", "thead", "tr"]

def isHidden (attributes : List Attribute) : Bool :=
  match attributes.find? (·.name = "type") with
  | some a => Text.lower a.value = "hidden"
  | none => false

def noFrameset (b : Builder) : Builder := { b with framesetAllowed := false }

def closeItem (b : Builder) (closing : List String) : Builder :=
  let stops := fun (e : Open) ↦ e.isIn closing || (e.isSpecial && !e.isIn ["address", "div", "p"])
  match b.opened.find? stops with
  | some e => if e.isIn closing then (b.closeImpliedExcept e.tag).popNamed e.tag else b
  | none => b

/-- The attributes of foreign elements that have a prefix lose it. -/
def foreignName (name : String) : String :=
  if name.startsWith "xlink:" then
    let rest := String.ofList (name.toList.drop 6)
    if ["actuate", "arcrole", "href", "role", "show", "title", "type"].contains rest then rest
    else name
  else if name = "xml:lang" then "lang"
  else if name = "xml:space" then "space"
  else if name = "xmlns:xlink" then "xlink"
  else name

def insertForeign (b : Builder) (vocabulary : Vocabulary) (tag : String)
    (attributes : List Attribute) (selfClosing : Bool) : Builder :=
  let attributes := attributes.map fun a ↦ { a with name := foreignName a.name }
  let b := b.insertElement vocabulary tag attributes
  if selfClosing then b.pop else b

def bodyId? (b : Builder) : Option Nat :=
  match b.opened.reverse with
  | _ :: e :: _ => if e.isNamed "body" then some e.id else none
  | _ => none

def openForm (b : Builder) (attributes : List Attribute) : Builder :=
  let inTemplate := b.hasOpen "template"
  if b.form.isSome && !inTemplate then b
  else
    let (e, b) := b.closeOpenParagraph.openElement .html "form" attributes
    if inTemplate then b else { b with form := some e.id }

def closeForm (b : Builder) : Builder :=
  if b.hasOpen "template" then
    if b.inScopeNamed Open.boundsScope "form" then b.closeImplied.popNamed "form" else b
  else match b.form with
    | none => b
    | some id =>
      let b := { b with form := none }
      if b.inScope Open.boundsScope (·.id = id) then b.closeImplied.removeOpen id else b

def openFrameset (b : Builder) (attributes : List Attribute) : Builder :=
  if !b.framesetAllowed then b
  else match b.bodyId? with
    | none => b
    | some id =>
      let b := { b with tree := b.tree.erase id, opened := b.opened.drop (b.opened.length - 1) }
      (b.insertHtml "frameset" attributes).enter .inFrameset

def openSelect (b : Builder) (attributes : List Attribute) : Builder :=
  let inTable := [Phase.inTable, .inCaption, .inTableBody, .inRow, .inCell].contains b.phase
  (b.reconstruct.insertHtml "select" attributes).noFrameset.enter
    (if inTable then .inSelectInTable else .inSelect)

def openTable (b : Builder) (attributes : List Attribute) : Builder :=
  let b := if b.legacy then b else b.closeOpenParagraph
  (b.insertHtml "table" attributes).noFrameset.enter .inTable

def openButton (b : Builder) (attributes : List Attribute) : Builder :=
  let b := if b.inScopeNamed Open.boundsScope "button" then b.closeImplied.popNamed "button" else b
  (b.reconstruct.insertHtml "button" attributes).noFrameset

def openNobr (b : Builder) (attributes : List Attribute) : Builder :=
  let b := b.reconstruct
  let b := if b.inScopeNamed Open.boundsScope "nobr" then (b.adopt "nobr").reconstruct else b
  b.insertFormatting "nobr" attributes

def inlineVoid (b : Builder) (tag : String) (attributes : List Attribute) : Builder :=
  let b' := b.reconstruct.insertVoid tag attributes
  if tag = "input" && isHidden attributes then b' else b'.noFrameset

def startInBody (b : Builder) (tag : String) (attributes : List Attribute) (selfClosing : Bool) :
    Builder :=
  if tag = "html" then b.mergeRoot attributes
  else if headTags.contains tag then b.startInHead tag attributes
  else if tag = "body" then
    match b.bodyId? with
    | some id => if b.hasOpen "template" then b else b.noFrameset.addMissing id attributes
    | none => b
  else if tag = "frameset" then b.openFrameset attributes
  else if blockTags.contains tag then b.closeOpenParagraph.insertHtml tag attributes
  else if Open.headingTags.contains tag then
    let b := b.closeOpenParagraph
    (if b.currentIs Open.isHeading then b.pop else b).insertHtml tag attributes
  else if tag = "pre" ∨ tag = "listing" then
    { (b.closeOpenParagraph.insertHtml tag attributes).noFrameset with dropsNewline := true }
  else if tag = "form" then b.openForm attributes
  else if tag = "li" then
    (b.noFrameset.closeItem ["li"]).closeOpenParagraph.insertHtml tag attributes
  else if tag = "dd" ∨ tag = "dt" then
    (b.noFrameset.closeItem ["dd", "dt"]).closeOpenParagraph.insertHtml tag attributes
  else if tag = "plaintext" then
    { b.closeOpenParagraph.insertHtml tag attributes with reading := .plain }
  else if tag = "button" then b.openButton attributes
  else if tag = "a" then b.closeAnchor.reconstruct.insertFormatting tag attributes
  else if formattingTags.contains tag then b.reconstruct.insertFormatting tag attributes
  else if tag = "nobr" then b.openNobr attributes
  else if objectTags.contains tag then
    ((b.reconstruct.insertHtml tag attributes).addMarker).noFrameset
  else if tag = "table" then b.openTable attributes
  else if ["area", "br", "embed", "img", "keygen", "wbr", "input"].contains tag then
    b.inlineVoid tag attributes
  else if tag = "image" then b.inlineVoid "img" attributes
  else if ["param", "source", "track"].contains tag then b.insertVoid tag attributes
  else if tag = "hr" then (b.closeOpenParagraph.insertVoid tag attributes).noFrameset
  else if tag = "textarea" then
    { (b.noFrameset.insertHtml tag attributes).readContent .references with dropsNewline := true }
  else if tag = "xmp" then
    (b.closeOpenParagraph.reconstruct.noFrameset.insertHtml tag attributes).readContent .raw
  else if tag = "iframe" then (b.noFrameset.insertHtml tag attributes).readContent .raw
  else if tag = "noembed" ∨ tag = "noscript" then
    (b.insertHtml tag attributes).readContent .raw
  else if tag = "select" then b.openSelect attributes
  else if tag = "optgroup" ∨ tag = "option" then
    (if b.currentNamed "option" then b.pop else b).reconstruct.insertHtml tag attributes
  else if tag = "rb" ∨ tag = "rtc" then
    (if b.inScopeNamed Open.boundsScope "ruby" then b.closeImplied else b).insertHtml tag attributes
  else if tag = "rp" ∨ tag = "rt" then
    (if b.inScopeNamed Open.boundsScope "ruby" then b.closeImpliedExcept "rtc" else b).insertHtml
      tag attributes
  else if tag = "math" then b.reconstruct.insertForeign .mathml tag attributes selfClosing
  else if tag = "svg" then b.reconstruct.insertForeign .svg tag attributes selfClosing
  else if strayTags.contains tag then b
  else b.reconstruct.insertHtml tag attributes

def endInBody (b : Builder) (tag : String) : Builder × Bool :=
  if tag = "template" then b.closeTemplate.done
  else if tag = "body" then
    (if b.inScopeNamed Open.boundsScope "body" then b.enter .afterBody else b).done
  else if tag = "html" then
    if b.inScopeNamed Open.boundsScope "body" then b.again .afterBody else b.done
  else if blockEndTags.contains tag then
    (if b.inScopeNamed Open.boundsScope tag then b.closeImplied.popNamed tag else b).done
  else if tag = "form" then b.closeForm.done
  else if tag = "p" then
    let b := if b.inScopeNamed Open.boundsButtonScope "p" then b else b.insertHtml "p" []
    b.closeParagraph.done
  else if tag = "li" then
    (if b.inScopeNamed Open.boundsItemScope tag then (b.closeImpliedExcept tag).popNamed tag
      else b).done
  else if tag = "dd" ∨ tag = "dt" then
    (if b.inScopeNamed Open.boundsScope tag then (b.closeImpliedExcept tag).popNamed tag
      else b).done
  else if Open.headingTags.contains tag then
    (if b.inScope Open.boundsScope Open.isHeading then b.closeImplied.popThrough Open.isHeading
      else b).done
  else if formattingEndTags.contains tag then (b.adopt tag).done
  else if objectTags.contains tag then
    (if b.inScopeNamed Open.boundsScope tag then (b.closeImplied.popNamed tag).clearToMarker
      else b).done
  else if tag = "br" then (b.inlineVoid "br" []).done
  else (b.closeGeneric tag).done

def characterInBody (b : Builder) (c : Char) : Builder :=
  if c = '\x00' then b
  else
    let b := b.reconstruct
    (if isSpace c then b else b.noFrameset).addCharacter c

def inBody (b : Builder) : Token → Builder × Bool
  | .character c => (b.characterInBody c).done
  | .comment s => (b.addComment s).done
  | .startTag tag attributes selfClosing => (b.startInBody tag attributes selfClosing).done
  | .endTag tag => b.endInBody tag
  | .doctype _ => b.done
  | .finish => if b.templates = [] then b.done else b.finishInTemplate

def inContent (b : Builder) : Token → Builder × Bool
  | .character c => (b.addCharacter c).done
  | .endTag _ => (b.pop.enter b.origin).done
  | .finish => b.pop.again b.origin
  | _ => b.done

def inTemplate (b : Builder) : Token → Builder × Bool
  | .startTag tag attributes _ =>
    if headTags.contains tag then (b.startInHead tag attributes).done
    else
      let phase : Phase :=
        if ["caption", "colgroup", "tbody", "tfoot", "thead"].contains tag then .inTable
        else if tag = "col" then .inColumnGroup
        else if tag = "tr" then .inTableBody
        else if tag = "td" ∨ tag = "th" then .inRow
        else .inBody
      { b with templates := phase :: b.templates.drop 1 }.again phase
  | .endTag tag => if tag = "template" then b.closeTemplate.done else b.done
  | .finish => b.finishInTemplate
  | token => b.inBody token

def inAfterBody (b : Builder) : Token → Builder × Bool
  | .character c => if isSpace c then (b.characterInBody c).done else b.again .inBody
  | .comment s => (b.addCommentTo b.rootId s).done
  | .startTag tag attributes _ =>
    if tag = "html" then (b.mergeRoot attributes).done else b.again .inBody
  | .endTag tag =>
    if tag = "html" then (if b.context.isSome then b else b.enter .afterAfterBody).done
    else b.again .inBody
  | .doctype _ => b.done
  | .finish => b.done

def inAfterAfterBody (b : Builder) : Token → Builder × Bool
  | .character c => if isSpace c then (b.characterInBody c).done else b.again .inBody
  | .comment s => (b.addCommentTo documentId s).done
  | .startTag tag attributes _ =>
    if tag = "html" then (b.mergeRoot attributes).done else b.again .inBody
  | .endTag _ => b.again .inBody
  | .doctype _ => b.done
  | .finish => b.done

end LivePage.Markup.Builder
