import LivePage.Markup.Adoption

namespace LivePage.Markup.Builder

def done (b : Builder) : Builder × Bool := (b, false)

def again (b : Builder) (phase : Phase) : Builder × Bool := (b.enter phase, true)

def isSpace (c : Char) : Bool :=
  c = ' ' || c = '\t' || c = '\n' || c = '\x0c' || c = '\r'

def headTags : List String :=
  ["base", "basefont", "bgsound", "link", "meta", "noframes", "script", "style", "template",
    "title"]

/-- A second start tag of the page adds attributes to the first. -/
def mergeRoot (b : Builder) (attributes : List Attribute) : Builder :=
  if b.hasOpen "template" then b else b.addMissing b.rootId attributes

def inInitial (b : Builder) : Token → Builder × Bool
  | .character c => if isSpace c then b.done else { b with legacy := true }.again .beforeHtml
  | .comment s => (b.addCommentTo documentId s).done
  | .doctype legacy => ({ b with legacy }.enter .beforeHtml).done
  | _ => { b with legacy := true }.again .beforeHtml

def implyingEndTags : List String := ["head", "body", "html", "br"]

def inBeforeHtml (b : Builder) : Token → Builder × Bool
  | .character c => if isSpace c then b.done else (b.createRoot []).again .beforeHead
  | .comment s => (b.addCommentTo documentId s).done
  | .startTag tag attributes _ =>
    if tag = "html" then ((b.createRoot attributes).enter .beforeHead).done
    else (b.createRoot []).again .beforeHead
  | .endTag tag =>
    if implyingEndTags.contains tag then (b.createRoot []).again .beforeHead else b.done
  | .doctype _ => b.done
  | .finish => (b.createRoot []).again .beforeHead

def openHead (b : Builder) (attributes : List Attribute) : Builder :=
  let (e, b) := b.openElement .html "head" attributes
  { b with hasHead := some e, phase := .inHead }

def inBeforeHead (b : Builder) : Token → Builder × Bool
  | .character c => if isSpace c then b.done else (b.openHead []).again .inHead
  | .comment s => (b.addComment s).done
  | .startTag tag attributes _ =>
    if tag = "html" then (b.mergeRoot attributes).done
    else if tag = "head" then (b.openHead attributes).done
    else (b.openHead []).again .inHead
  | .endTag tag => if implyingEndTags.contains tag then (b.openHead []).again .inHead else b.done
  | .doctype _ => b.done
  | .finish => (b.openHead []).again .inHead

def openTemplate (b : Builder) (attributes : List Attribute) : Builder :=
  let b := (b.insertHtml "template" attributes).addMarker
  { b with framesetAllowed := false, phase := .inTemplate, templates := .inTemplate :: b.templates }

def leaveTemplate (b : Builder) : Builder :=
  let b := b.clearToMarker
  { b with templates := b.templates.drop 1 }.resetPhase

def closeTemplate (b : Builder) : Builder :=
  if b.hasOpen "template" then (b.closeImpliedInTemplate.popNamed "template").leaveTemplate else b

def startInHead (b : Builder) (tag : String) (attributes : List Attribute) : Builder :=
  if tag = "title" then (b.insertHtml tag attributes).readContent .references
  else if tag = "noframes" ∨ tag = "style" then (b.insertHtml tag attributes).readContent .raw
  else if tag = "script" then (b.insertHtml tag attributes).readContent .script
  else if tag = "template" then b.openTemplate attributes
  else b.insertVoid tag attributes

def inHead (b : Builder) : Token → Builder × Bool
  | .character c => if isSpace c then (b.addCharacter c).done else b.pop.again .afterHead
  | .comment s => (b.addComment s).done
  | .startTag tag attributes _ =>
    if tag = "html" then (b.mergeRoot attributes).done
    else if tag = "noscript" then ((b.insertHtml tag attributes).readContent .raw).done
    else if headTags.contains tag then (b.startInHead tag attributes).done
    else if tag = "head" then b.done
    else b.pop.again .afterHead
  | .endTag tag =>
    if tag = "head" then (b.pop.enter .afterHead).done
    else if tag = "template" then b.closeTemplate.done
    else if implyingEndTags.contains tag then b.pop.again .afterHead
    else b.done
  | .doctype _ => b.done
  | .finish => b.pop.again .afterHead

/-- Handles a start tag of the head after the head has ended, as if it were still open. -/
def startAfterHead (b : Builder) (tag : String) (attributes : List Attribute) : Builder :=
  match b.hasHead with
  | none => b.startInHead tag attributes
  | some head =>
    ({ b with opened := head :: b.opened }.startInHead tag attributes).removeOpen head.id

def inAfterHead (b : Builder) : Token → Builder × Bool
  | .character c =>
    if isSpace c then (b.addCharacter c).done else (b.insertHtml "body" []).again .inBody
  | .comment s => (b.addComment s).done
  | .startTag tag attributes _ =>
    if tag = "html" then (b.mergeRoot attributes).done
    else if tag = "body" then
      ({ b.insertHtml tag attributes with framesetAllowed := false }.enter .inBody).done
    else if tag = "frameset" then ((b.insertHtml tag attributes).enter .inFrameset).done
    else if headTags.contains tag then (b.startAfterHead tag attributes).done
    else if tag = "head" then b.done
    else (b.insertHtml "body" []).again .inBody
  | .endTag tag =>
    if tag = "template" then b.closeTemplate.done
    else if ["body", "html", "br"].contains tag then (b.insertHtml "body" []).again .inBody
    else b.done
  | .doctype _ => b.done
  | .finish => (b.insertHtml "body" []).again .inBody

def finishInTemplate (b : Builder) : Builder × Bool :=
  if b.hasOpen "template" then ((b.popNamed "template").leaveTemplate, true) else b.done

end LivePage.Markup.Builder
