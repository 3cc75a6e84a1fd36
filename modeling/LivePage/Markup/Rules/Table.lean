import LivePage.Markup.Rules.Body

namespace LivePage.Markup.Builder

def isTableBodyContext (e : Open) : Bool := e.isIn ["tbody", "tfoot", "thead", "template", "html"]

def isRowContext (e : Open) : Bool := e.isIn ["tr", "template", "html"]

/-- Handles a token as in the body, with new nodes placed in front of the table. -/
def fosterInBody (b : Builder) (token : Token) : Builder × Bool :=
  let (b, retry) := { b with fostering := true }.inBody token
  ({ b with fostering := false }, retry)

def textInTable (b : Builder) (token : Token) : Builder × Bool :=
  if b.currentIs Open.isTablePart then { b with origin := b.phase }.again .inTableText
  else b.fosterInBody token

def leaveTable (b : Builder) : Builder := (b.popNamed "table").resetPhase

def startInTable (b : Builder) (tag : String) (attributes : List Attribute) (selfClosing : Bool) :
    Builder × Bool :=
  let inside := b.popTo Open.boundsTableScope
  if tag = "caption" then ((inside.addMarker.insertHtml tag attributes).enter .inCaption).done
  else if tag = "colgroup" then ((inside.insertHtml tag attributes).enter .inColumnGroup).done
  else if tag = "col" then (inside.insertHtml "colgroup" []).again .inColumnGroup
  else if ["tbody", "tfoot", "thead"].contains tag then
    ((inside.insertHtml tag attributes).enter .inTableBody).done
  else if ["td", "th", "tr"].contains tag then (inside.insertHtml "tbody" []).again .inTableBody
  else if tag = "table" then
    if b.inScopeNamed Open.boundsTableScope "table" then (b.leaveTable, true) else b.done
  else if ["style", "script", "template"].contains tag then (b.startInHead tag attributes).done
  else if tag = "input" ∧ isHidden attributes then (b.insertVoid tag attributes).done
  else if tag = "form" then
    if b.hasOpen "template" || b.form.isSome then b.done
    else
      let (e, b) := b.openElement .html tag attributes
      ({ b with form := some e.id }.pop).done
  else b.fosterInBody (.startTag tag attributes selfClosing)

def inTable (b : Builder) : Token → Builder × Bool
  | .character c => b.textInTable (.character c)
  | .comment s => (b.addComment s).done
  | .startTag tag attributes selfClosing => b.startInTable tag attributes selfClosing
  | .endTag tag =>
    if tag = "table" then
      (if b.inScopeNamed Open.boundsTableScope "table" then b.leaveTable else b).done
    else if ["body", "caption", "col", "colgroup", "html", "tbody", "td", "tfoot", "th", "thead",
        "tr"].contains tag then b.done
    else if tag = "template" then b.closeTemplate.done
    else b.fosterInBody (.endTag tag)
  | .doctype _ => b.done
  | .finish => b.inBody .finish

/-- Places the collected text: in the table if it is blank, else in front of it. -/
def placePending (b : Builder) : Builder :=
  let text := b.pending.reverse
  let b := { b with pending := [] }
  if text.all isSpace then text.foldl addCharacter b
  else text.foldl (fun b c ↦ (b.fosterInBody (.character c)).1) b

def inTableText (b : Builder) : Token → Builder × Bool
  | .character c => (if c = '\x00' then b else { b with pending := c :: b.pending }).done
  | .doctype _ => b.done
  | _ => b.placePending.again b.origin

def captionEnders : List String :=
  ["caption", "col", "colgroup", "tbody", "td", "tfoot", "th", "thead", "tr"]

def closeCaption? (b : Builder) : Option Builder :=
  if b.inScopeNamed Open.boundsTableScope "caption" then
    some ((b.closeImplied.popNamed "caption").clearToMarker.enter .inTable)
  else none

def inCaption (b : Builder) : Token → Builder × Bool
  | .startTag tag attributes selfClosing =>
    if captionEnders.contains tag then
      match b.closeCaption? with
      | some b => (b, true)
      | none => b.done
    else b.inBody (.startTag tag attributes selfClosing)
  | .endTag tag =>
    if tag = "table" ∨ tag = "caption" then
      match b.closeCaption? with
      | some b => (b, tag = "table")
      | none => b.done
    else if ["body", "col", "colgroup", "html", "tbody", "td", "tfoot", "th", "thead",
        "tr"].contains tag then b.done
    else b.inBody (.endTag tag)
  | token => b.inBody token

def leaveColumnGroup (b : Builder) : Builder × Bool :=
  if b.currentNamed "colgroup" then b.pop.again .inTable else b.done

def inColumnGroup (b : Builder) : Token → Builder × Bool
  | .character c => if isSpace c then (b.addCharacter c).done else b.leaveColumnGroup
  | .comment s => (b.addComment s).done
  | .startTag tag attributes _ =>
    if tag = "html" then (b.mergeRoot attributes).done
    else if tag = "col" then (b.insertVoid tag attributes).done
    else if tag = "template" then (b.startInHead tag attributes).done
    else b.leaveColumnGroup
  | .endTag tag =>
    if tag = "colgroup" then
      (if b.currentNamed "colgroup" then b.pop.enter .inTable else b).done
    else if tag = "col" then b.done
    else if tag = "template" then b.closeTemplate.done
    else b.leaveColumnGroup
  | .doctype _ => b.done
  | .finish => b.inBody .finish

def leaveTableBody (b : Builder) : Builder × Bool :=
  if b.inScope Open.boundsTableScope (·.isIn ["table", "tbody", "tfoot"]) then
    (b.popTo isTableBodyContext).pop.again .inTable
  else b.done

def inTableBody (b : Builder) : Token → Builder × Bool
  | .startTag tag attributes selfClosing =>
    if tag = "tr" then
      (((b.popTo isTableBodyContext).insertHtml tag attributes).enter .inRow).done
    else if tag = "th" ∨ tag = "td" then
      ((b.popTo isTableBodyContext).insertHtml "tr" []).again .inRow
    else if ["caption", "col", "colgroup", "tbody", "tfoot", "thead"].contains tag then
      b.leaveTableBody
    else b.inTable (.startTag tag attributes selfClosing)
  | .endTag tag =>
    if ["tbody", "tfoot", "thead"].contains tag then
      (if b.inScopeNamed Open.boundsTableScope tag then
        (b.popTo isTableBodyContext).pop.enter .inTable else b).done
    else if tag = "table" then b.leaveTableBody
    else if ["body", "caption", "col", "colgroup", "html", "td", "th", "tr"].contains tag then
      b.done
    else b.inTable (.endTag tag)
  | token => b.inTable token

def leaveRow (b : Builder) : Builder := (b.popTo isRowContext).pop.enter .inTableBody

def hasRow (b : Builder) : Bool := b.inScopeNamed Open.boundsTableScope "tr"

def inRow (b : Builder) : Token → Builder × Bool
  | .startTag tag attributes selfClosing =>
    if tag = "th" ∨ tag = "td" then
      (((b.popTo isRowContext).insertHtml tag attributes).enter .inCell).addMarker.done
    else if ["caption", "col", "colgroup", "tbody", "tfoot", "thead", "tr"].contains tag then
      if b.hasRow then (b.leaveRow, true) else b.done
    else b.inTable (.startTag tag attributes selfClosing)
  | .endTag tag =>
    if tag = "tr" then (if b.hasRow then b.leaveRow else b).done
    else if tag = "table" then if b.hasRow then (b.leaveRow, true) else b.done
    else if ["tbody", "tfoot", "thead"].contains tag then
      if b.inScopeNamed Open.boundsTableScope tag && b.hasRow then (b.leaveRow, true) else b.done
    else if ["body", "caption", "col", "colgroup", "html", "td", "th"].contains tag then b.done
    else b.inTable (.endTag tag)
  | token => b.inTable token

def isCell (e : Open) : Bool := e.isIn ["td", "th"]

def closeCell (b : Builder) : Builder :=
  (b.closeImplied.popThrough isCell).clearToMarker.enter .inRow

def inCell (b : Builder) : Token → Builder × Bool
  | .startTag tag attributes selfClosing =>
    if captionEnders.contains tag then
      if b.inScope Open.boundsTableScope isCell then (b.closeCell, true) else b.done
    else b.inBody (.startTag tag attributes selfClosing)
  | .endTag tag =>
    if tag = "td" ∨ tag = "th" then
      (if b.inScopeNamed Open.boundsTableScope tag then
        (b.closeImplied.popNamed tag).clearToMarker.enter .inRow else b).done
    else if ["body", "caption", "col", "colgroup", "html"].contains tag then b.done
    else if ["table", "tbody", "tfoot", "thead", "tr"].contains tag then
      if b.inScopeNamed Open.boundsTableScope tag then (b.closeCell, true) else b.done
    else b.inBody (.endTag tag)
  | token => b.inBody token

end LivePage.Markup.Builder
