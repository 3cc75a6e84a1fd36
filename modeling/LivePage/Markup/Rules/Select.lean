import LivePage.Markup.Rules.Table

namespace LivePage.Markup.Builder

def popIfCurrent (b : Builder) (tag : String) : Builder :=
  if b.currentNamed tag then b.pop else b

def leaveSelect (b : Builder) : Builder := (b.popNamed "select").resetPhase

def hasSelect (b : Builder) : Bool := b.inScopeNamed Open.boundsSelectScope "select"

def startInSelect (b : Builder) (tag : String) (attributes : List Attribute) : Builder × Bool :=
  if tag = "html" then (b.mergeRoot attributes).done
  else if tag = "option" then ((b.popIfCurrent "option").insertHtml tag attributes).done
  else if tag = "optgroup" then
    (((b.popIfCurrent "option").popIfCurrent "optgroup").insertHtml tag attributes).done
  else if tag = "hr" then
    (((b.popIfCurrent "option").popIfCurrent "optgroup").insertVoid tag attributes).done
  else if tag = "select" then (if b.hasSelect then b.leaveSelect else b).done
  else if ["input", "keygen", "textarea"].contains tag then
    if b.hasSelect then (b.leaveSelect, true) else b.done
  else if tag = "script" ∨ tag = "template" then (b.startInHead tag attributes).done
  else b.done

def closeGroup (b : Builder) : Builder :=
  let b := match b.opened with
    | e :: outer :: _ => if e.isNamed "option" && outer.isNamed "optgroup" then b.pop else b
    | _ => b
  b.popIfCurrent "optgroup"

def inSelect (b : Builder) : Token → Builder × Bool
  | .character c => (if c = '\x00' then b else b.addCharacter c).done
  | .comment s => (b.addComment s).done
  | .startTag tag attributes _ => b.startInSelect tag attributes
  | .endTag tag =>
    if tag = "optgroup" then b.closeGroup.done
    else if tag = "option" then (b.popIfCurrent "option").done
    else if tag = "select" then (if b.hasSelect then b.leaveSelect else b).done
    else if tag = "template" then b.closeTemplate.done
    else b.done
  | .doctype _ => b.done
  | .finish => b.inBody .finish

def selectEnders : List String :=
  ["caption", "table", "tbody", "tfoot", "thead", "tr", "td", "th"]

def inSelectInTable (b : Builder) : Token → Builder × Bool
  | .startTag tag attributes selfClosing =>
    if selectEnders.contains tag then (b.leaveSelect, true)
    else b.inSelect (.startTag tag attributes selfClosing)
  | .endTag tag =>
    if selectEnders.contains tag then
      if b.inScopeNamed Open.boundsTableScope tag then (b.leaveSelect, true) else b.done
    else b.inSelect (.endTag tag)
  | token => b.inSelect token

def inFrameset (b : Builder) : Token → Builder × Bool
  | .character c => (if isSpace c then b.addCharacter c else b).done
  | .comment s => (b.addComment s).done
  | .startTag tag attributes _ =>
    if tag = "html" then (b.mergeRoot attributes).done
    else if tag = "frameset" then (b.insertHtml tag attributes).done
    else if tag = "frame" then (b.insertVoid tag attributes).done
    else if tag = "noframes" then (b.startInHead tag attributes).done
    else b.done
  | .endTag tag =>
    if tag = "frameset" ∧ b.opened.length ≠ 1 then
      let b := b.pop
      (if b.context.isNone && !b.currentNamed "frameset" then b.enter .afterFrameset else b).done
    else b.done
  | .doctype _ => b.done
  | .finish => b.done

def inAfterFrameset (b : Builder) : Token → Builder × Bool
  | .character c => (if isSpace c then b.addCharacter c else b).done
  | .comment s => (b.addComment s).done
  | .startTag tag attributes _ =>
    if tag = "html" then (b.mergeRoot attributes).done
    else if tag = "noframes" then (b.startInHead tag attributes).done
    else b.done
  | .endTag tag => (if tag = "html" then b.enter .afterAfterFrameset else b).done
  | .doctype _ => b.done
  | .finish => b.done

def inAfterAfterFrameset (b : Builder) : Token → Builder × Bool
  | .character c => (if isSpace c then b.characterInBody c else b).done
  | .comment s => (b.addCommentTo documentId s).done
  | .startTag tag attributes _ =>
    if tag = "html" then (b.mergeRoot attributes).done
    else if tag = "noframes" then (b.startInHead tag attributes).done
    else b.done
  | _ => b.done

end LivePage.Markup.Builder
