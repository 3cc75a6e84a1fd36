import LivePage.Markup.Edit
import LivePage.Markup.Tags
import LivePage.Markup.Token

namespace LivePage.Markup

/-- The state of building. The lists of open elements and of formatting have the newest first. -/
structure Builder where
  tree : Nodes Nat
  next : Nat
  opened : List Open
  formatting : List Formatting
  phase : Phase
  origin : Phase
  templates : List Phase
  reading : Reading
  legacy : Bool
  hasHead : Option Open
  form : Option Nat
  framesetAllowed : Bool
  dropsNewline : Bool
  fostering : Bool
  context : Option String
  pending : List Char

namespace Builder

def documentId : Nat := 0

def initial (context : Option String) : Builder where
  tree := .branch documentId .document .nil .nil
  next := 1
  opened := []
  formatting := []
  phase := .initial
  origin := .initial
  templates := []
  reading := .markup
  legacy := false
  hasHead := none
  form := none
  framesetAllowed := true
  dropsNewline := false
  fostering := false
  context := context
  pending := []

variable (b : Builder)

def currentIs (p : Open → Bool) : Bool := b.opened.head?.any p

def currentNamed (tag : String) : Bool := b.currentIs (·.isNamed tag)

def hasOpen (tag : String) : Bool := b.opened.any (·.isNamed tag)

def inForeign : Bool := b.currentIs (!·.isHtml)

/-- Whether the innermost of the open elements that satisfies `p` comes before one that bounds the
search. -/
def inScope (bounds p : Open → Bool) : Bool :=
  match b.opened.find? fun e ↦ p e || bounds e with
  | some e => p e
  | none => false

def inScopeNamed (bounds : Open → Bool) (tag : String) : Bool := b.inScope bounds (·.isNamed tag)

def pop : Builder := { b with opened := b.opened.drop 1 }

def popThrough (p : Open → Bool) : Builder :=
  { b with opened := (b.opened.dropWhile (!p ·)).drop 1 }

def popNamed (tag : String) : Builder := b.popThrough (·.isNamed tag)

def popTo (p : Open → Bool) : Builder :=
  { b with opened := b.opened.dropWhile (!p ·) }

def closeImplied : Builder := { b with opened := b.opened.dropWhile (·.isImplied) }

def closeImpliedExcept (tag : String) : Builder :=
  { b with opened := b.opened.dropWhile fun e ↦ e.isImplied && !e.isNamed tag }

def closeImpliedInTemplate : Builder :=
  { b with opened := b.opened.dropWhile (·.isImpliedInTemplate) }

def removeOpen (id : Nat) : Builder := { b with opened := b.opened.eraseP (·.id = id) }

def closeParagraph : Builder := (b.closeImpliedExcept "p").popNamed "p"

def closeOpenParagraph : Builder :=
  if b.inScopeNamed Open.boundsButtonScope "p" then b.closeParagraph else b

/-- Where a new node goes: at the end of an element, or in front of a table; the element outside of
the table stands in if the table is not in the tree. -/
inductive Place
  | inside (id : Nat)
  | before (table outer : Nat)

def rootId : Nat := (b.opened.getLast?.map (·.id)).getD documentId

def fosterPlace : List Open → Place
  | [] => .inside b.rootId
  | e :: rest =>
    if e.isNamed "template" then .inside e.id
    else if e.isNamed "table" then .before e.id ((rest.head?.map (·.id)).getD b.rootId)
    else fosterPlace rest

def place (target : Open) : Place :=
  if b.fostering && target.isTablePart then b.fosterPlace b.opened else .inside target.id

def currentPlace : Place :=
  match b.opened.head? with
  | some e => b.place e
  | none => .inside documentId

def insertAt (row : Nodes Nat) : Place → Builder
  | .inside id => { b with tree := b.tree.updateBelow id (· ++ row) }
  | .before table outer =>
    if (b.tree.find? table).isSome then { b with tree := b.tree.insertBefore table row }
    else { b with tree := b.tree.updateBelow outer (· ++ row) }

def insertTextAt (s : String) : Place → Builder
  | .inside id => { b with tree := b.tree.updateBelow id (·.appendText s) }
  | .before table outer =>
    if (b.tree.find? table).isSome then { b with tree := b.tree.insertTextBefore table s }
    else { b with tree := b.tree.updateBelow outer (·.appendText s) }

def addCharacter (c : Char) : Builder := b.insertTextAt (String.singleton c) b.currentPlace

def addComment (s : String) : Builder := b.insertAt (.comment s .nil) b.currentPlace

def addCommentTo (id : Nat) (s : String) : Builder := b.insertAt (.comment s .nil) (.inside id)

def make (vocabulary : Vocabulary) (tag : String) (attributes : List Attribute) : Open × Builder :=
  let embeds := vocabulary = .mathml && tag = "annotation-xml" && attributes.any fun a ↦
    a.name = "encoding" && ["text/html", "application/xhtml+xml"].contains (Text.lower a.value)
  (⟨b.next, vocabulary, tag, embeds⟩, { b with next := b.next + 1 })

def openElement (vocabulary : Vocabulary) (tag : String) (attributes : List Attribute) :
    Open × Builder :=
  let (e, b) := b.make vocabulary tag attributes
  let b := b.insertAt (.branch e.id (.element tag attributes) .nil .nil) b.currentPlace
  (e, { b with opened := e :: b.opened })

def insertElement (vocabulary : Vocabulary) (tag : String) (attributes : List Attribute) :
    Builder :=
  (b.openElement vocabulary tag attributes).2

def insertHtml (tag : String) (attributes : List Attribute) : Builder :=
  b.insertElement .html tag attributes

def insertVoid (tag : String) (attributes : List Attribute) : Builder :=
  (b.insertHtml tag attributes).pop

def createRoot (attributes : List Attribute) : Builder :=
  let (e, b) := b.make .html "html" attributes
  let b := b.insertAt (.branch e.id (.element "html" attributes) .nil .nil) (.inside documentId)
  { b with opened := e :: b.opened }

def addMissing (id : Nat) (attributes : List Attribute) : Builder :=
  { b with tree := b.tree.relabel id fun
    | .document => .document
    | .element tag old =>
      .element tag (old ++ attributes.filter fun a ↦ !old.any (·.name = a.name)) }

def isOpen (id : Nat) : Bool := b.opened.any (·.id = id)

def recentFormatting : List Formatting := b.formatting.takeWhile (· ≠ .marker)

def addMarker : Builder := { b with formatting := .marker :: b.formatting }

def clearToMarker : Builder :=
  { b with formatting := (b.formatting.dropWhile (· ≠ .marker)).drop 1 }

def Formatting.hasId (id : Nat) : Formatting → Bool
  | .marker => false
  | .element i _ _ => i = id

def removeFormatting (id : Nat) : Builder :=
  { b with formatting := b.formatting.eraseP (Formatting.hasId id) }

def reopen (b : Builder) : List Formatting → List Formatting → List Formatting × Builder
  | done, [] => (done, b)
  | done, .marker :: rest => reopen b (.marker :: done) rest
  | done, .element _ tag attributes :: rest =>
    let (e, b) := b.openElement .html tag attributes
    reopen b (.element e.id tag attributes :: done) rest

/-- Opens again the newest formatting elements that are not open, back to a marker or one that
is. -/
def reconstruct : Builder :=
  let isClosed := fun
    | .marker => false
    | .element id _ _ => !b.isOpen id
  let (entries, b') := b.reopen [] (b.formatting.takeWhile isClosed).reverse
  { b' with formatting := entries ++ b.formatting.dropWhile isClosed }

def sameAttributes (as bs : List Attribute) : Bool :=
  as.length = bs.length && as.all (bs.contains ·)

/-- Opens a formatting element. Of three equal ones since the last marker the oldest is
forgotten. -/
def insertFormatting (tag : String) (attributes : List Attribute) : Builder :=
  let equal := fun
    | .marker => false
    | .element _ t as => t = tag && sameAttributes as attributes
  let twins := b.recentFormatting.filter equal
  let b := match twins.getLast? with
    | some (.element id _ _) => if 3 ≤ twins.length then b.removeFormatting id else b
    | _ => b
  let (e, b) := b.openElement .html tag attributes
  { b with formatting := .element e.id tag attributes :: b.formatting }

def enter (phase : Phase) : Builder := { b with phase }

def readContent (reading : Reading) : Builder :=
  { b with origin := b.phase, phase := .inContent, reading }

def phaseOf? (tag : String) (outermost : Bool) (outer : List Open) : Option Phase :=
  if tag = "select" then
    match outer.find? (·.isIn ["template", "table"]) with
    | some e => some (if e.isNamed "table" then .inSelectInTable else .inSelect)
    | none => some .inSelect
  else if tag = "td" ∨ tag = "th" then if outermost then none else some .inCell
  else if tag = "tr" then some .inRow
  else if tag = "tbody" ∨ tag = "thead" ∨ tag = "tfoot" then some .inTableBody
  else if tag = "caption" then some .inCaption
  else if tag = "colgroup" then some .inColumnGroup
  else if tag = "table" then some .inTable
  else if tag = "template" then b.templates.head?
  else if tag = "head" then if outermost then none else some .inHead
  else if tag = "body" then some .inBody
  else if tag = "frameset" then some .inFrameset
  else if tag = "html" then some (if b.hasHead.isSome then .afterHead else .beforeHead)
  else none

/-- The phase that the open elements call for; for a fragment its context stands for the outermost
one. -/
def phaseFor : List Open → Phase
  | [] => .inBody
  | e :: outer =>
    let tag := match outer, b.context with
      | [], some context => some context
      | _, _ => if e.isHtml then some e.tag else none
    match tag.bind (b.phaseOf? · (outer = []) outer) with
    | some phase => phase
    | none => phaseFor outer

def resetPhase : Builder := b.enter (b.phaseFor b.opened)

end Builder

end LivePage.Markup
