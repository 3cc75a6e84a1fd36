import LivePage.Markup.Builder

namespace LivePage.Markup.Builder

def closeGeneric (b : Builder) (tag : String) : Builder :=
  match b.opened.find? fun e ↦ e.isNamed tag || e.isSpecial with
  | none => b
  | some e => if e.isNamed tag then (b.closeImpliedExcept tag).popNamed tag else b

/-- The walk from the block outwards to the formatting element. -/
structure Walk where
  builder : Builder
  carried : Nodes Nat
  kept : List Open
  bookmark : Option Nat

/-- One open element on the way. The first three that are formatting elements are made anew around
what is carried; the others are taken off the list of open elements. -/
def Walk.pass (w : Walk) (count : Nat) (e : Open) : Walk :=
  match w.builder.formatting.find? (Formatting.hasId e.id) with
  | some (.element _ tag attributes) =>
    if 3 < count then { w with builder := w.builder.removeFormatting e.id }
    else
      let (new, b) := w.builder.make .html tag attributes
      let entries := b.formatting.map fun f ↦
        if Formatting.hasId e.id f then .element new.id tag attributes else f
      { builder := { b with formatting := entries }
        carried := .branch new.id (.element tag attributes) w.carried .nil
        kept := w.kept ++ [new]
        bookmark := w.bookmark.or (some new.id) }
  | _ => w

def Walk.passAll (w : Walk) (count : Nat) : List Open → Walk
  | [] => w
  | e :: rest => (w.pass count e).passAll (count + 1) rest

def replaceFormatting (old : Nat) (bookmark : Option Nat) (new : Formatting)
    (entries : List Formatting) : List Formatting :=
  match bookmark with
  | none => entries.map fun f ↦ if Formatting.hasId old f then new else f
  | some id =>
    let before := entries.takeWhile (!Formatting.hasId id ·)
    let after := entries.dropWhile (!Formatting.hasId id ·)
    (before ++ new :: after).eraseP (Formatting.hasId old)

/-- Splits the formatting element `old` at `block`, the outermost special element inside it.
`inner` are the open elements inside the block, `between` those from the block outwards to the
formatting element and `outer` those around it, all newest first. -/
def splitAt (b : Builder) (old : Nat) (tag : String) (attributes : List Attribute)
    (inner : List Open) (block : Open) (between outer : List Open) : Builder :=
  match b.tree.find? block.id with
  | none => b
  | some (label, below) =>
    let w : Walk :=
      { builder := { b with tree := b.tree.erase block.id }
        carried := .branch block.id label below .nil, kept := [], bookmark := none }
    let w := w.passAll 1 between
    let ancestor := (outer.head?).getD block
    let b := { w.builder with opened := inner ++ block :: w.kept ++ outer }
    let b := b.insertAt w.carried (b.place ancestor)
    let (new, b) := b.make .html tag attributes
    { b with
      tree := b.tree.updateBelow block.id fun row ↦
        .branch new.id (.element tag attributes) row .nil
      formatting := replaceFormatting old w.bookmark (.element new.id tag attributes) b.formatting
      opened := inner ++ new :: block :: w.kept ++ outer }

/-- One round of closing a formatting element; `true` if another may be needed. -/
def adoptOnce (b : Builder) (subject : String) : Bool × Builder :=
  match b.recentFormatting.find? fun | .element _ tag _ => tag = subject | .marker => false with
  | some (.element id tag attributes) =>
    if !b.isOpen id then (false, b.removeFormatting id)
    else if !b.inScope Open.boundsScope (·.id = id) then (false, b)
    else
      let inside := b.opened.takeWhile (·.id ≠ id)
      let outer := (b.opened.dropWhile (·.id ≠ id)).drop 1
      let between := (inside.reverse.takeWhile (!·.isSpecial)).reverse
      match (inside.reverse.dropWhile (!·.isSpecial)) with
      | [] => (false, { b with opened := outer }.removeFormatting id)
      | block :: inner =>
        (true, b.splitAt id tag attributes inner.reverse block between outer)
  | _ => (false, b.closeGeneric subject)

def adoptTimes (subject : String) : Nat → Builder → Builder
  | 0, b => b
  | n + 1, b =>
    let (again, b) := b.adoptOnce subject
    if again then adoptTimes subject n b else b

def adopt (b : Builder) (subject : String) : Builder :=
  match b.opened.head? with
  | some e =>
    if e.isNamed subject && !b.formatting.any (Formatting.hasId e.id) then b.pop
    else adoptTimes subject 8 b
  | none => b

def closeAnchor (b : Builder) : Builder :=
  match b.recentFormatting.find? fun | .element _ tag _ => tag = "a" | .marker => false with
  | some (.element id _ _) => ((b.adopt "a").removeFormatting id).removeOpen id
  | _ => b

end LivePage.Markup.Builder
