import LivePage.Forest.Moves
import Mathlib.Logic.Function.Basic

namespace LivePage

open Markup

/-- What tells nodes apart: the number of a branching node, or a number for a text or a comment. -/
inductive Ref
  | branch (i : NodeId)
  | leaf (k : Nat)
deriving DecidableEq, Repr

def Ref.isLeaf : Ref → Bool
  | .branch _ => false
  | .leaf _ => true

inductive Content
  | branch (label : Label)
  | text (content : String)
  | comment (content : String)
deriving DecidableEq, Repr

/-- A node. Its link leads back to its parent and may outlive it; then it does not resolve. -/
structure Cell where
  content : Content
  parent : Option Ref := none
  children : List Ref := []
deriving DecidableEq, Repr

structure Heap where
  cell? : Ref → Option Cell := fun _ ↦ none
  nextBranch : NodeId := 0
  nextLeaf : Nat := 0

/-- A computation with a bound on its depth ends, and from some bound on the answer is the same. -/
def Ends {α : Type} (g : Nat → Option α) (a : α) : Prop :=
  ∃ bound, ∀ depth ≥ bound, g depth = some a

namespace Heap

variable (h : Heap)

def Live (r : Ref) : Prop :=
  (h.cell? r).isSome = true

instance (r : Ref) : Decidable (h.Live r) :=
  inferInstanceAs (Decidable ((h.cell? r).isSome = true))

def content? (r : Ref) : Option Content :=
  (h.cell? r).map (·.content)

def children (r : Ref) : List Ref :=
  ((h.cell? r).map (·.children)).getD []

/-- The link of a node to its parent, whether it resolves or not. -/
def link? (r : Ref) : Option Ref :=
  (h.cell? r).bind (·.parent)

def parent? (r : Ref) : Option Ref :=
  (h.link? r).filter fun p ↦ h.Live p

def put (r : Ref) (cell : Option Cell) : Heap :=
  { h with cell? := Function.update h.cell? r cell }

def modify (r : Ref) (change : Cell → Cell) : Heap :=
  h.put r ((h.cell? r).map change)

def setParent (r : Ref) (p : Option Ref) : Heap :=
  h.modify r fun cell ↦ { cell with parent := p }

def setChildren (r : Ref) (rs : List Ref) : Heap :=
  h.modify r fun cell ↦ { cell with children := rs }

def push (p c : Ref) : Heap :=
  h.setChildren p (h.children p ++ [c])

def newBranch (l : Label) : Heap :=
  { h.put (.branch h.nextBranch) (some ⟨.branch l, none, []⟩) with
    nextBranch := h.nextBranch + 1 }

def newLeaf (c : Content) : Heap :=
  { h.put (.leaf h.nextLeaf) (some ⟨c, none, []⟩) with nextLeaf := h.nextLeaf + 1 }

def relabel (i : NodeId) (change : Label → Label) : Heap :=
  h.modify (.branch i) fun cell ↦ { cell with
    content := match cell.content with
      | .branch l => .branch (change l)
      | c => c }

/-- Drops the texts and comments among some nodes: nothing but a list of children holds them. -/
def dropLeaves (rs : List Ref) : Heap :=
  { h with cell? := fun r ↦ if r.isLeaf ∧ r ∈ rs then none else h.cell? r }

def clearChildren (p : Ref) : Heap :=
  let taken := h.children p
  (taken.foldl (fun h c ↦ h.setParent c none) (h.setChildren p [])).dropLeaves taken

def detach (r : Ref) : Heap :=
  (match h.parent? r with
    | some p => h.setChildren p ((h.children p).filter (· ≠ r))
    | none => h).setParent r none

/-- Whether `r` is met on the way up from a node, the node itself included. -/
def meets (r : Ref) : Nat → Ref → Option Bool
  | 0, _ => none
  | depth + 1, candidate =>
    if candidate = r then some true
    else match h.parent? candidate with
      | none => some false
      | some p => meets r depth p

def append (depth : Nat) (p c : Ref) : Option (Except TreeError Unit × Heap) := do
  if ← h.meets c depth p then some (.error .hierarchy, h)
  else some (.ok (), ((h.detach c).setParent c (some p)).push p c)

def appendNew (p c : Ref) : Heap :=
  (h.setParent c (some p)).push p c

def insertBefore (depth : Nat) (p new reference : Ref) :
    Option (Except TreeError Unit × Heap) := do
  if new = reference then some (.ok (), h)
  else if h.parent? reference ≠ some p then some (.error .notAChild, h)
  else if ← h.meets new depth p then some (.error .hierarchy, h)
  else
    let h := h.detach new
    match (h.children p).idxOf? reference with
    | none => some (.error .notAChild, h)
    | some k =>
      some (.ok (), (h.setParent new (some p)).setChildren p ((h.children p).insertIdx k new))

def before (depth : Nat) (reference new : Ref) : Option (Except TreeError Unit × Heap) :=
  match h.parent? reference with
  | none => some (.error .detached, h)
  | some p => h.insertBefore depth p new reference

def removeChild (p c : Ref) : Except TreeError Unit × Heap :=
  if h.parent? c ≠ some p then (.error .notAChild, h) else (.ok (), h.detach c)

/-- Copies a row below a node. A node is filled before it is put into its place. -/
def copyInto (target : Ref) : Nodes Unit → Heap → Heap
  | .nil, h => h
  | .text s rest, h =>
    copyInto target rest ((h.newLeaf (.text s)).appendNew target (.leaf h.nextLeaf))
  | .comment s rest, h =>
    copyInto target rest ((h.newLeaf (.comment s)).appendNew target (.leaf h.nextLeaf))
  | .branch _ l below rest, h =>
    let new := Ref.branch h.nextBranch
    copyInto target rest ((copyInto new below (h.newBranch l)).appendNew target new)

def setContent (r : Ref) (row : Nodes Unit) : Heap :=
  copyInto r row (h.clearChildren r)

/-- The heap without a node. Its children are in no list then, and the texts and comments among them
are gone with it. -/
def erase (r : Ref) : Heap :=
  (h.put r none).dropLeaves (h.children r)

/-- Drops a node; a node that has a parent is held by it. -/
def drop (r : Ref) : Option Heap :=
  if (h.parent? r).isSome then none else some (h.erase r)

end Heap

end LivePage
