import LivePage.Markup.Edit
import LivePage.Markup.Parsing
import LivePage.Markup.Selector
import LivePage.Markup.Walk
import LivePage.Markup.Writing

namespace LivePage

open Markup

abbrev NodeId := Nat

/-- The trees whose roots have no parent, in one row, and the number of the next node. -/
structure Forest where
  trees : Nodes NodeId := .nil
  next : NodeId := 0
deriving Repr

namespace Forest

variable (f : Forest)

instance : Inhabited Forest := ⟨{}⟩

def node? (i : NodeId) : Option (Label × Nodes NodeId) :=
  f.trees.find? i

def label (i : NodeId) : Label :=
  ((f.node? i).map Prod.fst).getD .document

def below (i : NodeId) : Nodes NodeId :=
  ((f.node? i).map Prod.snd).getD .nil

def tag (i : NodeId) : String :=
  (f.label i).tag

def parent? (i : NodeId) : Option NodeId :=
  f.trees.parent? i

def parentElement? (i : NodeId) : Option NodeId :=
  (f.parent? i).filter fun p ↦ (f.label p).isElement

def children (i : NodeId) : List NodeId :=
  (f.below i).branches.map (·.1)

def childCount (i : NodeId) : Nat :=
  (f.below i).elementCount

def textContent (i : NodeId) : String :=
  (f.below i).textContent

def inner (i : NodeId) : String :=
  Nodes.inner (f.label i) (f.below i)

def outer (i : NodeId) : String :=
  Nodes.outer (f.label i) (f.below i)

def encloses (i j : NodeId) : Bool :=
  i = j || (f.below i).ids.contains j

def subtree (i : NodeId) : Nodes NodeId :=
  match f.node? i with
  | some (l, below) => .branch i l below .nil
  | none => .nil

def plant (label : Label) (row : Nodes Unit) : NodeId × Forest :=
  (f.next, ⟨.branch f.next label (row.numbered (f.next + 1)) f.trees,
    f.next + 1 + row.branchCount⟩)

def create (tag : String) : NodeId × Forest :=
  f.plant (.ofTag tag) .nil

def newDocument : NodeId × Forest :=
  f.plant .document .nil

def parse (source : String) : NodeId × Forest :=
  f.plant .document (readPage source)

def relabel (i : NodeId) (change : Label → Label) : Forest :=
  { f with trees := f.trees.relabel i change }

def setAttribute (i : NodeId) (name value : String) : Forest :=
  f.relabel i (·.setAttribute name value)

def removeAttribute (i : NodeId) (name : String) : Forest :=
  f.relabel i (·.removeAttribute name)

/-- Gives a node a new content with fresh numbers. The elements it had become loose. -/
def setContent (i : NodeId) (row : Nodes Unit) : Forest :=
  ⟨(f.below i).branchesOnly ++ f.trees.updateBelow i fun _ ↦ row.numbered f.next,
    f.next + row.branchCount⟩

def setText (i : NodeId) (text : String) : Forest :=
  f.setContent i (.ofText text)

def setInner (i : NodeId) (source : String) : Forest :=
  f.setContent i (readFragment (f.tag i) source)

/-- Drops trees whose root is not held. What is directly below a dropped root becomes loose, and is
dropped in turn unless it is held. -/
def keep (held : List NodeId) : Nodes NodeId → Nodes NodeId
  | .nil => .nil
  | .text _ rest | .comment _ rest => keep held rest
  | .branch i l below rest =>
    if held.contains i then .branch i l below (keep held rest)
    else keep held below ++ keep held rest

/-- Drops what no held node keeps alive: a node keeps alive what is below it, not its parent. -/
def collect (held : List NodeId) : Forest :=
  { f with trees := keep held f.trees }

end Forest

end LivePage
