import LivePage.Forest.Basic

namespace LivePage

open Markup

inductive TreeError
  | invalidSelector (source : String) (fault : SelectorFault)
  | notAChild
  | detached
  | hierarchy
deriving DecidableEq, Repr

def TreeError.message : TreeError → String
  | .invalidSelector source fault => "invalid selector `" ++ source ++ "`: " ++ fault.reason
  | .notAChild => "reference node is not a child of this node"
  | .detached => "node is not attached to a parent"
  | .hierarchy => "cannot insert a node into its own subtree"

namespace Forest

variable (f : Forest)

def remove (i : NodeId) : Forest :=
  if (f.parent? i).isSome then { f with trees := f.subtree i ++ f.trees.erase i } else f

def append (parent child : NodeId) : Except TreeError Forest :=
  if f.encloses child parent then .error .hierarchy
  else .ok { f with
    trees := (f.trees.erase child).updateBelow parent (· ++ f.subtree child) }

def insertBefore (parent new reference : NodeId) : Except TreeError Forest :=
  if new = reference then .ok f
  else if f.parent? reference ≠ some parent then .error .notAChild
  else if f.encloses new parent then .error .hierarchy
  else .ok { f with trees := (f.trees.erase new).insertBefore reference (f.subtree new) }

def removeChild (parent child : NodeId) : Except TreeError Forest :=
  if f.parent? child ≠ some parent then .error .notAChild else .ok (f.remove child)

/-- Puts a node in front of another, below the same parent. -/
def before (reference new : NodeId) : Except TreeError Forest :=
  match f.parent? reference with
  | none => .error .detached
  | some parent => f.insertBefore parent new reference

end Forest

end LivePage
