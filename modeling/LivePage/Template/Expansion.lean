import LivePage.Data.Basic
import LivePage.Forest.Query
import LivePage.Template.Diagnostic
import LivePage.Template.Placeholder

namespace LivePage

open Markup

namespace Forest

def plantAll (f : Forest) : List (Label × Nodes Unit) → List NodeId × Forest
  | [] => ([], f)
  | (l, row) :: rest =>
    let (i, f) := f.plant l row
    let (is, f) := f.plantAll rest
    (i :: is, f)

def beforeAll (f : Forest) (reference : NodeId) : List NodeId → Except TreeError Forest
  | [] => .ok f
  | i :: rest => do
    let f ← f.before reference i
    f.beforeAll reference rest

end Forest

namespace Template

def display? (data : Data) (name : String) : Option String :=
  (data.get? name).map Value.display

namespace Loop

variable (l : Loop)

def content (tag template : String) (item : Value) : Nodes Unit :=
  let row := Nodes.ofText template
  let fill := fun name ↦ if name = l.item then some item.display else none
  match replace? fill (Nodes.inner (.ofTag tag) row) with
  | some markup => readFragment tag markup
  | none => row

/-- Replaces an element by the elements it stands for. If it cannot be, there is a reason to report
and the element stays as it is. -/
def expand (data : Data) (f : Forest) (i : NodeId) : Except Diagnostic (List NodeId × Forest) :=
  match data.get? l.collection with
  | none => .error (.unresolvedCollection l.collection)
  | some value =>
    match value.list? with
    | none => .error (.unsupportedCollection l.collection value.kind)
    | some items =>
      let tag := f.tag i
      let template := f.textContent i
      if !items.isEmpty && !hasPlaceholder template then .error (.noPlaceholders template)
      else if (f.parent? i).isNone then .error (.tree .detached)
      else
        let (generated, g) := f.plantAll (items.map fun item ↦
          (.ofTag tag, l.content tag template item))
        match g.beforeAll i generated with
        | .error e => .error (.tree e)
        | .ok g => .ok (generated, g.remove i)

end Loop

end Template

end LivePage
