import LivePage.Template.Expansion

namespace LivePage.Template

open Markup

/-- What became of an element with directives: it is in its place, or others stand for it. -/
inductive Dispatch
  | kept
  | expanded (generated : List NodeId)
deriving DecidableEq, Repr

structure Dispatched where
  result : Dispatch
  forest : Forest
  reports : List Diagnostic

def dispatchAttributes (data : Data) (f : Forest) (i : NodeId) : List Attribute → Dispatched
  | [] => ⟨.kept, f, []⟩
  | a :: rest =>
    let failed := fun (d : Diagnostic) ↦
      let later := dispatchAttributes data f i rest
      { later with reports := d :: later.reports }
    match Directive.parse? a.name a.value with
    | none => dispatchAttributes data f i rest
    | some (.error e) => failed (.malformedDirective a.value e)
    | some (.ok (.loop l)) =>
      match l.expand data f i with
      | .error d => failed d
      | .ok (generated, g) => ⟨.expanded generated, g, []⟩

def dispatch (data : Data) (f : Forest) (i : NodeId) : Dispatched :=
  dispatchAttributes data f i (f.label i).attributes

/-- Replaces the placeholders in the text of an element; without any to replace the element is left
as it is. -/
def substitute (data : Data) (f : Forest) (i : NodeId) : Forest :=
  match replace? (display? data) (f.textContent i) with
  | some text => f.setText i text
  | none => f

/-- The outcome of a pass: what was reported, and which elements had their directives tried. -/
structure Rendered where
  forest : Forest
  reports : List Diagnostic
  visited : List NodeId

/-- Renders the elements of a row and below it. The row is as it was before the pass, since a pass
does not change what it has yet to visit. -/
def renderRow (data : Data) : Nodes NodeId → Forest → Rendered
  | .nil, f => ⟨f, [], []⟩
  | .text _ rest, f | .comment _ rest, f => renderRow data rest f
  | .branch i _ below rest, f =>
    let tried := dispatch data f i
    let inside : Rendered := match tried.result with
      | .expanded _ => ⟨tried.forest, [], []⟩
      | .kept =>
        if 0 < below.elementCount then renderRow data below tried.forest
        else ⟨substitute data tried.forest i, [], []⟩
    let after := renderRow data rest inside.forest
    ⟨after.forest, tried.reports ++ inside.reports ++ after.reports,
      i :: (inside.visited ++ after.visited)⟩

def render (data : Data) (f : Forest) (root : NodeId) : Rendered :=
  renderRow data (f.below root) f

end LivePage.Template
