import LivePage.Page.Basic

namespace LivePage

open Markup Template

namespace Page

variable (p : Page)

def renderPass (a : AppId) (data : Data) : Page :=
  match p.app? a with
  | none => p
  | some app =>
    let r := Template.render data p.forest app.root
    { p with forest := r.forest, log := p.log ++ r.reports.map Diagnostic.logLine }.setApp a
      { app with diagnostics := r.reports, passes := app.passes + 1 }

/-- The label of a root made anew: of the former one only the tag and the identifier stay. -/
def freshLabel (old : Label) : Label :=
  match old.attribute? "id" with
  | some id => (Label.ofTag old.tag).setAttribute "id" id
  | none => .ofTag old.tag

def replaceRoot (app : App) : Except TreeError (NodeId × Forest) := do
  let label := freshLabel (p.forest.label app.root)
  let (fresh, f) := p.forest.plant label (readFragment label.tag app.template)
  let f ← f.before app.root fresh
  .ok (fresh, f.remove app.root)

/-- Renders an application again, by its strategy. A root that is in no tree cannot be made anew;
then this is all that is reported. -/
def rerender (a : AppId) (data : Data) : Page :=
  match p.app? a with
  | none => p
  | some app =>
    match app.strategy with
    | .inPlace => p.renderPass a data
    | .destructive =>
      match p.replaceRoot app with
      | .error e => (p.clearDiagnostics a).report a (.tree e)
      | .ok (root, forest) => ({ p with forest }.setApp a { app with root }).renderPass a data

end Page

namespace App

variable {ε : Type}

/-- The subscriber that renders an application on every write. `lift` acts on the page that the
surroundings hold. -/
def rerenders (lift : (Page → Page) → ε → ε) (a : AppId) : Subscriber ε :=
  fun _ _ ↦ .act (fun data ↦ lift (·.rerender a data)) .stop

def debug (app : App) (store : Store ε) : String :=
  "App \x7b selector: " ++ Text.quoted app.selector ++ ", strategy: " ++ app.strategy.debug ++
    ", store: " ++ store.debug ++ ", render_passes: " ++ Nat.repr app.passes ++ " \x7d"

end App

end LivePage
