import LivePage.Page.Rendering

namespace LivePage

open Markup Template

inductive MountError
  | missingRoot
  | rootNotFound (selector : String)
  | invalidSelector (error : TreeError)
deriving DecidableEq, Repr

namespace MountError

def diagnostic : MountError → Diagnostic
  | .missingRoot => .missingRoot
  | .rootNotFound selector => .rootNotFound selector
  | .invalidSelector error => .tree error

def message : MountError → String
  | .invalidSelector error => error.message
  | e => e.diagnostic.message

end MountError

namespace Page

variable {γ : Type} (p : Page)

def findRoot (document : NodeId) (el : Option String) : Except MountError (String × NodeId) :=
  match el with
  | none => .error .missingRoot
  | some selector =>
    match p.forest.query document selector with
    | .error e => .error (.invalidSelector e)
    | .ok none => .error (.rootNotFound selector)
    | .ok (some root) => .ok (selector, root)

/-- Mounts an application and renders it. What its options ask to be done once it is mounted is left
to the caller, and so is the announcement that follows. -/
def mount (document : NodeId) (o : MountOptions γ) : Except MountError AppId × Page :=
  match p.findRoot document o.el with
  | .error e => (.error e, p.emit e.diagnostic)
  | .ok (selector, root) =>
    let a := p.apps.length
    let app : App := ⟨selector, p.forest.inner root, root, o.strategy, [], 0⟩
    let p := { p with apps := p.apps ++ [some app] }.renderPass a o.data
    (.ok a, { p.writeLog .debug ("registering " ++ selector ++ " as the last mounted application")
      with lastMounted := some a })

def announce (a : AppId) : Page :=
  match p.app? a with
  | none => p
  | some app => p.writeLog .info ("mounted " ++ app.selector)

def lastMounted? : Option (AppId × App) := do
  let a ← p.lastMounted
  let app ← p.app? a
  some (a, app)

end Page

/-- The store of a mounted application: it renders the application before it runs any other
subscriber. -/
def MountOptions.store {γ ε : Type} (o : MountOptions γ) (lift : (Page → Page) → ε → ε)
    (a : AppId) : Store ε :=
  (Store.ofData o.data).subscribe (App.rerenders lift a)

end LivePage
