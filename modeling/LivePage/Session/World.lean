import LivePage.Session.Step

namespace LivePage.Session

open Markup Template

abbrev StoreId := Nat

inductive Handle
  | document (i : NodeId)
  | element (i : NodeId)
  | store (k : StoreId)
  | app (a : AppId)
deriving DecidableEq, Repr

structure World where
  page : Page := {}
  data : List Data := []
  homes : List StoreId := []
  registers : List (Register × Handle) := []
  events : List Event := []

namespace World

variable (w : World)

instance : Inhabited World := ⟨{}⟩

def handle? (r : Register) : Option Handle :=
  w.registers.lookup r

def assign (r : Register) (h : Option Handle) : World :=
  let others := w.registers.filter (·.1 ≠ r)
  { w with registers := match h with
    | some h => (r, h) :: others
    | none => others }

def assignTo (r : Option Register) (h : Option Handle) : World :=
  match r with
  | some r => w.assign r h
  | none => w

def assignFrom (w : World) (stem : Register) (n : Nat) : List Handle → World
  | [] => w
  | h :: rest => (w.assign (stem ++ Nat.repr n) (some h)).assignFrom stem (n + 1) rest

def assignAll (stem : Option Register) (elements : List NodeId) : World :=
  match stem with
  | some stem => w.assignFrom stem 0 (elements.map .element)
  | none => w

def node? (r : Register) : Option NodeId :=
  match w.handle? r with
  | some (.document i) | some (.element i) => some i
  | _ => none

def document? (r : Register) : Option NodeId :=
  match w.handle? r with
  | some (.document i) => some i
  | _ => none

def element? (r : Register) : Option NodeId :=
  match w.handle? r with
  | some (.element i) => some i
  | _ => none

def app? (r : Register) : Option (AppId × App) :=
  match w.handle? r with
  | some (.app a) => (w.page.app? a).map (a, ·)
  | _ => none

def home (a : AppId) : StoreId :=
  w.homes.getD a 0

def store? (r : Register) : Option StoreId :=
  match w.handle? r with
  | some (.store k) => some k
  | some (.app a) => some (w.home a)
  | _ => none

def dataOf (k : StoreId) : Data :=
  w.data.getD k ∅

def withData (k : StoreId) (data : Data) : World :=
  { w with data := w.data.set k data }

def shown (r : Register) : Shown :=
  match w.handle? r with
  | none => .nothing
  | some (.document i) => .markup (w.page.forest.inner i)
  | some (.element i) => .markup (w.page.forest.outer i)
  | some (.store k) => .data (w.dataOf k)
  | some (.app a) =>
    match w.page.app? a with
    | some app => .app (w.page.forest.outer app.root) app.passes app.diagnostics
    | none => .nothing

def describe (i : NodeId) : Description :=
  ⟨w.page.forest.label i, w.page.forest.textContent i⟩

def describeApp (app : App) : AppDescription :=
  ⟨app.selector, app.template, app.strategy, app.passes, app.diagnostics,
    w.page.forest.outer app.root, (w.page.forest.parent? app.root).isSome⟩

/-- The nodes that a handle keeps alive, with all below them. -/
def nodesOf : Handle → List NodeId
  | .document i | .element i => [i]
  | .store _ => []
  | .app a => ((w.page.app? a).map (·.root)).toList

def keepOnly (held : List Handle) : World :=
  let page := (List.range w.page.apps.length).foldl
    (fun (p : Page) a ↦ if held.contains (.app a) then p else p.dropApp a) w.page
  { w with page := { page with forest := page.forest.collect (held.flatMap w.nodesOf) } }

end World

end LivePage.Session

namespace LivePage

structure Session where
  world : Session.World := {}
  subscribers : List (List (Subscriber Session.World)) := []
  pins : List Session.Handle := []
  watch : List Session.Register := []

namespace Session

variable (s : Session)

def update (change : World → World) : Session :=
  { s with world := change s.world }

def updatePage (change : Page → Page) : Session :=
  s.update fun w ↦ { w with page := change w.page }

def updateForest (change : Forest → Forest) : Session :=
  s.updatePage fun p ↦ { p with forest := change p.forest }

def store (k : StoreId) : Store World :=
  ⟨s.world.dataOf k, s.subscribers.getD k []⟩

def addStore (store : Store World) : StoreId × Session :=
  (s.world.data.length, { s with
    world := { s.world with data := s.world.data ++ [store.data] }
    subscribers := s.subscribers ++ [store.subscribers] })

def nesting : Nat := 100000

/-- Runs a script on a store. One that nests too deep comes to nothing. -/
def run (k : StoreId) (script : Script World) : Session :=
  match Store.perform nesting script (s.store k, s.world) with
  | none => s
  | some (store, world) => { s with
    world := world.withData k store.data
    subscribers := s.subscribers.set k store.subscribers }

def settle : Session :=
  s.update fun w ↦ w.keepOnly (w.registers.map Prod.snd ++ s.pins)

def finish {ρ : Type} (result : ρ) : Session × Outcome ρ :=
  let s := s.settle
  let w := s.world
  ({ s with world := { w with events := [], page := { w.page with log := [] } } },
    ⟨result, w.events, w.page.log, s.watch.map w.shown⟩)

end Session

end LivePage
