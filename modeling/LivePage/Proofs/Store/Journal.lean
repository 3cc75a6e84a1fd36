import LivePage.Store.Basic

namespace LivePage

/-- What happens to a store. A write is named by the position of the entry that stores its value, a
subscriber by its place in the order of registration. -/
inductive Event
  | stored (name : String) (value : Value)
  | called (write subscriber : Nat) (name : String) (value : Value)
  | returned (write : Nat)
  | joined (subscriber : Nat)
  | acted

/-- The write that an event is a part of, apart from the event that begins it. -/
def Event.write? : Event → Option Nat
  | called w _ _ _ | returned w => some w
  | _ => none

structure Entry (ε : Type) where
  event : Event
  scene : Scene ε

abbrev Journal (ε : Type) := List (Entry ε)

abbrev Recorded (ε : Type) := Scene ε × Journal ε

variable {ε : Type}

/-- Runs a script with a journal whose first entry has the position `p`. -/
def Script.record (write : Nat → String → Value → Scene ε → Option (Recorded ε)) :
    Nat → Script ε → Scene ε → Option (Recorded ε)
  | _, stop, s => some (s, [])
  | p, look next, (store, e) => (next store.data e).record write p (store, e)
  | p, act change next, (store, e) =>
    let s := (store, change store.data e)
    (next.record write (p + 1) s).map fun r ↦ (r.1, ⟨.acted, s⟩ :: r.2)
  | p, .write name value next, s =>
    (write p name value s).bind fun r ↦
      (next.record write (p + r.2.length) r.1).map fun r' ↦ (r'.1, r.2 ++ r'.2)
  | p, listen subscriber next, (store, e) =>
    let s := (store.subscribe subscriber, e)
    (next.record write (p + 1) s).map fun r ↦
      (r.1, ⟨.joined store.subscribers.length, s⟩ :: r.2)

namespace Store

/-- Calls subscribers for the write `w`; the first of them is number `k`. -/
def recordCalls (write : Nat → String → Value → Scene ε → Option (Recorded ε)) (w : Nat)
    (name : String) (value : Value) : Nat → Nat → List (Subscriber ε) → Scene ε →
    Option (Recorded ε)
  | _, _, [], s => some (s, [])
  | p, k, subscriber :: rest, s =>
    ((subscriber name value).record write (p + 1) s).bind fun r ↦
      (recordCalls write w name value (p + 1 + r.2.length) (k + 1) rest r.1).map fun r' ↦
        (r'.1, ⟨.called w k name value, s⟩ :: (r.2 ++ r'.2))

def recordWrite : Nat → Nat → String → Value → Scene ε → Option (Recorded ε)
  | 0, _, _, _, _ => none
  | depth + 1, p, name, value, (store, e) =>
    let s := (store.put name value, e)
    (recordCalls (recordWrite depth) p name value (p + 1) 0 store.subscribers s).map fun r ↦
      (r.1, ⟨.stored name value, s⟩ :: (r.2 ++ [⟨.returned p, r.1⟩]))

def recorded (depth : Nat) (script : Script ε) : Scene ε → Option (Recorded ε) :=
  script.record (recordWrite depth) 0

end Store

theorem Script.record_fst {write : String → Value → Scene ε → Option (Scene ε)}
    {recordWrite : Nat → String → Value → Scene ε → Option (Recorded ε)}
    (hwrite : ∀ p name value s, (recordWrite p name value s).map Prod.fst = write name value s)
    (script : Script ε) (p : Nat) (s : Scene ε) :
    (script.record recordWrite p s).map Prod.fst = script.run write s := by
  induction script generalizing p s with
  | stop => rfl
  | look next ih => exact ih s.1.data s.2 p s
  | act change next ih =>
    rw [record, run, ← ih (p + 1), Option.map_map]
    rfl
  | write name value next ih =>
    rw [record, run, ← hwrite p]
    cases recordWrite p name value s with
    | none => rfl
    | some r =>
      simp only [Option.bind_some, Option.map_map, Option.map_some, ← ih (p + r.2.length)]
      rfl
  | listen subscriber next _ ih =>
    rw [record, run, ← ih (p + 1), Option.map_map]
    rfl

namespace Store

theorem recordCalls_fst {write : String → Value → Scene ε → Option (Scene ε)}
    {recordWrite : Nat → String → Value → Scene ε → Option (Recorded ε)}
    (hwrite : ∀ p name value s, (recordWrite p name value s).map Prod.fst = write name value s)
    (w : Nat) (name : String) (value : Value) (subscribers : List (Subscriber ε)) (p k : Nat)
    (s : Scene ε) :
    (recordCalls recordWrite w name value p k subscribers s).map Prod.fst =
      subscribers.foldlM (fun s subscriber ↦ (subscriber name value).run write s) s := by
  induction subscribers generalizing p k s with
  | nil => rfl
  | cons subscriber rest ih =>
    rw [recordCalls, List.foldlM_cons, ← Script.record_fst hwrite _ (p + 1)]
    cases (subscriber name value).record recordWrite (p + 1) s with
    | none => rfl
    | some r =>
      simp only [Option.bind_some, Option.map_map, Option.map_some, Option.bind_eq_bind,
        ← ih (p + 1 + r.2.length) (k + 1)]
      rfl

theorem recordWrite_fst (depth p : Nat) (name : String) (value : Value) (s : Scene ε) :
    (recordWrite depth p name value s).map Prod.fst = write depth name value s := by
  induction depth generalizing p name value s with
  | zero => rfl
  | succ depth ih =>
    rw [recordWrite, write, Option.map_map, ← recordCalls_fst ih p name value _ (p + 1) 0]
    rfl

/-- A run has a journal, and the journal changes nothing. -/
theorem exists_recorded {depth : Nat} {script : Script ε} {s s' : Scene ε}
    (h : perform depth script s = some s') : ∃ J, recorded depth script s = some (s', J) := by
  have hfst := Script.record_fst (recordWrite_fst (ε := ε) depth) script 0 s
  rw [perform] at h
  rw [h, Option.map_eq_some_iff] at hfst
  obtain ⟨⟨t, J⟩, hr, rfl⟩ := hfst
  exact ⟨J, hr⟩

end Store

end LivePage
