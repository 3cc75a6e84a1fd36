import LivePage.Proofs.Store.Journal
import Mathlib.Data.List.Chain

namespace LivePage

variable {ε : Type}

/-- A script changes its surroundings as allowed, and so do the subscribers that it adds. -/
def Script.Acts (allowed : Data → ε → ε → Prop) : Script ε → Prop
  | stop => True
  | look next => ∀ data e, (next data e).Acts allowed
  | act change next => (∀ data e, allowed data e (change data e)) ∧ next.Acts allowed
  | .write _ _ next => next.Acts allowed
  | listen subscriber next =>
    (∀ name value, (subscriber name value).Acts allowed) ∧ next.Acts allowed

def Store.Acts (allowed : Data → ε → ε → Prop) (store : Store ε) : Prop :=
  ∀ subscriber ∈ store.subscribers, ∀ name value, (subscriber name value).Acts allowed

/-- A write that is being processed, and how many subscribers it calls. -/
structure Writing where
  number : Nat
  name : String
  value : Value
  audience : Nat

/-- A stretch of a journal from the position `p` on, as a part of the write `outer` if there is
one. -/
inductive Course (allowed : Data → ε → ε → Prop) :
    Option Writing → Nat → Scene ε → Journal ε → Scene ε → Prop
  | nil (outer : Option Writing) (p : Nat) (s : Scene ε) : Course allowed outer p s [] s
  | acted {outer : Option Writing} {p : Nat} {store : Store ε} {e e' : ε} {t : Scene ε}
    {J : Journal ε} (he : allowed store.data e e')
    (hJ : Course allowed outer (p + 1) (store, e') J t) :
    Course allowed outer p (store, e) (⟨.acted, (store, e')⟩ :: J) t
  | joined {outer : Option Writing} {p : Nat} {store : Store ε} {e : ε} {t : Scene ε}
    {J : Journal ε} (subscriber : Subscriber ε)
    (hJ : Course allowed outer (p + 1) (store.subscribe subscriber, e) J t) :
    Course allowed outer p (store, e)
      (⟨.joined store.subscribers.length, (store.subscribe subscriber, e)⟩ :: J) t
  | called {w : Writing} {p k : Nat} {s t : Scene ε} {J : Journal ε} (hk : k < w.audience)
    (hJ : Course allowed (some w) (p + 1) s J t) :
    Course allowed (some w) p s (⟨.called w.number k w.name w.value, s⟩ :: J) t
  | wrote {outer : Option Writing} {p : Nat} {store : Store ε} {e : ε} {name : String}
    {value : Value} {t u : Scene ε} {J K : Journal ε}
    (hJ : Course allowed (some ⟨p, name, value, store.subscribers.length⟩) (p + 1)
      (store.put name value, e) J t)
    (hK : Course allowed outer (p + J.length + 2) t K u) :
    Course allowed outer p (store, e)
      (⟨.stored name value, (store.put name value, e)⟩ :: (J ++ ⟨.returned p, t⟩ :: K)) u

theorem Course.append {allowed : Data → ε → ε → Prop} {outer : Option Writing} {p : Nat}
    {s t u : Scene ε} {J K : Journal ε} (hJ : Course allowed outer p s J t)
    (hK : Course allowed outer (p + J.length) t K u) : Course allowed outer p s (J ++ K) u := by
  induction hJ with
  | nil => exact hK
  | acted he _ ih =>
    refine .acted he (ih ?_)
    rwa [List.length_cons, ← Nat.add_assoc, Nat.add_right_comm] at hK
  | joined subscriber _ ih =>
    refine .joined subscriber (ih ?_)
    rwa [List.length_cons, ← Nat.add_assoc, Nat.add_right_comm] at hK
  | called hk _ ih =>
    refine .called hk (ih ?_)
    rwa [List.length_cons, ← Nat.add_assoc, Nat.add_right_comm] at hK
  | @wrote outer p store e name value t u J L hJ _ _ ih =>
    have hlength : p + (⟨.stored name value, (store.put name value, e)⟩ ::
        (J ++ ⟨.returned p, t⟩ :: L) : Journal ε).length = p + J.length + 2 + L.length := by
      simp only [List.length_cons, List.length_append]
      omega
    rw [hlength] at hK
    rw [List.cons_append, List.append_assoc, List.cons_append]
    exact .wrote hJ (ih hK)

/-- From one moment of a run to the next the surroundings change as allowed, or not at all. -/
theorem Course.isChain {allowed : Data → ε → ε → Prop} {R : ε → ε → Prop} (hrefl : ∀ e, R e e)
    (hR : ∀ data e e', allowed data e e' → R e e') {outer : Option Writing} {p : Nat}
    {s t : Scene ε} {J : Journal ε} (h : Course allowed outer p s J t) :
    (s :: (J.map (·.scene) ++ [t])).IsChain fun x y ↦ R x.2 y.2 := by
  induction h with
  | nil _ _ s => exact .cons_cons (hrefl s.2) (.singleton s)
  | acted he _ ih => exact .cons_cons (hR _ _ _ he) ih
  | joined _ _ ih => exact .cons_cons (hrefl _) ih
  | called _ _ ih => exact .cons_cons (hrefl _) ih
  | wrote _ _ ihJ ihK =>
    rw [← List.cons_append] at ihJ
    simp only [List.map_append, List.map_cons, List.append_assoc, List.cons_append]
    exact .cons_cons (hrefl _) (List.isChain_split.2 ⟨ihJ, ihK⟩)

section

variable {allowed : Data → ε → ε → Prop} {outer : Option Writing}
  {write : Nat → String → Value → Scene ε → Option (Recorded ε)}

theorem Script.course_record
    (hwrite : ∀ {p name value s s' J} (outer : Option Writing), s.1.Acts allowed →
      write p name value s = some (s', J) → Course allowed outer p s J s' ∧ s'.1.Acts allowed)
    {script : Script ε} (hscript : script.Acts allowed) {p : Nat} {s s' : Scene ε} {J : Journal ε}
    (hs : s.1.Acts allowed) (h : script.record write p s = some (s', J)) :
    Course allowed outer p s J s' ∧ s'.1.Acts allowed := by
  induction script generalizing p s J with
  | stop =>
    cases h
    exact ⟨.nil _ _ _, hs⟩
  | look next ih => exact ih _ _ (hscript _ _) hs h
  | act change next ih =>
    obtain ⟨⟨s₁, K⟩, hK, hr⟩ := Option.map_eq_some_iff.1 h
    cases hr
    obtain ⟨hcourse, hs'⟩ := ih hscript.2 (s := (s.1, change s.1.data s.2)) hs hK
    exact ⟨.acted (hscript.1 _ _) hcourse, hs'⟩
  | write name value next ih =>
    obtain ⟨⟨s₁, K⟩, hK, hr⟩ := Option.bind_eq_some_iff.1 h
    obtain ⟨⟨s₂, L⟩, hL, hr⟩ := Option.map_eq_some_iff.1 hr
    cases hr
    obtain ⟨hfirst, hs₁⟩ := hwrite outer hs hK
    obtain ⟨hrest, hs₂⟩ := ih hscript hs₁ hL
    exact ⟨hfirst.append hrest, hs₂⟩
  | listen subscriber next _ ih =>
    obtain ⟨⟨s₁, K⟩, hK, hr⟩ := Option.map_eq_some_iff.1 h
    cases hr
    have hjoined : (s.1.subscribe subscriber).Acts allowed := by
      intro x hx
      rcases List.mem_append.1 hx with hx | hx
      · exact hs x hx
      · obtain rfl := List.mem_singleton.1 hx
        exact hscript.1
    obtain ⟨hcourse, hs'⟩ := ih hscript.2 (s := (s.1.subscribe subscriber, s.2)) hjoined hK
    exact ⟨.joined subscriber hcourse, hs'⟩

namespace Store

theorem course_recordCalls
    (hwrite : ∀ {p name value s s' J} (outer : Option Writing), s.1.Acts allowed →
      write p name value s = some (s', J) → Course allowed outer p s J s' ∧ s'.1.Acts allowed)
    {w : Writing} {subscribers : List (Subscriber ε)}
    (hsubscribers : ∀ subscriber ∈ subscribers, ∀ name value, (subscriber name value).Acts allowed)
    {p k : Nat} {s s' : Scene ε} {J : Journal ε} (hk : k + subscribers.length ≤ w.audience)
    (hs : s.1.Acts allowed)
    (h : recordCalls write w.number w.name w.value p k subscribers s = some (s', J)) :
    Course allowed (some w) p s J s' ∧ s'.1.Acts allowed := by
  induction subscribers generalizing p k s J with
  | nil =>
    cases h
    exact ⟨.nil _ _ _, hs⟩
  | cons subscriber rest ih =>
    obtain ⟨⟨s₁, K⟩, hK, hr⟩ := Option.bind_eq_some_iff.1 h
    obtain ⟨⟨s₂, L⟩, hL, hr⟩ := Option.map_eq_some_iff.1 hr
    cases hr
    rw [List.length_cons] at hk
    obtain ⟨hfirst, hothers⟩ := List.forall_mem_cons.1 hsubscribers
    obtain ⟨hcall, hs₁⟩ := Script.course_record hwrite (hfirst _ _) hs hK
    obtain ⟨hrest, hs₂⟩ := ih hothers (by omega) hs₁ hL
    exact ⟨.called (by omega) (hcall.append hrest), hs₂⟩

theorem course_recordWrite {depth p : Nat} {name : String} {value : Value} {s s' : Scene ε}
    {J : Journal ε} (outer : Option Writing) (hs : s.1.Acts allowed)
    (h : recordWrite depth p name value s = some (s', J)) :
    Course allowed outer p s J s' ∧ s'.1.Acts allowed := by
  induction depth generalizing p name value s s' J outer with
  | zero => cases h
  | succ depth ih =>
    obtain ⟨⟨s₁, K⟩, hK, hr⟩ := Option.map_eq_some_iff.1 h
    cases hr
    let w : Writing := ⟨p, name, value, s.1.subscribers.length⟩
    have haudience : 0 + s.1.subscribers.length ≤ w.audience := Nat.le_of_eq (Nat.zero_add _)
    obtain ⟨hcalls, hs₁⟩ := course_recordCalls ih (w := w) hs haudience
      (s := (s.1.put name value, s.2)) hs hK
    exact ⟨.wrote hcalls (.nil _ _ _), hs₁⟩

/-- A run takes its course, if the scripts in it act as allowed. -/
theorem course_recorded {depth : Nat} {script : Script ε} {s s' : Scene ε} {J : Journal ε}
    (hscript : script.Acts allowed) (hs : s.1.Acts allowed)
    (h : recorded depth script s = some (s', J)) :
    Course allowed none 0 s J s' ∧ s'.1.Acts allowed :=
  Script.course_record course_recordWrite hscript hs h

end Store

end

theorem Script.acts_true (script : Script ε) : script.Acts fun _ _ _ ↦ True := by
  induction script with
  | stop => trivial
  | look next ih => exact ih
  | act change next ih => exact ⟨fun _ _ ↦ trivial, ih⟩
  | write name value next ih => exact ih
  | listen subscriber next ihs ih => exact ⟨ihs, ih⟩

theorem Store.acts_true (store : Store ε) : store.Acts fun _ _ _ ↦ True :=
  fun subscriber _ name value ↦ (subscriber name value).acts_true

end LivePage
