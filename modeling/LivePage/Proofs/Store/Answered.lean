import LivePage.Proofs.Store.Course
import LivePage.Proofs.Store.Notification

namespace LivePage

variable {ε : Type}

/-- What comes next in a run: whatever a script does, the call of the first subscriber, or its
answer. -/
inductive Due
  | nothing
  | call
  | answer
deriving DecidableEq

def Event.due : Event → Due
  | stored _ _ => .call
  | called _ 0 _ _ => .answer
  | _ => .nothing

def Journal.last (s : Scene ε) : Journal ε → Scene ε
  | [] => s
  | x :: J => Journal.last x.scene J

theorem Journal.stores_cons (x : Entry ε) (J : Journal ε) :
    Journal.stores (x :: J) = (match x.event with
      | .stored name value => [(name, value)]
      | _ => []) ++ J.stores := by
  obtain ⟨event, scene⟩ := x
  cases event <;> rfl

def Journal.due (d : Due) : Journal ε → Due
  | [] => d
  | x :: J => Journal.due x.event.due J

/-- The first subscriber of the store gives the answer, and the others act as allowed. -/
def Store.Answers (answer : Data → ε → ε) (allowed : Data → ε → ε → Prop) (store : Store ε) :
    Prop :=
  ∃ others, store.subscribers = (fun _ _ ↦ .act answer .stop) :: others ∧
    ∀ subscriber ∈ others, ∀ name value, (subscriber name value).Acts allowed

section

variable (answer : Data → ε → ε) (allowed : Data → ε → ε → Prop)

/-- An entry that may come next, after a scene. -/
inductive Follows : Due → Scene ε → Entry ε → Prop
  | stored {store : Store ε} {e : ε} (name : String) (value : Value) :
    Follows .nothing (store, e) ⟨.stored name value, (store.put name value, e)⟩
  | first {s : Scene ε} (w : Nat) (name : String) (value : Value) :
    Follows .call s ⟨.called w 0 name value, s⟩
  | answered {store : Store ε} {e : ε} :
    Follows .answer (store, e) ⟨.acted, (store, answer store.data e)⟩
  | called {s : Scene ε} (w k : Nat) (name : String) (value : Value) :
    Follows .nothing s ⟨.called w (k + 1) name value, s⟩
  | returned {s : Scene ε} (w : Nat) : Follows .nothing s ⟨.returned w, s⟩
  | joined {store : Store ε} {e : ε} (k : Nat) (subscriber : Subscriber ε) :
    Follows .nothing (store, e) ⟨.joined k, (store.subscribe subscriber, e)⟩
  | acted {store : Store ε} {e e' : ε} (he : allowed store.data e e') :
    Follows .nothing (store, e) ⟨.acted, (store, e')⟩

/-- A journal from one moment of a run to another, each entry of which may come next. -/
inductive Tells : Due → Scene ε → Journal ε → Due → Scene ε → Prop
  | nil {d : Due} {s : Scene ε} : Tells d s [] d s
  | cons {d d' : Due} {s t : Scene ε} {x : Entry ε} {J : Journal ε}
    (hx : Follows answer allowed d s x) (hJ : Tells x.event.due x.scene J d' t) :
    Tells d s (x :: J) d' t

end

variable {answer : Data → ε → ε} {allowed : Data → ε → ε → Prop}

namespace Tells

variable {d d' d'' : Due} {s t u : Scene ε} {J K : Journal ε}

theorem append (hJ : Tells answer allowed d s J d' t) (hK : Tells answer allowed d' t K d'' u) :
    Tells answer allowed d s (J ++ K) d'' u := by
  induction hJ with
  | nil => exact hK
  | cons hx _ ih => exact .cons hx (ih hK)

theorem last_eq (h : Tells answer allowed d s J d' t) : J.last s = t := by
  induction h with
  | nil => rfl
  | cons _ _ ih => exact ih

theorem due_eq (h : Tells answer allowed d s J d' t) : J.due d = d' := by
  induction h with
  | nil => rfl
  | cons _ _ ih => exact ih

theorem split (h : Tells answer allowed d s (J ++ K) d' t) :
    ∃ d₁ s₁, Tells answer allowed d s J d₁ s₁ ∧ Tells answer allowed d₁ s₁ K d' t := by
  induction J generalizing d s with
  | nil => exact ⟨d, s, .nil, h⟩
  | cons x J ih =>
    cases h with
    | cons hx hJ =>
      obtain ⟨d₁, s₁, hJ, hK⟩ := ih hJ
      exact ⟨d₁, s₁, .cons hx hJ, hK⟩

/-- What holds from every entry to the next, as long as an invariant is kept, holds along the run. -/
theorem isChain {I : Scene ε → Prop} {R : Scene ε → Scene ε → Prop}
    (hrefl : ∀ {s}, I s → R s s)
    (hstep : ∀ {d s x}, I s → Follows answer allowed d s x → I x.scene ∧ R s x.scene)
    (h : Tells answer allowed d s J d' t) (hs : I s) :
    (s :: (J.map (·.scene) ++ [t])).IsChain R := by
  induction h with
  | nil => exact .cons_cons (hrefl hs) (.singleton _)
  | cons hx _ ih =>
    obtain ⟨hI, hR⟩ := hstep hs hx
    exact .cons_cons hR (ih hI)

end Tells

theorem Store.Answers.subscribe {store : Store ε} (h : store.Answers answer allowed)
    {subscriber : Subscriber ε} (hs : ∀ name value, (subscriber name value).Acts allowed) :
    (store.subscribe subscriber).Answers answer allowed := by
  obtain ⟨others, hsubs, hothers⟩ := h
  refine ⟨others ++ [subscriber], congrArg (· ++ [subscriber]) hsubs, fun x hx ↦ ?_⟩
  rcases List.mem_append.1 hx with hx | hx
  · exact hothers x hx
  · obtain rfl := List.mem_singleton.1 hx
    exact hs

section

variable {write : Nat → String → Value → Scene ε → Option (Recorded ε)}

theorem Script.tells_record
    (hwrite : ∀ {p name value s s' J}, s.1.Answers answer allowed →
      write p name value s = some (s', J) →
        Tells answer allowed .nothing s J .nothing s' ∧ s'.1.Answers answer allowed)
    {script : Script ε} (hscript : script.Acts allowed) {p : Nat} {s s' : Scene ε} {J : Journal ε}
    (hs : s.1.Answers answer allowed) (h : script.record write p s = some (s', J)) :
    Tells answer allowed .nothing s J .nothing s' ∧ s'.1.Answers answer allowed := by
  induction script generalizing p s J with
  | stop =>
    cases h
    exact ⟨.nil, hs⟩
  | look next ih => exact ih _ _ (hscript _ _) hs h
  | act change next ih =>
    obtain ⟨⟨s₁, K⟩, hK, hr⟩ := Option.map_eq_some_iff.1 h
    cases hr
    obtain ⟨htells, hs'⟩ := ih hscript.2 (s := (s.1, change s.1.data s.2)) hs hK
    exact ⟨.cons (.acted (hscript.1 _ _)) htells, hs'⟩
  | write name value next ih =>
    obtain ⟨⟨s₁, K⟩, hK, hr⟩ := Option.bind_eq_some_iff.1 h
    obtain ⟨⟨s₂, L⟩, hL, hr⟩ := Option.map_eq_some_iff.1 hr
    cases hr
    obtain ⟨hfirst, hs₁⟩ := hwrite hs hK
    obtain ⟨hrest, hs₂⟩ := ih hscript hs₁ hL
    exact ⟨hfirst.append hrest, hs₂⟩
  | listen subscriber next _ ih =>
    obtain ⟨⟨s₁, K⟩, hK, hr⟩ := Option.map_eq_some_iff.1 h
    cases hr
    obtain ⟨htells, hs'⟩ := ih hscript.2 (s := (s.1.subscribe subscriber, s.2))
      (hs.subscribe hscript.1) hK
    exact ⟨.cons (.joined _ subscriber) htells, hs'⟩

namespace Store

theorem tells_recordCalls
    (hwrite : ∀ {p name value s s' J}, s.1.Answers answer allowed →
      write p name value s = some (s', J) →
        Tells answer allowed .nothing s J .nothing s' ∧ s'.1.Answers answer allowed)
    {subscribers : List (Subscriber ε)}
    (hsubscribers : ∀ subscriber ∈ subscribers, ∀ name value, (subscriber name value).Acts allowed)
    {w p k : Nat} {name : String} {value : Value} {s s' : Scene ε} {J : Journal ε}
    (hs : s.1.Answers answer allowed)
    (h : recordCalls write w name value p (k + 1) subscribers s = some (s', J)) :
    Tells answer allowed .nothing s J .nothing s' ∧ s'.1.Answers answer allowed := by
  induction subscribers generalizing p k s J with
  | nil =>
    cases h
    exact ⟨.nil, hs⟩
  | cons subscriber rest ih =>
    obtain ⟨⟨s₁, K⟩, hK, hr⟩ := Option.bind_eq_some_iff.1 h
    obtain ⟨⟨s₂, L⟩, hL, hr⟩ := Option.map_eq_some_iff.1 hr
    cases hr
    obtain ⟨hfirst, hothers⟩ := List.forall_mem_cons.1 hsubscribers
    obtain ⟨hcall, hs₁⟩ := Script.tells_record hwrite (hfirst _ _) hs hK
    obtain ⟨hrest, hs₂⟩ := ih hothers hs₁ hL
    exact ⟨.cons (.called w k name value) (hcall.append hrest), hs₂⟩

/-- A write is answered before any other subscriber is called. -/
theorem tells_recordWrite {depth p : Nat} {name : String} {value : Value} {s s' : Scene ε}
    {J : Journal ε} (hs : s.1.Answers answer allowed)
    (h : recordWrite depth p name value s = some (s', J)) :
    Tells answer allowed .nothing s J .nothing s' ∧ s'.1.Answers answer allowed := by
  induction depth generalizing p name value s s' J with
  | zero => cases h
  | succ depth ih =>
    obtain ⟨⟨s₁, K⟩, hK, hr⟩ := Option.map_eq_some_iff.1 h
    cases hr
    obtain ⟨others, hsubs, hothers⟩ := hs
    rw [hsubs, recordCalls, Script.record, Script.record] at hK
    obtain ⟨⟨s₂, L⟩, hL, hr⟩ := Option.map_eq_some_iff.1 hK
    cases hr
    obtain ⟨hcalls, hs₂⟩ := tells_recordCalls ih hothers
      (s := (s.1.put name value, answer (s.1.put name value).data s.2)) ⟨others, hsubs, hothers⟩ hL
    refine ⟨.cons (.stored name value) (.cons (.first p name value) (.cons .answered ?_)), hs₂⟩
    exact hcalls.append (.cons (.returned p) .nil)

theorem tells_recorded {depth : Nat} {script : Script ε} {s s' : Scene ε} {J : Journal ε}
    (hscript : script.Acts allowed) (hs : s.1.Answers answer allowed)
    (h : recorded depth script s = some (s', J)) :
    Tells answer allowed .nothing s J .nothing s' ∧ s'.1.Answers answer allowed :=
  Script.tells_record tells_recordWrite hscript hs h

end Store

end

end LivePage
