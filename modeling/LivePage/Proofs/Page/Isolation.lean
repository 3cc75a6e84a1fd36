import LivePage.Proofs.Page.Neighbours

namespace LivePage

open Markup Template

variable {σ : Type}

def Page.beside (σ : Type) : Surroundings (σ × Page) :=
  ⟨Prod.snd, fun change e ↦ (e.1, change e.2), fun _ _ ↦ rfl⟩

/-- Scripts that use the store and the memory as they like. They do not look at the page, and change
it only to render the application again. -/
def Script.KeepsTo (a : AppId) : Script (σ × Page) → Prop
  | stop => True
  | look next => ∀ data m, (∀ p q, next data (m, p) = next data (m, q)) ∧
    ∀ p, (next data (m, p)).KeepsTo a
  | act change next =>
    (∀ data m, ∃ m', (∀ p, change data (m, p) = (m', p)) ∨
      ∀ p, change data (m, p) = (m', p.rerender a data)) ∧ next.KeepsTo a
  | .write _ _ next => next.KeepsTo a
  | listen subscriber next => (∀ name value, (subscriber name value).KeepsTo a) ∧ next.KeepsTo a

theorem Script.keepsTo_set (a : AppId) (name : String) (value : Value) :
    (set name value : Script (σ × Page)).KeepsTo a :=
  trivial

theorem Script.keepsTo_update (a : AppId) (name : String)
    {change : Value → (Value → Script (σ × Page)) → Script (σ × Page)}
    (h : ∀ value next, (∀ value', (next value').KeepsTo a) → (change value next).KeepsTo a) :
    (update name change).KeepsTo a := by
  intro data m
  refine ⟨fun _ _ ↦ rfl, fun _ ↦ ?_⟩
  dsimp only
  split
  · trivial
  · exact h _ _ fun value' ↦ keepsTo_set a name value'

def Store.KeepsTo (s : Store (σ × Page)) (a : AppId) : Prop :=
  ∀ subscriber ∈ s.subscribers, ∀ name value, (subscriber name value).KeepsTo a

theorem App.keepsTo_rerenders (a : AppId) (name : String) (value : Value) :
    (App.rerenders (Page.beside σ).lift a name value).KeepsTo a :=
  ⟨fun _ m ↦ ⟨m, .inr fun _ ↦ rfl⟩, trivial⟩

theorem Store.keepsTo_of_mount {γ : Type} (o : MountOptions γ) (a : AppId) :
    (o.store (Page.beside σ).lift a).KeepsTo a := by
  intro subscriber hmem name value
  obtain rfl := List.mem_singleton.1 hmem
  exact App.keepsTo_rerenders a name value

/-- What is done to a store and a memory, and the data that the application is rendered from, one
after another. -/
structure Effect (σ : Type) where
  store : Store (σ × Page)
  memory : σ
  renders : List Data

def Effect.on (x : Effect σ) (a : AppId) (p : Page) : Scene (σ × Page) :=
  (x.store, x.memory, x.renders.foldl (fun p data ↦ p.rerender a data) p)

def Steady (a : AppId) (g : Page → Option (Scene (σ × Page))) : Prop :=
  ∃ r : Option (Effect σ), (∀ p, g p = r.map (·.on a p)) ∧ ∀ x ∈ r, x.store.KeepsTo a

namespace Steady

variable {a : AppId} {s : Store (σ × Page)} {g : Page → Option (Scene (σ × Page))}

theorem pure (hs : s.KeepsTo a) (m : σ) : Steady a fun p ↦ some (s, m, p) := by
  refine ⟨some ⟨s, m, []⟩, fun _ ↦ rfl, fun x hx ↦ ?_⟩
  obtain rfl := Option.some.inj hx
  exact hs

theorem rerender (hs : s.KeepsTo a) (m : σ) (data : Data) :
    Steady a fun p ↦ some (s, m, p.rerender a data) := by
  refine ⟨some ⟨s, m, [data]⟩, fun _ ↦ rfl, fun x hx ↦ ?_⟩
  obtain rfl := Option.some.inj hx
  exact hs

theorem bind {k : Scene (σ × Page) → Option (Scene (σ × Page))} (hg : Steady a g)
    (hk : ∀ s m, s.KeepsTo a → Steady a fun p ↦ k (s, m, p)) :
    Steady a fun p ↦ (g p).bind k := by
  obtain ⟨r, hr, hkeeps⟩ := hg
  cases r with
  | none =>
    refine ⟨none, fun p ↦ ?_, nofun⟩
    dsimp only
    rw [hr, Option.map_none, Option.bind_none]
  | some x =>
    obtain ⟨r', hr', hkeeps'⟩ := hk x.store x.memory (hkeeps x rfl)
    refine ⟨r'.map fun y ↦ { y with renders := x.renders ++ y.renders }, fun p ↦ ?_, ?_⟩
    · dsimp only at hr' ⊢
      rw [hr, Option.map_some, Option.bind_some, Effect.on, hr', Option.map_map]
      congr 1
      funext y
      rw [Function.comp_apply, Effect.on, Effect.on, List.foldl_append]
    · intro z hz
      obtain ⟨y, hy, rfl⟩ := Option.map_eq_some_iff.1 hz
      exact hkeeps' y hy

theorem run {write : String → Value → Scene (σ × Page) → Option (Scene (σ × Page))}
    (hwrite : ∀ name value s m, s.KeepsTo a → Steady a fun p ↦ write name value (s, m, p))
    {script : Script (σ × Page)} (h : script.KeepsTo a) (hs : s.KeepsTo a) (m : σ) :
    Steady a fun p ↦ script.run write (s, m, p) := by
  induction script generalizing s m with
  | stop => exact pure hs m
  | look next ih =>
    obtain ⟨hsame, hnext⟩ := h s.data m
    obtain ⟨r, hr, hkeeps⟩ := ih s.data (m, default) (hnext default) hs m
    refine ⟨r, fun p ↦ ?_, hkeeps⟩
    change (next s.data (m, p)).run write (s, m, p) = _
    rw [hsame p default]
    exact hr p
  | act change next ih =>
    obtain ⟨m', hchange | hchange⟩ := h.1 s.data m
    · obtain ⟨r, hr, hkeeps⟩ := ih h.2 hs m'
      refine ⟨r, fun p ↦ ?_, hkeeps⟩
      change next.run write (s, change s.data (m, p)) = _
      rw [hchange]
      exact hr p
    · obtain ⟨r, hr, hkeeps⟩ := (rerender hs m' s.data).bind fun s m hs ↦ ih h.2 hs m
      refine ⟨r, fun p ↦ ?_, hkeeps⟩
      change next.run write (s, change s.data (m, p)) = _
      rw [hchange]
      exact hr p
  | write name value next ih => exact (hwrite name value s m hs).bind fun s m hs ↦ ih h hs m
  | listen subscriber next _ ih =>
    refine ih h.2 (fun x hx ↦ ?_) m
    rcases List.mem_append.1 hx with hx | hx
    · exact hs x hx
    · obtain rfl := List.mem_singleton.1 hx
      exact h.1

theorem calls {write : String → Value → Scene (σ × Page) → Option (Scene (σ × Page))}
    (hwrite : ∀ name value s m, s.KeepsTo a → Steady a fun p ↦ write name value (s, m, p))
    {subscribers : List (Subscriber (σ × Page))}
    (h : ∀ subscriber ∈ subscribers, ∀ name value, (subscriber name value).KeepsTo a)
    (name : String) (value : Value) (hs : s.KeepsTo a) (m : σ) :
    Steady a fun p ↦ subscribers.foldlM (fun s subscriber ↦ (subscriber name value).run write s)
      (s, m, p) := by
  induction subscribers generalizing s m with
  | nil => exact pure hs m
  | cons subscriber rest ih =>
    obtain ⟨hfirst, hrest⟩ := List.forall_mem_cons.1 h
    simp only [List.foldlM_cons]
    exact (run hwrite (hfirst name value) hs m).bind fun s m hs ↦ ih hrest hs m

theorem write (depth : Nat) (name : String) (value : Value) (s : Store (σ × Page)) (m : σ)
    (hs : s.KeepsTo a) : Steady a fun p ↦ Store.write depth name value (s, m, p) := by
  induction depth generalizing name value s m with
  | zero => exact ⟨none, fun _ ↦ rfl, nofun⟩
  | succ depth ih => exact calls ih hs name value (s := s.put name value) hs m

theorem perform {script : Script (σ × Page)} (h : script.KeepsTo a) (depth : Nat)
    (hs : s.KeepsTo a) (m : σ) : Steady a fun p ↦ Store.perform depth script (s, m, p) :=
  run (write depth) h hs m

end Steady

/-- A page with the stores and the memories of the applications on it. -/
structure Company (σ : Type) where
  page : Page
  store : AppId → Store (σ × Page)
  memory : AppId → σ

/-- An operation on the store of an application, or nodes that nothing holds are dropped. -/
inductive Turn (σ : Type)
  | perform (a : AppId) (depth : Nat) (script : Script (σ × Page))
  | release (held : List NodeId)

def Turn.app? : Turn σ → Option AppId
  | perform a _ _ => some a
  | release _ => none

def Turn.Fits (d : NodeId) (as : List AppId) : Turn σ → Prop
  | perform a _ script => a ∈ as ∧ script.KeepsTo a
  | release held => d ∈ held

def own (a : AppId) (turns : List (Turn σ)) : List (Turn σ) :=
  turns.filter (·.app? = some a)

theorem own_append (a : AppId) (turns turns' : List (Turn σ)) :
    own a (turns ++ turns') = own a turns ++ own a turns' :=
  List.filter_append _ _

theorem own_cons_self {a : AppId} {t : Turn σ} (h : t.app? = some a) (turns : List (Turn σ)) :
    own a (t :: turns) = t :: own a turns := by
  simp only [own, List.filter_cons, h, decide_true, if_true]

theorem own_cons_of_ne {a : AppId} {t : Turn σ} (h : t.app? ≠ some a) (turns : List (Turn σ)) :
    own a (t :: turns) = own a turns := by
  simp only [own, List.filter_cons, h, decide_false, Bool.false_eq_true, if_false]

namespace Company

def take (c : Company σ) : Turn σ → Option (Company σ)
  | .perform a depth script =>
    (Store.perform depth script (c.store a, c.memory a, c.page)).map fun s ↦
      ⟨s.2.2, Function.update c.store a s.1, Function.update c.memory a s.2.1⟩
  | .release held => some { c with page := { c.page with forest := c.page.forest.collect held } }

def run (c : Company σ) (turns : List (Turn σ)) : Option (Company σ) :=
  turns.foldlM take c

theorem run_cons (c : Company σ) (t : Turn σ) (turns : List (Turn σ)) :
    c.run (t :: turns) = (c.take t).bind (·.run turns) :=
  List.foldlM_cons

theorem run_append (c : Company σ) (turns turns' : List (Turn σ)) :
    c.run (turns ++ turns') = (c.run turns).bind (·.run turns') :=
  List.foldlM_append

/-- A run that does not end comes to a turn that does not. -/
theorem exists_stuck {c : Company σ} {turns : List (Turn σ)} (h : c.run turns = none) :
    ∃ before t after c', turns = before ++ t :: after ∧ c.run before = some c' ∧
      c'.take t = none := by
  induction turns generalizing c with
  | nil => cases h
  | cons t turns ih =>
    rw [run_cons] at h
    cases ht : c.take t with
    | none => exact ⟨[], t, turns, c, rfl, rfl, ht⟩
    | some c₁ =>
      rw [ht, Option.bind_some] at h
      obtain ⟨before, t', after, c', rfl, hrun, hstuck⟩ := ih h
      refine ⟨t :: before, t', after, c', rfl, ?_, hstuck⟩
      rw [run_cons, ht, Option.bind_some, hrun]

def after (c : Company σ) (a : AppId) (x : Effect σ) : Company σ :=
  ⟨(x.on a c.page).2.2, Function.update c.store a x.store, Function.update c.memory a x.memory⟩

theorem store_after_self (c : Company σ) (a : AppId) (x : Effect σ) :
    (c.after a x).store a = x.store :=
  Function.update_self _ _ _

theorem memory_after_self (c : Company σ) (a : AppId) (x : Effect σ) :
    (c.after a x).memory a = x.memory :=
  Function.update_self _ _ _

theorem store_after_of_ne {a b : AppId} (h : b ≠ a) (c : Company σ) (x : Effect σ) :
    (c.after a x).store b = c.store b :=
  Function.update_of_ne h _ _

theorem memory_after_of_ne {a b : AppId} (h : b ≠ a) (c : Company σ) (x : Effect σ) :
    (c.after a x).memory b = c.memory b :=
  Function.update_of_ne h _ _

theorem exists_effect {a : AppId} {s : Store (σ × Page)} (hs : s.KeepsTo a) (m : σ) (depth : Nat)
    {script : Script (σ × Page)} (h : script.KeepsTo a) :
    ∃ r : Option (Effect σ), (∀ c : Company σ, c.store a = s → c.memory a = m →
      c.take (.perform a depth script) = r.map (c.after a)) ∧ ∀ x ∈ r, x.store.KeepsTo a := by
  obtain ⟨r, hr, hkeeps⟩ := Steady.perform h depth hs m
  refine ⟨r, fun c hstore hmemory ↦ ?_, hkeeps⟩
  dsimp only at hr
  rw [take, hstore, hmemory, hr, Option.map_map]
  rfl

/-- The applications have their places on the page, and each store is used by one of them. -/
structure Hosts (c : Company σ) (d : NodeId) (as : List AppId) : Prop where
  page : c.page.Hosts d as
  stores : ∀ a ∈ as, (c.store a).KeepsTo a

structure Same (a : AppId) (c c' : Company σ) : Prop where
  store : c.store a = c'.store a
  memory : c.memory a = c'.memory a
  view : c.page.view? a = c'.page.view? a

theorem Same.trans {a : AppId} {c c₁ c₂ : Company σ} (h : Same a c c₁) (h' : Same a c₁ c₂) :
    Same a c c₂ :=
  ⟨h.store.trans h'.store, h.memory.trans h'.memory, h.view.trans h'.view⟩

theorem Same.symm {a : AppId} {c c' : Company σ} (h : Same a c c') : Same a c' c :=
  ⟨h.store.symm, h.memory.symm, h.view.symm⟩

variable {c c₁ c' : Company σ} {d : NodeId} {as : List AppId} {a b : AppId} {x : Effect σ}
  {t : Turn σ} {turns : List (Turn σ)}

namespace Hosts

theorem after (h : c.Hosts d as) (ha : a ∈ as) (hx : x.store.KeepsTo a) :
    (c.after a x).Hosts d as ∧ (c.after a x).page.around d as = c.page.around d as ∧
      ∀ b ∈ as, b ≠ a → Same b (c.after a x) c := by
  obtain ⟨hpage, haround, hviews, -⟩ := h.page.renders ha x.renders
  refine ⟨⟨hpage, fun b hb ↦ ?_⟩, haround, fun b hb hba ↦ ?_⟩
  · by_cases hba : b = a
    · obtain rfl := hba
      rwa [store_after_self]
    · rw [store_after_of_ne hba]
      exact h.stores b hb
  · exact ⟨store_after_of_ne hba c x, memory_after_of_ne hba c x, hviews b hb hba⟩

theorem same_after (h : c.Hosts d as) (h₁ : c₁.Hosts d as) (ha : a ∈ as) (hs : Same a c c₁) :
    Same a (c.after a x) (c₁.after a x) := by
  obtain ⟨-, -, -, hview⟩ := h.page.renders ha x.renders
  obtain ⟨-, -, -, hview₁⟩ := h₁.page.renders ha x.renders
  refine ⟨?_, ?_, ?_⟩
  · rw [store_after_self, store_after_self]
  · rw [memory_after_self, memory_after_self]
  · exact hview.trans (hs.view ▸ hview₁.symm)

theorem take (h : c.Hosts d as) (ht : t.Fits d as) (htake : c.take t = some c') :
    c'.Hosts d as ∧ c'.page.around d as = c.page.around d as ∧
      ∀ b ∈ as, t.app? ≠ some b → Same b c' c := by
  cases t with
  | perform a depth script =>
    obtain ⟨ha, hscript⟩ := ht
    obtain ⟨r, hr, hkeeps⟩ := exists_effect (h.stores a ha) (c.memory a) depth hscript
    rw [hr c rfl rfl] at htake
    obtain ⟨x, hx, rfl⟩ := Option.map_eq_some_iff.1 htake
    obtain ⟨hosts, haround, hsame⟩ := h.after ha (hkeeps x hx)
    exact ⟨hosts, haround, fun b hb hba ↦ hsame b hb fun hab ↦ hba (congrArg some hab.symm)⟩
  | release held =>
    obtain rfl := Option.some.inj htake
    obtain ⟨hpage, haround, hviews⟩ := h.page.collect ht
    exact ⟨⟨hpage, h.stores⟩, haround, fun b hb _ ↦ ⟨rfl, rfl, hviews b hb⟩⟩

theorem take_own (h : c.Hosts d as) (h₁ : c₁.Hosts d as) (hs : Same a c c₁) (ht : t.Fits d as)
    (hown : t.app? = some a) (htake : c.take t = some c') :
    ∃ c₁', c₁.take t = some c₁' ∧ Same a c' c₁' := by
  cases t with
  | release held => cases hown
  | perform b depth script =>
    obtain rfl := Option.some.inj hown
    obtain ⟨hb, hscript⟩ := ht
    obtain ⟨r, hr, -⟩ := exists_effect (h.stores b hb) (c.memory b) depth hscript
    rw [hr c rfl rfl] at htake
    obtain ⟨x, hx, rfl⟩ := Option.map_eq_some_iff.1 htake
    refine ⟨c₁.after b x, ?_, h.same_after h₁ hb hs⟩
    rw [hr c₁ hs.store.symm hs.memory.symm, hx, Option.map_some]

theorem run (h : c.Hosts d as) (hturns : ∀ t ∈ turns, t.Fits d as) (hrun : c.run turns = some c') :
    c'.Hosts d as ∧ c'.page.around d as = c.page.around d as := by
  induction turns generalizing c with
  | nil =>
    obtain rfl := Option.some.inj hrun
    exact ⟨h, rfl⟩
  | cons t turns ih =>
    obtain ⟨ht, hturns⟩ := List.forall_mem_cons.1 hturns
    rw [run_cons] at hrun
    obtain ⟨c₂, htake, hrun⟩ := Option.bind_eq_some_iff.1 hrun
    obtain ⟨h₂, haround, -⟩ := h.take ht htake
    obtain ⟨h', haround'⟩ := ih h₂ hturns hrun
    exact ⟨h', haround'.trans haround⟩

/-- An application runs alone as it runs with the others. -/
theorem run_own (h : c.Hosts d as) (h₁ : c₁.Hosts d as) (ha : a ∈ as) (hs : Same a c c₁)
    (hturns : ∀ t ∈ turns, t.Fits d as) (hrun : c.run turns = some c') :
    ∃ c₁', c₁.run (own a turns) = some c₁' ∧ c₁'.Hosts d as ∧ Same a c' c₁' := by
  induction turns generalizing c c₁ with
  | nil =>
    obtain rfl := Option.some.inj hrun
    exact ⟨c₁, rfl, h₁, hs⟩
  | cons t turns ih =>
    obtain ⟨ht, hturns⟩ := List.forall_mem_cons.1 hturns
    rw [run_cons] at hrun
    obtain ⟨c₂, htake, hrun⟩ := Option.bind_eq_some_iff.1 hrun
    obtain ⟨h₂, -, hothers⟩ := h.take ht htake
    by_cases hown : t.app? = some a
    · obtain ⟨c₃, htake₁, hs₂⟩ := h.take_own h₁ hs ht hown htake
      obtain ⟨c₁', hrun₁, hsame⟩ := ih h₂ (h₁.take ht htake₁).1 hs₂ hturns hrun
      refine ⟨c₁', ?_, hsame⟩
      rwa [own_cons_self hown, run_cons, htake₁, Option.bind_some]
    · have hs₂ := (hothers a ha hown).trans hs
      rw [own_cons_of_ne hown]
      exact ih h₂ h₁ hs₂ hturns hrun

/-- A company comes through its turns if each of the applications comes through its own. -/
theorem isSome_run_iff (h : c.Hosts d as) (hturns : ∀ t ∈ turns, t.Fits d as) :
    (c.run turns).isSome = true ↔ ∀ a ∈ as, (c.run (own a turns)).isSome = true := by
  constructor
  · intro hsome a ha
    obtain ⟨c', hrun⟩ := Option.isSome_iff_exists.1 hsome
    obtain ⟨c₁', hrun₁, -⟩ := h.run_own h ha ⟨rfl, rfl, rfl⟩ hturns hrun
    rw [hrun₁]
    rfl
  · intro hown
    by_contra hnone
    obtain ⟨before, t, after, c', rfl, hrun, hstuck⟩ :=
      exists_stuck (Option.not_isSome_iff_eq_none.1 hnone)
    rw [List.forall_mem_append, List.forall_mem_cons] at hturns
    obtain ⟨hbefore, ht, -⟩ := hturns
    cases t with
    | release held => cases hstuck
    | perform a depth script =>
      obtain ⟨c₁', hrun₁, h₁', hs'⟩ := h.run_own h ht.1 ⟨rfl, rfl, rfl⟩ hbefore hrun
      have hnone₁ : c₁'.take (.perform a depth script) = none := by
        by_contra htake
        obtain ⟨c₂, htake⟩ := Option.ne_none_iff_exists'.1 htake
        obtain ⟨c₃, hsome, -⟩ := h₁'.take_own (h.run hbefore hrun).1 hs'.symm ht rfl htake
        rw [hstuck] at hsome
        cases hsome
      have hsome := hown a ht.1
      rw [own_append, own_cons_self rfl, run_append, hrun₁, Option.bind_some, run_cons, hnone₁]
        at hsome
      cases hsome

end Hosts

/-- Applications below one node of a page, in roots of which none is in another, each with its own
store, take turns. They come through them in every order in which each comes through its own turns
alone. Then the root of each shows the markup that it shows alone, with the same data, diagnostics
and number of passes, and the markup of the node is the same in every order. -/
theorem isolated {c : Company σ} {h : Heap} (hr : Reach c.page h) {d : NodeId} {as : List AppId}
    (hroots : ∀ a ∈ as, ∃ app, c.page.app? a = some app ∧ app.root ∈ (c.page.forest.below d).ids)
    (hapart : ∀ a ∈ as, ∀ b ∈ as, a ≠ b → ∀ app other, c.page.app? a = some app →
      c.page.app? b = some other → c.page.forest.encloses app.root other.root = false)
    (hstores : ∀ a ∈ as, (c.store a).KeepsTo a) {turns : List (Turn σ)}
    (hturns : ∀ t ∈ turns, t.Fits d as) :
    ((c.run turns).isSome = true ↔ ∀ a ∈ as, (c.run (own a turns)).isSome = true) ∧
      ∀ c', c.run turns = some c' →
        (∀ a ∈ as, ∀ c₁, c.run (own a turns) = some c₁ →
          (c'.store a).data = (c₁.store a).data ∧
            ∃ app app₁, c'.page.app? a = some app ∧ c₁.page.app? a = some app₁ ∧
              c'.page.forest.inner app.root = c₁.page.forest.inner app₁.root ∧
              c'.page.forest.outer app.root = c₁.page.forest.outer app₁.root ∧
              app.diagnostics = app₁.diagnostics ∧ app.passes = app₁.passes) ∧
        ∀ turns' : List (Turn σ), (∀ t ∈ turns', t.Fits d as) →
          (∀ a ∈ as, own a turns' = own a turns) → ∃ c'', c.run turns' = some c'' ∧
            c''.page.forest.inner d = c'.page.forest.inner d ∧
            c''.page.forest.outer d = c'.page.forest.outer d := by
  have hwell := hr.represents.wellFormed
  have hosts : c.Hosts d as := by
    refine ⟨⟨fun a ha ↦ ?_, hapart⟩, hstores⟩
    obtain ⟨app, happ, hmem⟩ := hroots a ha
    exact ⟨app, ⟨hwell, happ, hwell.parent?_of_mem_below hmem, hr.lower_tag _⟩, hmem⟩
  have hself : ∀ a, Same a c c := fun a ↦ ⟨rfl, rfl, rfl⟩
  refine ⟨hosts.isSome_run_iff hturns, fun c' hrun ↦ ⟨fun a ha c₁ hrun₁ ↦ ?_, ?_⟩⟩
  · obtain ⟨c₂, hrun₂, hosts₁, hsame⟩ := hosts.run_own hosts ha (hself a) hturns hrun
    obtain rfl := Option.some.inj (hrun₁.symm.trans hrun₂)
    obtain ⟨app, hmounted, -⟩ := (hosts.run hturns hrun).1.page.mounted a ha
    obtain ⟨app₁, hmounted₁, -⟩ := hosts₁.page.mounted a ha
    exact ⟨congrArg Store.data hsame.store, app, app₁, hmounted.app_eq, hmounted₁.app_eq,
      hmounted.shown_eq hmounted₁ hsame.view⟩
  · intro turns' hturns' hown
    have hsome : (c.run turns').isSome = true := by
      rw [hosts.isSome_run_iff hturns']
      intro a ha
      obtain ⟨c₁, hrun₁, -⟩ := hosts.run_own hosts ha (hself a) hturns hrun
      rw [hown a ha, hrun₁]
      rfl
    obtain ⟨c'', hrun'⟩ := Option.isSome_iff_exists.1 hsome
    obtain ⟨hosts', haround⟩ := hosts.run hturns hrun
    obtain ⟨hosts'', haround'⟩ := hosts.run hturns' hrun'
    refine ⟨c'', hrun', hosts''.page.markup_eq hosts'.page (haround'.trans haround.symm) ?_⟩
    intro a ha
    obtain ⟨c₁, hrun₁, -, hsame⟩ := hosts.run_own hosts ha (hself a) hturns hrun
    obtain ⟨c₂, hrun₂, -, hsame'⟩ := hosts.run_own hosts ha (hself a) hturns' hrun'
    rw [hown a ha] at hrun₂
    obtain rfl := Option.some.inj (hrun₁.symm.trans hrun₂)
    exact hsame'.view.trans hsame.view.symm

end Company

def pairedOptions (a : AppId) : MountOptions Unit :=
  if a = 0 then { el := some "#list", data := .ofPairs [("xs", .list [.string "a"])] }
  else { el := some "#note", strategy := .inPlace }

def pairedPage : Page :=
  [.parse ("<ul id=list><li d-for='x in xs'>\x7b\x7bx\x7d\x7d</li></ul>" ++
      "<p id=note><b>\x7b\x7bn\x7d\x7d</b></p>"),
    .mount 0 (pairedOptions 0), .mount 0 (pairedOptions 1)].foldl Op.onPage {}

def pairedCompany : Company Unit :=
  ⟨pairedPage, fun a ↦ (pairedOptions a).store (Page.beside Unit).lift a, fun _ ↦ ()⟩

def pairedTurns : List (Turn Unit) :=
  [.perform 0 1 (.set "xs" (.list [.string "b", .string "c"])),
    .perform 1 1 (.set "n" (.string "1")), .release [0],
    .perform 0 1 (.update "xs" fun _ next ↦ next (.list [.string "d"])),
    .perform 1 1 (App.rerenders (Page.beside Unit).lift 1 "n" (.bool true))]

def pairedTurns' : List (Turn Unit) :=
  own 1 pairedTurns ++ own 0 pairedTurns

theorem Company.isolated_paired :
    ∃ h c' c'' c₁ app app₁, Reach pairedCompany.page h ∧ pairedCompany.run pairedTurns = some c' ∧
      pairedCompany.run pairedTurns' = some c'' ∧ pairedCompany.run (own 0 pairedTurns) = some c₁ ∧
      c'.page.app? 0 = some app ∧ c₁.page.app? 0 = some app₁ ∧
      c'.page.forest.outer app.root = c₁.page.forest.outer app₁.root ∧
      c'.page.forest.inner 0 = "<html><head></head><body>" ++
        "<ul id=\"list\"><li>d</li></ul><p id=\"note\"><b>1</b></p></body></html>" ∧
      c''.page.forest.inner 0 = c'.page.forest.inner 0 := by
  obtain ⟨h, hreach⟩ : ∃ h, Reach pairedPage h := Reach.start.all _ (by decide +kernel)
  have hroots : ∀ a ∈ [0, 1], ∃ app, pairedPage.app? a = some app ∧
      app.root ∈ (pairedPage.forest.below 0).ids := by
    have hall : ∀ a ∈ [0, 1], (pairedPage.app? a).map (fun app ↦
        (app.root ∈ (pairedPage.forest.below 0).ids : Bool)) = some true := by decide +kernel
    intro a ha
    obtain ⟨app, happ, hroot⟩ := Option.map_eq_some_iff.1 (hall a ha)
    exact ⟨app, happ, of_decide_eq_true hroot⟩
  have hapart : ∀ a ∈ [0, 1], ∀ b ∈ [0, 1], a ≠ b → ∀ app other, pairedPage.app? a = some app →
      pairedPage.app? b = some other →
        pairedPage.forest.encloses app.root other.root = false := by
    have hall : ∀ a ∈ [0, 1], ∀ b ∈ [0, 1], a ≠ b → ((pairedPage.app? a).bind fun app ↦
        (pairedPage.app? b).map fun other ↦ pairedPage.forest.encloses app.root other.root) =
          some false := by decide +kernel
    intro a ha b hb hab app other happ hother
    have heq := hall a ha b hb hab
    rw [happ, hother] at heq
    exact Option.some.inj heq
  have hturns : ∀ t ∈ pairedTurns, t.Fits 0 [0, 1] := by
    simp only [pairedTurns, List.forall_mem_cons, Turn.Fits]
    exact ⟨⟨by decide, Script.keepsTo_set ..⟩, ⟨by decide, Script.keepsTo_set ..⟩, by decide,
      ⟨by decide, Script.keepsTo_update _ _ fun _ _ h ↦ h _⟩,
      ⟨by decide, App.keepsTo_rerenders ..⟩, nofun⟩
  have hturns' : ∀ t ∈ pairedTurns', t.Fits 0 [0, 1] := by
    intro t ht
    refine hturns t ?_
    rcases List.mem_append.1 ht with ht | ht <;> exact List.mem_of_mem_filter ht
  have hown : ∀ a ∈ [0, 1], own a pairedTurns' = own a pairedTurns := by
    simp only [List.forall_mem_cons]
    exact ⟨rfl, rfl, nofun⟩
  have hrun : (pairedCompany.run pairedTurns).map (fun c ↦ c.page.forest.inner 0) =
      some ("<html><head></head><body>" ++
        "<ul id=\"list\"><li>d</li></ul><p id=\"note\"><b>1</b></p></body></html>") := by
    decide +kernel
  obtain ⟨c', hrun, hinner⟩ := Option.map_eq_some_iff.1 hrun
  obtain ⟨hsome, hall⟩ := Company.isolated (c := pairedCompany) hreach hroots hapart
    (fun a _ ↦ Store.keepsTo_of_mount (pairedOptions a) a) hturns
  obtain ⟨c₁, hrun₁⟩ := Option.isSome_iff_exists.1 (hsome.1 (by rw [hrun]; rfl) 0 (by decide))
  obtain ⟨hsame, hother⟩ := hall c' hrun
  obtain ⟨-, app, app₁, happ, happ₁, -, houter, -⟩ := hsame 0 (by decide) c₁ hrun₁
  obtain ⟨c'', hrun', hinner', -⟩ := hother pairedTurns' hturns' hown
  exact ⟨h, c', c'', c₁, app, app₁, hreach, hrun, hrun', hrun₁, happ, happ₁, houter, hinner,
    hinner'⟩

end LivePage
