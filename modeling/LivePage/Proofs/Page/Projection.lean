import LivePage.Page.Mount
import LivePage.Proofs.Page.Rerender
import LivePage.Proofs.Store.Journal

namespace LivePage

open Markup Template

theorem Markup.Nodes.mem_ids_of_mem_walk {ι : Type} {rows : List (Nodes ι)} {e : ι × Label}
    (h : e ∈ walk rows) : ∃ row ∈ rows, e.1 ∈ row.ids := by
  fun_induction walk rows with
  | case1 => cases h
  | case2 rows ih =>
    obtain ⟨row, hrow, he⟩ := ih h
    exact ⟨row, List.mem_cons_of_mem _ hrow, he⟩
  | case3 s rest rows ih | case4 s rest rows ih =>
    obtain ⟨row, hrow, he⟩ := ih h
    rcases List.mem_cons.1 hrow with rfl | hrow
    · exact ⟨_, List.mem_cons_self, he⟩
    · exact ⟨row, List.mem_cons_of_mem _ hrow, he⟩
  | case5 i l below rest rows ih =>
    rcases List.mem_cons.1 h with rfl | h
    · exact ⟨_, List.mem_cons_self, List.mem_cons_self⟩
    · obtain ⟨row, hrow, he⟩ := ih h
      rcases List.mem_cons.1 hrow with rfl | hrow
      · exact ⟨_, List.mem_cons_self, List.mem_cons_of_mem _ (List.mem_append_left _ he)⟩
      · rcases List.mem_cons.1 hrow with rfl | hrow
        · exact ⟨_, List.mem_cons_self, List.mem_cons_of_mem _ (List.mem_append_right _ he)⟩
        · exact ⟨row, List.mem_cons_of_mem _ hrow, he⟩

namespace Forest

variable {f : Forest}

theorem mem_below_of_query {i j : NodeId} {source : String} (h : f.query i source = .ok (some j)) :
    j ∈ (f.below i).ids := by
  unfold query at h
  cases hs : Selector.read source with
  | error e => rw [hs] at h; cases h
  | ok s =>
    rw [hs] at h
    have hhead : (f.selectAll i s).head? = some j := Except.ok.inj h
    obtain ⟨e, he, rfl⟩ := List.mem_map.1 (List.mem_of_mem_head? hhead)
    obtain ⟨row, hrow, hmem⟩ := Nodes.mem_ids_of_mem_walk (List.mem_filter.1 he).1
    obtain rfl := List.mem_singleton.1 hrow
    exact hmem

end Forest

namespace Page

variable {p p₁ : Page} {a : AppId} {γ : Type} {o : MountOptions γ} {d : NodeId}

theorem query_of_findRoot {el : Option String} {selector : String} {root : NodeId}
    (h : p.findRoot d el = .ok (selector, root)) : p.forest.query d selector = .ok (some root) := by
  unfold findRoot at h
  split at h
  · cases h
  · split at h
    · cases h
    · cases h
    · next hq =>
      cases h
      exact hq

theorem attached_of_findRoot (h : p.forest.WellFormed) {el : Option String} {selector : String}
    {root : NodeId} (hroot : p.findRoot d el = .ok (selector, root)) :
    (p.forest.parent? root).isSome = true :=
  h.parent?_of_mem_below (Forest.mem_below_of_query (query_of_findRoot hroot))

theorem bound_of_render {q : Page} {root : NodeId} {data : Data} {app : App}
    (h : p.forest.WellFormed) (hp : (p.forest.parent? root).isSome = true)
    (hf : q.forest = (render data p.forest root).forest) (happ : q.app? a = some app)
    (hroot : app.root = root) (hs : app.strategy = .destructive) : q.Bound a app := by
  obtain ⟨o, ho⟩ := Option.isSome_iff_exists.1 hp
  obtain ⟨F, l, below, rest, ht, howner⟩ := h.exists_fill_of_parent? ho
  have hforest : p.forest = ⟨F.fill (.branch root l below rest), p.forest.next⟩ := by
    rw [← ht]
  rw [hforest] at h hf
  refine ⟨hf ▸ wellFormed_render_fill data h, happ, hs, ?_⟩
  rw [hroot, hf, parent?_render_fill data h howner]
  rfl

theorem app?_of_mount (hm : p.mount d o = (.ok a, p₁)) : ∃ selector root,
    p.findRoot d o.el = .ok (selector, root) ∧
      p₁.forest = (render o.data p.forest root).forest ∧
      p₁.app? a = some ⟨selector, p.forest.inner root, root, o.strategy,
        (render o.data p.forest root).reports, 1⟩ := by
  unfold mount at hm
  cases hroot : p.findRoot d o.el with
  | error e =>
    rw [hroot] at hm
    cases hm
  | ok found =>
    obtain ⟨selector, root⟩ := found
    rw [hroot] at hm
    set app : App := ⟨selector, p.forest.inner root, root, o.strategy, [], 0⟩
    have happ : { p with apps := p.apps ++ [some app] }.app? p.apps.length = some app := by
      rw [app?, List.getElem?_append_right le_rfl, Nat.sub_self]
      rfl
    obtain ⟨hforest, happ'⟩ := renderPass_eq happ o.data
    obtain ⟨ha, rfl⟩ := Prod.ext_iff.1 hm
    obtain rfl : p.apps.length = a := Except.ok.inj ha
    exact ⟨selector, root, rfl, hforest, happ'⟩

theorem found_of_mount (hm : p.mount d o = (.ok a, p₁)) {root : NodeId}
    (hroot : (p₁.app? a).map App.root = some root) : ∃ selector,
      p.findRoot d o.el = .ok (selector, root) ∧
      p₁.forest = (render o.data p.forest root).forest ∧
      p₁.app? a = some ⟨selector, p.forest.inner root, root, o.strategy,
        (render o.data p.forest root).reports, 1⟩ := by
  obtain ⟨selector, root', hfound, hforest, happ⟩ := app?_of_mount hm
  rw [happ] at hroot
  obtain rfl := Option.some.inj hroot
  exact ⟨selector, hfound, hforest, happ⟩

theorem bound_of_mount (h : p.forest.WellFormed) (hs : o.strategy = .destructive)
    (hm : p.mount d o = (.ok a, p₁)) : ∃ app, p₁.Bound a app ∧ app.passes = 1 := by
  obtain ⟨selector, root, hroot, hforest, happ⟩ := app?_of_mount hm
  exact ⟨_, bound_of_render h (attached_of_findRoot h hroot) hforest happ rfl hs, rfl⟩

theorem mount_eq (h : (p.mount d o).1.toOption = some a) : p.mount d o = (.ok a, (p.mount d o).2) := by
  refine Prod.ext ?_ rfl
  cases hm : (p.mount d o).1 with
  | error e =>
    rw [hm] at h
    cases h
  | ok b =>
    rw [hm] at h
    exact congrArg Except.ok (Option.some.inj h)

end Page

/-- Surroundings that hold a page, and how the page in them is changed. -/
structure Surroundings (ε : Type) where
  page : ε → Page
  lift : (Page → Page) → ε → ε
  page_lift : ∀ change e, page (lift change e) = change (page e)

variable {ε : Type} (v : Surroundings ε) (a : AppId)

namespace Script

/-- Scripts that use the store as they like, and the page only to render an application again. -/
def Serves : Script ε → Prop
  | stop => True
  | look next => ∀ data e, (next data e).Serves
  | act change next =>
    (∀ data e, v.page (change data e) = v.page e ∨
      v.page (change data e) = (v.page e).rerender a data) ∧ next.Serves
  | .write _ _ next => next.Serves
  | listen subscriber next => (∀ name value, (subscriber name value).Serves) ∧ next.Serves

theorem serves_set (name : String) (value : Value) : (set name value : Script ε).Serves v a :=
  trivial

theorem serves_update (name : String) {change : Value → (Value → Script ε) → Script ε}
    (h : ∀ value next, (∀ value', (next value').Serves v a) → (change value next).Serves v a) :
    (update name change).Serves v a := by
  intro data _
  dsimp only
  split
  · trivial
  · exact h _ _ fun value' ↦ serves_set v a name value'

end Script

theorem App.serves_rerenders (name : String) (value : Value) :
    (App.rerenders v.lift a name value).Serves v a :=
  ⟨fun _ e ↦ .inr (v.page_lift _ e), trivial⟩

/-- The application is rendered first on every write, and shows the data of the moment once it has
been rendered again. -/
structure Stands (s : Scene ε) : Prop where
  subscribers : ∃ others, s.1.subscribers = App.rerenders v.lift a :: others ∧
    ∀ subscriber ∈ others, ∀ name value, (subscriber name value).Serves v a
  shows : ∃ app, (v.page s.2).Bound a app ∧
    (2 ≤ app.passes → (v.page s.2).ShowsProjection app s.1.data)

def Event.Ends : Event → Prop
  | returned _ | joined _ | acted => True
  | _ => False

namespace Stands

variable {v a}

/-- All operations that a journal tells of end in scenes of this kind. -/
def Throughout (v : Surroundings ε) (a : AppId) (J : Journal ε) (s : Scene ε) : Prop :=
  (∀ x ∈ J, x.event.Ends → Stands v a x.scene) ∧ Stands v a s

theorem Throughout.append {J K : Journal ε} {s t : Scene ε} (hJ : Throughout v a J s)
    (hK : Throughout v a K t) : Throughout v a (J ++ K) t := by
  refine ⟨fun x hx he ↦ ?_, hK.2⟩
  rcases List.mem_append.1 hx with hx | hx
  · exact hJ.1 x hx he
  · exact hK.1 x hx he

theorem Throughout.cons {x : Entry ε} {J : Journal ε} {s : Scene ε}
    (hx : x.event.Ends → Stands v a x.scene) (hJ : Throughout v a J s) :
    Throughout v a (x :: J) s := by
  refine ⟨fun y hy he ↦ ?_, hJ.2⟩
  rcases List.mem_cons.1 hy with rfl | hy
  · exact hx he
  · exact hJ.1 y hy he

theorem rerender {store : Store ε} {e e' : ε} {app : App}
    (hs : ∃ others, store.subscribers = App.rerenders v.lift a :: others ∧
      ∀ subscriber ∈ others, ∀ name value, (subscriber name value).Serves v a)
    (hb : (v.page e).Bound a app) (he : v.page e' = (v.page e).rerender a store.data) :
    Stands v a (store, e') := by
  obtain ⟨app', hb', hshows, -⟩ := hb.rerender store.data
  refine ⟨hs, app', ?_, fun _ ↦ ?_⟩
  · rw [he]
    exact hb'
  · rw [he]
    exact hshows

theorem throughout_record
    {write : Nat → String → Value → Scene ε → Option (Recorded ε)}
    (hwrite : ∀ {p name value s s' J}, Stands v a s → write p name value s = some (s', J) →
      Throughout v a J s')
    {script : Script ε} (hserves : script.Serves v a) {p : Nat} {s s' : Scene ε} {J : Journal ε}
    (hs : Stands v a s) (h : script.record write p s = some (s', J)) : Throughout v a J s' := by
  induction script generalizing p s J with
  | stop =>
    cases h
    exact ⟨nofun, hs⟩
  | look next ih => exact ih _ _ (hserves _ _) hs h
  | act change next ih =>
    obtain ⟨⟨s₁, K⟩, hK, hr⟩ := Option.map_eq_some_iff.1 h
    cases hr
    have hstands : Stands v a (s.1, change s.1.data s.2) := by
      obtain ⟨app, hb, hshows⟩ := hs.shows
      rcases hserves.1 s.1.data s.2 with hpage | hpage
      · refine ⟨hs.subscribers, app, ?_⟩
        rw [hpage]
        exact ⟨hb, hshows⟩
      · exact rerender hs.subscribers hb hpage
    exact .cons (fun _ ↦ hstands) (ih hserves.2 hstands hK)
  | write name value next ih =>
    obtain ⟨⟨s₁, K⟩, hK, hr⟩ := Option.bind_eq_some_iff.1 h
    obtain ⟨⟨s₂, L⟩, hL, hr⟩ := Option.map_eq_some_iff.1 hr
    cases hr
    have hfirst := hwrite hs hK
    exact hfirst.append (ih hserves hfirst.2 hL)
  | listen subscriber next _ ih =>
    obtain ⟨⟨s₁, K⟩, hK, hr⟩ := Option.map_eq_some_iff.1 h
    cases hr
    have hstands : Stands v a (s.1.subscribe subscriber, s.2) := by
      obtain ⟨others, hsubs, hothers⟩ := hs.subscribers
      refine ⟨⟨others ++ [subscriber], ?_, fun x hx ↦ ?_⟩, hs.shows⟩
      · rw [Store.subscribe, hsubs]
        rfl
      · rcases List.mem_append.1 hx with hx | hx
        · exact hothers x hx
        · obtain rfl := List.mem_singleton.1 hx
          exact hserves.1
    exact .cons (fun _ ↦ hstands) (ih hserves.2 hstands hK)

theorem throughout_recordCalls
    {write : Nat → String → Value → Scene ε → Option (Recorded ε)}
    (hwrite : ∀ {p name value s s' J}, Stands v a s → write p name value s = some (s', J) →
      Throughout v a J s')
    {subscribers : List (Subscriber ε)}
    (hserves : ∀ subscriber ∈ subscribers, ∀ name value, (subscriber name value).Serves v a)
    {w p k : Nat} {name : String} {value : Value} {s s' : Scene ε} {J : Journal ε}
    (hs : Stands v a s) (h : Store.recordCalls write w name value p k subscribers s = some (s', J)) :
    Throughout v a J s' := by
  induction subscribers generalizing p k s J with
  | nil =>
    cases h
    exact ⟨nofun, hs⟩
  | cons subscriber rest ih =>
    obtain ⟨⟨s₁, K⟩, hK, hr⟩ := Option.bind_eq_some_iff.1 h
    obtain ⟨⟨s₂, L⟩, hL, hr⟩ := Option.map_eq_some_iff.1 hr
    cases hr
    obtain ⟨hfirst, hrest⟩ := List.forall_mem_cons.1 hserves
    have hcall := throughout_record hwrite (hfirst name value) hs hK
    exact .cons False.elim (hcall.append (ih hrest hcall.2 hL))

/-- A write renders the application first, over the data with the new value, and whatever its other
subscribers do leaves it so. -/
theorem throughout_recordWrite {depth p : Nat} {name : String} {value : Value} {s s' : Scene ε}
    {J : Journal ε} (hs : Stands v a s)
    (h : Store.recordWrite depth p name value s = some (s', J)) : Throughout v a J s' := by
  induction depth generalizing p name value s s' J with
  | zero => cases h
  | succ depth ih =>
    obtain ⟨⟨s₁, K⟩, hK, hr⟩ := Option.map_eq_some_iff.1 h
    cases hr
    obtain ⟨others, hsubs, hothers⟩ := hs.subscribers
    obtain ⟨app, hb, -⟩ := hs.shows
    rw [hsubs, Store.recordCalls, App.rerenders, Script.record, Script.record] at hK
    obtain ⟨⟨s₂, L⟩, hL, hr⟩ := Option.map_eq_some_iff.1 hK
    cases hr
    have hrendered : Stands v a (s.1.put name value,
        v.lift (·.rerender a (s.1.put name value).data) s.2) :=
      rerender ⟨others, hsubs, hothers⟩ hb (v.page_lift _ s.2)
    have hcalls := throughout_recordCalls ih hothers hrendered hL
    refine .cons False.elim (.append (.cons False.elim (.cons (fun _ ↦ hrendered) hcalls)) ?_)
    exact ⟨fun x hx _ ↦ List.mem_singleton.1 hx ▸ hcalls.2, hcalls.2⟩

theorem of_mount {p p₁ : Page} {d : NodeId} {γ : Type} {o : MountOptions γ}
    (h : p.forest.WellFormed) (hs : o.strategy = .destructive)
    (hm : p.mount d o = (.ok a, p₁)) {e : ε} (he : v.page e = p₁) :
    Stands v a (o.store v.lift a, e) := by
  obtain ⟨app, hb, hpasses⟩ := Page.bound_of_mount h hs hm
  refine ⟨⟨[], rfl, nofun⟩, app, he ▸ hb, fun h₂ ↦ ?_⟩
  omega

end Stands

theorem Page.ShowsProjection.of_node? {p q : Page} {app : App} {data : Data}
    (h : p.ShowsProjection app data) (hp : p.forest.WellFormed) (hq : q.forest.WellFormed)
    (hnode : q.forest.node? app.root = p.forest.node? app.root) :
    q.ShowsProjection app data := by
  have htag : q.forest.tag app.root = p.forest.tag app.root := by
    rw [Forest.tag, Forest.label, hnode]
    rfl
  have hinner : q.forest.inner app.root = p.forest.inner app.root := by
    rw [Forest.inner, Forest.label, Forest.below, hnode]
    rfl
  rw [ShowsProjection, projection_eq hq, htag, hinner, ← projection_eq hp]
  exact h

/-- What is done with an application once it is mounted: running a script, with a bound on how deep
its writes nest, and dropping all nodes but some that are held. -/
inductive AppOp (ε : Type)
  | perform (depth : Nat) (script : Script ε)
  | release (held : List NodeId)

namespace AppOp

def recorded (v : Surroundings ε) : AppOp ε → Scene ε → Option (Recorded ε)
  | perform depth script, s => Store.recorded depth script s
  | release held, (store, e) =>
    some ((store, v.lift (fun p ↦ { p with forest := p.forest.collect held }) e), [])

/-- Performs operations with a journal of all that the scripts in them do. -/
def recordAll (v : Surroundings ε) (os : List (AppOp ε)) (s : Scene ε) : Option (Recorded ε) :=
  os.foldlM (fun r o ↦ (o.recorded v r.1).map fun r' ↦ (r'.1, r.2 ++ r'.2)) (s, [])

theorem recordAll_concat {v : Surroundings ε} {os : List (AppOp ε)} {o : AppOp ε}
    {s₀ s s' : Scene ε} {J K : Journal ε} (hJ : recordAll v os s₀ = some (s, J))
    (hK : o.recorded v s = some (s', K)) :
    recordAll v (os ++ [o]) s₀ = some (s', J ++ K) := by
  rw [recordAll, List.foldlM_append]
  rw [recordAll] at hJ
  simp [hJ, hK]

end AppOp

/-- Runs of operations on an application from a scene on: scripts that serve it, and dropping nodes
as long as the root is held and stays in a tree. -/
inductive AppRun (s₀ : Scene ε) : List (AppOp ε) → Scene ε → Prop
  | start : AppRun s₀ [] s₀
  | perform {os : List (AppOp ε)} {s s' : Scene ε} {depth : Nat} {script : Script ε}
    (hrun : AppRun s₀ os s) (hserves : script.Serves v a)
    (hperform : Store.perform depth script s = some s') :
    AppRun s₀ (os ++ [.perform depth script]) s'
  | release {os : List (AppOp ε)} {store : Store ε} {e : ε} {app : App} {held : List NodeId}
    (hrun : AppRun s₀ os (store, e)) (happ : (v.page e).app? a = some app)
    (hheld : app.root ∈ held)
    (hlive : (((v.page e).forest.collect held).parent? app.root).isSome = true) :
    AppRun s₀ (os ++ [.release held])
      (store, v.lift (fun p ↦ { p with forest := p.forest.collect held }) e)

namespace Stands

variable {v a}

theorem release {store : Store ε} {e : ε} {app : App} {held : List NodeId}
    (h : Stands v a (store, e)) (happ : (v.page e).app? a = some app) (hheld : app.root ∈ held)
    (hlive : (((v.page e).forest.collect held).parent? app.root).isSome = true) :
    Stands v a (store, v.lift (fun p ↦ { p with forest := p.forest.collect held }) e) := by
  obtain ⟨app', hb, hshows⟩ := h.shows
  obtain rfl : app = app' := Option.some.inj (happ.symm.trans hb.app_eq)
  have hpage := v.page_lift (fun p ↦ { p with forest := p.forest.collect held }) e
  have hwell := hb.wellFormed.collect held
  refine ⟨h.subscribers, app, ?_, fun h₂ ↦ ?_⟩
  · rw [hpage]
    exact ⟨hwell, hb.app_eq, hb.destructive, hlive⟩
  · rw [hpage]
    exact (hshows h₂).of_node? hb.wellFormed hwell (Forest.find?_keep hheld _)

theorem throughout_appRun {s₀ s : Scene ε} {os : List (AppOp ε)} (h₀ : Stands v a s₀)
    (h : AppRun v a s₀ os s) :
    ∃ J, AppOp.recordAll v os s₀ = some (s, J) ∧ Throughout v a J s := by
  induction h with
  | start => exact ⟨[], rfl, nofun, h₀⟩
  | perform _ hserves hperform ih =>
    obtain ⟨J, hJ, hthroughout⟩ := ih
    obtain ⟨K, hK⟩ := Store.exists_recorded hperform
    exact ⟨J ++ K, AppOp.recordAll_concat hJ hK, hthroughout.append
      (throughout_record throughout_recordWrite hserves hthroughout.2 hK)⟩
  | @release _ store e _ held _ happ hheld hlive ih =>
    obtain ⟨J, hJ, hthroughout⟩ := ih
    have hrecord := AppOp.recordAll_concat (o := .release held) hJ rfl
    rw [List.append_nil] at hrecord
    exact ⟨J, hrecord, hthroughout.1, hthroughout.2.release happ hheld hlive⟩

end Stands

/-- Whenever an operation on an application with new roots returns, in a run of any length and
nesting, the application shows what its template gives over the data of that moment, once it has
been rendered again. -/
theorem Page.shows_projection {p p₁ : Page} {d : NodeId} {γ : Type} {o : MountOptions γ}
    (h : p.forest.WellFormed) (hs : o.strategy = .destructive) (hm : p.mount d o = (.ok a, p₁))
    {e : ε} (he : v.page e = p₁) {os : List (AppOp ε)} {s : Scene ε}
    (hrun : AppRun v a (o.store v.lift a, e) os s) :
    ∃ J, AppOp.recordAll v os (o.store v.lift a, e) = some (s, J) ∧
      ∀ t, (t = s ∨ ∃ x ∈ J, x.event.Ends ∧ t = x.scene) →
        ∃ app, (v.page t.2).app? a = some app ∧ (2 ≤ app.passes →
          ((v.page t.2).forest.inner app.root, app.diagnostics) =
            (v.page t.2).projection app t.1.data) := by
  obtain ⟨J, hrecord, hJ, hend⟩ := Stands.throughout_appRun (Stands.of_mount h hs hm he) hrun
  refine ⟨J, hrecord, fun t ht ↦ ?_⟩
  have hstands : Stands v a t := by
    rcases ht with rfl | ⟨x, hx, hends, rfl⟩
    · exact hend
    · exact hJ x hx hends
  obtain ⟨app, hb, hshows⟩ := hstands.shows
  exact ⟨app, hb.app_eq, hshows⟩

def Page.alone : Surroundings Page := ⟨id, fun change ↦ change, fun _ _ ↦ rfl⟩

def greetingPage : Page :=
  { forest := ⟨.branch 0 .document (.branch 1 (.element "div" [⟨"id", "app"⟩])
      (.branch 2 (.element "p" []) (.text "\x7b\x7bname\x7d\x7d" .nil) .nil) .nil) .nil, 3⟩ }

def greetingOptions : MountOptions Unit :=
  { el := some "#app", data := .ofPairs [("name", .string "World")] }

def greetingScript : Script Page :=
  .listen (fun name _ ↦ if name = "name" then .set "again" (.bool true) else .stop)
    (.update "name" fun _ next ↦ next (.string "Lean"))

theorem serves_greetingScript : greetingScript.Serves Page.alone 0 := by
  refine ⟨fun name _ ↦ ?_, Script.serves_update _ _ "name" fun _ _ hnext ↦ hnext _⟩
  dsimp only
  split
  · exact Script.serves_set ..
  · trivial

theorem Page.shows_projection_greeting :
    ∃ p₁ s app, greetingPage.mount 0 greetingOptions = (.ok 0, p₁) ∧
      Store.perform 2 greetingScript (greetingOptions.store Page.alone.lift 0, p₁) = some s ∧
      AppRun Page.alone 0 (greetingOptions.store Page.alone.lift 0, p₁)
        [.perform 2 greetingScript] s ∧
      s.2.app? 0 = some app ∧ app.passes = 3 ∧ s.2.forest.inner app.root = "<p>Lean</p>" ∧
      (s.2.forest.inner app.root, app.diagnostics) = s.2.projection app s.1.data := by
  have hwell : greetingPage.forest.WellFormed := by decide +kernel
  have hok : (greetingPage.mount 0 greetingOptions).1.toOption = some 0 := by decide +kernel
  have hmount := mount_eq hok
  have hrun : ((Store.perform 2 greetingScript (greetingOptions.store Page.alone.lift 0,
      (greetingPage.mount 0 greetingOptions).2)).bind fun s ↦ (s.2.app? 0).map fun app ↦
        (app.passes, s.2.forest.inner app.root)) = some (3, "<p>Lean</p>") := by
    decide +kernel
  obtain ⟨s, hperform, happ⟩ := Option.bind_eq_some_iff.1 hrun
  obtain ⟨app, happ, hshown⟩ := Option.map_eq_some_iff.1 happ
  obtain ⟨hpasses, hinner⟩ := Prod.ext_iff.1 hshown
  have hstart : AppRun Page.alone 0 (greetingOptions.store Page.alone.lift 0,
      (greetingPage.mount 0 greetingOptions).2) [] (greetingOptions.store Page.alone.lift 0,
        (greetingPage.mount 0 greetingOptions).2) := .start
  have happrun := hstart.perform serves_greetingScript hperform
  obtain ⟨J, -, hmoments⟩ := Page.shows_projection Page.alone 0 hwell rfl hmount rfl happrun
  obtain ⟨app', happ', hshows⟩ := hmoments s (.inl rfl)
  obtain rfl : app = app' := Option.some.inj (happ.symm.trans happ')
  exact ⟨_, s, app, hmount, hperform, happrun, happ, hpasses, hinner, hshows (by omega)⟩

end LivePage
