import LivePage.Proofs.Page.Attempts
import LivePage.Proofs.Store.Overtaken
import LivePage.Proofs.Template.Leaves

namespace LivePage

open Markup Template

namespace Forest

variable {f : Forest}

/-- From `f` to `g` the placeholders below a root that have a value are replaced in the elements
that have no element in them, and nothing else below the root is changed. -/
structure Filled (f : Forest) (resolve : String → Option String) (root : NodeId) (g : Forest) :
    Prop where
  ids : (g.below root).ids = (f.below root).ids
  label : ∀ i, i = root ∨ i ∈ (f.below root).ids → g.label i = f.label i
  leaf : ∀ i ∈ (f.below root).ids, (f.below i).elementCount = 0 →
    g.textContent i = fillText resolve (f.textContent i)
  row : ∀ i, i = root ∨ i ∈ (f.below root).ids ∧ 0 < (f.below i).elementCount →
    (g.below i).items = (f.below i).items

theorem bindable_of_plain (h : f.WellFormed) {root : NodeId} {l : Label} {row : Nodes NodeId}
    (hroot : f.node? root = some (l, row))
    (hplain : ∀ i ∈ (f.below root).ids, (∀ b ∈ (f.label i).attributes, b.name ≠ loopAttribute) ∧
      ((f.below i).elementCount = 0 → Tidy (f.textContent i))) : row.Bindable := by
  refine Nodes.bindable_of_forall fun i li bi hi ↦ ?_
  have hnode := h.node?_of_mem_subtrees hroot hi
  obtain ⟨hloop, htidy⟩ := hplain i (below_eq hroot ▸ Nodes.mem_ids_of_mem_subtrees hi)
  rw [label_eq hnode] at hloop
  rw [textContent, below_eq hnode] at htidy
  exact ⟨hloop, fun h₀ ↦ htidy (Nat.eq_zero_of_not_pos h₀)⟩

theorem filled_of_bindLeaves {g : Forest} (hf : f.WellFormed) (hg : g.WellFormed) {root : NodeId}
    {l : Label} {row : Nodes NodeId} {resolve : String → Option String}
    (hroot : f.node? root = some (l, row))
    (hroot' : g.node? root = some (l, row.bindLeaves resolve)) : f.Filled resolve root g := by
  have ho := hf.onlyElements_of_node? hroot
  have hbelow : f.below root = row := below_eq hroot
  have hbelow' : g.below root = row.bindLeaves resolve := below_eq hroot'
  have hids : (g.below root).ids = (f.below root).ids := by
    rw [hbelow, hbelow', Nodes.ids_bindLeaves resolve ho]
  have hnode : ∀ i ∈ (f.below root).ids, ∃ li bi, f.node? i = some (li, bi) ∧
      g.node? i = some (li, if 0 < bi.elementCount then bi.bindLeaves resolve
        else bi.bindLeaf resolve) := by
    intro i hi
    obtain ⟨li, bi, hfind⟩ := Nodes.exists_find? hi
    refine ⟨li, bi, (hf.node?_of_mem_below hi).trans hfind, ?_⟩
    rw [hg.node?_of_mem_below (hids ▸ hi), hbelow', Nodes.find?_bindLeaves resolve ho, ← hbelow,
      hfind]
    rfl
  refine ⟨hids, ?_, fun i hi h₀ ↦ ?_, ?_⟩
  · rintro i (rfl | hi)
    · rw [label_eq hroot, label_eq hroot']
    · obtain ⟨li, bi, hfi, hgi⟩ := hnode i hi
      rw [label_eq hfi, label_eq hgi]
  · obtain ⟨li, bi, hfi, hgi⟩ := hnode i hi
    rw [below_eq hfi] at h₀
    rw [textContent, below_eq hgi, textContent, below_eq hfi, if_neg h₀.not_gt,
      Nodes.textContent_bindLeaf]
  · rintro i (rfl | ⟨hi, hpos⟩)
    · rw [hbelow, hbelow', Nodes.items_bindLeaves]
    · obtain ⟨li, bi, hfi, hgi⟩ := hnode i hi
      rw [below_eq hfi] at hpos
      rw [below_eq hgi, below_eq hfi, if_pos hpos, Nodes.items_bindLeaves]

end Forest

def Data.Braceless (data : Data) : Prop :=
  ∀ name value, data.get? name = some value → Template.Braceless value.display.toList

theorem Data.Braceless.insert {data : Data} (h : data.Braceless) {name : String} {value : Value}
    (hv : Template.Braceless value.display.toList) : (data.insert name value).Braceless := by
  intro n w hw
  by_cases hn : n = name
  · subst hn
    rw [Data.get?_insert_self] at hw
    obtain rfl := Option.some.inj hw
    exact hv
  · rw [data.get?_insert_of_ne (Ne.symm hn)] at hw
    exact h n w hw

/-- The text of a property in the first data that have it. -/
def firstDisplay? (history : List Data) (name : String) : Option String :=
  history.findSome? (display? · name)

theorem braceless_firstDisplay? {history : List Data} (h : ∀ data ∈ history, data.Braceless)
    (name value : String) (hv : firstDisplay? history name = some value) :
    Template.Braceless value.toList := by
  obtain ⟨data, hmem, hdisplay⟩ := List.exists_of_findSome?_eq_some hv
  obtain ⟨w, hw, rfl⟩ := Option.map_eq_some_iff.1 hdisplay
  exact h data hmem name w hw

theorem firstDisplay?_append (history : List Data) (data : Data) :
    firstDisplay? (history ++ [data]) =
      fun name ↦ (firstDisplay? history name).or (display? data name) := by
  funext name
  rw [firstDisplay?, List.findSome?_append, List.findSome?_singleton]
  rfl

namespace Page

/-- The root shows the row of the template with the first value for each placeholder that the passes
have found, which were made over the data of a history. -/
structure Binds (p : Page) (a : AppId) (root : NodeId) (l : Label) (row : Nodes NodeId)
    (history : List Data) : Prop where
  wellFormed : p.forest.WellFormed
  app : ∃ app, p.app? a = some app ∧ app.root = root ∧ app.strategy = .inPlace ∧
    app.passes = history.length
  node : p.forest.node? root = some (l, row.bindLeaves (firstDisplay? history))
  braceless : ∀ data ∈ history, data.Braceless

section

variable {p p₁ : Page} {a : AppId} {root : NodeId} {l : Label} {row : Nodes NodeId}
  {history : List Data}

theorem Binds.passes_eq (h : p.Binds a root l row history) : p.passes a = history.length := by
  obtain ⟨app, happ, -, -, hpasses⟩ := h.app
  exact (Page.passes_eq happ).trans hpasses

theorem Binds.rerender (h : p.Binds a root l row history) (ho : row.OnlyElements)
    (hrow : row.Bindable) {data : Data} (hdata : data.Braceless) :
    (p.rerender a data).Binds a root l row (history ++ [data]) := by
  obtain ⟨app, happ, rfl, hs, hpasses⟩ := h.app
  have hfirst := braceless_firstDisplay? h.braceless
  obtain ⟨hforest, happ'⟩ := rerender_inPlace happ hs data
  refine ⟨?_, ⟨_, happ', rfl, hs, ?_⟩, ?_, ?_⟩
  · rw [hforest]
    exact Forest.wellFormed_render data h.wellFormed h.node
  · rw [List.length_append, ← hpasses]
    rfl
  · rw [hforest, Forest.node?_render data h.wellFormed h.node,
      transform_of_bindable data (hrow.bindLeaves hfirst ho), Nodes.identify_map_some,
      Nodes.bindLeaves_bindLeaves hfirst hrow, firstDisplay?_append]
  · exact List.forall_mem_append.2 ⟨h.braceless, List.forall_mem_singleton.2 hdata⟩

theorem Binds.of_mount {d : NodeId} {γ : Type} {o : MountOptions γ} (h : p.forest.WellFormed)
    (ho : o.strategy = .inPlace) (hm : p.mount d o = (.ok a, p₁))
    (hroot : (p₁.app? a).map App.root = some root) (hnode : p.forest.node? root = some (l, row))
    (hrow : row.Bindable) (hdata : o.data.Braceless) : p₁.Binds a root l row [o.data] := by
  obtain ⟨selector, -, hforest, happ⟩ := found_of_mount hm hroot
  refine ⟨?_, ⟨_, happ, rfl, ho, rfl⟩, ?_, List.forall_mem_singleton.2 hdata⟩
  · rw [hforest]
    exact Forest.wellFormed_render o.data h hnode
  · have hfirst : firstDisplay? [o.data] = display? o.data := by
      funext name
      exact List.findSome?_singleton
    rw [hforest, Forest.node?_render o.data h hnode, transform_of_bindable o.data hrow,
      Nodes.identify_map_some, hfirst]

end

end Page

variable {ε : Type} {v : Surroundings ε} {a : AppId}

/-- The data of the passes over an application that a journal tells of, in the order of time. -/
def Journal.passes (v : Surroundings ε) (a : AppId) (s : Scene ε) : Journal ε → List Data
  | [] => []
  | x :: J =>
    if (v.page s.2).passes a < (v.page x.scene.2).passes a then
      x.scene.1.data :: Journal.passes v a x.scene J
    else Journal.passes v a x.scene J

theorem Follows.renders {d : Due} {s : Scene ε} {x : Entry ε}
    (h : Follows (fun data ↦ v.lift (·.rerender a data)) (v.Renders a) d s x) :
    (x.scene.1.data = s.1.data ∧ (v.page x.scene.2 = v.page s.2 ∨
      v.page x.scene.2 = (v.page s.2).rerender a x.scene.1.data)) ∨
      ∃ name value, x.event = .stored name value ∧
        x.scene.1.data = s.1.data.insert name value ∧ v.page x.scene.2 = v.page s.2 := by
  cases h with
  | stored name value => exact .inr ⟨name, value, rfl, rfl, rfl⟩
  | answered => exact .inl ⟨rfl, .inr (v.page_lift _ _)⟩
  | acted he => exact .inl ⟨rfl, he⟩
  | first | called | returned | joined => exact .inl ⟨rfl, .inl rfl⟩

theorem Page.Binds.tells {root : NodeId} {l : Label} {row : Nodes NodeId} (ho : row.OnlyElements)
    (hrow : row.Bindable) {d d' : Due} {s t : Scene ε} {J : Journal ε}
    (hJ : Tells (fun data ↦ v.lift (·.rerender a data)) (v.Renders a) d s J d' t)
    {history : List Data} (h : (v.page s.2).Binds a root l row history)
    (hdata : s.1.data.Braceless)
    (hstores : ∀ w ∈ J.stores, Template.Braceless w.2.display.toList) :
    (v.page t.2).Binds a root l row (history ++ J.passes v a s) := by
  induction hJ generalizing history with
  | nil =>
    rw [Journal.passes, List.append_nil]
    exact h
  | @cons d d' s t x J hx hJ ih =>
    rw [Journal.stores_cons] at hstores
    obtain ⟨hstored, hlater⟩ := List.forall_mem_append.1 hstores
    rw [Journal.passes]
    rcases hx.renders with ⟨hsame, hpage | hpage⟩ | ⟨name, value, hevent, hinsert, hpage⟩
    · rw [hpage, if_neg (lt_irrefl _)]
      exact ih (hpage ▸ h) (hsame ▸ hdata) hlater
    · have hbinds := h.rerender ho hrow (hsame ▸ hdata)
      rw [← hpage] at hbinds
      have hlt : (v.page s.2).passes a < (v.page x.scene.2).passes a := by
        rw [h.passes_eq, hbinds.passes_eq, List.length_append]
        exact Nat.lt_succ_self _
      have hrest := ih hbinds (hsame ▸ hdata) hlater
      rw [List.append_assoc] at hrest
      rwa [if_pos hlt]
    · rw [hpage, if_neg (lt_irrefl _)]
      rw [hevent] at hstored
      refine ih (hpage ▸ h) ?_ hlater
      rw [hinsert]
      exact hdata.insert (hstored (name, value) (List.mem_singleton.2 rfl))

/-- An application that is rendered in place and has no loop in it shows at every moment of a run
its text at the time of the mount, with each placeholder replaced by the first value that a pass has
found for it; and nothing else in it is changed. -/
theorem Page.binds_first {p p₁ : Page} {d : NodeId} {γ : Type} {o : MountOptions γ}
    (h : p.forest.WellFormed) (ho : o.strategy = .inPlace) (hm : p.mount d o = (.ok a, p₁))
    {root : NodeId} (hroot : (p₁.app? a).map App.root = some root)
    (hplain : ∀ i ∈ (p.forest.below root).ids,
      (∀ b ∈ (p.forest.label i).attributes, b.name ≠ loopAttribute) ∧
        ((p.forest.below i).elementCount = 0 → Tidy (p.forest.textContent i)))
    {e : ε} (he : v.page e = p₁) {depth : Nat} {script : Script ε} (hserves : script.Serves v a)
    {s : Scene ε} (hrun : Store.perform depth script (o.store v.lift a, e) = some s)
    (hdata : o.data.Braceless) :
    ∃ J, Store.recorded depth script (o.store v.lift a, e) = some (s, J) ∧
      J.last (o.store v.lift a, e) = s ∧
      ((∀ w ∈ J.stores, Template.Braceless w.2.display.toList) → ∀ K : Journal ε, K <+: J →
        let t := K.last (o.store v.lift a, e)
        let history := o.data :: K.passes v a (o.store v.lift a, e)
        (∃ app, (v.page t.2).app? a = some app ∧ app.root = root ∧
            app.passes = history.length) ∧
          p.forest.Filled (firstDisplay? history) root (v.page t.2).forest) := by
  obtain ⟨J, hrecorded⟩ := Store.exists_recorded hrun
  obtain ⟨htells, -⟩ := Store.tells_recorded hserves.acts (Store.answers_of_mount o _) hrecorded
  refine ⟨J, hrecorded, htells.last_eq, ?_⟩
  rintro hstores K ⟨L, rfl⟩
  obtain ⟨selector, hfound, -, -⟩ := Page.found_of_mount hm hroot
  obtain ⟨q, hq⟩ := Option.isSome_iff_exists.1 (Page.attached_of_findRoot h hfound)
  obtain ⟨l, row, hnode⟩ := Forest.exists_node? (Forest.has_of_parent? hq)
  have helements := h.onlyElements_of_node? hnode
  have hrow := Forest.bindable_of_plain h hnode hplain
  obtain ⟨d₁, t, hK, -⟩ := htells.split
  have hstart := Page.Binds.of_mount h ho hm hroot hnode hrow hdata
  subst he
  have hbinds := hstart.tells helements hrow hK hdata fun w hw ↦
    hstores w (by
      rw [Journal.stores, List.filterMap_append]
      exact List.mem_append_left _ hw)
  dsimp only
  rw [hK.last_eq]
  obtain ⟨app, happ, hroot, -, hpasses⟩ := hbinds.app
  exact ⟨⟨app, happ, hroot, hpasses⟩,
    Forest.filled_of_bindLeaves h hbinds.wellFormed hnode hbinds.node⟩

def notePage : Page :=
  { forest := ⟨.branch 0 .document (.branch 1 (.element "div" [⟨"id", "app"⟩])
      (.text "Hi"
        (.branch 2 (.element "b" [])
          (.text "\x7b\x7b a \x7d\x7d and \x7b\x7bb\x7d\x7d" .nil)
          (.branch 3 (.element "i" [])
            (.text "\x7b\x7ba\x7d\x7d, \x7b\x7bc\x7d\x7d" .nil) .nil)))
      .nil) .nil, 4⟩ }

def noteOptions : MountOptions Unit :=
  { el := some "#app", data := .ofPairs [("a", .string "1")], strategy := .inPlace }

def noteScript : Script Page :=
  .listen (fun name _ ↦ if name = "b" then .set "a" (.string "3") else .stop)
    (.set "b" (.string "2"))

theorem Page.binds_first_note :
    ∃ p₁ s J app, notePage.mount 0 noteOptions = (.ok 0, p₁) ∧
      Store.perform 2 noteScript (noteOptions.store Page.alone.lift 0, p₁) = some s ∧
      Store.recorded 2 noteScript (noteOptions.store Page.alone.lift 0, p₁) = some (s, J) ∧
      s.2.app? 0 = some app ∧ app.passes = 3 ∧ display? s.1.data "a" = some "3" ∧
      s.2.forest.inner app.root =
        "Hi<b>1 and 2</b><i>1, \x7b\x7bc\x7d\x7d</i>" ∧
      notePage.forest.Filled (firstDisplay? (noteOptions.data ::
        J.passes Page.alone 0 (noteOptions.store Page.alone.lift 0, p₁))) app.root s.2.forest := by
  have hwell : notePage.forest.WellFormed := by decide +kernel
  have hok : (notePage.mount 0 noteOptions).1.toOption = some 0 := by decide +kernel
  have hmount := mount_eq hok
  have hserves : noteScript.Serves Page.alone 0 := by
    refine ⟨fun name _ ↦ ?_, trivial⟩
    dsimp only
    split <;> trivial
  have hroot : ((notePage.mount 0 noteOptions).2.app? 0).map App.root = some 1 := by
    decide +kernel
  have hplain : ∀ i ∈ (notePage.forest.below 1).ids,
      (∀ b ∈ (notePage.forest.label i).attributes, b.name ≠ loopAttribute) ∧
        ((notePage.forest.below i).elementCount = 0 → Tidy (notePage.forest.textContent i)) := by
    decide +kernel
  have hdata : noteOptions.data.Braceless := by
    intro name value hv
    obtain ⟨l₁, l₂, hentries, -⟩ := List.lookup_eq_some_iff.1 hv
    have hmem : (name, value) ∈ noteOptions.data.entries :=
      hentries ▸ List.mem_append_right _ List.mem_cons_self
    obtain ⟨-, rfl⟩ := Prod.mk.inj (List.mem_singleton.1 hmem)
    decide +kernel
  have hrun : ((Store.perform 2 noteScript (noteOptions.store Page.alone.lift 0,
      (notePage.mount 0 noteOptions).2)).bind fun s ↦ (s.2.app? 0).map fun app ↦
        (app.passes, display? s.1.data "a", s.2.forest.inner app.root)) =
      some (3, some "3", "Hi<b>1 and 2</b><i>1, \x7b\x7bc\x7d\x7d</i>") := by
    decide +kernel
  have hwrites : (Store.recorded 2 noteScript (noteOptions.store Page.alone.lift 0,
      (notePage.mount 0 noteOptions).2)).map (fun r ↦ r.2.stores.map fun w ↦ w.2.display) =
      some ["2", "3"] := by
    decide +kernel
  obtain ⟨s, hperform, happ⟩ := Option.bind_eq_some_iff.1 hrun
  obtain ⟨app, happ, hshown⟩ := Option.map_eq_some_iff.1 happ
  obtain ⟨hpasses, hshown⟩ := Prod.ext_iff.1 hshown
  obtain ⟨hnow, hinner⟩ := Prod.ext_iff.1 hshown
  obtain ⟨J, hrecorded, hlast, hbinds⟩ := Page.binds_first (v := Page.alone) hwell rfl hmount
    hroot hplain rfl hserves hperform hdata
  rw [hrecorded] at hwrites
  have hstores : ∀ w ∈ J.stores, Template.Braceless w.2.display.toList := by
    intro w hw
    have hmem : w.2.display ∈ J.stores.map fun w ↦ w.2.display := List.mem_map_of_mem hw
    rw [show J.stores.map (fun w ↦ w.2.display) = ["2", "3"] from Option.some.inj hwrites] at hmem
    have hall : ∀ text ∈ ["2", "3"], Template.Braceless text.toList := by decide +kernel
    exact hall _ hmem
  obtain ⟨⟨app', happ', hroot', -⟩, hfilled⟩ := hbinds hstores J List.prefix_rfl
  rw [hlast] at happ' hfilled
  obtain rfl : app = app' := Option.some.inj (happ.symm.trans happ')
  exact ⟨_, s, J, app, hmount, hperform, hrecorded, happ, hpasses, hnow, hinner,
    hroot' ▸ hfilled⟩

end LivePage
