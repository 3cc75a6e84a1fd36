import LivePage.Proofs.Markup.Order
import LivePage.Proofs.Page.Place

namespace LivePage

open Markup Template

namespace Forest

variable {f : Forest} {d root : NodeId}

theorem select?_eq_some_iff {s : Selector} : f.select? d s = some root ↔
    ∃ ld l b rest, ∃ G : Frame NodeId, f.node? d = some (ld, G.fill (.branch root l b rest)) ∧
      s.selects l = true ∧ ∀ e ∈ G.front, s.selects e.2 = false := by
  rw [select?, selectAll, List.head?_map, List.head?_filter, Nodes.descendants_eq]
  constructor
  · intro h
    obtain ⟨⟨i, l⟩, hfirst, rfl⟩ := Option.map_eq_some_iff.1 h
    obtain ⟨G, b, rest, hbelow, hG⟩ := Nodes.exists_fill_of_first hfirst
    have hselected := List.find?_some hfirst
    obtain ⟨ld, row, hd⟩ : ∃ ld row, f.node? d = some (ld, row) := by
      refine exists_node? (has_of_below (j := i) ?_)
      rw [hbelow]
      exact Frame.mem_ids_fill.2 (.inr List.mem_cons_self)
    rw [below_eq hd] at hbelow
    exact ⟨ld, l, b, rest, G, hbelow ▸ hd, hselected, hG⟩
  · rintro ⟨ld, l, b, rest, G, hd, hselected, hG⟩
    rw [below_eq hd, Nodes.find?_listed_fill hG hselected, Option.map_some]

theorem query_eq_some_iff {source : String} : f.query d source = .ok (some root) ↔
    ∃ s, Selector.read source = .ok s ∧ f.select? d s = some root := by
  rw [query]
  cases Selector.read source with
  | error e => exact ⟨nofun, fun ⟨_, hs, _⟩ ↦ nomatch hs⟩
  | ok s =>
    constructor
    · intro h
      exact ⟨s, rfl, Except.ok.inj h⟩
    · rintro ⟨s', hs, h⟩
      obtain rfl := Except.ok.inj hs
      exact congrArg Except.ok h

end Forest

namespace Page

open Forest

variable {p q : Page} {a : AppId} {app : App} {d : NodeId} {s : Selector}

theorem selects_freshLabel {l : Label} (hl : Text.lower l.tag = l.tag) (hs : s.classes = []) :
    s.selects (freshLabel l) = s.selects l := by
  rw [Selector.selects, Selector.selects, hs, tag_freshLabel, hl, attribute_freshLabel]
  rfl

theorem el_of_findRoot {el : Option String} {selector : String} {root : NodeId}
    (h : p.findRoot d el = .ok (selector, root)) : el = some selector := by
  unfold findRoot at h
  split at h
  · cases h
  · split at h
    · cases h
    · cases h
    · cases h
      rfl

/-- The root is the first element that the selector selects, as long as the document is there. A
root that is made anew loses its classes. -/
structure Finds (p : Page) (d : NodeId) (s : Selector) (a : AppId) (app : App) : Prop where
  mounted : p.Mounted a app
  stays : app.strategy = .inPlace ∨ s.classes = []
  known : d < p.forest.next
  found : p.forest.Has d → p.forest.select? d s = some app.root

theorem Finds.rerender (h : p.Finds d s a app) (data : Data) :
    ∃ app', (p.rerender a data).Finds d s a app' ∧ app'.selector = app.selector := by
  obtain ⟨app', hmounted, hstrategy, hon, -⟩ := h.mounted.rerender data
  refine ⟨app', ⟨hmounted, hstrategy ▸ h.stays, h.known.trans_le hon.next_le, fun hd ↦ ?_⟩,
    h.mounted.selector_rerender hmounted.app_eq⟩
  obtain ⟨ld, l, b, rest, G, hd, hselected, hfront⟩ :=
    select?_eq_some_iff.1 (h.found (hon.has d h.known hd))
  obtain ⟨app₁, l', b', h₁, hd', hview⟩ := h.mounted.rerender_within hd data
  obtain rfl := Option.some.inj (hmounted.app_eq.symm.trans h₁.app_eq)
  refine select?_eq_some_iff.2 ⟨ld, l', b', rest, G, hd', ?_, hfront⟩
  have hlabel := congrArg View.label hview
  cases hs : app.strategy with
  | inPlace =>
    simp only [App.view, View.rerender, hs] at hlabel
    rwa [hlabel]
  | destructive =>
    simp only [App.view, View.rerender, hs] at hlabel
    have hlower := h.mounted.lower
    rw [tag, label_eq (h.mounted.wellFormed.node?_within hd)] at hlower
    have hclasses : s.classes = [] := h.stays.resolve_left fun hs' ↦ by
      rw [hs] at hs'
      cases hs'
    rwa [hlabel, selects_freshLabel hlower hclasses]

theorem Finds.released (h : p.Finds d s a app) (hq : Released a p q) : q.Finds d s a app := by
  obtain ⟨hmounted, hon⟩ := h.mounted.released hq
  refine ⟨hmounted, h.stays, h.known.trans_le hon.next_le, fun hd ↦ ?_⟩
  have hfound := select?_eq_some_iff.1 (h.found (hon.has d h.known hd))
  obtain ⟨app', held, -, rfl, -⟩ := hq
  rw [select?_eq_some_iff, h.mounted.wellFormed.node?_collect hd]
  exact hfound

theorem Finds.goes (h : p.Finds d s a app) (hq : Goes a p q) :
    ∃ app', q.Finds d s a app' ∧ app'.selector = app.selector := by
  induction hq with
  | refl => exact ⟨app, h, rfl⟩
  | tail _ hstep ih =>
    obtain ⟨app₁, h₁, hselector⟩ := ih
    rcases hstep with ⟨data, rfl⟩ | hreleased
    · obtain ⟨app₂, h₂, hselector'⟩ := h₁.rerender data
      exact ⟨app₂, h₂, hselector'.trans hselector⟩
    · exact ⟨app₁, h₁.released hreleased, hselector⟩

theorem Finds.of_mount {p₁ : Page} {h : Heap} {γ : Type} {o : MountOptions γ} (hr : Reach p h)
    (hm : p.mount d o = (.ok a, p₁)) :
    ∃ app s, o.el = some app.selector ∧ Selector.read app.selector = .ok s ∧
      (o.strategy = .inPlace ∨ s.classes = [] → p₁.Finds d s a app) := by
  have hwell := hr.represents.wellFormed
  obtain ⟨app, hmounted, hstrategy, hon⟩ := Mounted.of_mount hr hm
  obtain ⟨selector, root, hfound, hforest, happ⟩ := app?_of_mount hm
  have heq := Option.some.inj (hmounted.app_eq.symm.trans happ)
  obtain rfl : app.selector = selector := congrArg App.selector heq
  obtain rfl : app.root = root := congrArg App.root heq
  obtain ⟨s, hread, hselect⟩ := query_eq_some_iff.1 (query_of_findRoot hfound)
  obtain ⟨ld, l, b, rest, G, hd, hselected, hfront⟩ := select?_eq_some_iff.1 hselect
  refine ⟨app, s, el_of_findRoot hfound, hread, fun hs ↦
    ⟨hmounted, hstrategy ▸ hs, ?_, fun _ ↦ ?_⟩⟩
  · exact (hwell.lt_next d (has_of_node? hd)).trans_le hon.next_le
  · rw [hforest, select?_eq_some_iff]
    exact ⟨ld, l, _, rest, G, node?_render_within hwell o.data hd, hselected, hfront⟩

end Page

variable {ε : Type} {v : Surroundings ε} {a : AppId}

theorem AppRun.goes {s₀ s : Scene ε} {os : List (AppOp ε)} (h₀ : s₀.1.Acts (v.Renders a))
    (h : AppRun v a s₀ os s) :
    ∃ J, AppOp.recordAll v os s₀ = some (s, J) ∧
      ∀ t ∈ (s₀ :: J.map (·.scene)) ++ [s], Page.Goes a (v.page s₀.2) (v.page t.2) := by
  obtain ⟨J, hrecord, -, hpairs⟩ := h.pairwise h₀
  refine ⟨J, hrecord, fun t ht ↦ ?_⟩
  rw [List.cons_append] at ht hpairs
  rcases List.mem_cons.1 ht with rfl | ht
  · exact .refl
  · exact (List.pairwise_cons.1 hpairs).1 t ht

/-- At every moment of a run the selector that an application was mounted with selects its root, as
long as the document is there, if roots are not made anew or the selector asks for no class. -/
theorem Page.selector_finds_root {p p₁ : Page} {h : Heap} {d : NodeId} {γ : Type}
    {o : MountOptions γ} (hr : Reach p h) (hm : p.mount d o = (.ok a, p₁))
    (hs : o.strategy = .inPlace ∨ ∀ selector s, o.el = some selector →
      Selector.read selector = .ok s → s.classes = [])
    {e : ε} (he : v.page e = p₁) {os : List (AppOp ε)} {s : Scene ε}
    (hrun : AppRun v a (o.store v.lift a, e) os s) :
    ∃ J, AppOp.recordAll v os (o.store v.lift a, e) = some (s, J) ∧
      ∀ t ∈ ((o.store v.lift a, e) :: J.map (·.scene)) ++ [s], (v.page t.2).forest.Has d →
        ∃ app, (v.page t.2).app? a = some app ∧ o.el = some app.selector ∧
          (v.page t.2).forest.query d app.selector = .ok (some app.root) := by
  obtain ⟨app, sel, hel, hread, hfinds⟩ := Finds.of_mount hr hm
  have hfinds := hfinds (hs.imp_right fun hs ↦ hs _ _ hel hread)
  subst he
  obtain ⟨J, hrecord, hgoes⟩ := hrun.goes (Store.acts_of_mount o)
  refine ⟨J, hrecord, fun t ht hd ↦ ?_⟩
  obtain ⟨app', hfinds', hselector⟩ := hfinds.goes (hgoes t ht)
  refine ⟨app', hfinds'.mounted.app_eq, hselector ▸ hel, ?_⟩
  rw [hselector, Forest.query_eq_some_iff]
  exact ⟨sel, hread, hfinds'.found hd⟩

def nestedListPage : Page :=
  Op.onPage {} (.parse "one<ul id=list class=x><li d-for='x in xs'>\x7b\x7bx\x7d\x7d</li></ul>")

def nestedListOptions : MountOptions Unit :=
  { el := some "ul#list", data := .ofPairs [("xs", .list [])] }

def nestedListScript : Script Page :=
  .set "xs" (.list [.string "<ul id=list>b</ul>"])

theorem Page.selector_finds_root_nestedList :
    ∃ h p₁ s app, Reach nestedListPage h ∧
      nestedListPage.mount 0 nestedListOptions = (.ok 0, p₁) ∧
      Store.perform 1 nestedListScript (nestedListOptions.store Page.alone.lift 0, p₁) = some s ∧
      AppRun Page.alone 0 (nestedListOptions.store Page.alone.lift 0, p₁)
        [.perform 1 nestedListScript] s ∧
      s.2.app? 0 = some app ∧ (p₁.app? 0).map (·.root) ≠ some app.root ∧
      s.2.forest.inner app.root = "<li><ul id=\"list\">b</ul></li>" ∧
      s.2.forest.query 0 app.selector = .ok (some app.root) := by
  obtain ⟨h, hreach⟩ : ∃ h, Reach nestedListPage h := Reach.start.all [.parse _] ⟨trivial, trivial⟩
  have hok : (nestedListPage.mount 0 nestedListOptions).1.toOption = some 0 := by decide +kernel
  have hread : (Selector.read "ul#list").toOption.map (·.classes) = some [] := by decide +kernel
  have hclasses : ∀ selector s, nestedListOptions.el = some selector →
      Selector.read selector = .ok s → s.classes = [] := by
    rintro selector s hel hs
    obtain rfl := Option.some.inj hel
    rw [hs] at hread
    exact Option.some.inj hread
  have hmount := mount_eq hok
  set p₁ := (nestedListPage.mount 0 nestedListOptions).2 with hp₁
  have hrun : ((Store.perform 1 nestedListScript (nestedListOptions.store Page.alone.lift 0,
      p₁)).bind fun s ↦ (s.2.app? 0).map fun app ↦
        ((p₁.app? 0).map (·.root) ≠ some app.root : Bool) && s.2.forest.Has 0 &&
          (s.2.forest.inner app.root = "<li><ul id=\"list\">b</ul></li>" : Bool)) =
            some true := by
    decide +kernel
  obtain ⟨s, hperform, happ⟩ := Option.bind_eq_some_iff.1 hrun
  obtain ⟨app, happ, hshown⟩ := Option.map_eq_some_iff.1 happ
  simp only [Bool.and_eq_true, decide_eq_true_eq] at hshown
  obtain ⟨⟨hroot, hdocument⟩, hinner⟩ := hshown
  have hstart : AppRun Page.alone 0 (nestedListOptions.store Page.alone.lift 0, p₁) []
    (nestedListOptions.store Page.alone.lift 0, p₁) := .start
  have happrun := hstart.perform (show nestedListScript.Serves Page.alone 0 from trivial) hperform
  obtain ⟨J, -, hquery⟩ := Page.selector_finds_root hreach hmount (.inr hclasses)
    (v := Page.alone) rfl happrun
  obtain ⟨app', happ', -, hquery⟩ :=
    hquery s (List.mem_append_right _ List.mem_cons_self) hdocument
  obtain rfl : app = app' := Option.some.inj (happ.symm.trans happ')
  exact ⟨h, p₁, s, app, hreach, hmount, hperform, happrun, happ, hroot, hinner, hquery⟩

end LivePage
