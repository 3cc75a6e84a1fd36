import LivePage.Proofs.Page.Enclosure

namespace LivePage

open Markup Template

namespace Forest

variable {f : Forest} {d root : NodeId} {ld l : Label} {b rest : Nodes NodeId} {G : Frame NodeId}

theorem WellFormed.exists_within (h : f.WellFormed)
    (hd : f.node? d = some (ld, G.fill (.branch root l b rest))) :
    ∃ (F : Frame NodeId) (rest₀ : Nodes NodeId),
      (∀ r, (F.comp (.within d ld G rest₀)).fill r = F.fill (.branch d ld (G.fill r) rest₀)) ∧
      f.trees = (F.comp (.within d ld G rest₀)).fill (.branch root l b rest) ∧
      ∃ q, (F.comp (.within d ld G rest₀)).owner = some q := by
  obtain ⟨F, rest₀, ht, -⟩ := Frame.exists_fill_of_find? h.nodup hd
  have hfill : ∀ r, (F.comp (.within d ld G rest₀)).fill r =
      F.fill (.branch d ld (G.fill r) rest₀) := fun r ↦ Frame.fill_comp _ _ _
  refine ⟨F, rest₀, hfill, ht.trans (hfill _).symm, ?_⟩
  rw [Frame.owner_comp, Frame.owner]
  cases G.owner with
  | none => exact ⟨d, rfl⟩
  | some q => exact ⟨q, rfl⟩

theorem node?_behind_fill {t front row rest₀ : Nodes NodeId} {F : Frame NodeId} {n : NodeId}
    (h : (⟨t, n⟩ : Forest).WellFormed) (ht : t = front ++ F.fill (.branch d ld row rest₀)) :
    (⟨t, n⟩ : Forest).node? d = some (ld, row) := by
  obtain rfl := ht
  rw [← Frame.fill_behind] at h ⊢
  exact node?_fill h.not_mem.1

theorem WellFormed.node?_within (h : f.WellFormed)
    (hd : f.node? d = some (ld, G.fill (.branch root l b rest))) :
    f.node? root = some (l, b) := by
  obtain ⟨F, rest₀, -, ht, -⟩ := h.exists_within hd
  obtain ⟨t, n⟩ := f
  obtain rfl := ht
  exact node?_fill h.not_mem.1

theorem exists_place (hroot : root ∈ (f.below d).ids) :
    ∃ ld l b rest, ∃ G : Frame NodeId, f.node? d = some (ld, G.fill (.branch root l b rest)) := by
  obtain ⟨G, l, b, rest, hbelow⟩ := Frame.exists_fill hroot
  obtain ⟨ld, row, hd⟩ := exists_node? (has_of_below hroot)
  rw [below_eq hd] at hbelow
  exact ⟨ld, l, b, rest, G, hbelow ▸ hd⟩

theorem node?_render_within (h : f.WellFormed) (data : Data)
    (hd : f.node? d = some (ld, G.fill (.branch root l b rest))) :
    (render data f root).forest.node? d =
      some (ld, G.fill (.branch root l ((transform data b).identify f.next) rest)) := by
  obtain ⟨F, rest₀, hfill, ht, -⟩ := h.exists_within hd
  have hwell := wellFormed_render data h (h.node?_within hd)
  obtain ⟨t, n⟩ := f
  obtain rfl := ht
  rw [render_fill data h, hfill] at hwell ⊢
  exact node?_behind_fill hwell rfl

end Forest

/-- An application with what its root is, without the numbers of nodes. -/
structure View where
  app : App
  label : Label
  content : Nodes Unit

def App.view (app : App) (l : Label) (b : Nodes NodeId) : View :=
  ⟨{ app with root := 0 }, l, b.plain⟩

def View.rerender (w : View) (data : Data) : View :=
  let (l, row) := match w.app.strategy with
    | .inPlace => (w.label, w.content)
    | .destructive => (Page.freshLabel w.label,
        readFragment (Page.freshLabel w.label).tag w.app.template)
  ⟨{ w.app with diagnostics := reportsIn data row, passes := w.app.passes + 1 }, l,
    (transform data row).plain⟩

namespace Page

open Forest

variable {p : Page} {a : AppId} {app : App} {d : NodeId} {ld l : Label} {b rest : Nodes NodeId}
  {G : Frame NodeId}

def view? (p : Page) (a : AppId) : Option View :=
  (p.app? a).bind fun app ↦ (p.forest.node? app.root).map fun node ↦ app.view node.1 node.2

theorem view?_eq (happ : p.app? a = some app) (hroot : p.forest.node? app.root = some (l, b)) :
    p.view? a = some (app.view l b) := by
  rw [view?, happ, Option.bind_some, hroot, Option.map_some]

/-- A re-render puts the re-rendered view in the place of the root. -/
theorem Mounted.rerender_within (h : p.Mounted a app)
    (hd : p.forest.node? d = some (ld, G.fill (.branch app.root l b rest))) (data : Data) :
    ∃ app' l' b', (p.rerender a data).Mounted a app' ∧
      (p.rerender a data).forest.node? d = some (ld, G.fill (.branch app'.root l' b' rest)) ∧
      app'.view l' b' = (app.view l b).rerender data := by
  obtain ⟨F, rest₀, hfill, ht, q, ho⟩ := h.wellFormed.exists_within hd
  obtain ⟨app', hmounted, -⟩ := h.rerender data
  have hwell := hmounted.wellFormed
  cases hs : app.strategy with
  | inPlace =>
    obtain ⟨hforest, happ⟩ := rerender_inPlace h.app_eq hs data
    obtain rfl := Option.some.inj (hmounted.app_eq.symm.trans happ)
    have hreports := (inner_render data h.wellFormed (h.wellFormed.node?_within hd)).2
    refine ⟨_, l, (transform data b).identify p.forest.next, hmounted, ?_, ?_⟩
    · rw [hforest]
      exact node?_render_within h.wellFormed data hd
    · simp only [App.view, View.rerender, hs, hreports, Nodes.plain_identify, transform_plain,
        reportsIn_plain]
  | destructive =>
    obtain ⟨row, n', k, hforest, -, -, -, -, -, hrow, happ⟩ :=
      rerender_fill h.wellFormed ht ho h.app_eq hs data
    obtain rfl := Option.some.inj (hmounted.app_eq.symm.trans happ)
    refine ⟨_, freshLabel l, (transform data row).identify n', hmounted, ?_, ?_⟩
    · rw [hforest, hfill] at hwell ⊢
      exact node?_behind_fill hwell rfl
    · simp only [App.view, View.rerender, hs, ← hrow, Nodes.plain_identify, transform_plain,
        reportsIn_plain]

theorem Mounted.exists_place (h : p.Mounted a app) :
    ∃ d ld l b rest, ∃ G : Frame NodeId,
      p.forest.node? d = some (ld, G.fill (.branch app.root l b rest)) := by
  obtain ⟨q, hq⟩ := Option.isSome_iff_exists.1 h.attached
  have hitem := h.wellFormed.parent?_eq_some_iff.1 hq
  exact ⟨q, Forest.exists_place (Nodes.mem_ids_of_mem_items hitem)⟩

theorem Mounted.selector_rerender (h : p.Mounted a app) {data : Data} {app' : App}
    (happ' : (p.rerender a data).app? a = some app') : app'.selector = app.selector := by
  obtain ⟨d, ld, l, b, rest, G, hd⟩ := h.exists_place
  obtain ⟨app₁, l', b', h', -, hview⟩ := h.rerender_within hd data
  obtain rfl := Option.some.inj (happ'.symm.trans h'.app_eq)
  exact congrArg (fun w ↦ w.app.selector) hview

theorem Mounted.view?_rerender (h : p.Mounted a app) (data : Data) :
    (p.rerender a data).view? a = (p.view? a).map (·.rerender data) := by
  obtain ⟨d, ld, l, b, rest, G, hd⟩ := h.exists_place
  obtain ⟨app', l', b', h', hd', hview⟩ := h.rerender_within hd data
  rw [view?_eq h.app_eq (h.wellFormed.node?_within hd),
    view?_eq h'.app_eq (h'.wellFormed.node?_within hd'), hview, Option.map_some]

theorem Mounted.shown_eq {q : Page} {app' : App} (h : p.Mounted a app) (h' : q.Mounted a app')
    (hview : p.view? a = q.view? a) :
    p.forest.inner app.root = q.forest.inner app'.root ∧
      p.forest.outer app.root = q.forest.outer app'.root ∧
      app.diagnostics = app'.diagnostics ∧ app.passes = app'.passes := by
  obtain ⟨d, ld, l, b, rest, G, hd⟩ := h.exists_place
  obtain ⟨d', ld', l', b', rest', G', hd'⟩ := h'.exists_place
  have hroot := h.wellFormed.node?_within hd
  have hroot' := h'.wellFormed.node?_within hd'
  rw [view?_eq h.app_eq hroot, view?_eq h'.app_eq hroot'] at hview
  obtain ⟨happ, hlabel, hcontent⟩ := View.mk.inj (Option.some.inj hview)
  refine ⟨?_, ?_, (App.mk.inj happ).2.2.2.2⟩
  · rw [Forest.inner, Forest.inner, label_eq hroot, label_eq hroot', below_eq hroot,
      below_eq hroot', hlabel, ← Nodes.inner_plain, hcontent, Nodes.inner_plain]
  · rw [outer, outer, label_eq hroot, label_eq hroot', below_eq hroot, below_eq hroot', hlabel,
      Nodes.outer, hcontent, Nodes.outer]

end Page

end LivePage
