import LivePage.Page.Rendering
import LivePage.Proofs.Template.Census
import LivePage.Proofs.Text.Letters

namespace LivePage

open Markup Template
open scoped List

namespace Forest

/-- What a node shows after a pass, and what the pass reports, is a matter of its content only. -/
theorem inner_render (data : Data) {f : Forest} (h : f.WellFormed) {i : NodeId} {l : Label}
    {row : Nodes NodeId} (hi : f.node? i = some (l, row)) :
    (render data f i).forest.inner i = Nodes.inner l (transform data row) ∧
      (render data f i).reports = reportsIn data row := by
  have hnode := node?_render data h hi
  refine ⟨?_, ?_⟩
  · rw [inner, label_eq hnode, below_eq hnode, ← Nodes.inner_plain, Nodes.plain_identify,
      Nodes.inner_plain]
  · obtain ⟨t, n⟩ := f
    obtain ⟨F, rest, rfl, -⟩ := Frame.exists_fill_of_find? h.nodup hi
    rw [render_fill data h]

theorem inner_render_plant (data : Data) {f : Forest} (h : f.WellFormed) (l : Label)
    {row : Nodes Unit} (hr : row.OnlyElements) :
    let r := render data (f.plant l row).2 f.next
    r.forest.inner f.next = Nodes.inner l (transform data row).plain ∧
      r.reports = reportsIn data row := by
  have hnode : (f.plant l row).2.node? f.next = some (l, row.numbered (f.next + 1)) := by
    rw [plant_eq_fill]
    exact node?_fill List.not_mem_nil
  obtain ⟨hinner, hreports⟩ := inner_render data (h.plant l hr) hnode
  refine ⟨?_, hreports.trans (reportsIn_numbered data row _)⟩
  rw [← transform_numbered data row (f.next + 1), Nodes.inner_plain]
  exact hinner

end Forest

namespace Page

/-- The markup and the reports that a new element with the tag of the root has, once it is given the
template and rendered. -/
def projection (p : Page) (app : App) (data : Data) : String × List Diagnostic :=
  let (i, f) := p.forest.create (p.forest.tag app.root)
  let r := Template.render data (f.setInner i app.template) i
  (r.forest.inner i, r.reports)

theorem tag_freshLabel (l : Label) : (freshLabel l).tag = Text.lower l.tag := by
  unfold freshLabel
  split <;> rfl

theorem isElement_freshLabel (l : Label) : (freshLabel l).isElement = true := by
  unfold freshLabel
  split <;> rfl

theorem projection_eq {p : Page} (h : p.forest.WellFormed) (app : App) (data : Data) :
    p.projection app data =
      let row := readFragment (Text.lower (p.forest.tag app.root)) app.template
      (Nodes.inner (.ofTag (p.forest.tag app.root)) (transform data row).plain,
        reportsIn data row) := by
  have hrow := onlyElements_readFragment (Text.lower (p.forest.tag app.root)) app.template
  obtain ⟨hmarkup, hreports⟩ :=
    Forest.inner_render_plant data h (.ofTag (p.forest.tag app.root)) hrow
  have hcreate : p.forest.create (p.forest.tag app.root) =
      (p.forest.next, (p.forest.create (p.forest.tag app.root)).2) := rfl
  rw [projection, hcreate]
  simp only [Forest.setInner_create, hmarkup, hreports]

theorem app?_setApp {p : Page} {a : AppId} {app : App} (h : p.app? a = some app) (app' : App) :
    (p.setApp a app').app? a = some app' := by
  have hlt : a < p.apps.length := by
    by_contra hge
    rw [app?, List.getElem?_eq_none (not_lt.1 hge)] at h
    cases h
  rw [app?, setApp, List.getElem?_set_self hlt]
  rfl

/-- An application that gets a new root on every write, and whose root is in a tree. -/
structure Bound (p : Page) (a : AppId) (app : App) : Prop where
  wellFormed : p.forest.WellFormed
  app_eq : p.app? a = some app
  destructive : app.strategy = .destructive
  attached : (p.forest.parent? app.root).isSome = true

def ShowsProjection (p : Page) (app : App) (data : Data) : Prop :=
  (p.forest.inner app.root, app.diagnostics) = p.projection app data

section

variable {p : Page} {app : App} {F : Frame Nat} {l : Label} {below rest : Nodes Nat} {q : Nat}

theorem replaceRoot_fill (h : p.forest.WellFormed)
    (ht : p.forest.trees = F.fill (.branch app.root l below rest)) (ho : F.owner = some q) :
    let row := readFragment (freshLabel l).tag app.template
    p.replaceRoot app = .ok (p.forest.next,
      ⟨.branch app.root l below
          (F.fill (.branch p.forest.next (freshLabel l) (row.numbered (p.forest.next + 1)) rest)),
        p.forest.next + 1 + row.branchCount⟩) := by
  obtain ⟨⟨t, n⟩, apps, log, last⟩ := p
  obtain rfl := ht
  obtain ⟨hF, hbelow, hrest⟩ := h.not_mem
  have hlt : ∀ j ∈ F.ids, j < n := fun j hj ↦ h.lt_next j (Frame.mem_ids_fill.2 (.inl hj))
  have hroot : app.root < n :=
    h.lt_next app.root (Frame.mem_ids_fill.2 (.inr List.mem_cons_self))
  have hnF : n ∉ F.ids := fun hn ↦ absurd (hlt n hn) (lt_irrefl n)
  dsimp only
  rw [replaceRoot, Forest.label_fill hF]
  generalize readFragment (freshLabel l).tag app.template = row
  have hids : ∀ j ∈ (row.numbered (n + 1)).ids, n < j := by
    intro j hj
    rw [Nodes.ids_numbered, List.mem_range'_1] at hj
    exact hj.1
  have hbefore : (⟨.nil ++ .branch n (freshLabel l) (row.numbered (n + 1))
      (F.fill (.branch app.root l below rest)), n + 1 + row.branchCount⟩ : Forest).before app.root
        n = .ok ⟨.nil ++ F.fill (.branch n (freshLabel l) (row.numbered (n + 1))
          (.branch app.root l below rest)), n + 1 + row.branchCount⟩ := by
    refine Forest.before_fill ho ?_ ?_ fun hq ↦ ?_
    · simp only [Nodes.ids, List.nil_append, List.cons_append, List.mem_cons, List.mem_append,
        not_or]
      exact ⟨hroot.ne, fun hj ↦ absurd (hids _ hj) (not_lt.2 hroot.le), hF⟩
    · exact hnF
    · exact absurd (hids q hq) (not_lt.2 (hlt q (Frame.owner_mem ho)).le)
  have hremove : (⟨F.fill (.branch n (freshLabel l) (row.numbered (n + 1))
      (.branch app.root l below rest)), n + 1 + row.branchCount⟩ : Forest).remove app.root =
        ⟨.branch app.root l below (F.fill (.branch n (freshLabel l) (row.numbered (n + 1)) rest)),
          n + 1 + row.branchCount⟩ := by
    set G := F.comp (.after n (freshLabel l) (row.numbered (n + 1)) .hole) with hG
    have hfill : ∀ r, G.fill r = F.fill (.branch n (freshLabel l) (row.numbered (n + 1)) r) :=
      fun r ↦ Frame.fill_comp _ _ r
    have hnot : app.root ∉ G.ids := by
      simp only [hG, Frame.mem_ids_comp, Frame.ids, List.append_nil, List.mem_cons, not_or]
      exact ⟨hF, hroot.ne, fun hj ↦ absurd (hids _ hj) (not_lt.2 hroot.le)⟩
    have howner : G.owner = some q := by
      simpa only [hG, Frame.owner_comp, Frame.owner, Option.none_or] using ho
    rw [← hfill, ← hfill, Forest.remove_fill hnot howner]
  simp only [Nodes.nil_append] at hbefore
  simp only [Forest.plant, hbefore]
  change Except.ok (n, Forest.remove _ _) = _
  rw [hremove]

theorem wellFormed_replaced (h : p.forest.WellFormed)
    (ht : p.forest.trees = F.fill (.branch app.root l below rest)) (ho : F.owner = some q)
    {row : Nodes Unit} (hr : row.OnlyElements) :
    (⟨.branch app.root l below
        (F.fill (.branch p.forest.next (freshLabel l) (row.numbered (p.forest.next + 1)) rest)),
      p.forest.next + 1 + row.branchCount⟩ : Forest).WellFormed := by
  obtain ⟨⟨t, n⟩, apps, log, last⟩ := p
  obtain rfl := ht
  have hrooted := (Frame.rooted_fill _ _).1 h.rooted
  have hrest := hrooted.2.2 (by rw [ho]; rfl)
  have hrow := (Nodes.onlyElements_numbered row (n + 1)).2 hr
  have hnew : (Nodes.branch n (freshLabel l) (row.numbered (n + 1)) rest).OnlyElements :=
    ⟨isElement_freshLabel l, hrow, hrest.2.2⟩
  have hrange : List.range' n (1 + row.branchCount) = n :: (row.numbered (n + 1)).ids := by
    rw [Nodes.ids_numbered, Nat.add_comm 1, List.range'_succ]
  have hfill : (⟨.branch app.root l below .nil ++
      F.fill (.branch n (freshLabel l) (row.numbered (n + 1)) rest), n + (1 + row.branchCount)⟩ :
        Forest).WellFormed := by
    refine h.refill (List.perm_iff_count.2 fun j ↦ ?_) ⟨hrest.2.1, trivial⟩ hnew.rooted
      fun _ ↦ hnew
    simp only [Nodes.ids, hrange, List.append_nil, List.count_append, List.count_cons]
    omega
  rwa [← Nat.add_assoc] at hfill

end

theorem renderPass_eq {p : Page} {a : AppId} {app : App} (h : p.app? a = some app) (data : Data) :
    (p.renderPass a data).forest = (render data p.forest app.root).forest ∧
      (p.renderPass a data).app? a = some { app with
        diagnostics := (render data p.forest app.root).reports, passes := app.passes + 1 } := by
  rw [renderPass, h]
  exact ⟨rfl, app?_setApp h _⟩

theorem rerender_inPlace {p : Page} {a : AppId} {app : App} (h : p.app? a = some app)
    (hs : app.strategy = .inPlace) (data : Data) :
    (p.rerender a data).forest = (render data p.forest app.root).forest ∧
      (p.rerender a data).app? a = some { app with
        diagnostics := (render data p.forest app.root).reports, passes := app.passes + 1 } := by
  have hpass : p.rerender a data = p.renderPass a data := by
    simp only [rerender, h, hs]
  rw [hpass]
  exact renderPass_eq h data

theorem rerender_eq {p : Page} {a : AppId} {app : App} (h : p.app? a = some app)
    (hs : app.strategy = .destructive) {root : NodeId} {f : Forest}
    (hr : p.replaceRoot app = .ok (root, f)) (data : Data) :
    (p.rerender a data).forest = (render data f root).forest ∧
      (p.rerender a data).app? a = some { app with
        root, diagnostics := (render data f root).reports, passes := app.passes + 1 } := by
  have happ : ({ p with forest := f }.setApp a { app with root }).app? a =
      some { app with root } := app?_setApp h _
  have hpass : p.rerender a data =
      ({ p with forest := f }.setApp a { app with root }).renderPass a data := by
    simp only [rerender, h, hs, hr]
  rw [hpass]
  exact renderPass_eq happ data

theorem lower_tag_freshLabel (l : Label) : Text.lower (freshLabel l).tag = (freshLabel l).tag := by
  rw [tag_freshLabel, Text.lower_lower]

/-- A re-render leaves a new root in the place of the former one, which shows the template, rendered
over the data of this moment. -/
theorem Bound.rerender_row {p : Page} {a : AppId} {app : App} (h : p.Bound a app) (data : Data) :
    let tag := Text.lower (p.forest.tag app.root)
    let row := readFragment tag app.template
    ∃ app', (p.rerender a data).Bound a app' ∧ app'.template = app.template ∧
      app'.passes = app.passes + 1 ∧ (p.rerender a data).forest.tag app'.root = tag ∧
      (p.rerender a data).forest.inner app'.root =
        Nodes.inner (.ofTag tag) (transform data row).plain ∧
      app'.diagnostics = reportsIn data row := by
  obtain ⟨q, hq⟩ := Option.isSome_iff_exists.1 h.attached
  obtain ⟨F, l, below, rest, ht, ho⟩ := h.wellFormed.exists_fill_of_parent? hq
  have htag : Text.lower (p.forest.tag app.root) = (freshLabel l).tag := by
    have hnot : app.root ∉ F.ids :=
      (show (⟨F.fill (.branch app.root l below rest), p.forest.next⟩ : Forest).WellFormed from
        ht ▸ h.wellFormed).not_mem.1
    rw [tag_freshLabel, Forest.tag, Forest.label, Forest.node?, ht, Frame.find?_fill hnot,
      Nodes.find?, if_pos rfl]
    rfl
  have hrow := onlyElements_readFragment (freshLabel l).tag app.template
  have hwell := wellFormed_replaced h.wellFormed ht ho hrow
  obtain ⟨hforest, happ⟩ :=
    rerender_eq h.app_eq h.destructive (replaceRoot_fill h.wellFormed ht ho) data
  set n := p.forest.next
  set G := Frame.after app.root l below F with hG
  have hfill : ∀ r, G.fill r = .branch app.root l below (F.fill r) := fun r ↦ rfl
  rw [← hfill] at hforest happ hwell
  have hnode := node?_render_fill data hwell
  have hwell' := wellFormed_render_fill data hwell
  have hparent := parent?_render_fill data hwell (show G.owner = some q from ho)
  rw [render_fill data hwell] at happ
  rw [← hforest] at hnode hwell' hparent
  rw [htag]
  refine ⟨_, ⟨hwell', happ, h.destructive, ?_⟩, rfl, rfl, ?_, ?_, reportsIn_numbered data _ _⟩
  · rw [hparent]
    rfl
  · rw [Forest.tag, Forest.label_eq hnode]
  · have hlower : (Label.ofTag (freshLabel l).tag).tag = (freshLabel l).tag :=
      lower_tag_freshLabel l
    rw [Forest.inner, Forest.label_eq hnode, Forest.below_eq hnode, ← Nodes.inner_plain,
      Nodes.plain_identify, transform_numbered, Nodes.inner, Nodes.inner, hlower]

theorem Bound.rerender {p : Page} {a : AppId} {app : App} (h : p.Bound a app) (data : Data) :
    ∃ app', (p.rerender a data).Bound a app' ∧ (p.rerender a data).ShowsProjection app' data ∧
      app'.passes = app.passes + 1 := by
  obtain ⟨app', hb, htemplate, hpasses, htag, hinner, hreports⟩ := h.rerender_row data
  refine ⟨app', hb, ?_, hpasses⟩
  rw [ShowsProjection, projection_eq hb.wellFormed, htag, htemplate, Text.lower_lower, hinner,
    hreports]

end Page

end LivePage
