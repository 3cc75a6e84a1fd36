import LivePage.Proofs.Page.Attempts
import LivePage.Proofs.Page.Place

namespace LivePage

open Markup Template

namespace Markup.Nodes

variable {ι κ : Type}

/-- The row with marks in the places of some nodes. Other nodes lose their identity. -/
def cut (mark : ι → Option κ) : Nodes ι → Nodes (Option κ)
  | nil => nil
  | text s rest => text s (rest.cut mark)
  | comment s rest => comment s (rest.cut mark)
  | branch i l below rest =>
    match mark i with
    | some k => branch (some k) .document nil (rest.cut mark)
    | none => branch none l (below.cut mark) (rest.cut mark)

def patch (node : κ → Label × Nodes Unit) : Nodes (Option κ) → Nodes Unit
  | nil => nil
  | text s rest => text s (rest.patch node)
  | comment s rest => comment s (rest.patch node)
  | branch (some k) _ _ rest => branch () (node k).1 (node k).2 (rest.patch node)
  | branch none l below rest => branch () l (below.patch node) (rest.patch node)

theorem patch_cut {mark : ι → Option κ} {node : κ → Label × Nodes Unit} {r : Nodes ι}
    (h : ∀ e ∈ r.subtrees, ∀ k, mark e.1 = some k → node k = (e.2.1, e.2.2.plain)) :
    (r.cut mark).patch node = r.plain := by
  induction r with
  | nil => rfl
  | text s rest ih => exact congrArg (text s) (ih h)
  | comment s rest ih => exact congrArg (comment s) (ih h)
  | branch i l below rest ihb ihr =>
    rw [subtrees, List.forall_mem_cons, List.forall_mem_append] at h
    obtain ⟨hi, hbelow, hrest⟩ := h
    rw [cut, plain]
    cases hk : mark i with
    | none => simp only [patch, ihb hbelow, ihr hrest]
    | some k => simp only [patch, ihr hrest, hi k hk]

theorem cut_congr {mark mark' : ι → Option κ} {r : Nodes ι} (h : ∀ i ∈ r.ids, mark i = mark' i) :
    r.cut mark = r.cut mark' := by
  induction r with
  | nil => rfl
  | text s rest ih => exact congrArg (text s) (ih h)
  | comment s rest ih => exact congrArg (comment s) (ih h)
  | branch i l below rest ihb ihr =>
    rw [ids, List.forall_mem_cons, List.forall_mem_append] at h
    rw [cut, cut, h.1, ihb h.2.1, ihr h.2.2]

theorem cut_fill {mark mark' : ι → Option κ} {F : Frame ι} {r r' : Nodes ι}
    (h : ∀ i ∈ F.ids, mark i = mark' i) (hr : r.cut mark = r'.cut mark') :
    (F.fill r).cut mark = (F.fill r').cut mark' := by
  induction F with
  | hole => exact hr
  | text s F ih => exact congrArg (text s) (ih h)
  | comment s F ih => exact congrArg (comment s) (ih h)
  | after i l below F ih =>
    rw [Frame.ids, List.forall_mem_cons, List.forall_mem_append] at h
    rw [Frame.fill, Frame.fill, cut, cut, h.1, cut_congr h.2.1, ih h.2.2]
  | within i l F rest ih =>
    rw [Frame.ids, List.forall_mem_cons, List.forall_mem_append] at h
    rw [Frame.fill, Frame.fill, cut, cut, h.1, ih h.2.1, cut_congr h.2.2]

end Markup.Nodes

theorem Forest.mem_below_of_place {f g : Forest} {d root root' i : NodeId} {ld l l' : Label}
    {row row' rest : Nodes NodeId} {G : Frame NodeId} (h : f.WellFormed)
    (hd : f.node? d = some (ld, G.fill (.branch root l row rest)))
    (hd' : g.node? d = some (ld, G.fill (.branch root' l' row' rest))) (hi : i ∈ (f.below d).ids)
    (hout : f.encloses root i = false) : i ∈ (g.below d).ids := by
  obtain ⟨hne, hrow⟩ := encloses_eq_false.1 hout
  rw [below_eq (h.node?_within hd)] at hrow
  rw [below_eq hd, Frame.mem_ids_fill, Nodes.ids, List.mem_cons, List.mem_append] at hi
  rw [below_eq hd', Frame.mem_ids_fill, Nodes.ids, List.mem_cons, List.mem_append]
  rcases hi with hG | hroot | hi | hrest
  · exact .inl hG
  · exact absurd hroot.symm hne
  · exact absurd hi hrow
  · exact .inr (.inr (.inr hrest))

namespace Page

open Forest

variable {p q : Page} {d : NodeId} {as : List AppId} {a b : AppId} {app other : App}

/-- The roots are in trees below the node, and none of them is in another. -/
structure Hosts (p : Page) (d : NodeId) (as : List AppId) : Prop where
  mounted : ∀ a ∈ as, ∃ app, p.Mounted a app ∧ app.root ∈ (p.forest.below d).ids
  apart : ∀ a ∈ as, ∀ b ∈ as, a ≠ b → ∀ app other, p.app? a = some app → p.app? b = some other →
    p.forest.encloses app.root other.root = false

def rootOf? (p : Page) (as : List AppId) (i : NodeId) : Option AppId :=
  as.find? fun a ↦ (p.app? a).map App.root = some i

def around (p : Page) (d : NodeId) (as : List AppId) : Label × Nodes (Option AppId) :=
  (p.forest.label d, (p.forest.below d).cut (p.rootOf? as))

theorem rootOf?_congr {i : NodeId}
    (h : ∀ a ∈ as, ((p.app? a).map App.root = some i ↔ (q.app? a).map App.root = some i)) :
    p.rootOf? as i = q.rootOf? as i := by
  induction as with
  | nil => rfl
  | cons a as ih =>
    obtain ⟨ha, has⟩ := List.forall_mem_cons.1 h
    have ih := ih has
    unfold rootOf? at ih ⊢
    simp only [List.find?_cons, ih, ha]

theorem mem_of_rootOf? {i : NodeId} (h : p.rootOf? as i = some a) :
    a ∈ as ∧ ∃ app, p.app? a = some app ∧ app.root = i := by
  refine ⟨List.mem_of_find?_eq_some h, ?_⟩
  have hroot := List.find?_some h
  rw [decide_eq_true_eq] at hroot
  exact Option.map_eq_some_iff.1 hroot

namespace Hosts

theorem ne_root (h : p.Hosts d as) (ha : a ∈ as) (hb : b ∈ as) (hab : a ≠ b)
    (happ : p.app? a = some app) (hother : p.app? b = some other) : app.root ≠ other.root :=
  (encloses_eq_false.1 (h.apart a ha b hb hab app other happ hother)).1

theorem rootOf?_root (h : p.Hosts d as) (ha : a ∈ as) (happ : p.app? a = some app) :
    p.rootOf? as app.root = some a := by
  cases hfind : p.rootOf? as app.root with
  | none =>
    have hnone := List.find?_eq_none.1 hfind a ha
    rw [happ] at hnone
    exact absurd (decide_eq_true rfl) hnone
  | some b =>
    obtain ⟨hb, other, hother, hroot⟩ := mem_of_rootOf? hfind
    by_contra hne
    exact h.ne_root ha hb (fun hab ↦ hne (congrArg some hab.symm)) happ hother hroot.symm

/-- The markup of the node is made of what is around the roots and of the views. -/
theorem markup_eq (h : p.Hosts d as) (h' : q.Hosts d as) (haround : p.around d as = q.around d as)
    (hview : ∀ a ∈ as, p.view? a = q.view? a) :
    p.forest.inner d = q.forest.inner d ∧ p.forest.outer d = q.forest.outer d := by
  let node : AppId → Label × Nodes Unit := fun a ↦
    ((p.view? a).map fun w ↦ (w.label, w.content)).getD (.document, .nil)
  have key : ∀ {p' : Page}, p'.Hosts d as → (∀ a ∈ as, p.view? a = p'.view? a) →
      ((p'.forest.below d).cut (p'.rootOf? as)).patch node = (p'.forest.below d).plain := by
    intro p' h' hview
    refine Nodes.patch_cut ?_
    rintro ⟨i, l, row⟩ he k hk
    obtain ⟨hmem, app, happ, hroot⟩ := mem_of_rootOf? hk
    obtain ⟨app', hmounted, -⟩ := h'.mounted k hmem
    have hd : p'.forest.node? d = some (p'.forest.label d, p'.forest.below d) := by
      obtain ⟨ld, below, hd⟩ := exists_node? (has_of_below (Nodes.mem_ids_of_mem_subtrees he))
      rw [hd, label_eq hd, below_eq hd]
    have hnode : p'.forest.node? app.root = some (l, row) := by
      rw [hroot]
      exact hmounted.wellFormed.node?_of_mem_subtrees hd he
    simp only [node, hview k hmem, view?_eq happ hnode, Option.map_some, Option.getD_some, App.view]
  have hp := key h fun _ _ ↦ rfl
  have hq := key h' hview
  obtain ⟨hlabel, hcut⟩ := Prod.mk.inj haround
  have hplain : (p.forest.below d).plain = (q.forest.below d).plain := by
    rw [← hp, ← hq]
    exact congrArg (Nodes.patch node) hcut
  constructor
  · rw [Forest.inner, Forest.inner, ← Nodes.inner_plain, hplain, Nodes.inner_plain, hlabel]
  · rw [outer, outer, Nodes.outer, Nodes.outer, hplain, hlabel]

end Hosts

theorem Mounted.of_node? (h : p.Mounted b other) (hq : q.forest.WellFormed)
    (happ : q.app? b = some other)
    (hnode : q.forest.node? other.root = p.forest.node? other.root)
    (hmem : other.root ∈ (q.forest.below d).ids) : q.Mounted b other := by
  refine ⟨hq, happ, hq.parent?_of_mem_below hmem, ?_⟩
  have hlower := h.lower
  rwa [tag, label, ← hnode, ← label, ← tag] at hlower

theorem view?_congr (happ : q.app? b = p.app? b) (hother : p.app? b = some other)
    (hnode : q.forest.node? other.root = p.forest.node? other.root) : q.view? b = p.view? b := by
  rw [view?, happ, hother, Option.bind_some, hnode, view?, hother, Option.bind_some]

/-- What becomes of a neighbour when an application gets the root `root`: it stays the node that it
was, below `d` and apart from the root. -/
structure Untouched (p q : Page) (d root : NodeId) (b : AppId) (other : App) : Prop where
  app_eq : q.app? b = some other
  node : q.forest.node? other.root = p.forest.node? other.root
  mem : other.root ∈ (q.forest.below d).ids
  outside : q.forest.encloses root other.root = false
  clear : q.forest.encloses other.root root = false

theorem Hosts.untouched (h : p.Hosts d as) (ha : a ∈ as) (hb : b ∈ as) (hba : b ≠ a)
    (hmounted : p.Mounted a app) (hother : p.app? b = some other) {data : Data} {app' : App}
    (happ' : (p.rerender a data).app? a = some app') :
    Untouched p (p.rerender a data) d app'.root b other := by
  have hwell := hmounted.wellFormed
  obtain ⟨app₁, hmounted', -, hon, hhas⟩ := hmounted.rerender data
  obtain rfl := Option.some.inj (happ'.symm.trans hmounted'.app_eq)
  obtain ⟨other', hb', hmem⟩ := h.mounted b hb
  obtain rfl := Option.some.inj (hother.symm.trans hb'.app_eq)
  have hlive := has_of_mem_below hmem
  have hout := h.apart a ha b hb hba.symm app other hmounted.app_eq hother
  have hclear := (encloses_eq_false.1 (h.apart b hb a ha hba other app hother hmounted.app_eq)).2
  have hnode := hon.apart other.root hlive (hhas _ hlive) hout hclear
  have hinside := hon.inside other.root (hwell.lt_next _ hlive) hout
  refine ⟨(app?_rerender_of_ne hba.symm p data).trans hother, hnode, ?_, hinside,
    encloses_eq_false.2 ⟨(encloses_eq_false.1 hinside).1.symm, ?_⟩⟩
  · obtain ⟨app₀, hroot, hbelow⟩ := h.mounted a ha
    obtain rfl := Option.some.inj (hmounted.app_eq.symm.trans hroot.app_eq)
    obtain ⟨ld, l, row, rest, G, hd⟩ := exists_place hbelow
    obtain ⟨app₂, l', row', -, hd', -⟩ := hmounted.rerender_within hd data
    exact mem_below_of_place hwell hd hd' hmem hout
  · rw [Forest.below_congr hnode]
    by_cases hr : app'.root = app.root
    · rwa [hr]
    · intro hmem'
      exact absurd (hwell.lt_next _ (has_of_mem_below hmem')) (Nat.not_lt.2 (hon.fresh hr).1)

section

variable {ld l l' : Label} {row row' rest : Nodes NodeId} {G : Frame NodeId} {app' : App}

theorem Hosts.around_eq (h : p.Hosts d as) (ha : a ∈ as) (happ : p.app? a = some app)
    (happ' : q.app? a = some app') (hsame : ∀ b ∈ as, b ≠ a → q.app? b = p.app? b)
    (hroot : q.rootOf? as app'.root = some a) (hp : p.forest.WellFormed)
    (hq : q.forest.WellFormed)
    (hd : p.forest.node? d = some (ld, G.fill (.branch app.root l row rest)))
    (hd' : q.forest.node? d = some (ld, G.fill (.branch app'.root l' row' rest))) :
    q.around d as = p.around d as := by
  -- the mark moves from the former root to the new one, and no other node changes its mark
  have hne : ∀ i, i ≠ app.root → i ≠ app'.root → q.rootOf? as i = p.rootOf? as i := by
    intro i hi hi'
    refine rootOf?_congr fun b hb ↦ ?_
    by_cases hba : b = a
    · obtain rfl := hba
      rw [happ, happ']
      exact iff_of_false (fun he ↦ hi' (Option.some.inj he).symm)
        fun he ↦ hi (Option.some.inj he).symm
    · rw [hsame b hb hba]
  have hnodup : ∀ {r : NodeId} {m : Label} {x : Nodes NodeId},
      (G.fill (.branch r m x rest)).ids.Nodup →
        (∀ i ∈ G.ids, i ≠ r) ∧ ∀ i ∈ rest.ids, i ≠ r := by
    intro r m x hn
    obtain ⟨-, hbranch, hdisjoint⟩ := List.nodup_append.1 (Frame.nodup_fill.1 hn)
    refine ⟨fun i hi ↦ hdisjoint i hi r List.mem_cons_self, fun i hi hir ↦ ?_⟩
    exact (List.nodup_cons.1 hbranch).1 (hir ▸ List.mem_append_right _ hi)
  obtain ⟨hG, hrest⟩ := hnodup (hp.nodup_of_node? hd)
  obtain ⟨hG', hrest'⟩ := hnodup (hq.nodup_of_node? hd')
  rw [around, around, label_eq hd, label_eq hd', below_eq hd, below_eq hd']
  refine congrArg (Prod.mk ld) (Nodes.cut_fill (fun i hi ↦ hne i (hG i hi) (hG' i hi)) ?_)
  rw [Nodes.cut, Nodes.cut, hroot, h.rootOf?_root ha happ]
  exact congrArg _ (Nodes.cut_congr fun i hi ↦ hne i (hrest i hi) (hrest' i hi))

end

theorem Hosts.hosts_rerender (h : p.Hosts d as) (ha : a ∈ as) (data : Data) :
    (p.rerender a data).Hosts d as := by
  obtain ⟨app, hmounted, hmem⟩ := h.mounted a ha
  obtain ⟨ld, l, row, rest, G, hd⟩ := exists_place hmem
  obtain ⟨app', l', row', hmounted', hd', -⟩ := hmounted.rerender_within hd data
  have hside : ∀ b ∈ as, b ≠ a → ∀ other, p.app? b = some other →
      Untouched p (p.rerender a data) d app'.root b other :=
    fun b hb hba other hother ↦ h.untouched ha hb hba hmounted hother hmounted'.app_eq
  constructor
  · intro b hb
    by_cases hba : b = a
    · obtain rfl := hba
      refine ⟨app', hmounted', ?_⟩
      rw [below_eq hd']
      exact Frame.mem_ids_fill.2 (.inr List.mem_cons_self)
    · obtain ⟨other, hother, -⟩ := h.mounted b hb
      have hu := hside b hb hba other hother.app_eq
      exact ⟨other, hother.of_node? hmounted'.wellFormed hu.app_eq hu.node hu.mem, hu.mem⟩
  · intro b hb c hc hbc x y hx hy
    by_cases hba : b = a
    · obtain rfl := hba
      obtain rfl := Option.some.inj (hx.symm.trans hmounted'.app_eq)
      rw [app?_rerender_of_ne hbc] at hy
      exact (hside c hc (Ne.symm hbc) y hy).outside
    · rw [app?_rerender_of_ne (Ne.symm hba)] at hx
      have hu := hside b hb hba x hx
      by_cases hca : c = a
      · obtain rfl := hca
        obtain rfl := Option.some.inj (hy.symm.trans hmounted'.app_eq)
        exact hu.clear
      · rw [app?_rerender_of_ne (Ne.symm hca)] at hy
        rw [encloses, Forest.below, hu.node, ← Forest.below, ← encloses]
        exact h.apart b hb c hc hbc x y hx hy

/-- A re-render of an application leaves its neighbours and what is around all of them as they
are. -/
theorem Hosts.rerender (h : p.Hosts d as) (ha : a ∈ as) (data : Data) :
    (p.rerender a data).Hosts d as ∧ (p.rerender a data).around d as = p.around d as ∧
      ∀ b ∈ as, b ≠ a → (p.rerender a data).view? b = p.view? b := by
  have hosts := h.hosts_rerender ha data
  obtain ⟨app, hmounted, hmem⟩ := h.mounted a ha
  obtain ⟨ld, l, row, rest, G, hd⟩ := exists_place hmem
  obtain ⟨app', l', row', hmounted', hd', -⟩ := hmounted.rerender_within hd data
  refine ⟨hosts, ?_, fun b hb hba ↦ ?_⟩
  · refine h.around_eq ha hmounted.app_eq hmounted'.app_eq (fun b _ hba ↦ ?_)
      (hosts.rootOf?_root ha hmounted'.app_eq) hmounted.wellFormed hmounted'.wellFormed hd hd'
    exact app?_rerender_of_ne (Ne.symm hba) p data
  · obtain ⟨other, hother, -⟩ := h.mounted b hb
    exact view?_congr (app?_rerender_of_ne (Ne.symm hba) p data) hother.app_eq
      (h.untouched ha hb hba hmounted hother.app_eq hmounted'.app_eq).node

theorem Hosts.renders (h : p.Hosts d as) (ha : a ∈ as) (ds : List Data) :
    let q := ds.foldl (fun p data ↦ p.rerender a data) p
    q.Hosts d as ∧ q.around d as = p.around d as ∧ (∀ b ∈ as, b ≠ a → q.view? b = p.view? b) ∧
      q.view? a = (p.view? a).map fun w ↦ ds.foldl View.rerender w := by
  induction ds generalizing p with
  | nil => exact ⟨h, rfl, fun _ _ _ ↦ rfl, Option.map_id'.symm⟩
  | cons data ds ih =>
    obtain ⟨hosts, haround, hviews⟩ := h.rerender ha data
    obtain ⟨hosts', haround', hviews', hview⟩ := ih hosts
    obtain ⟨app, hmounted, -⟩ := h.mounted a ha
    refine ⟨hosts', haround'.trans haround,
      fun b hb hba ↦ (hviews' b hb hba).trans (hviews b hb hba), hview.trans ?_⟩
    rw [hmounted.view?_rerender data, Option.map_map]
    rfl

theorem Hosts.collect (h : p.Hosts d as) {held : List NodeId} (hd : d ∈ held) :
    let q := { p with forest := p.forest.collect held }
    q.Hosts d as ∧ q.around d as = p.around d as ∧ ∀ a ∈ as, q.view? a = p.view? a := by
  have hnode : (p.forest.collect held).node? d = p.forest.node? d := find?_keep hd _
  have hbelow : (p.forest.collect held).below d = p.forest.below d := Forest.below_congr hnode
  have hroot : ∀ a ∈ as, ∀ app, p.app? a = some app →
      app.root ∈ ((p.forest.collect held).below d).ids ∧
        (p.forest.collect held).node? app.root = p.forest.node? app.root := by
    intro a ha app happ
    obtain ⟨app', hmounted, hmem⟩ := h.mounted a ha
    obtain rfl := Option.some.inj (happ.symm.trans hmounted.app_eq)
    rw [← hbelow] at hmem
    exact ⟨hmem, hmounted.wellFormed.node?_collect (has_of_mem_below hmem)⟩
  refine ⟨⟨fun a ha ↦ ?_, fun a ha b hb hab app other happ hother ↦ ?_⟩, ?_, fun a ha ↦ ?_⟩
  · obtain ⟨app, hmounted, -⟩ := h.mounted a ha
    obtain ⟨hmem, hnode⟩ := hroot a ha app hmounted.app_eq
    have hwell := hmounted.wellFormed.collect held
    exact ⟨app, hmounted.of_node? hwell hmounted.app_eq hnode hmem, hmem⟩
  · have hsame := (hroot a ha app happ).2
    change (p.forest.collect held).encloses app.root other.root = false
    rw [encloses, Forest.below, hsame, ← Forest.below, ← encloses]
    exact h.apart a ha b hb hab app other happ hother
  · change ((p.forest.collect held).label d, ((p.forest.collect held).below d).cut _) = _
    rw [label, hnode, ← label, hbelow]
    rfl
  · obtain ⟨app, hmounted, -⟩ := h.mounted a ha
    exact view?_congr rfl hmounted.app_eq (hroot a ha app hmounted.app_eq).2

end Page

end LivePage
