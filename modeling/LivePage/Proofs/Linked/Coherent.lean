import LivePage.Proofs.Linked.Heap

namespace LivePage.Heap

open Markup

variable {h : Heap} {r s p c q : Ref} {rs : List Ref}

theorem live_iff : h.Live r ↔ ∃ cell, h.cell? r = some cell :=
  Option.isSome_iff_exists

theorem cell?_of_not_live (hr : ¬h.Live r) : h.cell? r = none :=
  Option.not_isSome_iff_eq_none.1 hr

theorem children_of_not_live (hr : ¬h.Live r) : h.children r = [] := by
  rw [children, cell?_of_not_live hr]
  rfl

theorem link?_of_not_live (hr : ¬h.Live r) : h.link? r = none := by
  rw [link?, cell?_of_not_live hr]
  rfl

theorem content?_of_not_live (hr : ¬h.Live r) : h.content? r = none := by
  rw [content?, cell?_of_not_live hr]
  rfl

theorem live_of_link? (hq : h.link? c = some q) : h.Live c := by
  by_contra hc
  rw [link?_of_not_live hc] at hq
  cases hq

theorem live_of_content? {x : Content} (hr : h.content? r = some x) : h.Live r := by
  by_contra hl
  rw [content?_of_not_live hl] at hr
  cases hr

theorem parent?_eq_some : h.parent? c = some p ↔ h.link? c = some p ∧ h.Live p := by
  rw [parent?, Option.filter_eq_some_iff, decide_eq_true_iff]

theorem cell?_newBranch (l : Label) : (h.newBranch l).cell? s =
    if s = .branch h.nextBranch then some ⟨.branch l, none, []⟩ else h.cell? s :=
  Function.update_apply _ _ _ _

theorem cell?_newLeaf (content : Content) : (h.newLeaf content).cell? s =
    if s = .leaf h.nextLeaf then some ⟨content, none, []⟩ else h.cell? s :=
  Function.update_apply _ _ _ _

theorem cell?_modify (g : Cell → Cell) :
    (h.modify r g).cell? s = if s = r then (h.cell? s).map g else h.cell? s := by
  simp only [modify, put, Function.update_apply]
  split
  · next hs => rw [hs]
  · rfl

theorem read_modify {α : Type} (read : Option Cell → α) {g : Cell → Cell}
    (hg : ∀ cell, read (some (g cell)) = read (some cell)) :
    read ((h.modify r g).cell? s) = read (h.cell? s) := by
  rw [cell?_modify]
  split
  · cases h.cell? s with
    | none => rfl
    | some cell => exact hg cell
  · rfl

@[simp] theorem live_modify (g : Cell → Cell) : (h.modify r g).Live s ↔ h.Live s :=
  Bool.eq_iff_iff.1 (read_modify Option.isSome fun _ ↦ rfl)

@[simp] theorem live_setParent (p : Option Ref) : (h.setParent r p).Live s ↔ h.Live s :=
  live_modify _

@[simp] theorem live_setChildren : (h.setChildren r rs).Live s ↔ h.Live s :=
  live_modify _

@[simp] theorem content?_setParent (p : Option Ref) :
    (h.setParent r p).content? s = h.content? s :=
  read_modify (Option.map Cell.content) fun _ ↦ rfl

@[simp] theorem content?_setChildren : (h.setChildren r rs).content? s = h.content? s :=
  read_modify (Option.map Cell.content) fun _ ↦ rfl

@[simp] theorem children_setParent (p : Option Ref) :
    (h.setParent r p).children s = h.children s :=
  read_modify (fun cell ↦ (cell.map Cell.children).getD []) fun _ ↦ rfl

@[simp] theorem children_relabel (i : NodeId) (change : Label → Label) :
    (h.relabel i change).children s = h.children s :=
  read_modify (fun cell ↦ (cell.map Cell.children).getD []) fun _ ↦ rfl

@[simp] theorem link?_setChildren : (h.setChildren r rs).link? s = h.link? s :=
  read_modify (Option.bind · Cell.parent) fun _ ↦ rfl

@[simp] theorem link?_relabel (i : NodeId) (change : Label → Label) :
    (h.relabel i change).link? s = h.link? s :=
  read_modify (Option.bind · Cell.parent) fun _ ↦ rfl

theorem children_setChildren (hr : h.Live r) :
    (h.setChildren r rs).children s = if s = r then rs else h.children s := by
  rw [children, setChildren, cell?_modify]
  split
  · next hs =>
    obtain ⟨cell, hcell⟩ := live_iff.1 hr
    rw [hs, hcell]
    rfl
  · rfl

theorem children_setChildren_nil :
    (h.setChildren r []).children s = if s = r then [] else h.children s := by
  rw [children, setChildren, cell?_modify]
  split
  · cases h.cell? s <;> rfl
  · rfl

theorem link?_setParent (hr : h.Live r) (p : Option Ref) :
    (h.setParent r p).link? s = if s = r then p else h.link? s := by
  rw [link?, setParent, cell?_modify]
  split
  · next hs =>
    obtain ⟨cell, hcell⟩ := live_iff.1 hr
    rw [hs, hcell]
    rfl
  · rfl

theorem link?_setParent_none :
    (h.setParent r none).link? s = if s = r then none else h.link? s := by
  rw [link?, setParent, cell?_modify]
  split
  · cases h.cell? s <;> rfl
  · rfl

@[simp] theorem parent?_setChildren : (h.setChildren r rs).parent? s = h.parent? s := by
  simp only [parent?, link?_setChildren, live_setChildren]

theorem parent?_setParent (hr : h.Live r) (hp : h.Live p) :
    (h.setParent r (some p)).parent? s = if s = r then some p else h.parent? s := by
  rw [parent?, link?_setParent hr]
  simp only [live_setParent]
  split
  · rw [Option.filter_some, if_pos (decide_eq_true hp)]
  · rfl

theorem parent?_setParent_none :
    (h.setParent r none).parent? s = if s = r then none else h.parent? s := by
  rw [parent?, link?_setParent_none]
  simp only [live_setParent]
  split <;> rfl

theorem parent?_congr {h' : Heap} (hlink : h'.link? c = h.link? c)
    (hlive : ∀ q, h.link? c = some q → (h'.Live q ↔ h.Live q)) : h'.parent? c = h.parent? c := by
  unfold parent?
  rw [hlink]
  cases hq : h.link? c with
  | none => rfl
  | some q => simp only [Option.filter_some, hlive q hq]

theorem cell?_unlink (rs : List Ref) :
    (rs.foldl (fun h c ↦ h.setParent c none) h).cell? s =
      if s ∈ rs then (h.cell? s).map (fun cell ↦ { cell with parent := none }) else h.cell? s := by
  induction rs generalizing h with
  | nil => rfl
  | cons c rest ih =>
    rw [List.foldl_cons, ih, setParent, cell?_modify]
    by_cases hs : s = c
    · simp only [hs, if_true, List.mem_cons, true_or, Option.map_map]
      split <;> rfl
    · simp only [hs, if_false, List.mem_cons, false_or]

theorem filter_ne (hr : r ∉ rs) : rs.filter (· ≠ r) = rs := by
  refine List.filter_eq_self.2 fun a ha ↦ decide_eq_true ?_
  rintro rfl
  exact hr ha

def Made (h : Heap) : Ref → Prop
  | .branch i => i < h.nextBranch
  | .leaf k => k < h.nextLeaf

structure Coherent (h : Heap) : Prop where
  parent_of_mem : ∀ {p c}, c ∈ h.children p → h.parent? c = some p
  mem_of_parent : ∀ {p c}, h.parent? c = some p → c ∈ h.children p
  nodup : ∀ p, (h.children p).Nodup
  leaf : ∀ k, h.children (.leaf k) = []
  made : ∀ {r}, h.Live r → h.Made r
  link_made : ∀ {r q}, h.link? r = some q → h.Made q

namespace Coherent

variable {h' : Heap}

theorem empty : Coherent {} := by
  constructor
  · intro p c hc
    cases hc
  · intro p c hc
    cases hc
  · intro p
    exact List.nodup_nil
  · intro k
    rfl
  · intro r hr
    cases hr
  · intro r q hq
    cases hq

theorem live (hh : h.Coherent) (hc : c ∈ h.children p) : h.Live c :=
  live_of_link? (parent?_eq_some.1 (hh.parent_of_mem hc)).1

theorem eq_of_mem (hh : h.Coherent) (hp : c ∈ h.children p) (hq : c ∈ h.children q) : p = q :=
  Option.some.inj ((hh.parent_of_mem hp).symm.trans (hh.parent_of_mem hq))

theorem not_mem (hh : h.Coherent) (hc : h.parent? c = none) : c ∉ h.children p := by
  intro hm
  rw [hh.parent_of_mem hm] at hc
  cases hc

theorem parent_branch (hh : h.Coherent) (hc : h.parent? c = some p) :
    ∃ i, p = .branch i := by
  cases p with
  | branch i => exact ⟨i, rfl⟩
  | leaf k =>
    have hm := hh.mem_of_parent hc
    rw [hh.leaf] at hm
    cases hm

/-- Some nodes are taken out of all lists, and their links are cut. -/
theorem cut (hh : h.Coherent) (K : List Ref)
    (hchildren : ∀ s, h'.children s = (h.children s).filter (· ∉ K))
    (hparent : ∀ s, h'.parent? s = if s ∈ K then none else h.parent? s)
    (hmade : ∀ {r}, h'.Live r → h'.Made r)
    (hlink : ∀ {r q}, h'.link? r = some q → h'.Made q) : h'.Coherent := by
  constructor
  · intro p c hc
    rw [hchildren, List.mem_filter, decide_eq_true_iff] at hc
    rw [hparent, if_neg hc.2, hh.parent_of_mem hc.1]
  · intro p c hc
    rw [hparent] at hc
    split at hc
    · cases hc
    · next hK =>
      rw [hchildren, List.mem_filter, decide_eq_true_iff]
      exact ⟨hh.mem_of_parent hc, hK⟩
  · intro p
    rw [hchildren]
    exact (hh.nodup p).filter _
  · intro k
    rw [hchildren, hh.leaf]
    rfl
  · exact hmade
  · exact hlink

theorem congr (hh : h.Coherent) (hchildren : ∀ s, h'.children s = h.children s)
    (hparent : ∀ s, h'.parent? s = h.parent? s) (hmade : ∀ {r}, h'.Live r → h'.Made r)
    (hlink : ∀ {r q}, h'.link? r = some q → h'.Made q) : h'.Coherent := by
  refine hh.cut [] (fun s ↦ ?_) (fun s ↦ ?_) hmade hlink
  · rw [hchildren]
    exact (List.filter_eq_self.2 fun a _ ↦ decide_eq_true List.not_mem_nil).symm
  · rw [hparent, if_neg List.not_mem_nil]

/-- A node without a parent is put into a list, and linked. -/
theorem place {i : NodeId} (hh : h.Coherent) (hp : h.Live (.branch i)) (hc : h.Live c)
    (hloose : h.parent? c = none) (hrs : rs.Perm (c :: h.children (.branch i))) :
    ((h.setParent c (some (.branch i))).setChildren (.branch i) rs).Coherent := by
  have hchildren : ∀ s, ((h.setParent c (some (.branch i))).setChildren (.branch i) rs).children s =
      if s = .branch i then rs else h.children s := by
    intro s
    rw [children_setChildren ((live_setParent _).2 hp), children_setParent]
  have hparent : ∀ s, ((h.setParent c (some (.branch i))).setChildren (.branch i) rs).parent? s =
      if s = c then some (.branch i) else h.parent? s := by
    intro s
    rw [parent?_setChildren, parent?_setParent hc hp]
  constructor
  · intro q s hs
    rw [hchildren] at hs
    rw [hparent]
    by_cases hsc : s = c
    · rw [if_pos hsc]
      split at hs
      · next hq => rw [hq]
      · exact absurd (hsc ▸ hs) (hh.not_mem hloose)
    · rw [if_neg hsc]
      split at hs
      · next hq =>
        rw [hq]
        exact hh.parent_of_mem ((List.mem_cons.1 (hrs.mem_iff.1 hs)).resolve_left hsc)
      · exact hh.parent_of_mem hs
  · intro q s hs
    rw [hparent] at hs
    rw [hchildren]
    split at hs
    · next hsc =>
      rw [if_pos (Option.some.inj hs).symm, hrs.mem_iff, hsc]
      exact List.mem_cons_self
    · split
      · next hq => exact hrs.mem_iff.2 (List.mem_cons_of_mem _ (hq ▸ hh.mem_of_parent hs))
      · exact hh.mem_of_parent hs
  · intro q
    rw [hchildren]
    split
    · exact hrs.nodup_iff.2 (List.nodup_cons.2 ⟨hh.not_mem hloose, hh.nodup _⟩)
    · exact hh.nodup q
  · intro k
    rw [hchildren, if_neg Ref.noConfusion]
    exact hh.leaf k
  · intro r hr
    exact hh.made ((live_setParent _).1 (live_setChildren.1 hr))
  · intro r q hr
    rw [link?_setChildren, link?_setParent hc] at hr
    split at hr
    · obtain rfl := Option.some.inj hr
      exact hh.made hp
    · exact hh.link_made hr

theorem fresh {content : Content} (hh : h.Coherent) (hr : ¬h.Made r)
    (hcell : ∀ s, h'.cell? s = if s = r then some ⟨content, none, []⟩ else h.cell? s)
    (hmade : ∀ s, h.Made s → h'.Made s) (hr' : h'.Made r) : h'.Coherent := by
  have hdead : ¬h.Live r := fun hlive ↦ hr (hh.made hlive)
  have hchildren : ∀ s, h'.children s = h.children s := by
    intro s
    rw [children, hcell]
    split
    · next hs => rw [hs, children_of_not_live hdead]; rfl
    · rfl
  have hlink : ∀ s, h'.link? s = h.link? s := by
    intro s
    rw [link?, hcell]
    split
    · next hs => rw [hs, link?_of_not_live hdead]; rfl
    · rfl
  apply hh.congr hchildren
  · intro s
    refine parent?_congr (hlink s) fun q hq ↦ ?_
    have hqr : q ≠ r := fun he ↦ hr (he ▸ hh.link_made hq)
    rw [Live, hcell, if_neg hqr, Live]
  · intro s hs
    rw [Live, hcell] at hs
    split at hs
    · next he => exact he ▸ hr'
    · exact hmade s (hh.made hs)
  · intro s q hq
    exact hmade q (hh.link_made (hlink s ▸ hq))

theorem newBranch (hh : h.Coherent) (l : Label) : (h.newBranch l).Coherent := by
  have hfresh : ¬h.Made (.branch h.nextBranch) := Nat.lt_irrefl _
  apply hh.fresh hfresh (fun s ↦ cell?_newBranch l) ?_ (Nat.lt_succ_self _)
  intro s hs
  cases s with
  | branch i => exact Nat.lt_succ_of_lt hs
  | leaf k => exact hs

theorem newLeaf (hh : h.Coherent) (c : Content) : (h.newLeaf c).Coherent := by
  have hfresh : ¬h.Made (.leaf h.nextLeaf) := Nat.lt_irrefl _
  apply hh.fresh hfresh (fun s ↦ cell?_newLeaf c) ?_ (Nat.lt_succ_self _)
  intro s hs
  cases s with
  | branch i => exact hs
  | leaf k => exact Nat.lt_succ_of_lt hs

theorem relabel (hh : h.Coherent) (i : NodeId) (change : Label → Label) :
    (h.relabel i change).Coherent := by
  apply hh.congr fun s ↦ children_relabel i change
  · intro s
    exact parent?_congr (link?_relabel i change) fun q _ ↦ live_modify _
  · intro s hs
    exact hh.made ((live_modify _).1 hs)
  · intro s q hq
    rw [link?_relabel] at hq
    exact hh.link_made hq

theorem children_detach (hh : h.Coherent) :
    (h.detach c).children s = (h.children s).filter (· ≠ c) := by
  rw [detach, children_setParent]
  cases hp : h.parent? c with
  | none => exact (filter_ne (hh.not_mem hp)).symm
  | some p =>
    simp only [children_setChildren (parent?_eq_some.1 hp).2]
    split
    · next hs => rw [hs]
    · next hs => exact (filter_ne fun hc ↦ hs (hh.eq_of_mem hc (hh.mem_of_parent hp))).symm

end Coherent

theorem parent?_detach : (h.detach c).parent? s = if s = c then none else h.parent? s := by
  rw [detach, parent?_setParent_none]
  cases h.parent? c with
  | none => rfl
  | some p => rw [parent?_setChildren]

theorem link?_detach : (h.detach c).link? s = if s = c then none else h.link? s := by
  rw [detach, link?_setParent_none]
  cases h.parent? c with
  | none => rfl
  | some p => rw [link?_setChildren]

theorem live_detach : (h.detach c).Live s ↔ h.Live s := by
  rw [detach, live_setParent]
  cases h.parent? c with
  | none => rfl
  | some p => exact live_setChildren

theorem content?_detach : (h.detach c).content? s = h.content? s := by
  rw [detach, content?_setParent]
  cases h.parent? c with
  | none => rfl
  | some p => exact content?_setChildren

theorem nextBranch_detach : (h.detach c).nextBranch = h.nextBranch := by
  rw [detach]
  cases h.parent? c <;> rfl

theorem cell?_clearChildren :
    (h.clearChildren p).cell? s =
      if s.isLeaf ∧ s ∈ h.children p then none
      else if s ∈ h.children p then
        ((h.setChildren p []).cell? s).map fun cell ↦ { cell with parent := none }
      else (h.setChildren p []).cell? s := by
  rw [clearChildren, ← cell?_unlink]
  rfl

theorem cell?_erase :
    (h.erase r).cell? s =
      if s.isLeaf ∧ s ∈ h.children r then none else if s = r then none else h.cell? s := by
  rw [erase, put]
  exact if_congr Iff.rfl rfl (Function.update_apply _ _ _ _)

theorem made_put {cell : Option Cell} : (h.put r cell).Made s ↔ h.Made s := by
  cases s <;> rfl

theorem next_clearChildren :
    (h.clearChildren p).nextBranch = h.nextBranch ∧ (h.clearChildren p).nextLeaf = h.nextLeaf := by
  have hfold : ∀ (rs : List Ref) (h : Heap),
      (rs.foldl (fun h c ↦ h.setParent c none) h).nextBranch = h.nextBranch ∧
        (rs.foldl (fun h c ↦ h.setParent c none) h).nextLeaf = h.nextLeaf := by
    intro rs
    induction rs with
    | nil => exact fun h ↦ ⟨rfl, rfl⟩
    | cons c rest ih => exact fun h ↦ ih (h.setParent c none)
  exact hfold (h.children p) (h.setChildren p [])

theorem made_clearChildren : (h.clearChildren p).Made s ↔ h.Made s := by
  cases s with
  | branch i => rw [Made, next_clearChildren.1, Made]
  | leaf k => rw [Made, next_clearChildren.2, Made]

namespace Coherent

variable {h' : Heap}

theorem detach (hh : h.Coherent) : (h.detach c).Coherent := by
  have hmade : ∀ s, (h.detach c).Made s ↔ h.Made s := by
    intro s
    rw [Heap.detach]
    cases h.parent? c with
    | none => exact made_put
    | some p => exact made_put.trans made_put
  apply hh.cut [c]
  · intro s
    rw [hh.children_detach]
    exact List.filter_congr fun a _ ↦ decide_eq_decide.2 (not_congr List.mem_singleton.symm)
  · intro s
    rw [parent?_detach]
    simp only [List.mem_singleton]
  · intro s hs
    exact (hmade s).2 (hh.made (live_detach.1 hs))
  · intro s q hq
    rw [link?_detach] at hq
    split at hq
    · cases hq
    · exact (hmade q).2 (hh.link_made hq)

theorem unlist (hh : h.Coherent)
    (hchildren : ∀ s, h'.children s = if s = r then [] else h.children s)
    (hparent : ∀ s, h'.parent? s = if s ∈ h.children r then none else h.parent? s)
    (hmade : ∀ {r}, h'.Live r → h'.Made r)
    (hlink : ∀ {r q}, h'.link? r = some q → h'.Made q) : h'.Coherent := by
  refine hh.cut (h.children r) (fun s ↦ ?_) hparent hmade hlink
  rw [hchildren]
  split
  · next hs =>
    rw [hs]
    exact (List.filter_eq_nil_iff.2 fun a ha hna ↦ (of_decide_eq_true hna) ha).symm
  · next hs =>
    have hout : ∀ a ∈ h.children s, a ∉ h.children r := fun a ha har ↦ hs (hh.eq_of_mem ha har)
    exact (List.filter_eq_self.2 fun a ha ↦ decide_eq_true (hout a ha)).symm

theorem parent?_unlisted (hh : h.Coherent) (hs : s ∉ h.children r)
    (hlink : h'.link? s = h.link? s) (hlive : ∀ {q}, h'.Live q → h.Live q)
    (hkept : ∀ i, .branch i ≠ r → h.Live (.branch i) → h'.Live (.branch i)) :
    h'.parent? s = h.parent? s := by
  refine parent?_congr hlink fun q hq ↦ ⟨hlive, fun hl ↦ ?_⟩
  have hp : h.parent? s = some q := parent?_eq_some.2 ⟨hq, hl⟩
  obtain ⟨i, rfl⟩ := hh.parent_branch hp
  exact hkept i (fun he ↦ hs (he ▸ hh.mem_of_parent hp)) hl

end Coherent

theorem live_clearChildren :
    (h.clearChildren p).Live s ↔ h.Live s ∧ ¬(s.isLeaf ∧ s ∈ h.children p) := by
  rw [Live, cell?_clearChildren]
  split
  · next hs => exact ⟨fun hl ↦ Bool.noConfusion hl, fun hl ↦ absurd hs hl.2⟩
  · next hs =>
    have hl : (h.setChildren p []).Live s ↔ h.Live s := live_setChildren
    rw [and_iff_left hs, ← hl]
    split
    · rw [Option.isSome_map, Live]
    · rfl

theorem children_clearChildren (hh : h.Coherent) :
    (h.clearChildren p).children s = if s = p then [] else h.children s := by
  rw [← children_setChildren_nil, children, cell?_clearChildren]
  split
  · next hs =>
    cases s with
    | branch i => cases hs.1
    | leaf k =>
      rw [children_setChildren_nil, hh.leaf, ite_self]
      rfl
  · split
    · rw [Option.map_map]
      rfl
    · rfl

theorem link?_clearChildren :
    (h.clearChildren p).link? s = if s ∈ h.children p then none else h.link? s := by
  rw [link?, cell?_clearChildren]
  by_cases hs : s ∈ h.children p
  · simp only [hs, and_true, if_true]
    split
    · rfl
    · cases (h.setChildren p []).cell? s <;> rfl
  · simp only [hs, and_false, if_false]
    exact link?_setChildren

theorem parent?_clearChildren (hh : h.Coherent) :
    (h.clearChildren p).parent? s = if s ∈ h.children p then none else h.parent? s := by
  split
  · next hs =>
    rw [parent?, link?_clearChildren, if_pos hs]
    rfl
  · next hs =>
    refine hh.parent?_unlisted hs ?_ (fun hq ↦ (live_clearChildren.1 hq).1) fun i _ hi ↦ ?_
    · rw [link?_clearChildren, if_neg hs]
    · exact live_clearChildren.2 ⟨hi, fun hl ↦ Bool.noConfusion hl.1⟩

theorem content?_clearChildren :
    (h.clearChildren p).content? s =
      if s.isLeaf ∧ s ∈ h.children p then none else h.content? s := by
  rw [content?, cell?_clearChildren]
  split
  · rfl
  · split
    · rw [Option.map_map]
      exact content?_setChildren
    · exact content?_setChildren

theorem live_erase :
    (h.erase r).Live s ↔ h.Live s ∧ s ≠ r ∧ ¬(s.isLeaf ∧ s ∈ h.children r) := by
  rw [Live, cell?_erase]
  split
  · next hs => exact ⟨fun hl ↦ Bool.noConfusion hl, fun hl ↦ absurd hs hl.2.2⟩
  · next hs =>
    split
    · next hr => exact ⟨fun hl ↦ Bool.noConfusion hl, fun hl ↦ absurd hr hl.2.1⟩
    · next hr =>
      rw [Live]
      exact ⟨fun hl ↦ ⟨hl, hr, hs⟩, fun hl ↦ hl.1⟩

theorem children_erase (hh : h.Coherent) :
    (h.erase r).children s = if s = r then [] else h.children s := by
  rw [children, cell?_erase]
  split
  · next hs =>
    cases s with
    | branch i => cases hs.1
    | leaf k =>
      rw [hh.leaf, ite_self]
      rfl
  · split <;> rfl

theorem link?_erase (hs : s ∉ h.children r) (hr : s ≠ r) : (h.erase r).link? s = h.link? s := by
  rw [link?, cell?_erase, if_neg fun hl ↦ hs hl.2, if_neg hr, link?]

theorem parent?_erase (hh : h.Coherent) (hr : h.parent? r = none) :
    (h.erase r).parent? s = if s ∈ h.children r then none else h.parent? s := by
  have hdead : ¬(h.erase r).Live r := fun hl ↦ (live_erase.1 hl).2.1 rfl
  split
  · next hs =>
    rw [Option.eq_none_iff_forall_ne_some]
    intro q hq
    obtain ⟨hq, hl⟩ := parent?_eq_some.1 hq
    have hsr : s ≠ r := by
      rintro rfl
      exact hh.not_mem hr hs
    have hleaf : ¬(s.isLeaf ∧ s ∈ h.children r) := (live_erase.1 (live_of_link? hq)).2.2
    rw [link?, cell?_erase, if_neg hleaf, if_neg hsr] at hq
    -- the only node that the link can lead to is the one that is gone
    have hp : h.parent? s = some q := parent?_eq_some.2 ⟨hq, (live_erase.1 hl).1⟩
    obtain rfl := Option.some.inj ((hh.parent_of_mem hs).symm.trans hp)
    exact hdead hl
  · next hs =>
    by_cases hsr : s = r
    · rw [hsr, hr, parent?, link?_of_not_live hdead]
      rfl
    · exact hh.parent?_unlisted hs (link?_erase hs hsr) (fun hq ↦ (live_erase.1 hq).1)
        fun i hi hl ↦ live_erase.2 ⟨hl, hi, fun hf ↦ Bool.noConfusion hf.1⟩

namespace Coherent

theorem clearChildren (hh : h.Coherent) : (h.clearChildren p).Coherent := by
  apply hh.unlist (fun s ↦ children_clearChildren hh) fun s ↦ parent?_clearChildren hh
  · intro s hs
    exact made_clearChildren.2 (hh.made (live_clearChildren.1 hs).1)
  · intro s q hq
    rw [link?_clearChildren] at hq
    split at hq
    · cases hq
    · exact made_clearChildren.2 (hh.link_made hq)

theorem erase (hh : h.Coherent) (hr : h.parent? r = none) : (h.erase r).Coherent := by
  have hmade : ∀ s, (h.erase r).Made s ↔ h.Made s := by
    intro s
    cases s <;> exact Iff.rfl
  apply hh.unlist (fun s ↦ children_erase hh) fun s ↦ parent?_erase hh hr
  · intro s hs
    exact (hmade s).2 (hh.made (live_erase.1 hs).1)
  · intro s q hq
    obtain ⟨-, hsr, hleaf⟩ := live_erase.1 (live_of_link? hq)
    rw [link?, cell?_erase, if_neg hleaf, if_neg hsr] at hq
    exact (hmade q).2 (hh.link_made hq)

end Coherent

end LivePage.Heap
