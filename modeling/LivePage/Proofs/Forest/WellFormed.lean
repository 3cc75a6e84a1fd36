import LivePage.Proofs.Forest.Framed
import LivePage.Proofs.Markup.Entries
import Mathlib.Data.List.Count

namespace LivePage.Forest

open Markup
open scoped List

variable (held : List NodeId)

theorem ids_keep_sublist (t : Nodes NodeId) : (keep held t).ids <+ t.ids := by
  induction t with
  | nil => exact .refl _
  | text s rest ih => exact ih
  | comment s rest ih => exact ih
  | branch i l below rest ihb ihr =>
    rw [keep]
    split
    · exact (ihr.append_left below.ids).cons_cons i
    · rw [Nodes.ids_append]
      exact (ihb.append ihr).cons i

theorem onlyElements_keep {t : Nodes NodeId} (h : t.OnlyElements) :
    (keep held t).OnlyElements := by
  induction t with
  | nil => trivial
  | text s rest ih => exact ih h
  | comment s rest ih => exact ih h
  | branch i l below rest ihb ihr =>
    rw [keep]
    split
    · exact ⟨h.1, h.2.1, ihr h.2.2⟩
    · exact (Nodes.onlyElements_append _ _).2 ⟨ihb h.2.1, ihr h.2.2⟩

theorem rooted_keep {t : Nodes NodeId} (h : t.Rooted) : (keep held t).Rooted := by
  induction t with
  | nil => trivial
  | text s rest ih => exact ih h
  | comment s rest ih => exact ih h
  | branch i l below rest _ ihr =>
    rw [keep]
    split
    · exact ⟨h.1, ihr h.2⟩
    · exact (Nodes.rooted_append _ _).2 ⟨(onlyElements_keep held h.1).rooted, ihr h.2⟩

variable {held}

theorem find?_keep {i : NodeId} (hi : i ∈ held) (t : Nodes NodeId) :
    (keep held t).find? i = t.find? i := by
  induction t with
  | nil => rfl
  | text s rest ih => exact ih
  | comment s rest ih => exact ih
  | branch j l below rest ihb ihr =>
    rw [keep]
    split
    · rw [Nodes.find?, Nodes.find?, ihr]
    · next hj =>
      have hji : j ≠ i := by
        rintro rfl
        exact hj (List.contains_iff_mem.2 hi)
      rw [Nodes.find?_append, Nodes.find?, if_neg hji, ihb, ihr]

structure WellFormed (f : Forest) : Prop where
  nodup : f.trees.ids.Nodup
  lt_next : ∀ i ∈ f.trees.ids, i < f.next
  rooted : f.trees.Rooted

instance (f : Forest) : Decidable f.WellFormed :=
  decidable_of_iff (f.trees.ids.Nodup ∧ (∀ i ∈ f.trees.ids, i < f.next) ∧ f.trees.Rooted)
    ⟨fun h ↦ ⟨h.1, h.2.1, h.2.2⟩, fun h ↦ ⟨h.nodup, h.lt_next, h.rooted⟩⟩

namespace WellFormed

theorem of_perm {f : Forest} (h : f.WellFormed) {t : Nodes Nat} {k : Nat}
    (hp : t.ids.Perm (f.trees.ids ++ List.range' f.next k)) (hr : t.Rooted) :
    (⟨t, f.next + k⟩ : Forest).WellFormed := by
  refine ⟨hp.nodup_iff.2 (List.nodup_append.2 ⟨h.nodup, List.nodup_range', ?_⟩), ?_, hr⟩
  · intro i hi j hj hij
    have hle := (List.mem_range'_1.1 hj).1
    exact absurd hle (not_le.2 (hij ▸ h.lt_next i hi))
  · intro i hi
    rcases List.mem_append.1 (hp.mem_iff.1 hi) with hi | hi
    · exact (h.lt_next i hi).trans_le (Nat.le_add_right _ _)
    · exact (List.mem_range'_1.1 hi).2

theorem of_subperm {f : Forest} (h : f.WellFormed) {t : Nodes Nat}
    (hs : t.ids.Subperm f.trees.ids) (hr : t.Rooted) : (⟨t, f.next⟩ : Forest).WellFormed := by
  obtain ⟨is, hperm, hsub⟩ := hs
  refine ⟨hperm.nodup_iff.1 (h.nodup.sublist hsub), fun i hi ↦ h.lt_next i ?_, hr⟩
  exact hsub.subset (hperm.mem_iff.2 hi)

theorem collect {f : Forest} (h : f.WellFormed) (held : List NodeId) :
    (f.collect held).WellFormed :=
  h.of_subperm (ids_keep_sublist held f.trees).subperm (rooted_keep held h.rooted)

theorem plant {f : Forest} (h : f.WellFormed) (label : Label) {row : Nodes Unit}
    (hr : row.OnlyElements) : (f.plant label row).2.WellFormed := by
  have hids : (Nodes.branch f.next label (row.numbered (f.next + 1)) f.trees).ids ~
      f.trees.ids ++ List.range' f.next (1 + row.branchCount) := by
    rw [Nodes.ids, Nodes.ids_numbered, Nat.add_comm 1, List.range'_succ, ← List.cons_append]
    exact List.perm_append_comm
  have hrooted : (Nodes.branch f.next label (row.numbered (f.next + 1)) f.trees).Rooted :=
    ⟨(Nodes.onlyElements_numbered _ _).2 hr, h.rooted⟩
  have hf := h.of_perm hids hrooted
  rwa [← Nat.add_assoc] at hf

variable {F : Frame Nat} {i : Nat} {l : Label} {below rest : Nodes Nat} {n : Nat}

/-- Another row in a frame, and trees in front: together they have the nodes of the row and new
ones. -/
theorem refill {row : Nodes Nat} (h : (⟨F.fill row, n⟩ : Forest).WellFormed) {a row' : Nodes Nat}
    {k : Nat} (hp : (a.ids ++ row'.ids).Perm (row.ids ++ List.range' n k)) (ha : a.Rooted)
    (hr : row'.Rooted) (ho : F.owner.isSome = true → row'.OnlyElements) :
    (⟨a ++ F.fill row', n + k⟩ : Forest).WellFormed := by
  refine h.of_perm ?_ ((Nodes.rooted_append _ _).2
    ⟨ha, (Frame.rooted_fill _ _).2 ⟨((Frame.rooted_fill _ _).1 h.rooted).1, hr, ho⟩⟩)
  calc (a ++ F.fill row').ids
      = a.ids ++ (F.fill row').ids := Nodes.ids_append _ _
    _ ~ a.ids ++ (F.ids ++ row'.ids) := (Frame.ids_fill_perm _ _).append_left _
    _ ~ F.ids ++ (a.ids ++ row'.ids) := by
        rw [← List.append_assoc, ← List.append_assoc]
        exact List.perm_append_comm.append_right _
    _ ~ F.ids ++ (row.ids ++ List.range' n k) := hp.append_left _
    _ ~ (F.fill row).ids ++ List.range' n k := by
        rw [← List.append_assoc]
        exact (Frame.ids_fill_perm _ _).symm.append_right _

theorem not_mem (h : (⟨F.fill (.branch i l below rest), n⟩ : Forest).WellFormed) :
    i ∉ F.ids ∧ i ∉ below.ids ∧ i ∉ rest.ids := by
  have hn := List.nodup_append.1 (Frame.nodup_fill.1 h.nodup)
  have hi := (List.nodup_cons.1 hn.2.1).1
  rw [List.mem_append, not_or] at hi
  exact ⟨fun hF ↦ hn.2.2 i hF i List.mem_cons_self rfl, hi⟩

theorem onlyElements_below (h : (⟨F.fill (.branch i l below rest), n⟩ : Forest).WellFormed) :
    below.OnlyElements :=
  ((Frame.rooted_fill _ _).1 h.rooted).2.1.1

theorem around {x y bc : Nodes Nat} {c : Nat} {lc : Label}
    (h : (⟨x ++ .branch c lc bc y, n⟩ : Forest).WellFormed) : (⟨x ++ y, n⟩ : Forest).WellFormed := by
  obtain ⟨hx, -, hy⟩ := (Nodes.rooted_append _ _).1 h.rooted
  have hsub : (x ++ y).ids <+ (x ++ .branch c lc bc y).ids := by
    rw [Nodes.ids_append, Nodes.ids_append, Nodes.ids]
    exact ((List.sublist_append_right bc.ids y.ids).cons c).append_left x.ids
  exact h.of_subperm hsub.subperm ((Nodes.rooted_append _ _).2 ⟨hx, hy⟩)

theorem exists_fill_of_parent? {f : Forest} (h : f.WellFormed) {i q : Nat}
    (hq : f.parent? i = some q) :
    ∃ (F : Frame Nat) (l : Label) (below rest : Nodes Nat),
      f.trees = F.fill (.branch i l below rest) ∧ F.owner = some q := by
  have hi : i ∈ f.trees.ids := by
    by_contra hi
    rw [parent?, Nodes.parent?_eq_none hi] at hq
    cases hq
  obtain ⟨F, l, below, rest, ht⟩ := Frame.exists_fill hi
  obtain ⟨t, n⟩ := f
  obtain rfl := ht
  obtain ⟨hF, hbelow, hrest⟩ := h.not_mem
  refine ⟨F, l, below, rest, rfl, ?_⟩
  cases ho : F.owner with
  | none =>
    rw [parent?, Frame.parent?_fill_of_loose hF (.inl ho), Nodes.parent?,
      Nodes.any_branches_eq_false hbelow, Nodes.parent?_eq_none hbelow,
      Nodes.parent?_eq_none hrest] at hq
    cases hq
  | some q' => rwa [parent?_fill hF ho] at hq

section

variable {f : Forest}

theorem onlyElements_of_node? (h : f.WellFormed) {i : NodeId} {l : Label} {row : Nodes NodeId}
    (hi : f.node? i = some (l, row)) : row.OnlyElements := by
  obtain ⟨t, n⟩ := f
  obtain ⟨F, rest, rfl, -⟩ := Frame.exists_fill_of_find? h.nodup hi
  exact h.onlyElements_below

theorem nodup_of_node? (h : f.WellFormed) {i : NodeId} {l : Label} {row : Nodes NodeId}
    (hi : f.node? i = some (l, row)) : row.ids.Nodup := by
  obtain ⟨t, n⟩ := f
  obtain ⟨F, rest, rfl, -⟩ := Frame.exists_fill_of_find? h.nodup hi
  obtain ⟨-, hbranch, -⟩ := List.nodup_append.1 (Frame.nodup_fill.1 h.nodup)
  exact (List.nodup_append.1 (List.nodup_cons.1 hbranch).2).1

theorem not_mem_below (h : f.WellFormed) (i : NodeId) : i ∉ (f.below i).ids := by
  obtain ⟨t, n⟩ := f
  cases hi : (⟨t, n⟩ : Forest).node? i with
  | none =>
    rw [Forest.below, hi]
    exact List.not_mem_nil
  | some node =>
    obtain ⟨l, row⟩ := node
    rw [below_eq hi]
    obtain ⟨F, rest, rfl, -⟩ := Frame.exists_fill_of_find? h.nodup hi
    exact h.not_mem.2.1

theorem node?_of_mem_below (h : f.WellFormed) {i j : NodeId} (hj : j ∈ (f.below i).ids) :
    f.node? j = (f.below i).find? j := by
  obtain ⟨t, n⟩ := f
  cases hi : (⟨t, n⟩ : Forest).node? i with
  | none =>
    rw [Forest.below, hi] at hj
    cases hj
  | some node =>
    obtain ⟨l, row⟩ := node
    rw [below_eq hi] at hj ⊢
    obtain ⟨F, rest, rfl, -⟩ := Frame.exists_fill_of_find? h.nodup hi
    obtain ⟨-, hbranch, hdisjoint⟩ := List.nodup_append.1 (Frame.nodup_fill.1 h.nodup)
    have hF : j ∉ F.ids := fun hF ↦
      hdisjoint j hF j (List.mem_cons_of_mem _ (List.mem_append_left _ hj)) rfl
    have hne : i ≠ j := by
      rintro rfl
      exact h.not_mem.2.1 hj
    rw [node?, Frame.find?_fill hF, Nodes.find?, if_neg hne]
    cases hfind : row.find? j with
    | none => exact absurd hj (Nodes.find?_eq_none_iff.1 hfind)
    | some node => rfl

theorem node?_of_mem_subtrees (h : f.WellFormed) {i j : NodeId} {l lj : Label}
    {row below : Nodes NodeId} (hi : f.node? i = some (l, row))
    (hj : (j, lj, below) ∈ row.subtrees) : f.node? j = some (lj, below) := by
  have hmem : j ∈ (f.below i).ids := by
    rw [below_eq hi]
    exact Nodes.mem_ids_of_mem_subtrees hj
  rw [h.node?_of_mem_below hmem, below_eq hi]
  exact (Nodes.find?_eq_some_iff (h.nodup_of_node? hi)).2 hj

theorem parent?_of_mem_below (h : f.WellFormed) {i j : Nat}
    (hj : j ∈ (f.below i).ids) : (f.parent? j).isSome = true := by
  obtain ⟨t, n⟩ := f
  cases hi : (⟨t, n⟩ : Forest).node? i with
  | none =>
    rw [Forest.below, hi] at hj
    cases hj
  | some node =>
    obtain ⟨l, below⟩ := node
    rw [Forest.below, hi] at hj
    obtain ⟨F, rest, rfl, hF⟩ := Frame.exists_fill_of_find? h.nodup hi
    obtain ⟨G, l', below', rest', hbelow⟩ := Frame.exists_fill (show j ∈ below.ids from hj)
    obtain rfl := hbelow
    have ht : F.fill (.branch i l (G.fill (.branch j l' below' rest')) rest) =
        (F.comp (.within i l G rest)).fill (.branch j l' below' rest') := by
      rw [Frame.fill_comp]
      rfl
    rw [ht] at h ⊢
    obtain ⟨q, hq⟩ : ∃ q, (F.comp (.within i l G rest)).owner = some q := by
      rw [Frame.owner_comp, Frame.owner]
      cases G.owner with
      | none => exact ⟨i, rfl⟩
      | some q => exact ⟨q, rfl⟩
    rw [parent?_fill h.not_mem.1 hq]
    rfl

end

end WellFormed

end LivePage.Forest
