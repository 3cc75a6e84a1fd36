import LivePage.Proofs.Markup.Entries

namespace LivePage.Markup

variable {ι : Type} [DecidableEq ι] {i j r r' : ι}

namespace Item

def swap (r r' : ι) (it : Item ι) : Item ι :=
  if it = branch r then branch r' else it

@[simp] theorem swap_branch_self : swap r r' (branch r) = branch r' :=
  if_pos rfl

theorem swap_of_ne {it : Item ι} (h : it ≠ branch r) : swap r r' it = it :=
  if_neg h

@[simp] theorem swap_refl (it : Item ι) : swap r r it = it := by
  unfold swap
  split
  · next h => exact h.symm
  · rfl

@[simp] theorem map_swap_refl (its : List (Item ι)) : its.map (swap r r) = its :=
  (List.map_congr_left fun it _ ↦ swap_refl it).trans its.map_id

theorem map_swap_of_not_mem {its : List (Item ι)} (h : .branch r ∉ its) :
    its.map (swap r r') = its := by
  refine (List.map_congr_left fun it hit ↦ swap_of_ne ?_).trans its.map_id
  rintro rfl
  exact h hit

theorem map_swap_swap {r'' : ι} {its : List (Item ι)} (h : r' = r ∨ .branch r' ∉ its) :
    (its.map (swap r r')).map (swap r' r'') = its.map (swap r r'') := by
  rw [List.map_map]
  refine List.map_congr_left fun it hit ↦ ?_
  rw [Function.comp_apply]
  by_cases hr : it = branch r
  · rw [hr, swap_branch_self, swap_branch_self, swap_branch_self]
  · rw [swap_of_ne hr, swap_of_ne hr, swap_of_ne]
    rintro rfl
    rcases h with rfl | h
    · exact hr rfl
    · exact h hit

end Item

namespace Nodes

theorem items_swap_of_not_mem {t : Nodes ι} (h : r ∉ t.ids) :
    t.items.map (Item.swap r r') = t.items :=
  Item.map_swap_of_not_mem fun hr ↦ h (mem_ids_of_mem_items hr)

theorem ids_subset_of_find? {t below : Nodes ι} {l : Label} (h : t.find? i = some (l, below)) :
    i ∈ t.ids ∧ below.ids ⊆ t.ids := by
  obtain ⟨hi, hsub⟩ := entries_of_find? h
  refine ⟨mem_ids_of_mem_entries hi, fun j hj ↦ ?_⟩
  rw [← map_fst_entries] at hj ⊢
  exact List.map_subset _ hsub hj

end Nodes

theorem Frame.items_fill_of_owner {κ : Type} {F : Frame κ} (ho : F.owner.isSome = true)
    (x y : Nodes κ) : (F.fill x).items = (F.fill y).items := by
  induction F with
  | hole => cases ho
  | text s F ih => exact congrArg (Item.text s :: ·) (ih ho)
  | comment s F ih => exact congrArg (Item.comment s :: ·) (ih ho)
  | after j lj bj F ih => exact congrArg (Item.branch j :: ·) (ih ho)
  | within j lj F rj _ => rfl

namespace Frame

variable {F : Frame ι} {l l' : Label} {b b' rest : Nodes ι}

theorem items_fill_swap (hF : r ∉ F.ids) (hrest : r ∉ rest.ids) :
    (F.fill (.branch r' l' b' rest)).items =
      (F.fill (.branch r l b rest)).items.map (Item.swap r r') := by
  induction F with
  | hole =>
    rw [fill, fill, Nodes.items, Nodes.items, List.map_cons, Item.swap_branch_self,
      Nodes.items_swap_of_not_mem hrest]
  | text s F ih => exact congrArg (Item.text s :: ·) (ih hF)
  | comment s F ih => exact congrArg (Item.comment s :: ·) (ih hF)
  | after j lj bj F ih =>
    simp only [ids, List.mem_cons, List.mem_append, not_or] at hF
    have hj : Item.branch j ≠ .branch r := fun h ↦ hF.1 (Item.branch.inj h).symm
    rw [fill, fill, Nodes.items, Nodes.items, List.map_cons, Item.swap_of_ne hj, ih hF.2.2]
  | within j lj F rj _ =>
    simp only [ids, List.mem_cons, List.mem_append, not_or] at hF
    have hj : Item.branch j ≠ .branch r := fun h ↦ hF.1 (Item.branch.inj h).symm
    rw [fill, fill, Nodes.items, Nodes.items, List.map_cons, Item.swap_of_ne hj,
      Nodes.items_swap_of_not_mem hF.2.2]

/-- A node outside two trees that take the same place keeps its label and its row, and all that is
below it unless the place is there. -/
theorem exists_find?_swap (hF : r ∉ F.ids) (hrest : r ∉ rest.ids) (hi : i ≠ r ∧ i ∉ b.ids)
    (hi' : i ≠ r' ∧ i ∉ b'.ids) {li : Label} {bi : Nodes ι}
    (h : (F.fill (.branch r l b rest)).find? i = some (li, bi)) :
    ∃ bi', (F.fill (.branch r' l' b' rest)).find? i = some (li, bi') ∧
      bi'.items = bi.items.map (Item.swap r r') ∧ (r ∉ bi.ids → bi' = bi) := by
  have hsame : ∀ {t : Nodes ι}, r ∉ t.ids → t.find? i = some (li, bi) →
      bi.items = bi.items.map (Item.swap r r') := fun hr hfind ↦
    (Nodes.items_swap_of_not_mem fun hmem ↦ hr ((Nodes.ids_subset_of_find? hfind).2 hmem)).symm
  induction F with
  | hole =>
    rw [fill, Nodes.find?, if_neg hi.1.symm, Nodes.find?_eq_none hi.2, Option.none_or] at h
    rw [fill, Nodes.find?, if_neg hi'.1.symm, Nodes.find?_eq_none hi'.2, Option.none_or]
    exact ⟨bi, h, hsame hrest h, fun _ ↦ rfl⟩
  | text s F ih => exact ih hF h
  | comment s F ih => exact ih hF h
  | after j lj bj F ih =>
    simp only [ids, List.mem_cons, List.mem_append, not_or] at hF
    rw [fill, Nodes.find?] at h ⊢
    by_cases hj : j = i
    · rw [if_pos hj] at h ⊢
      obtain ⟨rfl, rfl⟩ := Prod.mk.inj (Option.some.inj h)
      exact ⟨bj, rfl, (Nodes.items_swap_of_not_mem hF.2.1).symm, fun _ ↦ rfl⟩
    · rw [if_neg hj, Option.or_eq_some_iff] at h
      rw [if_neg hj]
      rcases h with h | ⟨hnone, h⟩
      · exact ⟨bi, by rw [h, Option.some_or], hsame hF.2.1 h, fun _ ↦ rfl⟩
      · obtain ⟨bi', hfind, hitems, hapart⟩ := ih hF.2.2 h
        exact ⟨bi', by rw [hnone, Option.none_or, hfind], hitems, hapart⟩
  | within j lj F rj ih =>
    simp only [ids, List.mem_cons, List.mem_append, not_or] at hF
    rw [fill, Nodes.find?] at h ⊢
    by_cases hj : j = i
    · rw [if_pos hj] at h ⊢
      obtain ⟨rfl, rfl⟩ := Prod.mk.inj (Option.some.inj h)
      refine ⟨_, rfl, items_fill_swap hF.2.1 hrest, fun hr ↦ absurd ?_ hr⟩
      exact mem_ids_fill.2 (.inr List.mem_cons_self)
    · rw [if_neg hj, Option.or_eq_some_iff] at h
      rw [if_neg hj]
      rcases h with h | ⟨hnone, h⟩
      · obtain ⟨bi', hfind, hitems, hapart⟩ := ih hF.2.1 h
        exact ⟨bi', by rw [hfind, Option.some_or], hitems, hapart⟩
      · refine ⟨bi, ?_, hsame hF.2.2 h, fun _ ↦ rfl⟩
        have hnone' : (F.fill (.branch r' l' b' rest)).find? i = none := by
          rw [Nodes.find?_eq_none_iff, mem_ids_fill] at hnone ⊢
          simp only [Nodes.ids, List.mem_cons, List.mem_append, not_or] at hnone ⊢
          exact ⟨hnone.1, hi'.1, hi'.2, hnone.2.2.2⟩
        rw [hnone', Option.none_or, h]

end Frame

end LivePage.Markup
