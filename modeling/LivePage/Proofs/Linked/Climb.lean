import LivePage.Proofs.Linked.Represents

namespace LivePage

open Markup

namespace Forest

variable {f : Forest} {i : Nat}

theorem exists_node (hi : i ∈ f.trees.ids) : ∃ l below, f.node? i = some (l, below) :=
  Nodes.exists_find? hi

theorem branchCount_below_lt (hi : i ∈ f.trees.ids) :
    (f.below i).branchCount < f.trees.branchCount := by
  obtain ⟨l, below, hn⟩ := exists_node hi
  rw [below_eq hn]
  obtain ⟨t, n⟩ := f
  change t.find? i = _ at hn
  clear hi
  induction t with
  | nil => cases hn
  | text s rest ih => exact ih hn
  | comment s rest ih => exact ih hn
  | branch j lj belowj rest ihb ihr =>
    rw [Nodes.find?] at hn
    simp only [Nodes.branchCount] at ihb ihr ⊢
    split at hn
    · obtain ⟨rfl, rfl⟩ := Prod.mk.inj (Option.some.inj hn)
      omega
    · rcases Option.or_eq_some_iff.1 hn with hn | ⟨-, hn⟩
      · have := ihb hn
        omega
      · have := ihr hn
        omega

end Forest

namespace Heap.Represents

variable {h : Heap} {f : Forest} {c p q : Nat}

/-- There is less below a node than below its parent. -/
theorem branchCount_below_lt (hr : h.Represents f)
    (hq : h.parent? (.branch p) = some (.branch q)) :
    (f.below p).branchCount < (f.below q).branchCount := by
  have hp : p ∈ f.trees.ids := hr.live_iff.1 (live_of_link? (parent?_eq_some.1 hq).1)
  rcases hr.cases_place hp with ⟨-, hnone, -⟩ | ⟨q', -, hq', G, l, a, lp, bp, b, rest, ht⟩
  · rw [hnone] at hq
    cases hq
  · obtain rfl := Ref.branch.inj (Option.some.inj (hq'.symm.trans hq))
    obtain ⟨t, n⟩ := f
    obtain rfl := ht
    rw [Forest.below_fill hr.wellFormed.not_mem.1]
    have hwell := hr.wellFormed
    rw [← Frame.fill_inRow] at hwell ⊢
    rw [Forest.below_fill hwell.not_mem.1, Nodes.branchCount_append, Nodes.branchCount]
    omega

theorem not_mem_below (hr : h.Represents f) (hp : h.parent? (.branch p) = none) :
    p ∉ (f.below c).ids := by
  intro hm
  rw [Forest.below] at hm
  cases hc : f.node? c with
  | none => rw [hc] at hm; cases hm
  | some e =>
    obtain ⟨lc, bc⟩ := e
    rw [hc] at hm
    obtain ⟨he, hsub⟩ := Nodes.entries_of_find? hc
    rcases Nodes.mem_items_or_entry hm with hi | ⟨e, he', hi⟩
    · have := hr.parent?_of_mem_entry he hi
      rw [hp] at this
      cases this
    · have := hr.parent?_of_mem_entry (hsub he') hi
      rw [hp] at this
      cases this

theorem mem_below_iff (hr : h.Represents f) (hq : h.parent? (.branch p) = some (.branch q)) :
    p ∈ (f.below c).ids ↔ c = q ∨ q ∈ (f.below c).ids := by
  obtain ⟨⟨q', l, its⟩, he, hqq', hp⟩ := hr.exists_entry_of_parent? hq
  obtain rfl := Ref.branch.inj hqq'
  rw [Forest.below]
  cases hc : f.node? c with
  | none =>
    refine ⟨fun hm ↦ ?_, fun hm ↦ ?_⟩
    · cases hm
    · rcases hm with rfl | hm
      · exact absurd (Nodes.mem_ids_of_mem_entries he) (Nodes.find?_eq_none_iff.1 hc)
      · cases hm
  | some e =>
    obtain ⟨lc, bc⟩ := e
    obtain ⟨hce, hsub⟩ := Nodes.entries_of_find? hc
    simp only [Option.map_some, Option.getD_some]
    have hnd := hr.wellFormed.nodup
    refine ⟨fun hm ↦ ?_, fun hm ↦ ?_⟩
    · rcases Nodes.mem_items_or_entry hm with hi | ⟨e, he', hi⟩
      · have hcp := hr.parent?_of_mem_entry hce hi
        exact .inl (Ref.branch.inj (Option.some.inj (hcp.symm.trans hq)))
      · have hep := hr.parent?_of_mem_entry (hsub he') hi
        refine .inr ?_
        rw [← Ref.branch.inj (Option.some.inj (hep.symm.trans hq))]
        exact Nodes.mem_ids_of_mem_entries he'
    · rcases hm with rfl | hm
      · obtain ⟨-, rfl⟩ := Nodes.entry_unique hnd he hce
        exact Nodes.mem_ids_of_mem_items hp
      · obtain ⟨l', its', he'⟩ := Nodes.exists_entry hm
        obtain ⟨-, rfl⟩ := Nodes.entry_unique hnd he (hsub he')
        exact Nodes.mem_ids_of_mem_entry he' hp

/-- The way up from a node ends; it meets the nodes that enclose the start. -/
theorem meets_eq (hr : h.Represents f) (hp : p ∈ f.trees.ids) {depth : Nat}
    (hd : f.trees.branchCount ≤ depth + (f.below p).branchCount) :
    h.meets (.branch c) depth (.branch p) = some (f.encloses c p) := by
  induction depth generalizing p with
  | zero =>
    have := Forest.branchCount_below_lt hp
    omega
  | succ depth ih =>
    rw [meets]
    by_cases hpc : p = c
    · rw [if_pos (congrArg Ref.branch hpc), Forest.encloses, decide_eq_true hpc.symm, Bool.true_or]
    · rw [if_neg fun he ↦ hpc (Ref.branch.inj he)]
      have hne : f.encloses c p = (f.below c).ids.contains p := by
        rw [Forest.encloses, decide_eq_false (Ne.symm hpc), Bool.false_or]
      rcases hr.cases_place hp with ⟨-, hnone, -⟩ | ⟨q, -, hq, -⟩
      · simp only [hnone, hne, Option.some.injEq]
        exact (Bool.eq_false_iff.2 fun hm ↦
          hr.not_mem_below hnone (List.contains_iff_mem.1 hm)).symm
      · have hlt := hr.branchCount_below_lt hq
        simp only [hq]
        rw [ih (hr.live_iff.1 (parent?_eq_some.1 hq).2) (by omega), hne, Option.some.injEq,
          Bool.eq_iff_iff, List.contains_iff_mem, hr.mem_below_iff hq, Forest.encloses,
          Bool.or_eq_true, decide_eq_true_iff, List.contains_iff_mem]

end Heap.Represents

end LivePage
