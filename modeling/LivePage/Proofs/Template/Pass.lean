import LivePage.Proofs.Forest.Framed
import LivePage.Proofs.Template.Transform

namespace LivePage

namespace Markup.Nodes

@[simp] theorem newCount_append {ι : Type} (a b : Nodes (Option ι)) :
    (a ++ b).newCount = a.newCount + b.newCount := by
  induction a with
  | nil => simp only [nil_append, newCount, Nat.zero_add]
  | text s rest ih => exact ih
  | comment s rest ih => exact ih
  | branch i l below rest _ ih => simp only [branch_append, newCount, ih]; omega

theorem identify_append (a b : Nodes (Option Nat)) (n : Nat) :
    (a ++ b).identify n = a.identify n ++ b.identify (n + a.newCount) := by
  induction a generalizing n with
  | nil => rfl
  | text s rest ih => exact congrArg (text s) (ih n)
  | comment s rest ih => exact congrArg (comment s) (ih n)
  | branch i l below rest _ ih =>
    cases i <;> simp only [branch_append, identify, ih, newCount, Nat.add_assoc,
      Option.isNone_none, Option.isNone_some, if_true, Bool.false_eq_true, if_false, Nat.zero_add]

@[simp] theorem plain_identify (r : Nodes (Option Nat)) (n : Nat) :
    (r.identify n).plain = r.plain := by
  induction r generalizing n with
  | nil => rfl
  | text s rest ih => exact congrArg (text s) (ih n)
  | comment s rest ih => exact congrArg (comment s) (ih n)
  | branch i l below rest ihb ihr => cases i <;> simp only [identify, plain, ihb, ihr]

@[simp] theorem newCount_map_some {ι : Type} (r : Nodes ι) : (r.map some).newCount = 0 := by
  induction r with
  | nil => rfl
  | text s rest ih => exact ih
  | comment s rest ih => exact ih
  | branch i l below rest ihb ihr => simp only [map, newCount, ihb, ihr]; rfl

@[simp] theorem identify_map_some (r : Nodes Nat) (n : Nat) : (r.map some).identify n = r := by
  induction r generalizing n with
  | nil => rfl
  | text s rest ih => exact congrArg (text s) (ih n)
  | comment s rest ih => exact congrArg (comment s) (ih n)
  | branch i l below rest ihb ihr => simp only [map, identify, ihb, ihr]

@[simp] theorem newCount_map_none {ι κ : Type} (r : Nodes κ) :
    (r.map fun _ ↦ (none : Option ι)).newCount = r.branchCount := by
  induction r with
  | nil => rfl
  | text s rest ih => exact ih
  | comment s rest ih => exact ih
  | branch i l below rest ihb ihr => simp only [map, newCount, ihb, ihr]; rfl

theorem mem_ids_identify {r : Nodes (Option Nat)} {n j : Nat} (h : j ∈ (r.identify n).ids) :
    some j ∈ r.ids ∨ n ≤ j ∧ j < n + r.newCount := by
  induction r generalizing n with
  | nil => cases h
  | text s rest ih => exact ih h
  | comment s rest ih => exact ih h
  | branch i l below rest ihb ihr =>
    cases i with
    | none =>
      simp only [identify, ids, List.mem_cons, List.mem_append] at h
      simp only [ids, List.mem_cons, reduceCtorEq, List.mem_append, false_or, newCount,
        Option.isNone_none, if_true]
      rcases h with rfl | h | h
      · omega
      · rcases ihb h with h | h
        · exact .inl (.inl h)
        · omega
      · rcases ihr h with h | h
        · exact .inl (.inr h)
        · omega
    | some i =>
      simp only [identify, ids, List.mem_cons, List.mem_append] at h
      simp only [ids, List.mem_cons, Option.some.injEq, List.mem_append, newCount,
        Option.isNone_some, Bool.false_eq_true, if_false]
      rcases h with rfl | h | h
      · exact .inl (.inl rfl)
      · rcases ihb h with h | h
        · exact .inl (.inr (.inl h))
        · omega
      · rcases ihr h with h | h
        · exact .inl (.inr (.inr h))
        · omega

@[simp] theorem identify_map_none {κ : Type} (r : Nodes κ) (n : Nat) :
    (r.map fun _ ↦ none).identify n = r.numbered n := by
  induction r generalizing n with
  | nil => rfl
  | text s rest ih => exact congrArg (text s) (ih n)
  | comment s rest ih => exact congrArg (comment s) (ih n)
  | branch i l below rest ihb ihr =>
    simp only [map, identify, numbered, ihb, ihr, newCount_map_none]

end Markup.Nodes

namespace Template

open Markup

/-- A row below a node, in a forest whose next node is `n`. -/
structure Fits (F : Frame Nat) (row : Nodes Nat) (n : Nat) : Prop where
  nodup : row.ids.Nodup
  apart : ∀ i ∈ row.ids, i ∉ F.ids
  frame_lt : ∀ i ∈ F.ids, i < n
  row_lt : ∀ i ∈ row.ids, i < n
  elements : row.OnlyElements
  owned : F.owner.isSome = true

namespace Fits

variable {F : Frame Nat} {i : Nat} {l : Label} {below rest : Nodes Nat} {n : Nat}

theorem not_mem (h : Fits F (.branch i l below rest) n) :
    i ∉ F.ids ∧ i ∉ below.ids ∧ i ∉ rest.ids := by
  have hn := h.nodup
  simp only [Nodes.ids, List.nodup_cons, List.mem_append, not_or] at hn
  exact ⟨h.apart i List.mem_cons_self, hn.1⟩

theorem inside (h : Fits F (.branch i l below rest) n) :
    Fits (F.comp (.within i l .hole rest)) below n where
  nodup := (List.nodup_append.1 (List.nodup_cons.1 h.nodup).2).1
  apart j hj := by
    have hd := (List.nodup_append.1 (List.nodup_cons.1 h.nodup).2).2.2
    simp only [Frame.mem_ids_comp, Frame.ids, List.nil_append, List.mem_cons, not_or]
    refine ⟨h.apart j (by simp [Nodes.ids, hj]), fun hji ↦ h.not_mem.2.1 (hji ▸ hj),
      fun hjr ↦ hd j hj j hjr rfl⟩
  frame_lt j hj := by
    simp only [Frame.mem_ids_comp, Frame.ids, List.nil_append, List.mem_cons] at hj
    rcases hj with hj | rfl | hj
    · exact h.frame_lt j hj
    · exact h.row_lt j List.mem_cons_self
    · exact h.row_lt j (by simp [Nodes.ids, hj])
  row_lt j hj := h.row_lt j (by simp [Nodes.ids, hj])
  elements := h.elements.2.1
  owned := by simp [Frame.owner]

theorem past {row : Nodes Nat} (h : Fits F row n) {G : Frame Nat} (hG : G.ids = [])
    (ho : G.owner = none) : Fits (F.comp G) row n where
  nodup := h.nodup
  apart j hj := by
    simpa only [Frame.mem_ids_comp, hG, List.not_mem_nil, or_false] using h.apart j hj
  frame_lt j hj := h.frame_lt j (by
    simpa only [Frame.mem_ids_comp, hG, List.not_mem_nil, or_false] using hj)
  row_lt := h.row_lt
  elements := h.elements
  owned := by simpa only [Frame.owner_comp, ho, Option.none_or] using h.owned

theorem text {s : String} (h : Fits F (.text s rest) n) :
    Fits (F.comp (.text s .hole)) rest n :=
  have hrest : Fits F rest n :=
    ⟨h.nodup, h.apart, h.frame_lt, h.row_lt, h.elements, h.owned⟩
  hrest.past rfl rfl

theorem comment {s : String} (h : Fits F (.comment s rest) n) :
    Fits (F.comp (.comment s .hole)) rest n :=
  have hrest : Fits F rest n :=
    ⟨h.nodup, h.apart, h.frame_lt, h.row_lt, h.elements, h.owned⟩
  hrest.past rfl rfl

theorem not_mem_rest (h : Fits F (.branch i l below rest) n) {j m : Nat}
    (hj : n ≤ j ∧ j < m ∨ j = i ∨ j ∈ below.ids) : j ∉ rest.ids := by
  rcases hj with hj | rfl | hj
  · intro hr
    have := h.row_lt j (List.mem_cons_of_mem _ (List.mem_append_right _ hr))
    omega
  · exact h.not_mem.2.2
  · exact fun hr ↦ (List.nodup_append.1 (List.nodup_cons.1 h.nodup).2).2.2 j hj j hr rfl

theorem later (h : Fits F (.branch i l below rest) n) {front loose : Nodes Nat} {m : Nat}
    (hm : n ≤ m) (hf : ∀ j ∈ front.ids, n ≤ j ∧ j < m ∨ j = i ∨ j ∈ below.ids)
    (hl : ∀ j ∈ loose.ids, n ≤ j ∧ j < m ∨ j = i ∨ j ∈ below.ids) :
    Fits ((F.comp (Frame.hole.behind front)).behind loose) rest m where
  nodup := (List.nodup_append.1 (List.nodup_cons.1 h.nodup).2).2.1
  apart j hj := by
    simp only [Frame.ids_behind, List.mem_append, Frame.mem_ids_comp, Frame.ids, List.not_mem_nil,
      or_false, not_or]
    exact ⟨fun hx ↦ h.not_mem_rest (hl j hx) hj,
      h.apart j (List.mem_cons_of_mem _ (List.mem_append_right _ hj)),
      fun hx ↦ h.not_mem_rest (hf j hx) hj⟩
  frame_lt j hj := by
    have hlt : n ≤ j ∧ j < m ∨ j = i ∨ j ∈ below.ids → j < m := by
      rintro (hj | rfl | hj)
      · exact hj.2
      · exact (h.row_lt _ List.mem_cons_self).trans_le hm
      · exact (h.row_lt j (List.mem_cons_of_mem _ (List.mem_append_left _ hj))).trans_le hm
    simp only [Frame.ids_behind, List.mem_append, Frame.mem_ids_comp, Frame.ids, List.not_mem_nil,
      or_false] at hj
    rcases hj with hj | hj | hj
    · exact hlt (hl j hj)
    · exact (h.frame_lt j hj).trans_le hm
    · exact hlt (hf j hj)
  row_lt j hj :=
    (h.row_lt j (List.mem_cons_of_mem _ (List.mem_append_right _ hj))).trans_le hm
  elements := h.elements.2.2
  owned := by simpa [Frame.owner] using h.owned

end Fits

def looseElements (n : Nat) : List (Label × Nodes Unit) → Nodes Nat
  | [] => .nil
  | (l, row) :: rest =>
    looseElements (n + 1 + row.branchCount) rest ++ .branch n l (row.numbered (n + 1)) .nil

def elementIds (n : Nat) : List (Label × Nodes Unit) → List Nat
  | [] => []
  | (_, row) :: rest => n :: elementIds (n + 1 + row.branchCount) rest

theorem le_of_mem_elementIds {n j : Nat} {gen : List (Label × Nodes Unit)}
    (h : j ∈ elementIds n gen) : n ≤ j := by
  induction gen generalizing n with
  | nil => cases h
  | cons e gen ih =>
    rcases List.mem_cons.1 h with rfl | h
    · exact le_rfl
    · have := ih h
      omega

theorem ids_looseElements_ge {n j : Nat} {gen : List (Label × Nodes Unit)}
    (h : j ∈ (looseElements n gen).ids) : n ≤ j := by
  induction gen generalizing n with
  | nil => cases h
  | cons e rest ih =>
    obtain ⟨l, row⟩ := e
    simp only [looseElements, Nodes.ids_append, Nodes.ids, Nodes.ids_numbered, List.append_nil,
      List.mem_append, List.mem_cons, List.mem_range'_1] at h
    rcases h with h | rfl | h
    · have := ih h
      omega
    · exact le_rfl
    · omega

theorem plantAll_eq (gen : List (Label × Nodes Unit)) (t : Nodes Nat) (n : Nat) :
    (⟨t, n⟩ : Forest).plantAll gen =
      (elementIds n gen, ⟨looseElements n gen ++ t, n + (Nodes.ofElements gen).branchCount⟩) := by
  induction gen generalizing t n with
  | nil => rfl
  | cons e rest ih =>
    obtain ⟨l, row⟩ := e
    simp only [Forest.plantAll, Forest.plant, ih, elementIds, looseElements, Nodes.ofElements,
      Nodes.branchCount, Nodes.append_assoc, Nodes.branch_append, Nodes.nil_append]
    rw [show n + 1 + row.branchCount + (Nodes.ofElements rest).branchCount =
      n + (1 + row.branchCount + (Nodes.ofElements rest).branchCount) by omega]

theorem beforeAll_fill {F : Frame Nat} {p i : Nat} {l : Label} {below rest : Nodes Nat}
    {n m : Nat} (gen : List (Label × Nodes Unit)) (ho : F.owner = some p) (hp : p < n) (hi : i < n)
    (hiF : i ∉ F.ids) (hF : ∀ j ∈ F.ids, j < n) :
    (⟨looseElements n gen ++ F.fill (.branch i l below rest), m⟩ : Forest).beforeAll i
        (elementIds n gen) =
      .ok ⟨F.fill ((Nodes.ofElements gen).numbered n ++ .branch i l below rest), m⟩ := by
  induction gen generalizing n F with
  | nil => rfl
  | cons e gen ih =>
    obtain ⟨l', row⟩ := e
    have hstep : (⟨looseElements n ((l', row) :: gen) ++ F.fill (.branch i l below rest), m⟩ :
        Forest).before i n = .ok ⟨looseElements (n + 1 + row.branchCount) gen ++
          (F.comp (.after n l' (row.numbered (n + 1)) .hole)).fill (.branch i l below rest), m⟩ := by
      rw [looseElements, Nodes.append_assoc, Nodes.branch_append, Nodes.nil_append,
        Frame.fill_comp]
      apply Forest.before_fill ho
      · simp only [Nodes.ids_numbered, List.mem_append, List.mem_cons, List.mem_range'_1, not_or]
        refine ⟨⟨fun h ↦ ?_, by omega, by omega⟩, hiF⟩
        have := ids_looseElements_ge h
        omega
      · simp only [List.mem_append, not_or]
        refine ⟨fun h ↦ ?_, fun h ↦ absurd (hF n h) (lt_irrefl n)⟩
        have := ids_looseElements_ge h
        omega
      · simp only [Nodes.ids_numbered, List.mem_range'_1]
        omega
    rw [elementIds, Forest.beforeAll, hstep]
    refine (ih (by simpa [Frame.owner] using ho) (by omega) (by omega) ?_ ?_).trans ?_
    · simp only [Frame.mem_ids_comp, Frame.ids, List.append_nil, List.mem_cons, Nodes.ids_numbered,
        List.mem_range'_1, not_or]
      exact ⟨hiF, by omega, by omega⟩
    · intro j hj
      simp only [Frame.mem_ids_comp, Frame.ids, List.append_nil, List.mem_cons, Nodes.ids_numbered,
        List.mem_range'_1] at hj
      rcases hj with hj | hj | hj
      · have := hF j hj
        omega
      · omega
      · omega
    · rw [Frame.fill_comp]
      rfl

section

variable {data : Data} {F : Frame Nat} {i : Nat} {l : Label} {below rest : Nodes Nat} {n : Nat}

theorem expand_fill (h : Fits F (.branch i l below rest) n) (loop : Loop) :
    loop.expand data ⟨F.fill (.branch i l below rest), n⟩ i =
      (loop.generate data l.tag below).map fun gen ↦ (elementIds n gen,
        ⟨.branch i l below (F.fill ((Nodes.ofElements gen).numbered n ++ rest)),
          n + (Nodes.ofElements gen).branchCount⟩) := by
  obtain ⟨p, ho⟩ := Option.isSome_iff_exists.1 h.owned
  have hi := h.not_mem.1
  have hin : i < n := h.row_lt i List.mem_cons_self
  unfold Loop.expand Loop.generate
  rw [Forest.tag, Forest.label_fill hi, Forest.textContent, Forest.below_fill hi,
    Forest.parent?_fill hi ho]
  cases data.get? loop.collection with
  | none => rfl
  | some value =>
    cases hlist : value.list? with
    | none => simp only [hlist]; rfl
    | some items =>
      simp only [hlist, Option.isNone_some, Bool.false_eq_true, if_false]
      split
      · rfl
      · simp only [plantAll_eq]
        rw [beforeAll_fill _ ho (h.frame_lt p (Frame.owner_mem ho)) hin hi h.frame_lt]
        simp only [Except.map]
        set gen := items.map fun item ↦ (Label.ofTag l.tag, loop.content l.tag below.textContent item)
        have hfill : F.fill ((Nodes.ofElements gen).numbered n ++ .branch i l below rest) =
            (F.comp (Frame.hole.behind ((Nodes.ofElements gen).numbered n))).fill
              (.branch i l below rest) := by
          rw [Frame.fill_comp, Frame.fill_behind]
          rfl
        rw [hfill, Forest.remove_fill, Frame.fill_comp, Frame.fill_behind]
        · rfl
        · simp only [Frame.mem_ids_comp, Frame.ids_behind, Nodes.ids_numbered, Frame.ids,
            List.append_nil, List.mem_range'_1, not_or]
          exact ⟨hi, by omega⟩
        · simpa [Frame.owner] using ho

def dispatched (F : Frame Nat) (i : Nat) (l : Label) (below rest : Nodes Nat) (n : Nat)
    (ts : List (Except Diagnostic (List (Label × Nodes Unit)))) : Dispatched :=
  match ts.findSome? (·.toOption) with
  | some gen => ⟨.expanded (elementIds n gen),
      ⟨.branch i l below (F.fill ((Nodes.ofElements gen).numbered n ++ rest)),
        n + (Nodes.ofElements gen).branchCount⟩, faults ts⟩
  | none => ⟨.kept, ⟨F.fill (.branch i l below rest), n⟩, faults ts⟩

theorem dispatched_error_cons (d : Diagnostic)
    (ts : List (Except Diagnostic (List (Label × Nodes Unit)))) :
    dispatched F i l below rest n (.error d :: ts) =
      { dispatched F i l below rest n ts with
        reports := d :: (dispatched F i l below rest n ts).reports } := by
  have hfaults : faults (.error d :: ts) = d :: faults ts := rfl
  rw [dispatched, dispatched, List.findSome?_cons_of_isNone rfl, hfaults]
  cases ts.findSome? (·.toOption) <;> rfl

theorem dispatchAttributes_fill (h : Fits F (.branch i l below rest) n) (as : List Attribute) :
    dispatchAttributes data ⟨F.fill (.branch i l below rest), n⟩ i as =
      dispatched F i l below rest n (as.filterMap (attempt data l.tag below)) := by
  induction as with
  | nil => rfl
  | cons a as ih =>
    rw [dispatchAttributes, ih]
    cases hparse : Directive.parse? a.name a.value with
    | none =>
      have hnone : attempt data l.tag below a = none := by rw [attempt, hparse]; rfl
      rw [List.filterMap_cons_none hnone]
    | some parsed =>
      cases parsed with
      | error e =>
        have herror : attempt data l.tag below a =
            some (.error (.malformedDirective a.value e)) := by rw [attempt, hparse]; rfl
        rw [List.filterMap_cons_some herror, dispatched_error_cons]
      | ok directive =>
        obtain ⟨loop⟩ := directive
        have hloop : attempt data l.tag below a = some (loop.generate data l.tag below) := by
          rw [attempt, hparse]
          rfl
        rw [List.filterMap_cons_some hloop]
        simp only [expand_fill h]
        cases loop.generate data l.tag below with
        | error d => exact (dispatched_error_cons d _).symm
        | ok gen => rfl

theorem dispatch_fill (h : Fits F (.branch i l below rest) n) :
    dispatch data ⟨F.fill (.branch i l below rest), n⟩ i =
      dispatched F i l below rest n (attempts data l below) := by
  rw [dispatch, Forest.label_fill h.not_mem.1, dispatchAttributes_fill h]
  rfl

theorem substitute_fill (h : Fits F (.branch i l below rest) n) (h₀ : ¬ 0 < below.elementCount) :
    substitute data ⟨F.fill (.branch i l below rest), n⟩ i =
      ⟨F.fill (.branch i l (fillLeaf data below) rest), n⟩ := by
  have hi := h.not_mem.1
  have hids : below.ids = [] := Nodes.ids_eq_nil_of_elementCount h.elements.2.1 h₀
  rw [substitute, Forest.textContent, Forest.below_fill hi, replace?, fillLeaf]
  by_cases hany : (pieces below.textContent.toList).any (Piece.resolves (display? data)) = true
  · simp only [if_pos hany]
    rw [Forest.setText, Forest.setContent_fill hi, Nodes.branchesOnly_eq_nil hids,
      Nodes.numbered_ofText, Nodes.branchCount_ofText]
    rfl
  · simp only [if_neg hany]

end

section

variable {ι : Type} (data : Data) {row : Nodes ι}

theorem nothing_in (h : row.ids = []) :
    reportsIn data row = [] ∧ visitedIn data row = [] ∧ replaced data row = .nil := by
  induction row with
  | nil => exact ⟨rfl, rfl, rfl⟩
  | text s rest ih => exact ih h
  | comment s rest ih => exact ih h
  | branch i l below rest _ _ => cases h

theorem ids_replaced_subset (row : Nodes ι) : (replaced data row).ids ⊆ row.ids := by
  induction row with
  | nil => exact List.Subset.refl _
  | text s rest ih => exact ih
  | comment s rest ih => exact ih
  | branch i l below rest ihb ihr =>
    intro j hj
    simp only [replaced, Nodes.ids_append, List.mem_append] at hj
    simp only [Nodes.ids, List.mem_cons, List.mem_append]
    rcases hj with hj | hj
    · exact .inr (.inr (ihr hj))
    · split at hj
      · rw [Nodes.ids, Nodes.ids, List.append_nil, List.mem_cons] at hj
        exact hj.imp_right .inl
      · exact .inr (.inl (ihb hj))

theorem ids_fillLeaf_subset (below : Nodes ι) : (fillLeaf data below).ids ⊆ below.ids := by
  unfold fillLeaf
  dsimp only
  split
  · rw [Nodes.ids_ofText]
    exact List.nil_subset _
  · exact List.Subset.refl _

theorem mem_ids_of_mem_transform {row : Nodes ι} {i : ι} (h : some i ∈ (transform data row).ids) :
    i ∈ row.ids := by
  induction row with
  | nil => cases h
  | text s rest ih => exact ih h
  | comment s rest ih => exact ih h
  | branch j l below rest ihb ihr =>
    rw [transform, Nodes.ids_append, List.mem_append] at h
    simp only [Nodes.ids, List.mem_cons, List.mem_append]
    refine or_assoc.1 (h.imp (fun h ↦ ?_) ihr)
    split at h
    · simp only [Nodes.ids_map, List.mem_map, reduceCtorEq, and_false, exists_false] at h
    · simp only [Nodes.ids, List.append_nil, List.mem_cons, Option.some.injEq] at h
      refine h.imp_right fun hb ↦ ?_
      split at hb
      · exact ihb hb
      · obtain ⟨k, hk, hki⟩ := List.mem_map.1 (Nodes.ids_map some _ ▸ hb)
        exact ids_fillLeaf_subset data below (Option.some.inj hki ▸ hk)

end

section

variable {data : Data} {F : Frame Nat} {i : Nat} {l : Label} {below rest : Nodes Nat} {n : Nat}

theorem renderRow_branch (rest : Nodes Nat) (f : Forest) :
    renderRow data (.branch i l below rest) f =
      let first := renderRow data (.branch i l below .nil) f
      let after := renderRow data rest first.forest
      ⟨after.forest, first.reports ++ after.reports, first.visited ++ after.visited⟩ := by
  simp only [renderRow, List.append_nil, List.cons_append]

theorem transform_branch (rest : Nodes Nat) :
    transform data (.branch i l below rest) =
      transform data (.branch i l below .nil) ++ transform data rest := by
  simp only [transform, Nodes.append_nil]

theorem reportsIn_branch (rest : Nodes Nat) :
    reportsIn data (.branch i l below rest) =
      reportsIn data (.branch i l below .nil) ++ reportsIn data rest := by
  simp only [reportsIn, List.append_nil]

theorem visitedIn_branch (rest : Nodes Nat) :
    visitedIn data (.branch i l below rest) =
      visitedIn data (.branch i l below .nil) ++ visitedIn data rest := by
  simp only [visitedIn, List.append_nil, List.cons_append]

theorem replaced_branch (rest : Nodes Nat) :
    replaced data (.branch i l below rest) =
      replaced data rest ++ replaced data (.branch i l below .nil) := by
  simp only [replaced, Nodes.nil_append]

theorem mem_ids_first {j : Nat}
    (hj : j ∈ ((transform data (.branch i l below .nil)).identify n).ids) :
    n ≤ j ∧ j < n + (transform data (.branch i l below .nil)).newCount ∨ j = i ∨ j ∈ below.ids := by
  rcases Nodes.mem_ids_identify hj with hj | hj
  · refine .inr ?_
    have := mem_ids_of_mem_transform data hj
    rwa [Nodes.ids, Nodes.ids, List.append_nil, List.mem_cons] at this
  · exact .inl hj

theorem Fits.after_first (data : Data) (h : Fits F (.branch i l below rest) n) :
    Fits ((F.comp (Frame.hole.behind ((transform data (.branch i l below .nil)).identify n))).behind
        (replaced data (.branch i l below .nil))) rest
      (n + (transform data (.branch i l below .nil)).newCount) := by
  refine h.later (Nat.le_add_right _ _) (fun j hj ↦ mem_ids_first hj) (fun j hj ↦ .inr ?_)
  have := ids_replaced_subset data (.branch i l below .nil) hj
  rwa [Nodes.ids, Nodes.ids, List.append_nil, List.mem_cons] at this

theorem renderRow_first
    (hbelow : ∀ {G : Frame Nat}, Fits G below n → renderRow data below ⟨G.fill below, n⟩ =
      ⟨⟨replaced data below ++ G.fill ((transform data below).identify n),
        n + (transform data below).newCount⟩, reportsIn data below, visitedIn data below⟩)
    (h : Fits F (.branch i l below rest) n) :
    renderRow data (.branch i l below .nil) ⟨F.fill (.branch i l below rest), n⟩ =
      ⟨⟨replaced data (.branch i l below .nil) ++
          F.fill ((transform data (.branch i l below .nil)).identify n ++ rest),
        n + (transform data (.branch i l below .nil)).newCount⟩,
        reportsIn data (.branch i l below .nil), visitedIn data (.branch i l below .nil)⟩ := by
  rw [renderRow, dispatch_fill h, dispatched,
    show (attempts data l below).findSome? (·.toOption) = standIns? data l below from rfl,
    show faults (attempts data l below) = failures data l below from rfl]
  simp only [transform, reportsIn, visitedIn, replaced]
  cases standIns? data l below with
  | some gen =>
    simp only [Option.isSome_some, if_true, Nodes.append_nil, Nodes.identify_map_none,
      Nodes.newCount_map_none, Nodes.nil_append, Nodes.branch_append, List.append_nil, renderRow]
  | none =>
    simp only [Option.isSome_none, Bool.false_eq_true, if_false, Nodes.append_nil,
      Nodes.nil_append, List.append_nil, renderRow]
    by_cases h₀ : 0 < below.elementCount
    · have hinside := hbelow h.inside
      simp only [Frame.fill_comp, Frame.fill] at hinside
      simp only [if_pos h₀, hinside, Nodes.identify, Nodes.newCount, Option.isNone_some,
        Bool.false_eq_true, if_false, Nat.zero_add, Nat.add_zero, Nodes.branch_append,
        Nodes.nil_append]
    · obtain ⟨hreports, hvisited, hreplaced⟩ :=
        nothing_in data (Nodes.ids_eq_nil_of_elementCount h.elements.2.1 h₀)
      simp only [if_neg h₀, substitute_fill h h₀, hreports, hvisited, hreplaced, Nodes.identify,
        Nodes.newCount, Nodes.identify_map_some, Nodes.newCount_map_some, Option.isNone_some,
        Bool.false_eq_true, if_false, Nat.add_zero, Nodes.branch_append, Nodes.nil_append,
        List.append_nil]

end

/-- What a pass makes of a row in a frame: the row is transformed, the elements that others stand
for become loose, and all else is as it was. -/
theorem renderRow_fill (data : Data) {F : Frame Nat} {row : Nodes Nat} {n : Nat}
    (h : Fits F row n) :
    renderRow data row ⟨F.fill row, n⟩ =
      ⟨⟨replaced data row ++ F.fill ((transform data row).identify n),
        n + (transform data row).newCount⟩, reportsIn data row, visitedIn data row⟩ := by
  induction row generalizing F n with
  | nil => rfl
  | text s rest ih =>
    have hrest := ih h.text
    simp only [Frame.fill_comp, Frame.fill] at hrest
    exact hrest
  | comment s rest ih =>
    have hrest := ih h.comment
    simp only [Frame.fill_comp, Frame.fill] at hrest
    exact hrest
  | branch i l below rest ihb ihr =>
    have hrest := ihr (h.after_first data)
    simp only [Frame.fill_behind, Frame.fill_comp, Frame.fill] at hrest
    rw [renderRow_branch, renderRow_first ihb h]
    simp only [hrest]
    rw [transform_branch rest, reportsIn_branch rest, visitedIn_branch rest,
      replaced_branch rest, Nodes.identify_append, Nodes.newCount_append, Nodes.append_assoc,
      Nat.add_assoc]

end Template

end LivePage
