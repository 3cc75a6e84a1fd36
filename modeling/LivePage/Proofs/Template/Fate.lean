import LivePage.Proofs.Forest.Confined
import LivePage.Proofs.Template.Census

namespace LivePage

open Markup Template

namespace Template

variable (data : Data)

def contentAfter {ι : Type} (below : Nodes ι) : Nodes (Option ι) :=
  if 0 < below.elementCount then transform data below else (fillLeaf data below).map some

section

variable {ι : Type}

/-- No loop of the row succeeds, and no text in it has a placeholder to replace by another text. -/
def Idle : Nodes ι → Prop
  | .nil => True
  | .text _ rest | .comment _ rest => Idle rest
  | .branch _ l below rest => standIns? data l below = none ∧
    (0 < below.elementCount ∧ Idle below ∨
      ¬ 0 < below.elementCount ∧ fillLeaf data below = below) ∧ Idle rest

def IdleIn (below : Nodes ι) : Prop :=
  0 < below.elementCount ∧ Idle data below ∨
    ¬ 0 < below.elementCount ∧ fillLeaf data below = below

variable {data} {row : Nodes ι}

theorem transform_of_idle (h : Idle data row) : transform data row = row.map some := by
  induction row with
  | nil => rfl
  | text s rest ih => exact congrArg (Nodes.text s) (ih h)
  | comment s rest ih => exact congrArg (Nodes.comment s) (ih h)
  | branch i l below rest ihb ihr =>
    obtain ⟨hnone, hbelow, hrest⟩ := h
    simp only [transform, hnone, ihr hrest, Nodes.map, Nodes.branch_append, Nodes.nil_append]
    congr 1
    rcases hbelow with ⟨hpos, hbelow⟩ | ⟨hzero, hleaf⟩
    · rw [if_pos hpos, ihb hbelow]
    · rw [if_neg hzero, hleaf]

end

variable {data} {row : Nodes Nat} {n : Nat}

theorem idle_of_identify (hr : (replaced data row).ids = [])
    (h : (transform data row).identify n = row) : Idle data row := by
  induction row generalizing n with
  | nil => trivial
  | text s rest ih => exact ih hr (Nodes.text.inj h).2
  | comment s rest ih => exact ih hr (Nodes.comment.inj h).2
  | branch i l below rest ihb ihr =>
    rw [replaced, Nodes.ids_append, List.append_eq_nil_iff] at hr
    have hnone : standIns? data l below = none := by
      cases hs : standIns? data l below with
      | none => rfl
      | some elements =>
        rw [hs, Option.isSome_some, if_pos rfl] at hr
        cases hr.2
    rw [hnone, Option.isSome_none, if_neg Bool.false_ne_true] at hr
    simp only [transform, hnone, Nodes.branch_append, Nodes.nil_append, Nodes.identify] at h
    obtain ⟨-, -, hbelow, hrest⟩ := Nodes.branch.inj h
    refine ⟨hnone, ?_, ihr hr.1 hrest⟩
    split at hbelow
    · next hpos => exact .inl ⟨hpos, ihb hr.2 hbelow⟩
    · next hzero => exact .inr ⟨hzero, (Nodes.identify_map_some _ _).symm.trans hbelow⟩

theorem identify_transform_eq_iff (ho : row.OnlyElements) (hlt : ∀ i ∈ row.ids, i < n) :
    (transform data row).identify n = row ↔ Idle data row := by
  refine ⟨fun h ↦ idle_of_identify ?_ h, fun h ↦ ?_⟩
  · have hids := (Nodes.ids_identify_perm (transform data row) n).symm
    rw [h] at hids
    have hnew : (transform data row).newCount = 0 := by
      by_contra hne
      have hmem : n ∈ List.range' n (transform data row).newCount :=
        List.mem_range'_1.2 ⟨le_rfl, by omega⟩
      exact lt_irrefl n (hlt n (hids.subset (List.mem_append_right _ hmem)))
    have hkept := (replaced_transform_perm data ho).length_eq
    have hall := hids.length_eq
    rw [hnew, List.range'_zero, List.append_nil] at hall
    rw [List.length_append] at hkept
    exact List.length_eq_zero_iff.1 (by omega)
  · rw [transform_of_idle h, Nodes.identify_map_some]

theorem identify_contentAfter_eq_iff {below : Nodes Nat} (ho : below.OnlyElements)
    (hlt : ∀ i ∈ below.ids, i < n) :
    (contentAfter data below).identify n = below ↔ IdleIn data below := by
  rw [contentAfter, IdleIn]
  split
  · next hpos => simp only [identify_transform_eq_iff ho hlt, hpos, true_and, not_true_eq_false,
      false_and, or_false]
  · next hzero => simp only [Nodes.identify_map_some, hzero, false_and, not_false_eq_true,
      true_and, false_or]

theorem visitedIn_subset {ι : Type} (data : Data) (row : Nodes ι) :
    visitedIn data row ⊆ row.ids := by
  induction row with
  | nil => exact List.Subset.refl _
  | text s rest ih => exact ih
  | comment s rest ih => exact ih
  | branch i l below rest ihb ihr =>
    intro j hj
    rw [visitedIn, List.mem_cons, List.mem_append] at hj
    rw [Nodes.ids, List.mem_cons, List.mem_append]
    refine hj.imp_right (Or.imp (fun hj ↦ ?_) fun hj ↦ ihr hj)
    split at hj
    · cases hj
    · exact ihb hj

section

variable {i j : Nat} {l lj : Label} {below bj rest : Nodes Nat}

theorem mem_visitedIn_of_mem_below (hn : (Nodes.branch j lj bj rest).ids.Nodup) (hi : i ∈ bj.ids) :
    i ∈ visitedIn data (.branch j lj bj rest) ↔
      standIns? data lj bj = none ∧ i ∈ visitedIn data bj := by
  obtain ⟨hj, hrow⟩ := List.nodup_cons.1 hn
  obtain ⟨-, -, hdisjoint⟩ := List.nodup_append.1 hrow
  have hne : i ≠ j := fun hij ↦ hj (List.mem_append_left _ (hij ▸ hi))
  have hnot : i ∉ visitedIn data rest := fun hv ↦
    hdisjoint i hi i (visitedIn_subset data rest hv) rfl
  rw [visitedIn, List.mem_cons, List.mem_append, or_iff_right hne, or_iff_left hnot]
  cases standIns? data lj bj with
  | some elements => exact iff_of_false List.not_mem_nil fun h ↦ Option.some_ne_none _ h.1
  | none => exact (and_iff_right rfl).symm

theorem mem_visitedIn_of_mem_rest (hn : (Nodes.branch j lj bj rest).ids.Nodup)
    (hi : i ∈ rest.ids) :
    i ∈ visitedIn data (.branch j lj bj rest) ↔ i ∈ visitedIn data rest := by
  obtain ⟨hj, hrow⟩ := List.nodup_cons.1 hn
  obtain ⟨-, -, hdisjoint⟩ := List.nodup_append.1 hrow
  rw [visitedIn_branch, List.mem_append]
  refine or_iff_right fun hv ↦ ?_
  have hfirst := visitedIn_subset data _ hv
  rw [Nodes.ids, Nodes.ids, List.append_nil, List.mem_cons] at hfirst
  rcases hfirst with rfl | hfirst
  · exact hj (List.mem_append_right _ hi)
  · exact hdisjoint i hfirst i hi rfl

/-- An element is visited and kept, or it is as it was: then others stand for it or it has not been
visited. -/
theorem fate (data : Data) (n : Nat) (ho : row.OnlyElements) (hn : row.ids.Nodup)
    (hi : (i, l, below) ∈ row.subtrees) :
    (i ∈ visitedIn data row ∧ standIns? data l below = none ∧
        ∃ n', n ≤ n' ∧ (i, l, (contentAfter data below).identify n') ∈
          ((transform data row).identify n).subtrees) ∨
      (i ∈ visitedIn data row → (standIns? data l below).isSome = true) ∧
        (i, l, below) ∈ (replaced data row).subtrees := by
  induction row generalizing n with
  | nil => cases hi
  | text s rest ih => exact ih n ho hn hi
  | comment s rest ih => exact ih n ho hn hi
  | branch j lj bj rest ihb ihr =>
    obtain ⟨-, hrow⟩ := List.nodup_cons.1 hn
    obtain ⟨hbelow, hrest, -⟩ := List.nodup_append.1 hrow
    rw [transform_branch, replaced_branch, Nodes.identify_append, Nodes.subtrees_append,
      Nodes.subtrees_append]
    simp only [List.mem_append]
    rcases List.mem_cons.1 hi with hi | hi
    · obtain ⟨rfl, hi⟩ := Prod.ext_iff.1 hi
      obtain ⟨rfl, rfl⟩ := Prod.ext_iff.1 hi
      rw [transform, replaced]
      cases hs : standIns? data l below with
      | some elements => exact .inr ⟨fun _ ↦ rfl, .inr List.mem_cons_self⟩
      | none => exact .inl ⟨List.mem_cons_self, rfl, n, le_rfl, .inl List.mem_cons_self⟩
    rcases List.mem_append.1 hi with hi | hi
    · have hmem := Nodes.mem_ids_of_mem_subtrees hi
      rw [mem_visitedIn_of_mem_below hn hmem, transform, replaced]
      cases hs : standIns? data lj bj with
      | some elements =>
        exact .inr ⟨fun h ↦ absurd h.1 (Option.some_ne_none _),
          .inr (List.mem_cons_of_mem _ (List.mem_append_left _ hi))⟩
      | none =>
        have hpos : 0 < bj.elementCount := by
          by_contra h₀
          rw [Nodes.ids_eq_nil_of_elementCount ho.2.1 h₀] at hmem
          cases hmem
        rw [if_pos hpos]
        refine (ihb n ho.2.1 hbelow hi).imp ?_ ?_
        · rintro ⟨hv, hnone, n', hle, hafter⟩
          exact ⟨⟨rfl, hv⟩, hnone, n', hle,
            .inl (List.mem_cons_of_mem _ (List.mem_append_left _ hafter))⟩
        · rintro ⟨hv, hsame⟩
          exact ⟨fun hv' ↦ hv hv'.2, .inr hsame⟩
    · rw [mem_visitedIn_of_mem_rest hn (Nodes.mem_ids_of_mem_subtrees hi)]
      refine (ihr (n + (transform data (.branch j lj bj .nil)).newCount) ho.2.2 hrest
        hi).imp ?_ ?_
      · rintro ⟨hv, hnone, n', hle, hafter⟩
        exact ⟨hv, hnone, n', (Nat.le_add_right _ _).trans hle, .inr hafter⟩
      · rintro ⟨hv, hsame⟩
        exact ⟨hv, .inl hsame⟩

end

/-- What a row reports is what each of its elements reports that are visited. -/
theorem reportsIn_eq_flatMap {ι : Type} {row : Nodes ι} {g : ι → List Diagnostic}
    (hg : ∀ i l below, (i, l, below) ∈ row.subtrees → g i = failures data l below) :
    reportsIn data row = (visitedIn data row).flatMap g := by
  induction row with
  | nil => rfl
  | text s rest ih => exact ih hg
  | comment s rest ih => exact ih hg
  | branch i l below rest ihb ihr =>
    have hbelow := ihb fun j lj bj hj ↦
      hg j lj bj (List.mem_cons_of_mem _ (List.mem_append_left _ hj))
    have hrest := ihr fun j lj bj hj ↦
      hg j lj bj (List.mem_cons_of_mem _ (List.mem_append_right _ hj))
    rw [reportsIn, visitedIn, List.flatMap_cons, List.flatMap_append,
      hg i l below List.mem_cons_self, hrest, List.append_assoc]
    split
    · rfl
    · rw [hbelow]

end Template

namespace Forest

open Template

variable {f : Forest} {i q : NodeId} {l : Label} {below : Nodes NodeId} (data : Data)

theorem WellFormed.exists_fits (h : f.WellFormed) (hq : f.parent? i = some q) :
    ∃ (F : Frame Nat) (l : Label) (below rest : Nodes Nat),
      f = ⟨F.fill (.branch i l below rest), f.next⟩ ∧ Fits F (.branch i l below rest) f.next := by
  obtain ⟨F, l, below, rest, ht, ho⟩ := h.exists_fill_of_parent? hq
  obtain ⟨t, n⟩ := f
  obtain rfl := ht
  exact ⟨F, l, below, rest, rfl, h.fits (ho ▸ rfl)⟩

theorem dispatch_eq (h : f.WellFormed) (hq : f.parent? i = some q)
    (hi : f.node? i = some (l, below)) :
    (dispatch data f i).reports = failures data l below ∧
      ((dispatch data f i).result = .kept ↔ standIns? data l below = none) := by
  obtain ⟨F, l', below', rest, hf, hfits⟩ := h.exists_fits hq
  have hnode : f.node? i = some (l', below') := by
    rw [hf]
    exact node?_fill hfits.not_mem.1
  obtain ⟨rfl, rfl⟩ := Prod.mk.inj (Option.some.inj (hi.symm.trans hnode))
  rw [hf, dispatch_fill hfits, dispatched, standIns?]
  cases (attempts data l below).findSome? (·.toOption) with
  | none => exact ⟨rfl, iff_of_true rfl rfl⟩
  | some elements =>
    refine ⟨rfl, iff_of_false ?_ (Option.some_ne_none _)⟩
    rintro ⟨⟩

theorem node?_render_below (h : f.WellFormed) {root : NodeId} (hi : i ∈ (f.below root).ids)
    (hnode : f.node? i = some (l, below)) :
    (i ∈ (render data f root).visited ∧ standIns? data l below = none ∧ ∃ n ≥ f.next,
        (render data f root).forest.node? i = some (l, (contentAfter data below).identify n)) ∨
      (i ∈ (render data f root).visited → (standIns? data l below).isSome = true) ∧
        (render data f root).forest.node? i = some (l, below) := by
  have hfind := h.node?_of_mem_below hi
  obtain ⟨t, n⟩ := f
  cases hroot : (⟨t, n⟩ : Forest).node? root with
  | none =>
    rw [Forest.below, hroot] at hi
    cases hi
  | some node =>
    obtain ⟨lr, row⟩ := node
    have ho := h.onlyElements_of_node? hroot
    have hn := h.nodup_of_node? hroot
    rw [below_eq hroot, hnode] at hfind
    obtain ⟨F, rest, rfl, -⟩ := Frame.exists_fill_of_find? h.nodup hroot
    have hmem := Nodes.mem_subtrees_of_find? hfind.symm
    have hwell := wellFormed_render_fill data h
    rw [render_fill data h] at hwell ⊢
    simp only [node?, Nodes.find?_eq_some_iff hwell.nodup, Nodes.subtrees_append, List.mem_append]
    refine (fate data n ho hn hmem).imp ?_ ?_
    · rintro ⟨hv, hnone, n', hle, hafter⟩
      refine ⟨hv, hnone, n', hle, .inr (Frame.mem_subtrees_fill ?_)⟩
      exact List.mem_cons_of_mem _ (List.mem_append_left _ hafter)
    · rintro ⟨hv, hsame⟩
      exact ⟨hv, .inl hsame⟩

theorem visited_render_subset (h : f.WellFormed) (root : NodeId) :
    (render data f root).visited ⊆ (f.below root).ids := by
  cases hroot : f.node? root with
  | none =>
    rw [render, Forest.below, hroot]
    exact List.Subset.refl _
  | some node =>
    obtain ⟨l, row⟩ := node
    rw [render_eq_transform data h hroot, below_eq hroot]
    exact visitedIn_subset data row

theorem reports_render (h : f.WellFormed) (root : NodeId) :
    (render data f root).reports =
      (render data f root).visited.flatMap fun i ↦ (dispatch data f i).reports := by
  cases hroot : f.node? root with
  | none =>
    rw [render, Forest.below, hroot]
    rfl
  | some node =>
    obtain ⟨l, row⟩ := node
    rw [render_eq_transform data h hroot]
    refine reportsIn_eq_flatMap fun i li bi hi ↦ ?_
    have hmem : i ∈ (f.below root).ids := below_eq hroot ▸ Nodes.mem_ids_of_mem_subtrees hi
    obtain ⟨q, hq⟩ := Option.isSome_iff_exists.1 (h.parent?_of_mem_below hmem)
    exact (dispatch_eq data h hq (h.node?_of_mem_subtrees hroot hi)).1

/-- A pass reports what the elements report that it visits, and each of them keeps its label. What
is below such an element stays as it was exactly if others stand for the element, or if there is
nothing to do for the pass below it: an element that has been reported is not left out. -/
theorem render_reported (h : f.WellFormed) (root : NodeId) :
    (render data f root).reports =
        (render data f root).visited.flatMap (fun i ↦ (dispatch data f i).reports) ∧
      ∀ i ∈ (render data f root).visited, (render data f root).forest.label i = f.label i ∧
        ((render data f root).forest.node? i = f.node? i ↔
          (dispatch data f i).result ≠ .kept ∨ IdleIn data (f.below i)) := by
  refine ⟨reports_render data h root, fun i hv ↦ ?_⟩
  have hmem := visited_render_subset data h root hv
  obtain ⟨q, hq⟩ := Option.isSome_iff_exists.1 (h.parent?_of_mem_below hmem)
  obtain ⟨l, below, hnode⟩ := exists_node? (has_of_mem_below hmem)
  obtain ⟨-, hkept⟩ := dispatch_eq data h hq hnode
  have hbelow : ∀ j ∈ below.ids, j < f.next := fun j hj ↦ by
    rw [← below_eq hnode] at hj
    exact h.lt_next j (has_of_mem_below hj)
  rw [label_eq hnode, below_eq hnode, hnode, ne_eq, hkept]
  rcases node?_render_below data h hmem hnode with ⟨-, hnone, n, hle, hafter⟩ | ⟨hsome, hafter⟩
  · refine ⟨label_eq hafter, ?_⟩
    simp only [hafter, hnone, Option.some_inj, Prod.mk.injEq, true_and, not_true_eq_false, false_or]
    exact identify_contentAfter_eq_iff (h.onlyElements_of_node? hnode) fun j hj ↦
      (hbelow j hj).trans_le hle
  · refine ⟨label_eq hafter, iff_of_true hafter (.inl fun hnone ↦ ?_)⟩
    have hsome := hsome hv
    rw [hnone] at hsome
    cases hsome

end Forest

def faultyPage : Forest :=
  ⟨.branch 0 .document (.branch 1 (.element "div" [⟨"id", "app"⟩])
    (.branch 2 (.element "p" [⟨"d-for", "x of xs"⟩]) (.text "\x7b\x7bname\x7d\x7d" .nil)
      (.branch 3 (.element "p" [⟨"d-for", "x in xs"⟩]) (.text "\x7b\x7bx\x7d\x7d" .nil) .nil))
    .nil) .nil, 4⟩

def faultyData : Data :=
  .ofPairs [("name", .string "b")]

theorem Forest.render_reported_faulty :
    faultyPage.WellFormed ∧
      ((render faultyData faultyPage 1).visited.flatMap fun i ↦
        (dispatch faultyData faultyPage i).reports) =
          [.malformedDirective "x of xs" .missingIn, .unresolvedCollection "xs"] ∧
      ¬ IdleIn faultyData (faultyPage.below 2) ∧ IdleIn faultyData (faultyPage.below 3) := by
  have hpage : faultyPage.WellFormed := by decide +kernel
  obtain ⟨hreports, hvisited⟩ := Forest.render_reported faultyData hpage 1
  have hall : (render faultyData faultyPage 1).visited = [2, 3] := by decide +kernel
  obtain ⟨-, hfirst⟩ := hvisited 2 (by rw [hall]; exact List.mem_cons_self)
  obtain ⟨-, hsecond⟩ := hvisited 3 (by rw [hall]; decide)
  refine ⟨hpage, ?_, fun hidle ↦ ?_, ?_⟩
  · rw [← hreports]
    decide +kernel
  · have hchanged : (render faultyData faultyPage 1).forest.node? 2 ≠ faultyPage.node? 2 := by
      decide +kernel
    exact hchanged (hfirst.2 (.inr hidle))
  · have hsame : (render faultyData faultyPage 1).forest.node? 3 = faultyPage.node? 3 := by
      decide +kernel
    have hkept : (dispatch faultyData faultyPage 3).result = .kept := by decide +kernel
    exact (hsecond.1 hsame).resolve_left fun hne ↦ hne hkept

/-- An element whose loop is reported has its text replaced in the same pass. -/
theorem Forest.render_rewrites_reported :
    ∃ i ∈ (render faultyData faultyPage 1).visited,
      (dispatch faultyData faultyPage i).reports = [.malformedDirective "x of xs" .missingIn] ∧
      faultyPage.textContent i = "\x7b\x7bname\x7d\x7d" ∧
      (render faultyData faultyPage 1).forest.parent? i = faultyPage.parent? i ∧
      (render faultyData faultyPage 1).forest.textContent i = "b" :=
  ⟨2, by decide +kernel, by decide +kernel, by decide +kernel, by decide +kernel,
    by decide +kernel⟩

end LivePage
