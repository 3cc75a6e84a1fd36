import LivePage.Proofs.Markup.Order
import LivePage.Proofs.Template.Fate
import LivePage.Proofs.Template.Walk
import Mathlib.Logic.Function.Iterate

namespace LivePage.Template

open Markup

/-- A walk on its way: the forest as it is by now, the elements that are listed and have yet to be
come to, and what became of those before them. -/
structure Tour where
  forest : Forest
  pending : List NodeId
  calls : List (NodeId × Dispatch)

def advance (data : Data) (t : Tour) : Tour :=
  match t.pending with
  | [] => t
  | i :: later =>
    let tried := dispatch data t.forest i
    let calls := t.calls ++ [(i, tried.result)]
    if tried.result = .kept then
      if 0 < tried.forest.childCount i then ⟨tried.forest, tried.forest.children i ++ later, calls⟩
      else ⟨substitute data tried.forest i, later, calls⟩
    else ⟨tried.forest, later, calls⟩

variable (data : Data)

/-- What becomes of the elements of a row that a pass comes to, if `n` is the number of the next
node. -/
def callsIn : Nodes Nat → Nat → List (Nat × Dispatch)
  | .nil, _ => []
  | .text _ rest, n | .comment _ rest, n => callsIn rest n
  | .branch i l below rest, n =>
    (match standIns? data l below with
      | some gen => [(i, .expanded (elementIds n gen))]
      | none => (i, .kept) :: callsIn below n) ++
      callsIn rest (n + (transform data (.branch i l below .nil)).newCount)

theorem map_callsIn (row : Nodes Nat) (n : Nat) :
    (callsIn data row n).map (·.1) = visitedIn data row := by
  induction row generalizing n with
  | nil => rfl
  | text s rest ih => exact ih n
  | comment s rest ih => exact ih n
  | branch i l below rest ihb ihr =>
    rw [callsIn, visitedIn, List.map_append, ihr]
    cases standIns? data l below with
    | some gen => rfl
    | none =>
      rw [List.map_cons, ihb]
      rfl

section

variable {data} {F : Frame Nat} {i : Nat} {l : Label} {below rest row : Nodes Nat} {n : Nat}

theorem advance_expanded (h : Fits F (.branch i l below rest) n) {gen : List (Label × Nodes Unit)}
    (hgen : standIns? data l below = some gen) (later : List Nat) (calls : List (Nat × Dispatch)) :
    advance data ⟨⟨F.fill (.branch i l below rest), n⟩, i :: later, calls⟩ =
      ⟨(renderRow data (.branch i l below .nil) ⟨F.fill (.branch i l below rest), n⟩).forest, later,
        calls ++ [(i, .expanded (elementIds n gen))]⟩ := by
  have htried : (attempts data l below).findSome? (·.toOption) = some gen := hgen
  simp only [advance, renderRow, dispatch_fill h, dispatched, htried, reduceCtorEq, if_false]

theorem advance_inside (h : Fits F (.branch i l below rest) n)
    (hgen : standIns? data l below = none) (h₀ : 0 < below.elementCount) (later : List Nat)
    (calls : List (Nat × Dispatch)) :
    advance data ⟨⟨F.fill (.branch i l below rest), n⟩, i :: later, calls⟩ =
      ⟨⟨F.fill (.branch i l below rest), n⟩, below.branches.map (·.1) ++ later,
        calls ++ [(i, .kept)]⟩ := by
  have htried : (attempts data l below).findSome? (·.toOption) = none := hgen
  simp only [advance, dispatch_fill h, dispatched, htried, if_true, Forest.childCount,
    Forest.children, Forest.below_fill h.not_mem.1, if_pos h₀]

theorem advance_leaf (h : Fits F (.branch i l below rest) n)
    (hgen : standIns? data l below = none) (h₀ : ¬0 < below.elementCount) (later : List Nat)
    (calls : List (Nat × Dispatch)) :
    advance data ⟨⟨F.fill (.branch i l below rest), n⟩, i :: later, calls⟩ =
      ⟨(renderRow data (.branch i l below .nil) ⟨F.fill (.branch i l below rest), n⟩).forest, later,
        calls ++ [(i, .kept)]⟩ := by
  have htried : (attempts data l below).findSome? (·.toOption) = none := hgen
  simp only [advance, renderRow, dispatch_fill h, dispatched, htried, if_true, Forest.childCount,
    Forest.below_fill h.not_mem.1, if_neg h₀]

theorem renderRow_kept (h : Fits F (.branch i l below rest) n)
    (hgen : standIns? data l below = none) (h₀ : 0 < below.elementCount) :
    (renderRow data (.branch i l below .nil) ⟨F.fill (.branch i l below rest), n⟩).forest =
      (renderRow data below ⟨F.fill (.branch i l below rest), n⟩).forest := by
  have htried : (attempts data l below).findSome? (·.toOption) = none := hgen
  simp only [renderRow, dispatch_fill h, dispatched, htried, if_pos h₀]

/-- The walk past an element and what is below it, if the walk below goes as said. -/
theorem advance_first
    (hbelow : ∀ {G : Frame Nat}, Fits G below n → ∀ later calls,
      (advance data)^[(callsIn data below n).length]
          ⟨⟨G.fill below, n⟩, below.branches.map (·.1) ++ later, calls⟩ =
        ⟨(renderRow data below ⟨G.fill below, n⟩).forest, later, calls ++ callsIn data below n⟩)
    (h : Fits F (.branch i l below rest) n) (later : List Nat) (calls : List (Nat × Dispatch)) :
    (advance data)^[(callsIn data (.branch i l below .nil) n).length]
        ⟨⟨F.fill (.branch i l below rest), n⟩, i :: later, calls⟩ =
      ⟨(renderRow data (.branch i l below .nil) ⟨F.fill (.branch i l below rest), n⟩).forest, later,
        calls ++ callsIn data (.branch i l below .nil) n⟩ := by
  rw [callsIn, callsIn, List.append_nil]
  cases hgen : standIns? data l below with
  | some gen => exact advance_expanded h hgen later calls
  | none =>
    rw [List.length_cons, Function.iterate_succ_apply]
    by_cases h₀ : 0 < below.elementCount
    · have hinside := hbelow h.inside later (calls ++ [(i, .kept)])
      simp only [Frame.fill_comp, Frame.fill] at hinside
      rw [advance_inside h hgen h₀, hinside, renderRow_kept h hgen h₀, List.append_assoc]
      rfl
    · have hids : below.ids = [] := Nodes.ids_eq_nil_of_elementCount h.elements.2.1 h₀
      have hcalls : callsIn data below n = [] := by
        rw [← List.map_eq_nil_iff, map_callsIn]
        exact (nothing_in data hids).2.1
      rw [advance_leaf h hgen h₀, hcalls]
      rfl

theorem callsIn_branch :
    callsIn data (.branch i l below rest) n = callsIn data (.branch i l below .nil) n ++
      callsIn data rest (n + (transform data (.branch i l below .nil)).newCount) := by
  simp only [callsIn, List.append_nil]

theorem advance_row (data : Data) (h : Fits F row n) (later : List Nat)
    (calls : List (Nat × Dispatch)) :
    (advance data)^[(callsIn data row n).length]
        ⟨⟨F.fill row, n⟩, row.branches.map (·.1) ++ later, calls⟩ =
      ⟨(renderRow data row ⟨F.fill row, n⟩).forest, later, calls ++ callsIn data row n⟩ := by
  induction row generalizing F n later calls with
  | nil => rw [callsIn, List.append_nil]; rfl
  | text s rest ih =>
    have hrest := ih h.text later calls
    simp only [Frame.fill_comp, Frame.fill] at hrest
    exact hrest
  | comment s rest ih =>
    have hrest := ih h.comment later calls
    simp only [Frame.fill_comp, Frame.fill] at hrest
    exact hrest
  | branch i l below rest ihb ihr =>
    have hfirst := advance_first ihb h (rest.branches.map (·.1) ++ later) calls
    have hrest := ihr (h.after_first data) later (calls ++ callsIn data (.branch i l below .nil) n)
    simp only [Frame.fill_behind, Frame.fill_comp, Frame.fill] at hrest
    rw [callsIn_branch, List.length_append, Nat.add_comm, Function.iterate_add_apply,
      Nodes.branches, List.map_cons, List.cons_append, hfirst, renderRow_branch rest,
      renderRow_first (fun hG ↦ renderRow_fill data hG) h, hrest, List.append_assoc]

def Spared (f : Forest) (calls : List (NodeId × Dispatch)) (j : NodeId) : Prop :=
  ∀ c ∈ calls, c.2 = .kept ∨ j ∉ (f.below c.1).ids

instance (f : Forest) (calls : List (NodeId × Dispatch)) : DecidablePred (Spared f calls) :=
  fun j ↦ inferInstanceAs (Decidable (∀ c ∈ calls, c.2 = .kept ∨ j ∉ (f.below c.1).ids))

section

variable {f : Forest} {a b : List (NodeId × Dispatch)} {j : NodeId}

theorem spared_append : Spared f (a ++ b) j ↔ Spared f a j ∧ Spared f b j :=
  List.forall_mem_append

theorem spared_kept_cons : Spared f ((i, .kept) :: a) j ↔ Spared f a j := by
  simp only [Spared, List.forall_mem_cons, true_or, true_and]

theorem spared_expanded {is : List NodeId} :
    Spared f [(i, .expanded is)] j ↔ j ∉ (f.below i).ids := by
  simp only [Spared, List.forall_mem_singleton, reduceCtorEq, false_or]

theorem spared_of_not_mem (hrow : ∀ e ∈ row.subtrees, f.below e.1 = e.2.2) (hj : j ∉ row.ids) :
    Spared f (callsIn data row n) j := by
  intro c hc
  have hvisited : c.1 ∈ visitedIn data row := by
    rw [← map_callsIn data row n]
    exact List.mem_map_of_mem hc
  obtain ⟨l, below, hfind⟩ := Nodes.exists_find? (visitedIn_subset data row hvisited)
  rw [hrow _ (Nodes.mem_subtrees_of_find? hfind)]
  exact .inr fun hbelow ↦ hj ((Nodes.ids_subset_of_find? hfind).2 hbelow)

/-- A pass comes to the elements of a row that are not below one that it expands. -/
theorem visitedIn_eq_filter (data : Data) (hn : row.ids.Nodup)
    (hrow : ∀ e ∈ row.subtrees, f.below e.1 = e.2.2) (n : Nat) :
    visitedIn data row = row.ids.filter (Spared f (callsIn data row n) ·) := by
  induction row generalizing n with
  | nil => rfl
  | text s rest ih => exact ih hn hrow n
  | comment s rest ih => exact ih hn hrow n
  | branch i l below rest ihb ihr =>
    obtain ⟨hi, hids⟩ := List.nodup_cons.1 hn
    obtain ⟨hnb, hnr, hdisjoint⟩ := List.nodup_append.1 hids
    rw [List.mem_append, not_or] at hi
    obtain ⟨hself, hrow⟩ := List.forall_mem_cons.1 hrow
    obtain ⟨hbelow, hrest⟩ := List.forall_mem_append.1 hrow
    have hlater : ∀ m, ∀ j ∉ rest.ids, Spared f (callsIn data rest m) j :=
      fun m j hj ↦ spared_of_not_mem hrest hj
    rw [visitedIn, callsIn, Nodes.ids, ihr hnr hrest]
    simp only [spared_append]
    cases standIns? data l below with
    | some gen =>
      simp only [spared_expanded, hself]
      rw [List.filter_cons_of_pos, List.filter_append]
      · apply congrArg (i :: ·)
        apply congrArg₂ (· ++ ·)
        · refine (List.filter_eq_nil_iff.2 fun j hj hs ↦ ?_).symm
          exact (of_decide_eq_true hs).1 hj
        · apply List.filter_congr
          intro j hj
          rw [decide_eq_decide, and_iff_right fun hb ↦ hdisjoint j hb j hj rfl]
      · exact decide_eq_true ⟨hi.1, hlater _ i hi.2⟩
    | none =>
      have hinside : ∀ j ∉ below.ids, Spared f (callsIn data below n) j :=
        fun j hj ↦ spared_of_not_mem hbelow hj
      simp only [spared_kept_cons]
      rw [List.filter_cons_of_pos, List.filter_append, ihb hnb hbelow n]
      · apply congrArg (i :: ·)
        apply congrArg₂ (· ++ ·)
        · apply List.filter_congr
          intro j hj
          rw [decide_eq_decide, and_iff_left (hlater _ j fun hr ↦ hdisjoint j hj j hr rfl)]
        · apply List.filter_congr
          intro j hj
          rw [decide_eq_decide, and_iff_right (hinside j fun hb ↦ hdisjoint j hb j hj rfl)]
      · exact decide_eq_true ⟨hinside i hi.1, hlater _ i hi.2⟩

end

theorem le_of_mem_generated {c : Nat × Dispatch} (hc : c ∈ callsIn data row n) {is : List Nat}
    (his : c.2 = .expanded is) {j : Nat} (hj : j ∈ is) : n ≤ j := by
  induction row generalizing n with
  | nil => cases hc
  | text s rest ih => exact ih hc
  | comment s rest ih => exact ih hc
  | branch i l below rest ihb ihr =>
    rw [callsIn, List.mem_append] at hc
    rcases hc with hc | hc
    · cases hgen : standIns? data l below with
      | some gen =>
        rw [hgen, List.mem_singleton] at hc
        rw [hc] at his
        cases his
        exact le_of_mem_elementIds hj
      | none =>
        rw [hgen] at hc
        rcases List.mem_cons.1 hc with rfl | hc
        · cases his
        · exact ihb hc
    · have hle := ihr hc
      omega

end

theorem advance_render {f : Forest} (h : f.WellFormed) {root : NodeId} {l : Label}
    {row : Nodes NodeId} (hroot : f.node? root = some (l, row)) :
    (advance data)^[(callsIn data row f.next).length] ⟨f, f.children root, []⟩ =
      ⟨(render data f root).forest, [], callsIn data row f.next⟩ := by
  obtain ⟨t, n⟩ := f
  obtain ⟨F, rest, rfl, hF⟩ := Frame.exists_fill_of_find? h.nodup hroot
  have hwalk := advance_row data (fits_below h) [] []
  simp only [Frame.fill_comp, Frame.fill, List.append_nil, List.nil_append] at hwalk
  rw [Forest.children, render, Forest.below_fill hF]
  exact hwalk

/-- A pass ends, and it tries the directives of elements that were there before it only: of those
below its root that are not below another one that it expands, of each once, in document order. What
it generates is new, and is not come to. -/
theorem pass_calls {f : Forest} (h : f.WellFormed) (root : NodeId) :
    ∃ calls : List (NodeId × Dispatch),
      (advance data)^[calls.length] ⟨f, f.children root, []⟩ =
        ⟨(render data f root).forest, [], calls⟩ ∧
      (render data f root).visited = calls.map (·.1) ∧
      calls.map (·.1) = ((f.below root).descendants.map (·.1)).filter (Spared f calls ·) ∧
      (calls.map (·.1)).Nodup ∧ calls.length ≤ (f.below root).descendants.length ∧
      ∀ c ∈ calls, ∀ is, c.2 = .expanded is →
        ∀ j ∈ is, f.node? j = none ∧ j ∉ calls.map (·.1) := by
  cases hroot : f.node? root with
  | none =>
    have hbelow : f.below root = .nil := by
      rw [Forest.below, hroot]
      rfl
    refine ⟨[], ?_, ?_, ?_, List.nodup_nil, Nat.zero_le _, List.forall_mem_nil _⟩
    · rw [Forest.children, hbelow, render, hbelow]
      rfl
    · rw [render, hbelow]
      rfl
    · rw [hbelow, Nodes.descendants_eq]
      rfl
  | some node =>
    obtain ⟨l, row⟩ := node
    have hbelow := Forest.below_eq hroot
    have hids : (f.below root).descendants.map (·.1) = row.ids := by
      rw [hbelow, Nodes.descendants_eq, Nodes.map_listed]
    have hcalls := map_callsIn data row f.next
    have hfilter := visitedIn_eq_filter data (h.nodup_of_node? hroot)
      (fun e he ↦ Forest.below_eq (h.node?_of_mem_subtrees hroot he)) f.next
    refine ⟨callsIn data row f.next, advance_render data h hroot, ?_, ?_, ?_, ?_, ?_⟩
    · rw [render_eq_transform data h hroot, hcalls]
    · rw [hcalls, hids]
      exact hfilter
    · rw [hcalls, hfilter]
      exact (h.nodup_of_node? hroot).filter _
    · calc (callsIn data row f.next).length
        _ = (row.ids.filter (Spared f (callsIn data row f.next) ·)).length := by
          rw [← hfilter, ← hcalls, List.length_map]
        _ ≤ row.ids.length := List.length_filter_le _ _
        _ = (f.below root).descendants.length := by rw [← hids, List.length_map]
    · intro c hc is his j hj
      have hnew : f.next ≤ j := le_of_mem_generated hc his hj
      have hfresh : j ∉ f.trees.ids := fun hold ↦ absurd (h.lt_next j hold) hnew.not_gt
      refine ⟨Nodes.find?_eq_none hfresh, fun hcalled ↦ hfresh ?_⟩
      rw [hcalls] at hcalled
      exact (Nodes.ids_subset_of_find? hroot).2 (visitedIn_subset data row hcalled)

def nestingPage : Forest :=
  ⟨.branch 0 .document (.branch 1 (.element "ul" [])
    (.branch 2 (.element "li" [⟨"d-for", "x in xs"⟩])
      (.branch 3 (.element "b" []) (.text "\x7b\x7bx\x7d\x7d" .nil) .nil)
      (.branch 4 (.element "li" [])
        (.branch 5 (.element "i" []) (.text "and" .nil) .nil) .nil))
    .nil) .nil, 6⟩

def nestingData : Data :=
  .ofPairs [("xs", .list [.string "<b d-for='x in xs'>\x7b\x7bx\x7d\x7d</b>", .number 1])]

theorem pass_calls_nestingPage :
    nestingPage.WellFormed ∧
      (render nestingData nestingPage 1).forest.inner 1 =
        "<li><b d-for=\"x in xs\">\x7b\x7bx\x7d\x7d</b></li><li>1</li><li><i>and</i></li>" ∧
      ∃ calls, calls.map (·.1) = [2, 4, 5] ∧
        (advance nestingData)^[calls.length] ⟨nestingPage, [2, 4], []⟩ =
          ⟨(render nestingData nestingPage 1).forest, [], calls⟩ ∧
        [2, 4, 5] = [2, 3, 4, 5].filter (Spared nestingPage calls ·) := by
  have hpage : nestingPage.WellFormed := by decide +kernel
  obtain ⟨calls, hwalk, hvisited, hfilter, -⟩ := pass_calls nestingData hpage 1
  have hcalls : calls.map (·.1) = [2, 4, 5] := by
    rw [← hvisited]
    decide +kernel
  have hbelow : (nestingPage.below 1).descendants.map (·.1) = [2, 3, 4, 5] := by
    decide +kernel
  rw [hcalls, hbelow] at hfilter
  exact ⟨hpage, by decide +kernel, calls, hcalls, hwalk, hfilter⟩

end LivePage.Template
