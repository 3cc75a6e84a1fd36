import LivePage.Proofs.Forest.WellFormed
import LivePage.Proofs.Template.Pass

namespace LivePage

open Markup

theorem Forest.WellFormed.fits {F : Frame Nat} {row : Nodes Nat} {n : Nat}
    (h : (⟨F.fill row, n⟩ : Forest).WellFormed) (ho : F.owner.isSome = true) :
    Template.Fits F row n := by
  obtain ⟨-, hrow, hdisjoint⟩ := List.nodup_append.1 (Frame.nodup_fill.1 h.nodup)
  have helements := ((Frame.rooted_fill _ _).1 h.rooted).2.2 ho
  exact ⟨hrow, fun j hj hF ↦ hdisjoint j hF j hj rfl,
    fun j hj ↦ h.lt_next j (Frame.mem_ids_fill.2 (.inl hj)),
    fun j hj ↦ h.lt_next j (Frame.mem_ids_fill.2 (.inr hj)), helements, ho⟩

namespace Template

/-- Renders all that is below a node, one element after another; `none` if elements are nested
deeper than `depth`. -/
def walk (data : Data) : Nat → Forest → NodeId → Option Rendered
  | 0, _, _ => none
  | depth + 1, f, root =>
    (f.children root).foldlM (fun r i ↦ do
      let tried := dispatch data r.forest i
      let inside ←
        if tried.result = .kept then
          if 0 < tried.forest.childCount i then walk data depth tried.forest i
          else some ⟨substitute data tried.forest i, [], []⟩
        else some ⟨tried.forest, [], []⟩
      some ⟨inside.forest, r.reports ++ tried.reports ++ inside.reports,
        r.visited ++ i :: inside.visited⟩) ⟨f, [], []⟩

def visit (data : Data) (depth : Nat) (r : Rendered) (i : NodeId) : Option Rendered := do
  let tried := dispatch data r.forest i
  let inside ←
    if tried.result = .kept then
      if 0 < tried.forest.childCount i then walk data depth tried.forest i
      else some ⟨substitute data tried.forest i, [], []⟩
    else some ⟨tried.forest, [], []⟩
  some ⟨inside.forest, r.reports ++ tried.reports ++ inside.reports,
    r.visited ++ i :: inside.visited⟩

variable (data : Data)

theorem walk_succ (depth : Nat) (f : Forest) (root : NodeId) :
    walk data (depth + 1) f root = (f.children root).foldlM (visit data depth) ⟨f, [], []⟩ :=
  rfl

section

variable {data} {F : Frame Nat} {i : Nat} {l : Label} {below rest : Nodes Nat} {n depth : Nat}

theorem visit_first (h : Fits F (.branch i l below rest) n)
    (hbelow : walk data depth ⟨F.fill (.branch i l below rest), n⟩ i =
      some (renderRow data below ⟨F.fill (.branch i l below rest), n⟩))
    (reports : List Diagnostic) (visited : List Nat) :
    visit data depth ⟨⟨F.fill (.branch i l below rest), n⟩, reports, visited⟩ i =
      let first := renderRow data (.branch i l below .nil) ⟨F.fill (.branch i l below rest), n⟩
      some ⟨first.forest, reports ++ first.reports, visited ++ first.visited⟩ := by
  rw [visit, renderRow, dispatch_fill h, dispatched]
  cases (attempts data l below).findSome? (·.toOption) with
  | some gen => simp [renderRow]
  | none =>
    simp only [Forest.childCount, Forest.below_fill h.not_mem.1, renderRow, hbelow]
    by_cases h₀ : 0 < below.elementCount <;> simp [h₀]

end

/-- Over the elements of a row the walk does what a pass over the row does that was listed
beforehand. -/
theorem foldlM_visit {F : Frame Nat} {row : Nodes Nat} {n depth : Nat} (h : Fits F row n)
    (hd : row.branchCount ≤ depth) (reports : List Diagnostic) (visited : List Nat) :
    (row.branches.map (·.1)).foldlM (visit data depth) ⟨⟨F.fill row, n⟩, reports, visited⟩ =
      let r := renderRow data row ⟨F.fill row, n⟩
      some ⟨r.forest, reports ++ r.reports, visited ++ r.visited⟩ := by
  induction row generalizing F n depth reports visited with
  | nil => simp [Nodes.branches, renderRow]
  | text s rest ih =>
    have hrest := ih h.text hd reports visited
    simp only [Frame.fill_comp, Frame.fill] at hrest
    exact hrest
  | comment s rest ih =>
    have hrest := ih h.comment hd reports visited
    simp only [Frame.fill_comp, Frame.fill] at hrest
    exact hrest
  | branch i l below rest ihb ihr =>
    simp only [Nodes.branchCount] at hd
    have hbelow : walk data depth ⟨F.fill (.branch i l below rest), n⟩ i =
        some (renderRow data below ⟨F.fill (.branch i l below rest), n⟩) := by
      obtain ⟨depth, rfl⟩ := Nat.exists_eq_add_one.2 (show 0 < depth by omega)
      have hinside := ihb h.inside (show below.branchCount ≤ depth by omega) [] []
      simp only [Frame.fill_comp, Frame.fill, List.nil_append] at hinside
      rw [walk_succ, Forest.children, Forest.below_fill h.not_mem.1]
      exact hinside
    have hrest := ihr (h.after_first data) (show rest.branchCount ≤ depth by omega)
    simp only [Frame.fill_behind, Frame.fill_comp, Frame.fill] at hrest
    rw [Nodes.branches, List.map_cons, List.foldlM_cons, visit_first h hbelow,
      renderRow_branch rest,
      renderRow_first (fun hG ↦ renderRow_fill data hG) h]
    simp only [Option.bind_eq_bind, Option.bind_some, hrest, List.append_assoc]

theorem fits_below {F : Frame Nat} {root : Nat} {l : Label} {row rest : Nodes Nat} {n : Nat}
    (h : Forest.WellFormed ⟨F.fill (.branch root l row rest), n⟩) :
    Fits (F.comp (.within root l .hole rest)) row n := by
  apply Forest.WellFormed.fits
  · rwa [Frame.fill_comp]
  · rw [Frame.owner_comp]
    rfl

theorem render_eq_transform {f : Forest} (h : f.WellFormed) {root : NodeId} {l : Label}
    {row : Nodes NodeId} (hroot : f.node? root = some (l, row)) :
    render data f root =
      ⟨⟨replaced data row ++
          f.trees.updateBelow root fun _ ↦ (transform data row).identify f.next,
        f.next + (transform data row).newCount⟩, reportsIn data row, visitedIn data row⟩ := by
  obtain ⟨t, n⟩ := f
  obtain ⟨F, rest, rfl, hF⟩ := Frame.exists_fill_of_find? h.nodup hroot
  have hrow := renderRow_fill data (fits_below h)
  simp only [Frame.fill_comp, Frame.fill] at hrow
  rw [render, Forest.below_fill hF, hrow, Frame.updateBelow_fill hF, Nodes.updateBelow, if_pos rfl]

/-- The walk over the live forest ends, however the elements are nested, and it is the pure
transformation of the row below its root: the row becomes what the transformation says with new
numbers for new nodes, the elements that others stand for are loose and as they were, and no other
node changes. -/
theorem walk_eq_transform {f : Forest} (h : f.WellFormed) {root : NodeId} {l : Label}
    {row : Nodes NodeId} (hroot : f.node? root = some (l, row)) :
    (∀ depth > row.branchCount, walk data depth f root = some (render data f root)) ∧
      render data f root =
        ⟨⟨replaced data row ++
            f.trees.updateBelow root fun _ ↦ (transform data row).identify f.next,
          f.next + (transform data row).newCount⟩, reportsIn data row, visitedIn data row⟩ := by
  obtain ⟨t, n⟩ := f
  obtain ⟨F, rest, rfl, hF⟩ := Frame.exists_fill_of_find? h.nodup hroot
  have hfit := fits_below h
  have hbelow : (⟨F.fill (.branch root l row rest), n⟩ : Forest).below root = row :=
    Forest.below_fill hF
  constructor
  · intro depth hdepth
    obtain ⟨depth, rfl⟩ := Nat.exists_eq_add_one.2 (show 0 < depth by omega)
    have hwalk := foldlM_visit data hfit (Nat.le_of_lt_succ hdepth) [] []
    simp only [Frame.fill_comp, Frame.fill, List.nil_append] at hwalk
    rw [walk_succ, Forest.children, render, hbelow]
    exact hwalk
  · exact render_eq_transform data h hroot

def listPage : Forest :=
  ⟨.branch 0 .document (.branch 1 (.element "ul" [])
    (.branch 2 (.element "li" [⟨"d-for", "x of xs"⟩, ⟨"d-for", "x in xs"⟩])
      (.text "\x7b\x7bx\x7d\x7d" .nil)
      (.text "and" (.branch 3 (.element "li" []) (.text "\x7b\x7bn\x7d\x7d" .nil) .nil)))
    .nil) .nil, 4⟩

def listData : Data :=
  .ofPairs [("xs", .list [.string "a", .string "b"]), ("n", .string "c")]

theorem walk_listPage :
    listPage.WellFormed ∧ (walk listData 3 listPage 1).map (·.forest.inner 1) =
      some "<li>a</li><li>b</li>and<li>c</li>" ∧
      (render listData listPage 1).reports = [.malformedDirective "x of xs" .missingIn] := by
  have hpage : listPage.WellFormed := by decide +kernel
  have hroot : listPage.node? 1 = some (.element "ul" [], listPage.below 1) := by
    decide +kernel
  obtain ⟨hwalk, hrender⟩ := walk_eq_transform listData hpage hroot
  refine ⟨hpage, ?_, ?_⟩
  · rw [hwalk 3 (by decide +kernel), hrender]
    decide +kernel
  · rw [hrender]
    decide +kernel

end Template

end LivePage
