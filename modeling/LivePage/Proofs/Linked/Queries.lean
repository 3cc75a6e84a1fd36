import LivePage.Proofs.Forest.Confined
import LivePage.Proofs.Linked.Moved
import LivePage.Proofs.Markup.Selectors

namespace LivePage

open Markup

namespace Markup

theorem Nodes.listed_eq {ι : Type} (r : Nodes ι) :
    r.listed = r.entries.map fun e ↦ (e.1, e.2.1) := by
  induction r with
  | nil => rfl
  | text s rest ih => exact ih
  | comment s rest ih => exact ih
  | branch i l below rest ihb ihr =>
    rw [listed, entries, List.map_cons, List.map_append, ihb, ihr]

namespace Selector

theorem read_identifier {id : String} (h : Text.isName id = true) :
    Selector.read ("#" ++ id) = .ok { id := some id } := by
  have hvalid : (⟨none, [.identifier id]⟩ : Spelling).Valid := by
    refine ⟨nofun, fun q hq ↦ ?_, Nat.le_refl 1, fun hempty ↦ ?_⟩
    · rw [List.mem_singleton.1 hq]
      exact h
    · have hnone : ∀ t ∈ (none : Option String), Text.isName t = true := nofun
      cases ((Spelling.write_eq_empty_iff hnone).1 hempty).2
  have hwrite : (⟨none, [.identifier id]⟩ : Spelling).write = "#" ++ id := by
    refine String.ext ?_
    rw [Spelling.toList_write]
    simp [written, Part.sign, Part.name]
  have hword := hvalid.isWord_write
  rw [hwrite] at hword
  exact read_eq_ok_iff.2 ⟨_, hvalid, hwrite.trans (Text.trim_of_isWord hword).symm, rfl⟩

theorem selects_identifier (id : String) (l : Label) :
    ({ id := some id } : Selector).selects l = decide (l.attribute? "id" = some id) := by
  simp [selects]

end Selector

end Markup

theorem Forest.select?_identifier (f : Forest) (i : NodeId) (id : String) :
    f.select? i { id := some id } = f.byId? i id := by
  rw [select?, selectAll, byId?, List.head?_map, List.head?_filter]
  simp only [Selector.selects_identifier]

namespace Heap.Represents

variable {h : Heap} {f : Forest} {i j : NodeId}

theorem isElement_iff (hr : h.Represents f) :
    h.isElement (.branch j) = true ↔ f.HasElement j := by
  constructor
  · intro h'
    have hlive : h.Live (.branch j) := by
      by_contra hdead
      rw [isElement, content?_of_not_live hdead] at h'
      cases h'
    have hj : f.Has j := hr.live_iff.1 hlive
    rw [isElement, (hr.lists hj).1] at h'
    exact ⟨hj, h'⟩
  · rintro ⟨hj, helement⟩
    rw [isElement, (hr.lists hj).1]
    exact helement

/-- The elements below a node are those from which links lead up to it. -/
theorem mem_below_iff_within (hr : h.Represents f) :
    j ∈ (f.below i).ids ↔
      h.isElement (.branch j) = true ∧ j ≠ i ∧ h.Within (.branch j) (.branch i) := by
  have hwithin : f.Has j → (h.Within (.branch j) (.branch i) ↔ i = j ∨ j ∈ (f.below i).ids) := by
    intro hj
    obtain ⟨bound, hmeets⟩ := hr.meets_ends hj i
    rw [← meets_iff_within (hmeets bound le_rfl), Forest.encloses, Bool.or_eq_true,
      decide_eq_true_iff, List.contains_iff_mem]
  constructor
  · intro hmem
    have helement := hr.hasElement_of_below hmem
    refine ⟨hr.isElement_iff.2 helement, ?_, (hwithin helement.1).2 (.inr hmem)⟩
    rintro rfl
    exact hr.wellFormed.not_mem_below _ hmem
  · rintro ⟨helement, hne, hup⟩
    exact ((hwithin (hr.isElement_iff.1 helement).1).1 hup).resolve_left hne.symm

theorem label_of_mem_listed (hr : h.Represents f) (hi : f.Has i) {e : NodeId × Label}
    (he : e ∈ (f.below i).listed) : f.label e.1 = e.2 := by
  obtain ⟨-, hlists, -⟩ := hr.lists hi
  rw [Nodes.listed_eq] at he
  obtain ⟨x, hx, rfl⟩ := List.mem_map.1 he
  have hcontent := (hlists.2 x hx).1
  have hlabel := (hr.lists (hr.live_iff.1 (live_of_content? hcontent))).1
  exact Content.branch.inj (Option.some.inj (hlabel.symm.trans hcontent))

theorem selectAll_eq (hr : h.Represents f) (hi : f.Has i) (s : Selector) :
    f.selectAll i s = (f.below i).ids.filter fun j ↦ s.selects (f.label j) := by
  rw [Forest.selectAll, Nodes.descendants_eq, ← Nodes.map_listed, List.filter_map]
  refine congrArg (List.map _) (List.filter_congr fun e he ↦ ?_)
  rw [Function.comp_apply, hr.label_of_mem_listed hi he]

end Heap.Represents

/-- In every state that calls lead to, the walk over the elements below a node ends, with the list
of a traversal of the lists of children: each element from which links lead up to the node, and each
once. A query for all keeps of that list what the selector selects, a query for one has the first of
these, and an element is found by its identifier as it is by the selector for the identifier. -/
theorem Reach.query_answers {p : Page} {h : Heap} (hr : Reach p h) {i : NodeId}
    (hi : p.forest.Has i) :
    ∃ ids : List NodeId,
      Ends (fun depth ↦ h.descendants? depth (.branch i)) (ids.map .branch) ∧
      h.Preorder (h.children (.branch i)) (ids.map .branch) ∧
      (p.forest.below i).descendants.map (·.1) = ids ∧
      ids.Nodup ∧
      (∀ j, j ∈ ids ↔
        h.isElement (.branch j) = true ∧ j ≠ i ∧ h.Within (.branch j) (.branch i)) ∧
      (∀ source, p.forest.queryAll i source = (Selector.read source).map fun s ↦
        ids.filter fun j ↦ s.selects (p.forest.label j)) ∧
      (∀ source, p.forest.query i source = (p.forest.queryAll i source).map List.head?) ∧
      ∀ id, Text.isName id = true →
        p.forest.query i ("#" ++ id) = .ok (p.forest.byId? i id) := by
  have hrep := hr.represents
  have hids : (p.forest.below i).descendants.map (·.1) = (p.forest.below i).ids := by
    rw [Nodes.descendants_eq, Nodes.map_listed]
  have hrefs : ((p.forest.below i).descendants.map fun e ↦ Ref.branch e.1) =
      (p.forest.below i).ids.map .branch := by
    rw [← hids, List.map_map]
    rfl
  refine ⟨(p.forest.below i).ids, ?_, ?_, hids, ?_, ?_, ?_, ?_, ?_⟩
  · rw [← hrefs]
    exact hrep.descendants?_ends hi
  · rw [← hrefs]
    exact hrep.preorder hi
  · obtain ⟨l, below, hnode⟩ := Forest.exists_node hi
    rw [Forest.below_eq hnode]
    exact hrep.wellFormed.nodup_of_node? hnode
  · intro j
    exact hrep.mem_below_iff_within
  · intro source
    rw [Forest.queryAll]
    exact congrArg (Selector.read source |>.map ·) (funext (hrep.selectAll_eq hi))
  · intro source
    rw [Forest.query, Forest.queryAll]
    cases Selector.read source with
    | ok s => rfl
    | error e => rfl
  · intro id hid
    rw [Forest.query, Selector.read_identifier hid]
    exact congrArg Except.ok (p.forest.select?_identifier i id)

def sharedIdentifier : List Op :=
  [.create "ul", .create "li", .create "li", .create "b", .append 0 1, .append 0 2,
    .setText 1 "first", .append 1 3, .setAttribute 2 "id" "x-1", .setAttribute 3 "id" "x-1"]

theorem Reach.query_answers_sharedIdentifier :
    ∃ h, Reach (sharedIdentifier.foldl Op.onPage {}) h ∧
      Ends (fun depth ↦ h.descendants? depth (.branch 0)) [.branch 1, .branch 3, .branch 2] ∧
      (sharedIdentifier.foldl Op.onPage {}).forest.queryAll 0 " #x-1" = .ok [3, 2] ∧
      (sharedIdentifier.foldl Op.onPage {}).forest.query 0 "#x-1" = .ok (some 3) ∧
      (sharedIdentifier.foldl Op.onPage {}).forest.byId? 0 "x-1" = some 3 := by
  obtain ⟨h, hr⟩ := Reach.start.all sharedIdentifier (by decide)
  obtain ⟨ids, hends, -, rfl, -, -, hall, hone, hid⟩ := hr.query_answers (i := 0) (by decide)
  have hlist : ((sharedIdentifier.foldl Op.onPage {}).forest.below 0).descendants.map (·.1) =
      [1, 3, 2] := by
    rw [Nodes.descendants_eq]
    decide
  rw [hlist] at hends hall
  have hfirst : (sharedIdentifier.foldl Op.onPage {}).forest.query 0 "#x-1" = .ok (some 3) :=
    ((hone _).trans (congrArg _ (hall _))).trans (by decide +kernel)
  have hfound := (hid "x-1" (by decide)).symm.trans hfirst
  exact ⟨h, hr, hends, (hall _).trans (by decide +kernel), hfirst, Except.ok.inj hfound⟩

end LivePage
