import LivePage.Proofs.Template.Walk
import Mathlib.Data.List.Perm.Subperm

namespace LivePage

open scoped List

namespace Markup.Nodes

def present {ι : Type} (r : Nodes (Option ι)) : List ι :=
  r.ids.filterMap id

@[simp] theorem present_append {ι : Type} (a b : Nodes (Option ι)) :
    (a ++ b).present = a.present ++ b.present := by
  simp only [present, ids_append, List.filterMap_append]

@[simp] theorem present_map_none {ι κ : Type} (r : Nodes κ) :
    (r.map fun _ ↦ (none : Option ι)).present = [] := by
  rw [present, ids_map, List.filterMap_map, List.filterMap_eq_nil_iff]
  intro i _
  rfl

theorem ids_identify_perm (r : Nodes (Option Nat)) (n : Nat) :
    (r.identify n).ids ~ r.present ++ List.range' n r.newCount := by
  induction r generalizing n with
  | nil => exact .refl _
  | text s rest ih => exact ih n
  | comment s rest ih => exact ih n
  | branch i l below rest ihb ihr =>
    cases i with
    | none =>
      have hcount : List.range' n (1 + below.newCount + rest.newCount) =
          n :: (List.range' (n + 1) below.newCount ++
            List.range' (n + 1 + below.newCount) rest.newCount) := by
        rw [List.range'_append_1, Nat.add_assoc, Nat.add_comm 1, List.range'_succ]
      have hp := (ihb (n + 1)).append (ihr (n + 1 + below.newCount))
      refine (hp.cons n).trans (List.perm_iff_count.2 fun j ↦ ?_)
      simp only [present, ids, List.filterMap_cons, List.filterMap_append, newCount,
        Option.isNone_none, if_true, hcount, List.count_cons, List.count_append, id]
      omega
    | some i =>
      have hcount : List.range' n (0 + below.newCount + rest.newCount) =
          List.range' n below.newCount ++ List.range' (n + below.newCount) rest.newCount := by
        rw [List.range'_append_1, Nat.zero_add]
      have hp := (ihb n).append (ihr (n + below.newCount))
      refine (hp.cons i).trans (List.perm_iff_count.2 fun j ↦ ?_)
      simp only [present, ids, List.filterMap_cons, List.filterMap_append, newCount,
        Option.isNone_some, Bool.false_eq_true, if_false, hcount, List.count_cons,
        List.count_append, id]
      omega

@[simp] theorem onlyElements_map {ι κ : Type} (g : ι → κ) (r : Nodes ι) :
    (r.map g).OnlyElements ↔ r.OnlyElements := by
  induction r with
  | nil => rfl
  | text s rest ih => exact ih
  | comment s rest ih => exact ih
  | branch i l below rest ihb ihr => simp only [map, OnlyElements, ihb, ihr]

@[simp] theorem onlyElements_identify (r : Nodes (Option Nat)) (n : Nat) :
    (r.identify n).OnlyElements ↔ r.OnlyElements := by
  induction r generalizing n with
  | nil => rfl
  | text s rest ih => exact ih n
  | comment s rest ih => exact ih n
  | branch i l below rest ihb ihr => cases i <;> simp only [identify, OnlyElements, ihb, ihr]

end Markup.Nodes

namespace Template

open Markup

section

variable {ι : Type} (data : Data) {row : Nodes ι}

/-- An element of a row is kept or is one that others stand for. -/
theorem replaced_transform_perm [DecidableEq ι] (h : row.OnlyElements) :
    (replaced data row).ids ++ (transform data row).present ~ row.ids := by
  induction row with
  | nil => exact .refl _
  | text s rest ih => exact ih h
  | comment s rest ih => exact ih h
  | branch i l below rest ihb ihr =>
    have hb := ihb h.2.1
    have hr := ihr h.2.2
    rw [List.perm_iff_count] at hb hr ⊢
    intro j
    have hbj := hb j
    have hrj := hr j
    rw [transform, replaced]
    cases standIns? data l below with
    | some elements =>
      simp only [Option.isSome_some, if_true, Nodes.ids_append, Nodes.present_append,
        Nodes.present_map_none, Nodes.ids, List.append_nil, List.nil_append, List.count_append,
        List.count_cons] at hrj ⊢
      omega
    | none =>
      simp only [Option.isSome_none, Bool.false_eq_true, if_false, Nodes.ids_append,
        Nodes.present_append, List.count_append] at hbj hrj ⊢
      split
      · simp only [Nodes.present, Nodes.ids, List.append_nil, List.filterMap_cons, id,
          List.count_cons, List.count_append] at hbj hrj ⊢
        omega
      · rename_i h₀
        have hids := Nodes.ids_eq_nil_of_elementCount h.2.1 h₀
        have hleaf : (fillLeaf data below).ids = [] :=
          List.subset_nil.1 (hids ▸ ids_fillLeaf_subset data below)
        simp only [(nothing_in data hids).2.2, Nodes.present, Nodes.ids, List.append_nil,
          List.filterMap_cons, id, Nodes.ids_map, hleaf, hids, List.map_nil, List.filterMap_nil,
          List.count_cons, List.count_nil, List.nil_append] at hrj ⊢
        omega

theorem onlyElements_replaced (h : row.OnlyElements) : (replaced data row).OnlyElements := by
  induction row with
  | nil => trivial
  | text s rest ih => exact ih h
  | comment s rest ih => exact ih h
  | branch i l below rest ihb ihr =>
    rw [replaced, Nodes.onlyElements_append]
    refine ⟨ihr h.2.2, ?_⟩
    split
    · exact ⟨h.1, h.2.1, trivial⟩
    · exact ihb h.2.1

theorem onlyElements_ofElements {elements : List (Label × Nodes Unit)}
    (h : ∀ e ∈ elements, e.1.isElement = true ∧ e.2.OnlyElements) :
    (Nodes.ofElements elements).OnlyElements := by
  induction elements with
  | nil => trivial
  | cons e rest ih =>
    obtain ⟨he, hrest⟩ := List.forall_mem_cons.1 h
    exact ⟨he.1, he.2, ih hrest⟩

theorem onlyElements_content (loop : Loop) (tag template : String) (item : Value) :
    (loop.content tag template item).OnlyElements := by
  simp only [Loop.content]
  split
  · exact onlyElements_readFragment _ _
  · exact Nodes.onlyElements_ofText _

theorem onlyElements_generate {loop : Loop} {tag : String} {below : Nodes ι}
    {elements : List (Label × Nodes Unit)} (h : loop.generate data tag below = .ok elements) :
    (Nodes.ofElements elements).OnlyElements := by
  unfold Loop.generate at h
  split at h
  · cases h
  · split at h
    · cases h
    · split at h
      · cases h
      · cases h
        refine onlyElements_ofElements fun e he ↦ ?_
        obtain ⟨item, -, rfl⟩ := List.mem_map.1 he
        exact ⟨rfl, onlyElements_content _ _ _ _⟩

theorem onlyElements_standIns {l : Label} {below : Nodes ι}
    {elements : List (Label × Nodes Unit)} (h : standIns? data l below = some elements) :
    (Nodes.ofElements elements).OnlyElements := by
  obtain ⟨t, ht, hok⟩ := List.exists_of_findSome?_eq_some h
  obtain ⟨a, -, hattempt⟩ := List.mem_filterMap.1 ht
  obtain ⟨d, -, rfl⟩ := Option.map_eq_some_iff.1 hattempt
  cases d with
  | error e => cases hok
  | ok directive =>
    obtain ⟨loop⟩ := directive
    change (loop.generate data l.tag below).toOption = some elements at hok
    cases hgen : loop.generate data l.tag below with
    | error d => rw [hgen] at hok; cases hok
    | ok gen =>
      rw [hgen] at hok
      obtain rfl := Option.some.inj hok
      exact onlyElements_generate data hgen

theorem onlyElements_transform (h : row.OnlyElements) : (transform data row).OnlyElements := by
  induction row with
  | nil => trivial
  | text s rest ih => exact ih h
  | comment s rest ih => exact ih h
  | branch i l below rest ihb ihr =>
    rw [transform, Nodes.onlyElements_append]
    refine ⟨?_, ihr h.2.2⟩
    cases hs : standIns? data l below with
    | some elements => exact (Nodes.onlyElements_map _ _).2 (onlyElements_standIns data hs)
    | none =>
      refine ⟨h.1, ?_, trivial⟩
      split
      · exact ihb h.2.1
      · rw [Nodes.onlyElements_map]
        unfold fillLeaf
        dsimp only
        split
        · exact Nodes.onlyElements_ofText _
        · exact h.2.1

end

section

variable (data : Data) {F : Frame Nat} {root : Nat} {l : Label} {row rest : Nodes Nat} {n : Nat}

theorem render_fill (h : (⟨F.fill (.branch root l row rest), n⟩ : Forest).WellFormed) :
    render data ⟨F.fill (.branch root l row rest), n⟩ root =
      ⟨⟨replaced data row ++ F.fill (.branch root l ((transform data row).identify n) rest),
        n + (transform data row).newCount⟩, reportsIn data row, visitedIn data row⟩ := by
  have hroot := h.not_mem.1
  rw [render_eq_transform data h (Forest.node?_fill hroot), Frame.updateBelow_fill hroot,
    Nodes.updateBelow, if_pos rfl]

theorem wellFormed_render_fill
    (h : (⟨F.fill (.branch root l row rest), n⟩ : Forest).WellFormed) :
    (render data ⟨F.fill (.branch root l row rest), n⟩ root).forest.WellFormed := by
  have hrow := h.onlyElements_below
  have hrooted := (Frame.rooted_fill _ _).1 h.rooted
  have hnew := (Nodes.onlyElements_identify _ n).2 (onlyElements_transform data hrow)
  rw [render_fill data h]
  refine h.refill ?_ (onlyElements_replaced data hrow).rooted ⟨hnew, hrooted.2.1.2⟩ fun ho ↦
    ⟨(hrooted.2.2 ho).1, hnew, (hrooted.2.2 ho).2.2⟩
  have hkept := List.perm_iff_count.1 (replaced_transform_perm data hrow)
  have hids := List.perm_iff_count.1 (Nodes.ids_identify_perm (transform data row) n)
  refine List.perm_iff_count.2 fun j ↦ ?_
  have hk := hkept j
  have hi := hids j
  simp only [Nodes.ids, List.count_append, List.count_cons] at hk hi ⊢
  omega

theorem parent?_render_fill {q : Nat}
    (h : (⟨F.fill (.branch root l row rest), n⟩ : Forest).WellFormed) (ho : F.owner = some q) :
    (render data ⟨F.fill (.branch root l row rest), n⟩ root).forest.parent? root = some q := by
  have hroot := h.not_mem
  rw [render_fill data h, ← Frame.fill_behind]
  refine Forest.parent?_fill ?_ ((Frame.owner_behind _ _).trans ho)
  rw [Frame.ids_behind, List.mem_append, not_or]
  exact ⟨fun hr ↦ hroot.2.1 (ids_replaced_subset data row hr), hroot.1⟩

theorem node?_render_fill (h : (⟨F.fill (.branch root l row rest), n⟩ : Forest).WellFormed) :
    (render data ⟨F.fill (.branch root l row rest), n⟩ root).forest.node? root =
      some (l, (transform data row).identify n) := by
  have hroot := h.not_mem
  rw [render_fill data h, ← Frame.fill_behind]
  refine Forest.node?_fill ?_
  rw [Frame.ids_behind, List.mem_append, not_or]
  exact ⟨fun hr ↦ hroot.2.1 (ids_replaced_subset data row hr), hroot.1⟩

end

end Template

namespace Forest

open Markup Template

theorem render_of_node? (data : Data) {f : Forest} {i : NodeId} (h : f.node? i = none) :
    render data f i = ⟨f, [], []⟩ := by
  have hbelow : f.below i = .nil := by
    rw [Forest.below, h]
    rfl
  rw [render, hbelow, renderRow]

theorem node?_render (data : Data) {f : Forest} (h : f.WellFormed) {i : NodeId} {l : Label}
    {row : Nodes NodeId} (hi : f.node? i = some (l, row)) :
    (render data f i).forest.node? i = some (l, (transform data row).identify f.next) := by
  obtain ⟨t, n⟩ := f
  obtain ⟨F, rest, rfl, -⟩ := Frame.exists_fill_of_find? h.nodup hi
  exact node?_render_fill data h

theorem wellFormed_render (data : Data) {f : Forest} (h : f.WellFormed) {i : NodeId} {l : Label}
    {row : Nodes NodeId} (hi : f.node? i = some (l, row)) :
    (render data f i).forest.WellFormed := by
  obtain ⟨t, n⟩ := f
  obtain ⟨F, rest, rfl, -⟩ := Frame.exists_fill_of_find? h.nodup hi
  exact wellFormed_render_fill data h

end Forest

end LivePage
