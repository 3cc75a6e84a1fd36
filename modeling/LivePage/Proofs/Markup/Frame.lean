import LivePage.Proofs.Markup.Row
import LivePage.Markup.Edit
import Mathlib.Data.List.Perm.Basic

namespace LivePage.Markup

namespace Nodes

variable {ι : Type} [DecidableEq ι] {i : ι}

theorem find?_eq_none {t : Nodes ι} (h : i ∉ t.ids) : t.find? i = none := by
  induction t with
  | nil => rfl
  | text s rest ih => exact ih h
  | comment s rest ih => exact ih h
  | branch j l below rest ihb ihr =>
    simp only [ids, List.mem_cons, List.mem_append, not_or] at h
    rw [find?, if_neg (Ne.symm h.1), ihb h.2.1, ihr h.2.2]
    rfl

theorem find?_eq_none_iff {t : Nodes ι} : t.find? i = none ↔ i ∉ t.ids := by
  refine ⟨fun h hi ↦ ?_, find?_eq_none⟩
  induction t with
  | nil => cases hi
  | text s rest ih => exact ih h hi
  | comment s rest ih => exact ih h hi
  | branch j l below rest ihb ihr =>
    rw [find?] at h
    split at h
    · cases h
    · next hj =>
      rw [Option.or_eq_none_iff] at h
      simp only [ids, List.mem_cons, List.mem_append, Ne.symm hj, false_or] at hi
      exact hi.elim (ihb h.1) (ihr h.2)

theorem find?_append (a b : Nodes ι) : (a ++ b).find? i = (a.find? i).or (b.find? i) := by
  induction a with
  | nil => rfl
  | text s rest ih => exact ih
  | comment s rest ih => exact ih
  | branch j l below rest _ ih =>
    simp only [branch_append, find?, ih]
    split
    · rfl
    · rw [Option.or_assoc]

theorem any_branches_eq_false {t : Nodes ι} (h : i ∉ t.ids) :
    t.branches.any (·.1 = i) = false := by
  simp only [List.any_eq_false, decide_eq_true_eq]
  intro e he hi
  exact h (hi ▸ mem_ids_of_mem_branches he)

theorem parent?_eq_none {t : Nodes ι} (h : i ∉ t.ids) : t.parent? i = none := by
  induction t with
  | nil => rfl
  | text s rest ih => exact ih h
  | comment s rest ih => exact ih h
  | branch j l below rest ihb ihr =>
    simp only [ids, List.mem_cons, List.mem_append, not_or] at h
    rw [parent?, any_branches_eq_false h.2.1, ihb h.2.1, ihr h.2.2]
    rfl

theorem relabel_of_not_mem {t : Nodes ι} (h : i ∉ t.ids) (g : Label → Label) :
    t.relabel i g = t := by
  induction t with
  | nil => rfl
  | text s rest ih => exact congrArg (text s) (ih h)
  | comment s rest ih => exact congrArg (comment s) (ih h)
  | branch j l below rest ihb ihr =>
    simp only [ids, List.mem_cons, List.mem_append, not_or] at h
    rw [relabel, if_neg (Ne.symm h.1), ihb h.2.1, ihr h.2.2]

theorem updateBelow_of_not_mem {t : Nodes ι} (h : i ∉ t.ids) (g : Nodes ι → Nodes ι) :
    t.updateBelow i g = t := by
  induction t with
  | nil => rfl
  | text s rest ih => exact congrArg (text s) (ih h)
  | comment s rest ih => exact congrArg (comment s) (ih h)
  | branch j l below rest ihb ihr =>
    simp only [ids, List.mem_cons, List.mem_append, not_or] at h
    rw [updateBelow, if_neg (Ne.symm h.1), ihb h.2.1, ihr h.2.2]

theorem erase_of_not_mem {t : Nodes ι} (h : i ∉ t.ids) : t.erase i = t := by
  induction t with
  | nil => rfl
  | text s rest ih => exact congrArg (text s) (ih h)
  | comment s rest ih => exact congrArg (comment s) (ih h)
  | branch j l below rest ihb ihr =>
    simp only [ids, List.mem_cons, List.mem_append, not_or] at h
    rw [erase, if_neg (Ne.symm h.1), ihb h.2.1, ihr h.2.2]

theorem insertBefore_of_not_mem {t : Nodes ι} (h : i ∉ t.ids) (row : Nodes ι) :
    t.insertBefore i row = t := by
  induction t with
  | nil => rfl
  | text s rest ih => exact congrArg (text s) (ih h)
  | comment s rest ih => exact congrArg (comment s) (ih h)
  | branch j l below rest ihb ihr =>
    simp only [ids, List.mem_cons, List.mem_append, not_or] at h
    rw [insertBefore, if_neg (Ne.symm h.1), ihb h.2.1, ihr h.2.2]

end Nodes

open Nodes

/-- What is around the end of a row of siblings in a tree: the siblings in front of it, the nodes
that it is below, and all that is next to these. -/
inductive Frame (ι : Type)
  | hole
  | text (content : String) (rest : Frame ι)
  | comment (content : String) (rest : Frame ι)
  | after (id : ι) (label : Label) (below : Nodes ι) (rest : Frame ι)
  | within (id : ι) (label : Label) (below : Frame ι) (rest : Nodes ι)

namespace Frame

variable {ι : Type}

def fill : Frame ι → Nodes ι → Nodes ι
  | hole, r => r
  | text s rest, r => .text s (rest.fill r)
  | comment s rest, r => .comment s (rest.fill r)
  | after i l below rest, r => .branch i l below (rest.fill r)
  | within i l below rest, r => .branch i l (below.fill r) rest

def ids : Frame ι → List ι
  | hole => []
  | text _ rest | comment _ rest => rest.ids
  | after i _ below rest => i :: (below.ids ++ rest.ids)
  | within i _ below rest => i :: (below.ids ++ rest.ids)

def owner : Frame ι → Option ι
  | hole => none
  | text _ rest | comment _ rest | after _ _ _ rest => rest.owner
  | within i _ below _ => below.owner.or (some i)

def comp : Frame ι → Frame ι → Frame ι
  | hole, g => g
  | text s rest, g => text s (rest.comp g)
  | comment s rest, g => comment s (rest.comp g)
  | after i l below rest, g => after i l below (rest.comp g)
  | within i l below rest, g => within i l (below.comp g) rest

def behind (f : Frame ι) : Nodes ι → Frame ι
  | .nil => f
  | .text s rest => text s (f.behind rest)
  | .comment s rest => comment s (f.behind rest)
  | .branch i l below rest => after i l below (f.behind rest)

@[simp] theorem fill_comp (f g : Frame ι) (r : Nodes ι) :
    (f.comp g).fill r = f.fill (g.fill r) := by
  induction f with
  | hole => rfl
  | text s rest ih => exact congrArg (Nodes.text s) ih
  | comment s rest ih => exact congrArg (Nodes.comment s) ih
  | after i l below rest ih => exact congrArg (Nodes.branch i l below) ih
  | within i l below rest ih => simp only [comp, fill, ih]

@[simp] theorem owner_comp (f g : Frame ι) : (f.comp g).owner = g.owner.or f.owner := by
  induction f with
  | hole => simp only [comp, owner, Option.or_none]
  | text s rest ih => exact ih
  | comment s rest ih => exact ih
  | after i l below rest ih => exact ih
  | within i l below rest ih => simp only [comp, owner, ih, Option.or_assoc]

@[simp] theorem fill_behind (f : Frame ι) (a r : Nodes ι) :
    (f.behind a).fill r = a ++ f.fill r := by
  induction a with
  | nil => rfl
  | text s rest ih => exact congrArg (Nodes.text s) ih
  | comment s rest ih => exact congrArg (Nodes.comment s) ih
  | branch i l below rest _ ih => exact congrArg (Nodes.branch i l below) ih

@[simp] theorem owner_behind (f : Frame ι) (a : Nodes ι) : (f.behind a).owner = f.owner := by
  induction a with
  | nil => rfl
  | text s rest ih => exact ih
  | comment s rest ih => exact ih
  | branch i l below rest _ ih => exact ih

@[simp] theorem ids_behind (f : Frame ι) (a : Nodes ι) : (f.behind a).ids = a.ids ++ f.ids := by
  induction a with
  | nil => rfl
  | text s rest ih => exact ih
  | comment s rest ih => exact ih
  | branch i l below rest _ ih =>
    simp only [behind, ids, Nodes.ids, ih, List.cons_append, List.append_assoc]

theorem ids_fill_perm (f : Frame ι) (r : Nodes ι) : (f.fill r).ids.Perm (f.ids ++ r.ids) := by
  induction f with
  | hole => exact .refl _
  | text s rest ih => exact ih
  | comment s rest ih => exact ih
  | after i l below rest ih =>
    simp only [fill, ids, Nodes.ids, List.cons_append, List.append_assoc]
    exact (ih.append_left _).cons i
  | within i l below rest ih =>
    simp only [fill, ids, Nodes.ids, List.cons_append, List.append_assoc]
    refine List.Perm.cons i ((ih.append_right _).trans ?_)
    rw [List.append_assoc]
    exact List.perm_append_comm.append_left _

theorem ids_comp_perm (f g : Frame ι) : (f.comp g).ids.Perm (f.ids ++ g.ids) := by
  induction f with
  | hole => exact .refl _
  | text s rest ih => exact ih
  | comment s rest ih => exact ih
  | after i l below rest ih =>
    simp only [comp, ids, List.cons_append, List.append_assoc]
    exact (ih.append_left _).cons i
  | within i l below rest ih =>
    simp only [comp, ids, List.cons_append, List.append_assoc]
    refine List.Perm.cons i ((ih.append_right _).trans ?_)
    rw [List.append_assoc]
    exact List.perm_append_comm.append_left _

@[simp] theorem mem_ids_fill {f : Frame ι} {r : Nodes ι} {i : ι} :
    i ∈ (f.fill r).ids ↔ i ∈ f.ids ∨ i ∈ r.ids := by
  rw [(ids_fill_perm f r).mem_iff, List.mem_append]

@[simp] theorem mem_ids_comp {f g : Frame ι} {i : ι} :
    i ∈ (f.comp g).ids ↔ i ∈ f.ids ∨ i ∈ g.ids := by
  rw [(ids_comp_perm f g).mem_iff, List.mem_append]

theorem nodup_fill {f : Frame ι} {r : Nodes ι} :
    (f.fill r).ids.Nodup ↔ (f.ids ++ r.ids).Nodup :=
  (ids_fill_perm f r).nodup_iff

theorem exists_fill {i : ι} {t : Nodes ι} (h : i ∈ t.ids) :
    ∃ (f : Frame ι) (l : Label) (below rest : Nodes ι), t = f.fill (.branch i l below rest) := by
  induction t with
  | nil => cases h
  | text s rest ih =>
    obtain ⟨f, l, below, rest', rfl⟩ := ih h
    exact ⟨text s f, l, below, rest', rfl⟩
  | comment s rest ih =>
    obtain ⟨f, l, below, rest', rfl⟩ := ih h
    exact ⟨comment s f, l, below, rest', rfl⟩
  | branch j l below rest ihb ihr =>
    simp only [Nodes.ids, List.mem_cons, List.mem_append] at h
    rcases h with rfl | h | h
    · exact ⟨hole, l, below, rest, rfl⟩
    · obtain ⟨f, l', below', rest', rfl⟩ := ihb h
      exact ⟨within j l f rest, l', below', rest', rfl⟩
    · obtain ⟨f, l', below', rest', rfl⟩ := ihr h
      exact ⟨after j l below f, l', below', rest', rfl⟩

def OnlyElements : Frame ι → Prop
  | hole => True
  | text _ rest | comment _ rest => rest.OnlyElements
  | after _ l below rest => l.isElement = true ∧ below.OnlyElements ∧ rest.OnlyElements
  | within _ l below rest => l.isElement = true ∧ below.OnlyElements ∧ rest.OnlyElements

def Rooted : Frame ι → Prop
  | hole => True
  | text _ rest | comment _ rest => rest.Rooted
  | after _ _ below rest => below.OnlyElements ∧ rest.Rooted
  | within _ _ below rest => below.OnlyElements ∧ rest.Rooted

@[simp] theorem onlyElements_fill (f : Frame ι) (r : Nodes ι) :
    (f.fill r).OnlyElements ↔ f.OnlyElements ∧ r.OnlyElements := by
  induction f with
  | hole => simp only [fill, OnlyElements, true_and]
  | text s rest ih => exact ih
  | comment s rest ih => exact ih
  | after i l below rest ih => simp only [fill, Nodes.OnlyElements, ih, OnlyElements, and_assoc]
  | within i l below rest ih =>
    simp only [fill, Nodes.OnlyElements, ih, OnlyElements]
    tauto

theorem rooted_fill (f : Frame ι) (r : Nodes ι) :
    (f.fill r).Rooted ↔ f.Rooted ∧ r.Rooted ∧ (f.owner.isSome = true → r.OnlyElements) := by
  induction f with
  | hole => simp only [fill, Rooted, owner, Option.isSome_none, true_and]; tauto
  | text s rest ih => exact ih
  | comment s rest ih => exact ih
  | after i l below rest ih => simp only [fill, Nodes.Rooted, ih, Rooted, owner, and_assoc]
  | within i l below rest ih =>
    simp only [fill, Nodes.Rooted, onlyElements_fill, Rooted, owner, Option.isSome_or,
      Option.isSome_some, Bool.or_true, true_imp_iff]
    have := OnlyElements.rooted (t := r)
    tauto

variable [DecidableEq ι] {f : Frame ι} {i : ι}

theorem find?_fill (h : i ∉ f.ids) (r : Nodes ι) : (f.fill r).find? i = r.find? i := by
  induction f with
  | hole => rfl
  | text s rest ih => exact ih h
  | comment s rest ih => exact ih h
  | after j l below rest ih =>
    simp only [ids, List.mem_cons, List.mem_append, not_or] at h
    rw [fill, Nodes.find?, if_neg (Ne.symm h.1), find?_eq_none h.2.1, ih h.2.2, Option.none_or]
  | within j l below rest ih =>
    simp only [ids, List.mem_cons, List.mem_append, not_or] at h
    rw [fill, Nodes.find?, if_neg (Ne.symm h.1), find?_eq_none h.2.2, ih h.2.1, Option.or_none]

theorem exists_fill_of_find? {t : Nodes ι} (hn : t.ids.Nodup) {l : Label} {below : Nodes ι}
    (h : t.find? i = some (l, below)) :
    ∃ (f : Frame ι) (rest : Nodes ι), t = f.fill (.branch i l below rest) ∧ i ∉ f.ids := by
  have hi : i ∈ t.ids := by
    by_contra hi
    rw [find?_eq_none hi] at h
    cases h
  obtain ⟨f, l', below', rest, rfl⟩ := exists_fill hi
  have hf : i ∉ f.ids := fun hf ↦
    (List.nodup_append.1 (nodup_fill.1 hn)).2.2 i hf i List.mem_cons_self rfl
  rw [find?_fill hf, Nodes.find?, if_pos rfl] at h
  obtain ⟨rfl, rfl⟩ := Prod.ext_iff.1 (Option.some.inj h)
  exact ⟨f, rest, rfl, hf⟩

theorem relabel_fill (h : i ∉ f.ids) (r : Nodes ι) (g : Label → Label) :
    (f.fill r).relabel i g = f.fill (r.relabel i g) := by
  induction f with
  | hole => rfl
  | text s rest ih => exact congrArg (Nodes.text s) (ih h)
  | comment s rest ih => exact congrArg (Nodes.comment s) (ih h)
  | after j l below rest ih =>
    simp only [ids, List.mem_cons, List.mem_append, not_or] at h
    simp only [fill, Nodes.relabel, if_neg (Ne.symm h.1), relabel_of_not_mem h.2.1, ih h.2.2]
  | within j l below rest ih =>
    simp only [ids, List.mem_cons, List.mem_append, not_or] at h
    simp only [fill, Nodes.relabel, if_neg (Ne.symm h.1), relabel_of_not_mem h.2.2, ih h.2.1]

theorem updateBelow_fill (h : i ∉ f.ids) (r : Nodes ι) (g : Nodes ι → Nodes ι) :
    (f.fill r).updateBelow i g = f.fill (r.updateBelow i g) := by
  induction f with
  | hole => rfl
  | text s rest ih => exact congrArg (Nodes.text s) (ih h)
  | comment s rest ih => exact congrArg (Nodes.comment s) (ih h)
  | after j l below rest ih =>
    simp only [ids, List.mem_cons, List.mem_append, not_or] at h
    simp only [fill, Nodes.updateBelow, if_neg (Ne.symm h.1), updateBelow_of_not_mem h.2.1,
      ih h.2.2]
  | within j l below rest ih =>
    simp only [ids, List.mem_cons, List.mem_append, not_or] at h
    simp only [fill, Nodes.updateBelow, if_neg (Ne.symm h.1), updateBelow_of_not_mem h.2.2,
      ih h.2.1]

theorem erase_fill (h : i ∉ f.ids) (r : Nodes ι) : (f.fill r).erase i = f.fill (r.erase i) := by
  induction f with
  | hole => rfl
  | text s rest ih => exact congrArg (Nodes.text s) (ih h)
  | comment s rest ih => exact congrArg (Nodes.comment s) (ih h)
  | after j l below rest ih =>
    simp only [ids, List.mem_cons, List.mem_append, not_or] at h
    simp only [fill, Nodes.erase, if_neg (Ne.symm h.1), erase_of_not_mem h.2.1, ih h.2.2]
  | within j l below rest ih =>
    simp only [ids, List.mem_cons, List.mem_append, not_or] at h
    simp only [fill, Nodes.erase, if_neg (Ne.symm h.1), erase_of_not_mem h.2.2, ih h.2.1]

theorem insertBefore_fill (h : i ∉ f.ids) (r row : Nodes ι) :
    (f.fill r).insertBefore i row = f.fill (r.insertBefore i row) := by
  induction f with
  | hole => rfl
  | text s rest ih => exact congrArg (Nodes.text s) (ih h)
  | comment s rest ih => exact congrArg (Nodes.comment s) (ih h)
  | after j l below rest ih =>
    simp only [ids, List.mem_cons, List.mem_append, not_or] at h
    simp only [fill, Nodes.insertBefore, if_neg (Ne.symm h.1), insertBefore_of_not_mem h.2.1,
      ih h.2.2]
  | within j l below rest ih =>
    simp only [ids, List.mem_cons, List.mem_append, not_or] at h
    simp only [fill, Nodes.insertBefore, if_neg (Ne.symm h.1), insertBefore_of_not_mem h.2.2,
      ih h.2.1]

theorem any_branches_fill (h : i ∉ f.ids) (r : Nodes ι) :
    (f.fill r).branches.any (·.1 = i) = (f.owner.isNone && r.branches.any (·.1 = i)) := by
  induction f with
  | hole => simp only [fill, owner, Option.isNone_none, Bool.true_and]
  | text s rest ih => exact ih h
  | comment s rest ih => exact ih h
  | after j l below rest ih =>
    simp only [ids, List.mem_cons, List.mem_append, not_or] at h
    simp only [fill, Nodes.branches, List.any_cons, decide_eq_false (Ne.symm h.1), Bool.false_or,
      ih h.2.2, owner]
  | within j l below rest ih =>
    simp only [ids, List.mem_cons, List.mem_append, not_or] at h
    simp only [fill, Nodes.branches, List.any_cons, decide_eq_false (Ne.symm h.1), Bool.false_or,
      any_branches_eq_false h.2.2, owner, Option.isNone_or, Option.isNone_some, Bool.and_false,
      Bool.false_and]

theorem parent?_fill {p : ι} (h : i ∉ f.ids) (ho : f.owner = some p) {r : Nodes ι}
    (hr : r.branches.any (·.1 = i) = true) : (f.fill r).parent? i = some p := by
  induction f with
  | hole => cases ho
  | text s rest ih => exact ih h ho
  | comment s rest ih => exact ih h ho
  | after j l below rest ih =>
    simp only [ids, List.mem_cons, List.mem_append, not_or] at h
    rw [fill, Nodes.parent?, any_branches_eq_false h.2.1, parent?_eq_none h.2.1, ih h.2.2 ho]
    rfl
  | within j l below rest ih =>
    simp only [ids, List.mem_cons, List.mem_append, not_or] at h
    rw [fill, Nodes.parent?, any_branches_fill h.2.1, hr]
    rw [owner] at ho
    cases hb : below.owner with
    | none => rw [hb] at ho; exact ho
    | some q =>
      rw [hb] at ho
      rw [ih h.2.1 (hb.trans ho)]
      rfl

theorem parent?_fill_of_loose (h : i ∉ f.ids) {r : Nodes ι}
    (hr : f.owner = none ∨ r.branches.any (·.1 = i) = false) :
    (f.fill r).parent? i = r.parent? i := by
  induction f with
  | hole => rfl
  | text s rest ih => exact ih h hr
  | comment s rest ih => exact ih h hr
  | after j l below rest ih =>
    simp only [ids, List.mem_cons, List.mem_append, not_or] at h
    rw [fill, Nodes.parent?, any_branches_eq_false h.2.1, parent?_eq_none h.2.1, ih h.2.2 hr]
    rfl
  | within j l below rest ih =>
    simp only [ids, List.mem_cons, List.mem_append, not_or] at h
    have hr : r.branches.any (·.1 = i) = false := by
      simpa only [owner, Option.or_eq_none_iff, reduceCtorEq, and_false, false_or] using hr
    rw [fill, Nodes.parent?, any_branches_fill h.2.1, hr, ih h.2.1 (.inr hr),
      parent?_eq_none h.2.2, Bool.and_false]
    exact Option.or_none

end Frame

end LivePage.Markup
