import LivePage.Proofs.Markup.Frame
import Mathlib.Data.List.Count
import Mathlib.Data.List.Nodup

namespace LivePage.Markup

inductive Item (ι : Type)
  | branch (i : ι)
  | text (content : String)
  | comment (content : String)
deriving DecidableEq, Repr

namespace Item

variable {ι : Type}

def id? : Item ι → Option ι
  | branch i => some i
  | text _ | comment _ => none

theorem id?_eq_some {it : Item ι} {i : ι} : it.id? = some i ↔ it = branch i := by
  cases it with
  | branch j => simp only [id?, Option.some.injEq, branch.injEq]
  | text s => simp only [id?, reduceCtorEq]
  | comment s => simp only [id?, reduceCtorEq]

end Item

abbrev NodeEntry (ι : Type) := ι × Label × List (Item ι)

namespace Nodes

variable {ι : Type}

def items : Nodes ι → List (Item ι)
  | nil => []
  | text s rest => .text s :: rest.items
  | comment s rest => .comment s :: rest.items
  | branch i _ _ rest => .branch i :: rest.items

def entries : Nodes ι → List (NodeEntry ι)
  | nil => []
  | text _ rest | comment _ rest => rest.entries
  | branch i l below rest => (i, l, below.items) :: (below.entries ++ rest.entries)

@[simp] theorem items_append (a b : Nodes ι) : (a ++ b).items = a.items ++ b.items := by
  induction a with
  | nil => rfl
  | text s rest ih => exact congrArg (Item.text s :: ·) ih
  | comment s rest ih => exact congrArg (Item.comment s :: ·) ih
  | branch i l below rest _ ih => exact congrArg (Item.branch i :: ·) ih

@[simp] theorem entries_append (a b : Nodes ι) : (a ++ b).entries = a.entries ++ b.entries := by
  induction a with
  | nil => rfl
  | text s rest ih => exact ih
  | comment s rest ih => exact ih
  | branch i l below rest _ ih =>
    simp only [branch_append, entries, ih, List.cons_append, List.append_assoc]

@[simp] theorem entries_branchesOnly (a : Nodes ι) : a.branchesOnly.entries = a.entries := by
  induction a with
  | nil => rfl
  | text s rest ih => exact ih
  | comment s rest ih => exact ih
  | branch i l below rest _ ih => simp only [branchesOnly, entries, ih]

@[simp] theorem map_fst_entries (t : Nodes ι) : t.entries.map (·.1) = t.ids := by
  induction t with
  | nil => rfl
  | text s rest ih => exact ih
  | comment s rest ih => exact ih
  | branch i l below rest ihb ihr =>
    simp only [entries, ids, List.map_cons, List.map_append, ihb, ihr]

theorem mem_ids_of_mem_entries {t : Nodes ι} {e : NodeEntry ι} (h : e ∈ t.entries) : e.1 ∈ t.ids := by
  rw [← map_fst_entries]
  exact List.mem_map_of_mem h

theorem exists_entry {t : Nodes ι} {i : ι} (h : i ∈ t.ids) : ∃ l its, (i, l, its) ∈ t.entries := by
  rw [← map_fst_entries, List.mem_map] at h
  obtain ⟨⟨j, l, its⟩, he, rfl⟩ := h
  exact ⟨l, its, he⟩

theorem entry_unique {t : Nodes ι} (hn : t.ids.Nodup) {i : ι} {l l' : Label}
    {its its' : List (Item ι)} (h : (i, l, its) ∈ t.entries) (h' : (i, l', its') ∈ t.entries) :
    l = l' ∧ its = its' := by
  rw [← map_fst_entries] at hn
  obtain ⟨rfl, rfl⟩ := Prod.mk.inj (Prod.mk.inj (List.inj_on_of_nodup_map hn h h' rfl)).2
  exact ⟨rfl, rfl⟩

theorem exists_of_mem_items {i : ι} {r : Nodes ι} (h : .branch i ∈ r.items) :
    ∃ (a : Nodes ι) (l : Label) (below b : Nodes ι), r = a ++ .branch i l below b := by
  induction r with
  | nil => cases h
  | text s rest ih =>
    obtain ⟨a, l, below, b, rfl⟩ := ih ((List.mem_cons.1 h).resolve_left fun he ↦ by cases he)
    exact ⟨.text s a, l, below, b, rfl⟩
  | comment s rest ih =>
    obtain ⟨a, l, below, b, rfl⟩ := ih ((List.mem_cons.1 h).resolve_left fun he ↦ by cases he)
    exact ⟨.comment s a, l, below, b, rfl⟩
  | branch j l below rest _ ih =>
    rcases List.mem_cons.1 h with h | h
    · obtain rfl := Item.branch.inj h
      exact ⟨.nil, l, below, rest, rfl⟩
    · obtain ⟨a, l', below', b, rfl⟩ := ih h
      exact ⟨.branch j l below a, l', below', b, rfl⟩

theorem ids_perm_items (t : Nodes ι) :
    t.ids.Perm (t.items.filterMap Item.id? ++
      t.entries.flatMap fun e ↦ e.2.2.filterMap Item.id?) := by
  induction t with
  | nil => exact .refl _
  | text s rest ih => exact ih
  | comment s rest ih => exact ih
  | branch i l below rest ihb ihr =>
    simp only [ids, items, entries, List.flatMap_cons, List.flatMap_append,
      List.filterMap_cons, Item.id?, List.cons_append]
    refine List.Perm.cons i ((ihb.append ihr).trans ?_)
    simp only [List.append_assoc]
    rw [← List.append_assoc, ← List.append_assoc]
    refine List.Perm.trans ?_ (List.perm_append_comm_assoc _ _ _)
    simp only [List.append_assoc]
    exact (List.perm_append_comm_assoc _ _ _).append_left _

theorem mem_ids_of_mem_items {t : Nodes ι} {i : ι} (h : .branch i ∈ t.items) : i ∈ t.ids :=
  (ids_perm_items t).mem_iff.2
    (List.mem_append_left _ (List.mem_filterMap.2 ⟨_, h, Item.id?_eq_some.2 rfl⟩))

theorem mem_ids_of_mem_entry {t : Nodes ι} {e : NodeEntry ι} {i : ι} (he : e ∈ t.entries)
    (h : .branch i ∈ e.2.2) : i ∈ t.ids :=
  (ids_perm_items t).mem_iff.2 (List.mem_append_right _
    (List.mem_flatMap.2 ⟨e, he, List.mem_filterMap.2 ⟨_, h, Item.id?_eq_some.2 rfl⟩⟩))

theorem mem_items_or_entry {t : Nodes ι} {i : ι} (h : i ∈ t.ids) :
    .branch i ∈ t.items ∨ ∃ e ∈ t.entries, .branch i ∈ e.2.2 := by
  rcases List.mem_append.1 ((ids_perm_items t).mem_iff.1 h) with h | h
  · obtain ⟨it, hit, hi⟩ := List.mem_filterMap.1 h
    exact .inl (Item.id?_eq_some.1 hi ▸ hit)
  · obtain ⟨e, he, h⟩ := List.mem_flatMap.1 h
    obtain ⟨it, hit, hi⟩ := List.mem_filterMap.1 h
    exact .inr ⟨e, he, Item.id?_eq_some.1 hi ▸ hit⟩

theorem not_mem_entry {t : Nodes ι} (hn : t.ids.Nodup) {i : ι} (h : .branch i ∈ t.items)
    {e : NodeEntry ι} (he : e ∈ t.entries) : .branch i ∉ e.2.2 := by
  intro hi
  have hd := (List.nodup_append.1 ((ids_perm_items t).nodup_iff.1 hn)).2.2
  exact hd i (List.mem_filterMap.2 ⟨_, h, Item.id?_eq_some.2 rfl⟩) i
    (List.mem_flatMap.2 ⟨e, he, List.mem_filterMap.2 ⟨_, hi, Item.id?_eq_some.2 rfl⟩⟩) rfl

theorem entries_of_find? [DecidableEq ι] {t below : Nodes ι} {i : ι} {l : Label}
    (h : t.find? i = some (l, below)) :
    (i, l, below.items) ∈ t.entries ∧ below.entries ⊆ t.entries := by
  induction t with
  | nil => cases h
  | text s rest ih => exact ih h
  | comment s rest ih => exact ih h
  | branch j lj belowj rest ihb ihr =>
    rw [find?] at h
    split at h
    · next hj =>
      obtain ⟨rfl, rfl⟩ := Prod.mk.inj (Option.some.inj h)
      subst hj
      exact ⟨List.mem_cons_self, fun e he ↦ List.mem_cons_of_mem _ (List.mem_append_left _ he)⟩
    · rcases Option.or_eq_some_iff.1 h with h | ⟨-, h⟩
      · obtain ⟨hi, hsub⟩ := ihb h
        exact ⟨List.mem_cons_of_mem _ (List.mem_append_left _ hi),
          fun e he ↦ List.mem_cons_of_mem _ (List.mem_append_left _ (hsub he))⟩
      · obtain ⟨hi, hsub⟩ := ihr h
        exact ⟨List.mem_cons_of_mem _ (List.mem_append_right _ hi),
          fun e he ↦ List.mem_cons_of_mem _ (List.mem_append_right _ (hsub he))⟩

theorem OnlyElements.of_mem_entries {t : Nodes ι} (h : t.OnlyElements) {e : NodeEntry ι}
    (he : e ∈ t.entries) : e.2.1.isElement = true := by
  induction t with
  | nil => cases he
  | text s rest ih => exact ih h he
  | comment s rest ih => exact ih h he
  | branch i l below rest ihb ihr =>
    rcases List.mem_cons.1 he with rfl | he
    · exact h.1
    · rcases List.mem_append.1 he with he | he
      · exact ihb h.2.1 he
      · exact ihr h.2.2 he

theorem exists_find? [DecidableEq ι] {t : Nodes ι} {i : ι} (h : i ∈ t.ids) :
    ∃ l below, t.find? i = some (l, below) := by
  cases hf : t.find? i with
  | none => exact absurd h (find?_eq_none_iff.1 hf)
  | some e => exact ⟨e.1, e.2, rfl⟩

/-- The branching nodes in the row and below it, each with its label and what is below it. -/
def subtrees : Nodes ι → List (ι × Label × Nodes ι)
  | nil => []
  | text _ rest | comment _ rest => rest.subtrees
  | branch i l below rest => (i, l, below) :: (below.subtrees ++ rest.subtrees)

@[simp] theorem subtrees_append (a b : Nodes ι) :
    (a ++ b).subtrees = a.subtrees ++ b.subtrees := by
  induction a with
  | nil => rfl
  | text s rest ih => exact ih
  | comment s rest ih => exact ih
  | branch i l below rest _ ih =>
    simp only [branch_append, subtrees, ih, List.cons_append, List.append_assoc]

theorem mem_ids_of_mem_subtrees {t : Nodes ι} {i : ι} {l : Label} {below : Nodes ι}
    (h : (i, l, below) ∈ t.subtrees) : i ∈ t.ids := by
  induction t with
  | nil => cases h
  | text s rest ih => exact ih h
  | comment s rest ih => exact ih h
  | branch j l' below' rest ihb ihr =>
    rw [ids, List.mem_cons, List.mem_append]
    rcases List.mem_cons.1 h with h | h
    · exact .inl (Prod.ext_iff.1 h).1
    · exact .inr ((List.mem_append.1 h).imp ihb ihr)

section

variable [DecidableEq ι]

theorem mem_subtrees_of_find? {t : Nodes ι} {i : ι} {l : Label} {below : Nodes ι}
    (h : t.find? i = some (l, below)) : (i, l, below) ∈ t.subtrees := by
  induction t with
  | nil => cases h
  | text s rest ih => exact ih h
  | comment s rest ih => exact ih h
  | branch j l' below' rest ihb ihr =>
    rw [find?] at h
    split at h
    · next hj =>
      obtain ⟨rfl, rfl⟩ := Prod.ext_iff.1 (Option.some.inj h)
      rw [← hj]
      exact List.mem_cons_self
    · refine List.mem_cons_of_mem _ (List.mem_append.2 ?_)
      rcases Option.or_eq_some_iff.1 h with h | ⟨-, h⟩
      · exact .inl (ihb h)
      · exact .inr (ihr h)

theorem find?_eq_some_iff {t : Nodes ι} (hn : t.ids.Nodup) {i : ι} {l : Label}
    {below : Nodes ι} : t.find? i = some (l, below) ↔ (i, l, below) ∈ t.subtrees := by
  refine ⟨mem_subtrees_of_find?, fun h ↦ ?_⟩
  induction t with
  | nil => cases h
  | text s rest ih => exact ih hn h
  | comment s rest ih => exact ih hn h
  | branch j l' below' rest ihb ihr =>
    obtain ⟨hj, hrow⟩ := List.nodup_cons.1 hn
    obtain ⟨hbelow, hrest, hdisjoint⟩ := List.nodup_append.1 hrow
    rw [List.mem_append, not_or] at hj
    rw [find?]
    rcases List.mem_cons.1 h with h | h
    · obtain ⟨rfl, h⟩ := Prod.ext_iff.1 h
      rw [if_pos rfl]
      exact congrArg some h.symm
    · rcases List.mem_append.1 h with h | h
      · have hmem := mem_ids_of_mem_subtrees h
        have hji : j ≠ i := fun hji ↦ hj.1 (hji ▸ hmem)
        rw [if_neg hji, ihb hbelow h, Option.some_or]
      · have hmem := mem_ids_of_mem_subtrees h
        have hji : j ≠ i := fun hji ↦ hj.2 (hji ▸ hmem)
        have hnot : i ∉ below'.ids := fun hib ↦ hdisjoint i hib i hmem rfl
        rw [if_neg hji, find?_eq_none hnot, ihr hrest h, Option.none_or]

end

end Nodes

namespace Frame

variable {ι : Type}

theorem mem_subtrees_fill {F : Frame ι} {r : Nodes ι} {e : ι × Label × Nodes ι}
    (h : e ∈ r.subtrees) : e ∈ (F.fill r).subtrees := by
  induction F with
  | hole => exact h
  | text s F ih => exact ih
  | comment s F ih => exact ih
  | after i l below F ih => exact List.mem_cons_of_mem _ (List.mem_append_right _ ih)
  | within i l F rest ih => exact List.mem_cons_of_mem _ (List.mem_append_left _ ih)

theorem exists_items (F : Frame ι) (i : ι) (rest : Nodes ι) :
    ∃ its, ∀ l below, (F.fill (.branch i l below rest)).items = its := by
  induction F with
  | hole => exact ⟨_, fun l below ↦ rfl⟩
  | text s F ih =>
    obtain ⟨its, h⟩ := ih
    exact ⟨.text s :: its, fun l below ↦ congrArg (Item.text s :: ·) (h l below)⟩
  | comment s F ih =>
    obtain ⟨its, h⟩ := ih
    exact ⟨.comment s :: its, fun l below ↦ congrArg (Item.comment s :: ·) (h l below)⟩
  | after j lj bj F ih =>
    obtain ⟨its, h⟩ := ih
    exact ⟨.branch j :: its, fun l below ↦ congrArg (Item.branch j :: ·) (h l below)⟩
  | within j lj F r => exact ⟨_, fun l below ↦ rfl⟩

/-- What is not below a node has the same entries whatever the node is and has below it. -/
theorem exists_entries (F : Frame ι) (i : ι) (rest : Nodes ι) :
    ∃ es, ∀ l below,
      (F.fill (.branch i l below rest)).entries.Perm
        ((i, l, below.items) :: (below.entries ++ es)) := by
  classical
  induction F with
  | hole => exact ⟨rest.entries, fun l below ↦ .refl _⟩
  | text s F ih => exact ih
  | comment s F ih => exact ih
  | after j lj bj F ih =>
    obtain ⟨es, h⟩ := ih
    refine ⟨(j, lj, bj.items) :: (bj.entries ++ es), fun l below ↦ ?_⟩
    refine List.perm_iff_count.2 fun e ↦ ?_
    have he := List.perm_iff_count.1 (h l below) e
    simp only [fill, Nodes.entries, List.count_cons, List.count_append] at he ⊢
    omega
  | within j lj F r ih =>
    obtain ⟨es, h⟩ := ih
    obtain ⟨its, hits⟩ := exists_items F i rest
    refine ⟨(j, lj, its) :: (es ++ r.entries), fun l below ↦ ?_⟩
    refine List.perm_iff_count.2 fun e ↦ ?_
    have he := List.perm_iff_count.1 (h l below) e
    simp only [fill, Nodes.entries, hits, List.count_cons, List.count_append] at he ⊢
    omega

theorem exists_front {F : Frame ι} (ho : F.owner = none) : ∃ a, ∀ r, F.fill r = a ++ r := by
  induction F with
  | hole => exact ⟨.nil, fun r ↦ rfl⟩
  | text s F ih =>
    obtain ⟨a, h⟩ := ih ho
    exact ⟨.text s a, fun r ↦ congrArg (Nodes.text s) (h r)⟩
  | comment s F ih =>
    obtain ⟨a, h⟩ := ih ho
    exact ⟨.comment s a, fun r ↦ congrArg (Nodes.comment s) (h r)⟩
  | after j lj bj F ih =>
    obtain ⟨a, h⟩ := ih ho
    exact ⟨.branch j lj bj a, fun r ↦ congrArg (Nodes.branch j lj bj) (h r)⟩
  | within j lj F r _ =>
    rw [owner, Option.or_eq_none_iff] at ho
    cases ho.2

theorem exists_within {F : Frame ι} {p : ι} (ho : F.owner = some p) :
    ∃ (G : Frame ι) (l : Label) (a rest : Nodes ι),
      ∀ r, F.fill r = G.fill (.branch p l (a ++ r) rest) := by
  induction F with
  | hole => cases ho
  | text s F ih =>
    obtain ⟨G, l, a, rest, h⟩ := ih ho
    exact ⟨.text s G, l, a, rest, fun r ↦ congrArg (Nodes.text s) (h r)⟩
  | comment s F ih =>
    obtain ⟨G, l, a, rest, h⟩ := ih ho
    exact ⟨.comment s G, l, a, rest, fun r ↦ congrArg (Nodes.comment s) (h r)⟩
  | after j lj bj F ih =>
    obtain ⟨G, l, a, rest, h⟩ := ih ho
    exact ⟨.after j lj bj G, l, a, rest, fun r ↦ congrArg (Nodes.branch j lj bj) (h r)⟩
  | within j lj F r ih =>
    rw [owner, Option.or_eq_some_iff] at ho
    rcases ho with ho | ⟨ho, hj⟩
    · obtain ⟨G, l, a, rest, h⟩ := ih ho
      exact ⟨.within j lj G r, l, a, rest, fun x ↦ congrArg (Nodes.branch j lj · r) (h x)⟩
    · obtain rfl := Option.some.inj hj
      obtain ⟨a, h⟩ := exists_front ho
      exact ⟨.hole, lj, a, r, fun x ↦ congrArg (Nodes.branch j lj · r) (h x)⟩

/-- The frame of what comes behind some nodes in the row below a node. -/
def inRow (G : Frame ι) (p : ι) (l : Label) (a rest : Nodes ι) : Frame ι :=
  G.comp (.within p l (Frame.hole.behind a) rest)

@[simp] theorem fill_inRow (G : Frame ι) (p : ι) (l : Label) (a rest r : Nodes ι) :
    (G.inRow p l a rest).fill r = G.fill (.branch p l (a ++ r) rest) := by
  rw [inRow, fill_comp, fill, fill_behind]
  rfl

@[simp] theorem owner_inRow (G : Frame ι) (p : ι) (l : Label) (a rest : Nodes ι) :
    (G.inRow p l a rest).owner = some p := by
  rw [inRow, owner_comp, owner, owner_behind]
  rfl

end Frame

end LivePage.Markup
