import LivePage.Proofs.Template.Leaves

namespace LivePage

open Markup

namespace Value

def shape (v : Value) : Kind × Option Nat :=
  (v.kind, v.list?.map List.length)

end Value

namespace Data

/-- The same names are present, with values of the same kinds and lists of the same lengths. -/
def SameShape (d e : Data) : Prop :=
  ∀ name, (d.get? name).map Value.shape = (e.get? name).map Value.shape

theorem get?_eq_none {d : Data} {name : String} (h : name ∉ d.keys) : d.get? name = none := by
  refine List.lookup_eq_none_iff.2 fun p hp ↦ bne_iff_ne.2 ?_
  rintro rfl
  exact h (List.mem_map_of_mem hp)

theorem sameShape_iff {d e : Data} : d.SameShape e ↔ ∀ name ∈ d.keys ++ e.keys,
    (d.get? name).map Value.shape = (e.get? name).map Value.shape := by
  refine ⟨fun h name _ ↦ h name, fun h name ↦ ?_⟩
  by_cases hname : name ∈ d.keys ++ e.keys
  · exact h name hname
  · rw [List.mem_append, not_or] at hname
    rw [get?_eq_none hname.1, get?_eq_none hname.2]

instance (d e : Data) : Decidable (d.SameShape e) :=
  decidable_of_iff _ sameShape_iff.symm

end Data

namespace Markup.Nodes

variable {ι κ : Type}

/-- The elements with their labels, as they are nested and in their order. Those without identity
are taken without what is below them. -/
def outline : Nodes (Option ι) → Nodes (Option ι)
  | nil => nil
  | text _ rest | comment _ rest => rest.outline
  | branch (some i) l below rest => branch (some i) l below.outline rest.outline
  | branch none l _ rest => branch none l nil rest.outline

@[simp] theorem outline_append (a b : Nodes (Option ι)) :
    (a ++ b).outline = a.outline ++ b.outline := by
  induction a with
  | nil => rfl
  | text s rest ih => exact ih
  | comment s rest ih => exact ih
  | branch i l below rest _ ih => cases i <;> simp only [branch_append, outline, ih]

theorem outline_eq_nil {r : Nodes (Option ι)} (h : r.ids = []) : r.outline = nil := by
  induction r with
  | nil => rfl
  | text s rest ih => exact ih h
  | comment s rest ih => exact ih h
  | branch i l below rest _ _ => cases h

theorem outline_ofElements (elements : List (Label × Nodes Unit)) :
    ((ofElements elements).map fun _ ↦ (none : Option ι)).outline =
      (ofElements (elements.map fun e ↦ (e.1, nil))).map fun _ ↦ none := by
  induction elements with
  | nil => rfl
  | cons e rest ih => simp only [ofElements, map, outline, List.map_cons, ih]

theorem outline_map_fill (F : Frame κ) (g : κ → Option ι) {r r' : Nodes κ}
    (h : (r.map g).outline = (r'.map g).outline) :
    ((F.fill r).map g).outline = ((F.fill r').map g).outline := by
  induction F with
  | hole => exact h
  | text s F ih => exact ih
  | comment s F ih => exact ih
  | after i l below F ih =>
    simp only [Frame.fill, map]
    cases g i <;> simp only [outline, ih]
  | within i l F rest ih =>
    simp only [Frame.fill, map]
    cases g i <;> simp only [outline, ih]

end Markup.Nodes

namespace Forest

def given? (n i : NodeId) : Option NodeId :=
  if i < n then some i else none

/-- The outline of the forest, in which elements count as made since `n` was the next number. -/
def outline (f : Forest) (n : NodeId) : Nodes (Option NodeId) :=
  (f.trees.map (given? n)).outline

end Forest

namespace Markup.Nodes

open Forest

theorem map_given? {r : Nodes NodeId} {n : NodeId} (h : ∀ i ∈ r.ids, i < n) :
    r.map (given? n) = r.map some := by
  induction r with
  | nil => rfl
  | text s rest ih => exact congrArg (text s) (ih h)
  | comment s rest ih => exact congrArg (comment s) (ih h)
  | branch i l below rest ihb ihr =>
    rw [ids, List.forall_mem_cons, List.forall_mem_append] at h
    simp only [map, ihb h.2.1, ihr h.2.2, given?, if_pos h.1]

theorem outline_identify {r : Nodes (Option Nat)} {n : Nat}
    (h : ∀ i, some i ∈ r.ids → i < n) (m : Nat) (hle : n ≤ m) :
    ((r.identify m).map (given? n)).outline = r.outline := by
  induction r generalizing m with
  | nil => rfl
  | text s rest ih => exact ih h m hle
  | comment s rest ih => exact ih h m hle
  | branch i l below rest ihb ihr =>
    have hbelow : ∀ j, some j ∈ below.ids → j < n := fun j hj ↦
      h j (List.mem_cons_of_mem _ (List.mem_append_left _ hj))
    have hrest : ∀ j, some j ∈ rest.ids → j < n := fun j hj ↦
      h j (List.mem_cons_of_mem _ (List.mem_append_right _ hj))
    cases i with
    | none =>
      -- the number that is given here counts as new again, and hides what is below
      have hm : ¬ m < n := Nat.not_lt.2 hle
      rw [identify, map, given?, if_neg hm, outline, outline,
        ihr hrest (m + 1 + below.newCount) (by omega)]
    | some i =>
      have hi : i < n := h i List.mem_cons_self
      rw [identify, map, given?, if_pos hi, outline, outline, ihb hbelow m hle,
        ihr hrest (m + below.newCount) (by omega)]

end Markup.Nodes

namespace Template

variable {ι : Type} {data data' : Data}

/-- A loop gives as many elements, with the same labels, or the same fault. -/
theorem map_generate (h : data.SameShape data') (loop : Loop) (tag : String) (below : Nodes ι) :
    (loop.generate data tag below).map (List.map Prod.fst) =
      (loop.generate data' tag below).map (List.map Prod.fst) := by
  have hname := h loop.collection
  unfold Loop.generate
  cases hv : data.get? loop.collection with
  | none =>
    rw [hv, Option.map_none, eq_comm, Option.map_eq_none_iff] at hname
    rw [hname]
  | some v =>
    rw [hv, Option.map_some, eq_comm, Option.map_eq_some_iff] at hname
    obtain ⟨v', hv', hshape⟩ := hname
    obtain ⟨hkind, hlength⟩ := Prod.mk.inj hshape
    simp only [hv', hkind]
    cases hlist : v.list? with
    | none =>
      rw [hlist, Option.map_none, Option.map_eq_none_iff] at hlength
      rw [hlength]
    | some items =>
      rw [hlist, Option.map_some, Option.map_eq_some_iff] at hlength
      obtain ⟨items', hitems', hlength⟩ := hlength
      have hempty : items'.isEmpty = items.isEmpty := by
        rw [Bool.eq_iff_iff, List.isEmpty_iff_length_eq_zero, List.isEmpty_iff_length_eq_zero,
          hlength]
      have hlabels : (items.map fun _ ↦ Label.ofTag tag) = items'.map fun _ ↦ Label.ofTag tag := by
        rw [List.map_const', List.map_const', hlength]
      simp only [hitems', hempty]
      split
      · rfl
      · simp only [Except.map, List.map_map, Function.comp_def, hlabels]

theorem map_attempts (h : data.SameShape data') (l : Label) (below : Nodes ι) :
    (attempts data l below).map (Except.map (List.map Prod.fst)) =
      (attempts data' l below).map (Except.map (List.map Prod.fst)) := by
  rw [attempts, attempts, List.map_filterMap, List.map_filterMap]
  refine List.filterMap_congr fun a _ ↦ ?_
  rw [attempt, attempt, Option.map_map, Option.map_map]
  congr 1
  funext d
  cases d with
  | error e => rfl
  | ok directive => exact map_generate h _ _ below

theorem map_standIns? (h : data.SameShape data') (l : Label) (below : Nodes ι) :
    (standIns? data l below).map (List.map Prod.fst) =
      (standIns? data' l below).map (List.map Prod.fst) := by
  have key : ∀ d : Data, (standIns? d l below).map (List.map Prod.fst) =
      ((attempts d l below).map (Except.map (List.map Prod.fst))).findSome? (·.toOption) := by
    intro d
    rw [List.findSome?_map, standIns?, List.map_findSome?]
    congr 1
    funext t
    cases t <;> rfl
  rw [key, key, map_attempts h]

theorem faults_map {α β : Type} (g : α → β) (ts : List (Except Diagnostic α)) :
    faults (ts.map (Except.map g)) = faults ts := by
  induction ts with
  | nil => rfl
  | cons t ts ih =>
    cases t with
    | error d => exact congrArg (d :: ·) ih
    | ok a => rfl

theorem failures_of_sameShape (h : data.SameShape data') (l : Label) (below : Nodes ι) :
    failures data l below = failures data' l below := by
  rw [failures, ← faults_map (List.map Prod.fst), map_attempts h, faults_map, failures]

theorem isSome_standIns? (h : data.SameShape data') (l : Label) (below : Nodes ι) :
    (standIns? data l below).isSome = (standIns? data' l below).isSome := by
  have hs := congrArg Option.isSome (map_standIns? h l below)
  rwa [Option.isSome_map, Option.isSome_map] at hs

theorem reportsIn_of_sameShape (h : data.SameShape data') (row : Nodes ι) :
    reportsIn data row = reportsIn data' row := by
  induction row with
  | nil => rfl
  | text s rest ih => exact ih
  | comment s rest ih => exact ih
  | branch i l below rest ihb ihr =>
    simp only [reportsIn, failures_of_sameShape h, isSome_standIns? h, ihb, ihr]

theorem replaced_of_sameShape (h : data.SameShape data') (row : Nodes ι) :
    replaced data row = replaced data' row := by
  induction row with
  | nil => rfl
  | text s rest ih => exact ih
  | comment s rest ih => exact ih
  | branch i l below rest ihb ihr => simp only [replaced, isSome_standIns? h, ihb, ihr]

theorem outline_fillLeaf (data : Data) {below : Nodes ι} (h : below.ids = []) :
    ((fillLeaf data below).map some).outline = .nil := by
  refine Nodes.outline_eq_nil ?_
  have hids : (fillLeaf data below).ids = [] :=
    List.subset_nil.1 (h ▸ ids_fillLeaf_subset data below)
  rw [Nodes.ids_map, hids, List.map_nil]

theorem outline_transform (h : data.SameShape data') {row : Nodes ι} (ho : row.OnlyElements) :
    (transform data row).outline = (transform data' row).outline := by
  induction row with
  | nil => rfl
  | text s rest ih => exact ih ho
  | comment s rest ih => exact ih ho
  | branch i l below rest ihb ihr =>
    have hs := map_standIns? h l below
    simp only [transform, Nodes.outline_append, ihr ho.2.2]
    congr 1
    cases he : standIns? data l below with
    | none =>
      rw [he, Option.map_none, eq_comm, Option.map_eq_none_iff] at hs
      simp only [hs, Nodes.outline]
      split
      · rw [ihb ho.2.1]
      · next h₀ =>
        have hids := Nodes.ids_eq_nil_of_elementCount ho.2.1 h₀
        rw [outline_fillLeaf data hids, outline_fillLeaf data' hids]
    | some elements =>
      rw [he, Option.map_some, eq_comm, Option.map_eq_some_iff] at hs
      obtain ⟨elements', he', hlabels⟩ := hs
      have hbare := congrArg (List.map fun l ↦ (l, (Nodes.nil : Nodes Unit))) hlabels
      rw [List.map_map, List.map_map] at hbare
      simp only [he', Nodes.outline_ofElements]
      exact congrArg (fun es ↦ (Nodes.ofElements es).map fun _ ↦ none) hbare.symm

section

variable {row : Nodes ι}

theorem outline_transform_of_loopless
    (h : ∀ e ∈ row.subtrees, ∀ a ∈ e.2.1.attributes, a.name ≠ loopAttribute)
    (ho : row.OnlyElements) (data : Data) :
    (transform data row).outline = (row.map some).outline := by
  induction row with
  | nil => rfl
  | text s rest ih => exact ih h ho
  | comment s rest ih => exact ih h ho
  | branch i l below rest ihb ihr =>
    rw [Nodes.subtrees, List.forall_mem_cons, List.forall_mem_append] at h
    simp only [transform, standIns?_eq_none data h.1, Nodes.branch_append, Nodes.nil_append,
      Nodes.map, Nodes.outline, ihr h.2.2 ho.2.2]
    congr 1
    split
    · exact ihb h.2.1 ho.2.1
    · next h₀ =>
      have hids := Nodes.ids_eq_nil_of_elementCount ho.2.1 h₀
      rw [outline_fillLeaf data hids, Nodes.outline_eq_nil]
      rw [Nodes.ids_map, hids, List.map_nil]

theorem replaced_of_loopless
    (h : ∀ e ∈ row.subtrees, ∀ a ∈ e.2.1.attributes, a.name ≠ loopAttribute) (data : Data) :
    replaced data row = .nil := by
  induction row with
  | nil => rfl
  | text s rest ih => exact ih h
  | comment s rest ih => exact ih h
  | branch i l below rest ihb ihr =>
    rw [Nodes.subtrees, List.forall_mem_cons, List.forall_mem_append] at h
    simp only [replaced, standIns?_eq_none data h.1, ihb h.2.1, ihr h.2.2, Option.isSome_none,
      Bool.false_eq_true, if_false, Nodes.nil_append]

end

end Template

open Template

namespace Forest

section

variable {F : Frame Nat} {root : Nat} {l : Label} {row rest : Nodes Nat} {n : Nat}

theorem lt_of_mem_row (h : (⟨F.fill (.branch root l row rest), n⟩ : Forest).WellFormed)
    {i : Nat} (hi : i ∈ row.ids) : i < n := by
  refine h.lt_next i (Frame.mem_ids_fill.2 (.inr ?_))
  exact List.mem_cons_of_mem _ (List.mem_append_left _ hi)

theorem outline_identify_transform
    (h : (⟨F.fill (.branch root l row rest), n⟩ : Forest).WellFormed) (data : Data) :
    (((transform data row).identify n).map (given? n)).outline = (transform data row).outline :=
  Nodes.outline_identify (fun _ hi ↦ lt_of_mem_row h (mem_ids_of_mem_transform data hi)) n le_rfl

theorem outline_render_fill (h : (⟨F.fill (.branch root l row rest), n⟩ : Forest).WellFormed)
    (data : Data) {r : Nodes Nat} (hr : (r.map (given? n)).outline = (transform data row).outline) :
    (render data ⟨F.fill (.branch root l row rest), n⟩ root).forest.outline n =
      ((replaced data row).map (given? n)).outline ++
        ((F.fill (.branch root l r rest)).map (given? n)).outline := by
  have hnew := outline_identify_transform h data
  rw [render_fill data h, outline, Nodes.map_append, Nodes.outline_append]
  congr 1
  refine Nodes.outline_map_fill F _ ?_
  simp only [Nodes.map]
  cases given? n root <;> simp only [Nodes.outline, hnew, hr]

end

variable {f : Forest}

/-- What is reported and which elements there are afterwards, with their labels, as they are nested
and in their order, depends on the shape of the data alone. Where no loop is asked for, every
element stays and there is no other, whatever the data are. -/
theorem outline_render (h : f.WellFormed) (root : NodeId) :
    (∀ data data' : Data, data.SameShape data' →
      (render data f root).reports = (render data' f root).reports ∧
        (render data f root).forest.outline f.next =
          (render data' f root).forest.outline f.next) ∧
      ((∀ i ∈ (f.below root).ids, ∀ a ∈ (f.label i).attributes, a.name ≠ loopAttribute) →
        ∀ data, (render data f root).forest.outline f.next = f.outline f.next) := by
  cases hroot : f.node? root with
  | none =>
    refine ⟨fun data data' _ ↦ ?_, fun _ data ↦ ?_⟩
    · rw [render_of_node? data hroot, render_of_node? data' hroot]
      exact ⟨rfl, rfl⟩
    · rw [render_of_node? data hroot]
  | some node =>
    obtain ⟨l, row⟩ := node
    have ho := h.onlyElements_of_node? hroot
    have hlabel : ∀ e ∈ row.subtrees, e.1 ∈ (f.below root).ids ∧ f.label e.1 = e.2.1 :=
      fun _ he ↦ ⟨below_eq hroot ▸ Nodes.mem_ids_of_mem_subtrees he,
        label_eq (h.node?_of_mem_subtrees hroot he)⟩
    obtain ⟨t, n⟩ := f
    obtain ⟨F, rest, rfl, -⟩ := Frame.exists_fill_of_find? h.nodup hroot
    refine ⟨fun data data' hs ↦ ⟨?_, ?_⟩, fun hloop data ↦ ?_⟩
    · rw [render_fill data h, render_fill data' h]
      exact reportsIn_of_sameShape hs row
    · have hr := outline_identify_transform h data'
      rw [outline_render_fill h data (hr.trans (outline_transform hs ho).symm),
        outline_render_fill h data' hr, replaced_of_sameShape hs]
    · have hloop : ∀ e ∈ row.subtrees, ∀ a ∈ e.2.1.attributes, a.name ≠ loopAttribute :=
        fun e he ↦ (hlabel e he).2 ▸ hloop e.1 (hlabel e he).1
      have hrow : row.map (given? n) = row.map some := Nodes.map_given? fun _ ↦ lt_of_mem_row h
      rw [outline_render_fill h data (hrow ▸ (outline_transform_of_loopless hloop ho data).symm),
        replaced_of_loopless hloop]
      rfl

def outlinePage : Forest :=
  ⟨.branch 0 .document (.branch 1 (.element "ul" [])
    (.branch 2 (.element "li" [⟨"d-for", "x in xs"⟩]) (.text "\x7b\x7bx\x7d\x7d" .nil)
      (.branch 3 (.element "li" [⟨"d-for", "y in n"⟩]) (.text "\x7b\x7by\x7d\x7d" .nil) .nil))
    (.branch 4 (.element "p" []) (.branch 5 (.element "b" []) (.text "\x7b\x7bn\x7d\x7d" .nil) .nil)
      .nil)) .nil, 6⟩

def plainData : Data :=
  .ofPairs [("xs", .list [.string "a", .bool true]), ("n", .string "2")]

def markupData : Data :=
  .ofPairs [("n", .string "<i>\x7b\x7bxs\x7d\x7d</i>"),
    ("xs", .list [.list [], .string "<b>1</b>"])]

theorem outline_render_outlinePage :
    (outlinePage.WellFormed ∧ plainData.SameShape markupData) ∧
      ((render plainData outlinePage 1).reports = (render markupData outlinePage 1).reports ∧
        (render plainData outlinePage 1).forest.outline 6 =
          (render markupData outlinePage 1).forest.outline 6) ∧
      (∀ i ∈ (outlinePage.below 4).ids, ∀ a ∈ (outlinePage.label i).attributes,
        a.name ≠ loopAttribute) ∧
      (render markupData outlinePage 4).forest.outline 6 = outlinePage.outline 6 := by
  have hpage : outlinePage.WellFormed := by decide +kernel
  have hshape : plainData.SameShape markupData := by decide +kernel
  have hloop : ∀ i ∈ (outlinePage.below 4).ids, ∀ a ∈ (outlinePage.label i).attributes,
      a.name ≠ loopAttribute := by decide +kernel
  exact ⟨⟨hpage, hshape⟩, (outline_render hpage 1).1 _ _ hshape, hloop,
    (outline_render hpage 4).2 hloop _⟩

end Forest

end LivePage
