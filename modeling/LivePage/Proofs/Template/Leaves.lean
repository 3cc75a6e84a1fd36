import LivePage.Proofs.Markup.Entries
import LivePage.Proofs.Template.Census
import LivePage.Proofs.Template.Tokens

namespace LivePage

open Markup Template

namespace Template

def fillText (resolve : String → Option String) (text : String) : String :=
  fillPieces resolve (pieces text.toList)

/-- Every brace of the text is a part of a placeholder. -/
def Tidy (text : String) : Prop :=
  ∀ p ∈ pieces text.toList, p.isToken = true ∨ Braceless p.text

instance (text : String) : Decidable (Tidy text) :=
  inferInstanceAs (Decidable (∀ p ∈ pieces text.toList, p.isToken = true ∨ Braceless p.text))

theorem tidy_iff {text : String} : Tidy text ↔ ∀ p ∈ pieces text.toList, p.Sound := by
  refine forall₂_congr fun p hp ↦ ?_
  cases p with
  | literal cs => exact or_iff_right Bool.false_ne_true
  | token raw name => exact iff_of_true (.inl rfl) (isToken_of_mem_pieces hp)

section

variable {first second : String → Option String} {text : String}

theorem fillText_of_unresolved {resolve : String → Option String}
    (h : (pieces text.toList).any (Piece.resolves resolve) = false) :
    fillText resolve text = text := by
  rw [fillText, fillPieces_of_unresolved resolve h, flatMap_text_pieces, String.ofList_toList]

theorem alike_fillText (hfirst : ∀ name value, first name = some value → Braceless value.toList)
    (h : Tidy text) : Alike (pieces (fillText first text).toList)
      ((pieces text.toList).map (Piece.bind first)) := by
  rw [fillText, ← flatMap_text_bind]
  refine alike_pieces fun q hq ↦ ?_
  obtain ⟨p, hp, rfl⟩ := List.mem_map.1 hq
  exact sound_bind hfirst (tidy_iff.1 h p hp)

theorem tidy_fillText (hfirst : ∀ name value, first name = some value → Braceless value.toList)
    (h : Tidy text) : Tidy (fillText first text) :=
  tidy_iff.2 (alike_fillText hfirst h).sound

theorem fillText_fillText
    (hfirst : ∀ name value, first name = some value → Braceless value.toList) (h : Tidy text) :
    fillText second (fillText first text) =
      fillText (fun name ↦ (first name).or (second name)) text := by
  rw [fillText, (alike_fillText hfirst h).fill, fillPieces, List.map_map]
  exact congrArg String.join (List.map_congr_left fun p _ ↦ fill_bind p)

theorem any_resolves_fillText
    (hfirst : ∀ name value, first name = some value → Braceless value.toList) (h : Tidy text) :
    (pieces (fillText first text).toList).any (Piece.resolves second) =
      (pieces text.toList).any fun p ↦ !p.resolves first &&
        p.resolves fun name ↦ (first name).or (second name) := by
  rw [(alike_fillText hfirst h).resolves, List.any_map]
  exact congrArg _ (funext resolves_bind)

end

end Template

namespace Markup.Nodes

variable {ι : Type}

section

variable (resolve : String → Option String)

/-- The content of an element without elements in it, with the placeholders replaced that have a
value. -/
def bindLeaf (below : Nodes ι) : Nodes ι :=
  if (pieces below.textContent.toList).any (Piece.resolves resolve) then
    .ofText (fillText resolve below.textContent)
  else below

def bindLeaves : Nodes ι → Nodes ι
  | nil => nil
  | text s rest => text s rest.bindLeaves
  | comment s rest => comment s rest.bindLeaves
  | branch i l below rest =>
    branch i l (if 0 < below.elementCount then below.bindLeaves else below.bindLeaf resolve)
      rest.bindLeaves

@[simp] theorem textContent_bindLeaf (below : Nodes ι) :
    (below.bindLeaf resolve).textContent = fillText resolve below.textContent := by
  unfold bindLeaf
  split
  · exact textContent_ofText _
  · next h => rw [fillText_of_unresolved (Bool.not_eq_true _ ▸ h)]

theorem elementCount_bindLeaf {below : Nodes ι} (h : ¬ 0 < below.elementCount) :
    ¬ 0 < (below.bindLeaf resolve).elementCount := by
  unfold bindLeaf
  split
  · rw [elementCount_ofText]
    exact lt_irrefl 0
  · exact h

@[simp] theorem elementCount_bindLeaves (row : Nodes ι) :
    (row.bindLeaves resolve).elementCount = row.elementCount := by
  induction row with
  | nil => rfl
  | text s rest ih => exact ih
  | comment s rest ih => exact ih
  | branch i l below rest _ ih => simp only [bindLeaves, elementCount, ih]

@[simp] theorem items_bindLeaves (row : Nodes ι) : (row.bindLeaves resolve).items = row.items := by
  induction row with
  | nil => rfl
  | text s rest ih => exact congrArg (Item.text s :: ·) ih
  | comment s rest ih => exact congrArg (Item.comment s :: ·) ih
  | branch i l below rest _ ih => exact congrArg (Item.branch i :: ·) ih

theorem ids_bindLeaf {below : Nodes ι} (h : below.ids = []) :
    (below.bindLeaf resolve).ids = [] := by
  unfold bindLeaf
  split
  · exact ids_ofText _
  · exact h

theorem ids_bindLeaves {row : Nodes ι} (h : row.OnlyElements) :
    (row.bindLeaves resolve).ids = row.ids := by
  induction row with
  | nil => rfl
  | text s rest ih => exact ih h
  | comment s rest ih => exact ih h
  | branch i l below rest ihb ihr =>
    rw [bindLeaves, ids, ids, ihr h.2.2]
    split
    · rw [ihb h.2.1]
    · next h₀ =>
      have hbelow := ids_eq_nil_of_elementCount h.2.1 h₀
      rw [ids_bindLeaf resolve hbelow, hbelow]

theorem find?_bindLeaves [DecidableEq ι] {row : Nodes ι} (h : row.OnlyElements) (i : ι) :
    (row.bindLeaves resolve).find? i = (row.find? i).map fun node ↦
      (node.1, if 0 < node.2.elementCount then node.2.bindLeaves resolve
        else node.2.bindLeaf resolve) := by
  induction row with
  | nil => rfl
  | text s rest ih => exact ih h
  | comment s rest ih => exact ih h
  | branch j l below rest ihb ihr =>
    rw [bindLeaves, find?, find?]
    split
    · rfl
    · rw [ihr h.2.2]
      split
      · rw [ihb h.2.1]
        cases below.find? i <;> rfl
      · next h₀ =>
        have hbelow := ids_eq_nil_of_elementCount h.2.1 h₀
        have hnil : ∀ t : Nodes ι, t.ids = [] → t.find? i = none := fun t ht ↦
          find?_eq_none (ht ▸ List.not_mem_nil)
        rw [hnil _ hbelow, hnil _ (ids_bindLeaf resolve hbelow), Option.none_or, Option.none_or]

end

/-- No element has a loop, and in an element without elements in it every brace is a part of a
placeholder. -/
def Bindable : Nodes ι → Prop
  | nil => True
  | text _ rest | comment _ rest => rest.Bindable
  | branch _ l below rest => (∀ a ∈ l.attributes, a.name ≠ loopAttribute) ∧
    (¬ 0 < below.elementCount → Tidy below.textContent) ∧ below.Bindable ∧ rest.Bindable

section

variable {row : Nodes ι}

theorem bindable_of_ids_eq_nil (h : row.ids = []) : row.Bindable := by
  induction row with
  | nil => trivial
  | text s rest ih => exact ih h
  | comment s rest ih => exact ih h
  | branch => cases h

theorem bindable_of_forall (h : ∀ i l below, (i, l, below) ∈ row.subtrees →
    (∀ a ∈ l.attributes, a.name ≠ loopAttribute) ∧
      (¬ 0 < below.elementCount → Tidy below.textContent)) : row.Bindable := by
  induction row with
  | nil => trivial
  | text s rest ih => exact ih h
  | comment s rest ih => exact ih h
  | branch j l below rest ihb ihr =>
    obtain ⟨hloop, htidy⟩ := h j l below List.mem_cons_self
    refine ⟨hloop, htidy, ihb fun i li bi hi ↦ h i li bi ?_, ihr fun i li bi hi ↦ h i li bi ?_⟩
    · exact List.mem_cons_of_mem _ (List.mem_append_left _ hi)
    · exact List.mem_cons_of_mem _ (List.mem_append_right _ hi)

variable {first second : String → Option String}

theorem Bindable.bindLeaves
    (hfirst : ∀ name value, first name = some value → Braceless value.toList)
    (ho : row.OnlyElements) (h : row.Bindable) : (row.bindLeaves first).Bindable := by
  induction row with
  | nil => trivial
  | text s rest ih => exact ih ho h
  | comment s rest ih => exact ih ho h
  | branch i l below rest ihb ihr =>
    obtain ⟨hloop, htidy, hbelow, hrest⟩ := h
    refine ⟨hloop, fun h₀ ↦ ?_, ?_, ihr ho.2.2 hrest⟩
    · split at h₀
      · next hpos => exact absurd (elementCount_bindLeaves first below ▸ hpos) h₀
      · next hzero =>
        rw [if_neg hzero, textContent_bindLeaf]
        exact tidy_fillText hfirst (htidy hzero)
    · split
      · exact ihb ho.2.1 hbelow
      · next hzero =>
        exact bindable_of_ids_eq_nil
          (ids_bindLeaf first (ids_eq_nil_of_elementCount ho.2.1 hzero))

theorem bindLeaf_bindLeaf
    (hfirst : ∀ name value, first name = some value → Braceless value.toList) {below : Nodes ι}
    (h : Tidy below.textContent) : (below.bindLeaf first).bindLeaf second =
      below.bindLeaf fun name ↦ (first name).or (second name) := by
  have hfill : fillText second (fillText first below.textContent) = _ := fillText_fillText hfirst h
  rw [bindLeaf, textContent_bindLeaf, hfill]
  cases hps : (pieces below.textContent.toList).any (Piece.resolves first) with
  | false =>
    have hnone : ∀ p ∈ pieces below.textContent.toList, p.resolves first = false := by
      simpa only [List.any_eq_false, Bool.not_eq_true] using hps
    have hsame : (pieces (fillText first below.textContent).toList).any (Piece.resolves second) =
        (pieces below.textContent.toList).any
          (Piece.resolves fun name ↦ (first name).or (second name)) := by
      rw [any_resolves_fillText hfirst h, Bool.eq_iff_iff, List.any_eq_true, List.any_eq_true]
      refine exists_congr fun p ↦ and_congr_right fun hp ↦ ?_
      rw [hnone p hp, Bool.not_false, Bool.true_and]
    rw [hsame, bindLeaf, hps, if_neg Bool.false_ne_true, bindLeaf]
  | true =>
    have hboth : (pieces below.textContent.toList).any
        (Piece.resolves fun name ↦ (first name).or (second name)) = true := by
      obtain ⟨p, hp, hr⟩ := List.any_eq_true.1 hps
      refine List.any_eq_true.2 ⟨p, hp, ?_⟩
      cases p with
      | literal cs => cases hr
      | token raw name =>
        obtain ⟨value, hvalue⟩ := Option.isSome_iff_exists.1 hr
        rw [Piece.resolves, hvalue]
        rfl
    have hright : (below.bindLeaf fun name ↦ (first name).or (second name)) =
        .ofText (fillText (fun name ↦ (first name).or (second name)) below.textContent) := by
      rw [bindLeaf, if_pos hboth]
    rw [hright]
    split
    · rfl
    · next h₂ =>
      have hsame := fillText_of_unresolved (Bool.eq_false_iff.2 h₂)
      rw [bindLeaf, if_pos hps, ← hfill, hsame]

/-- The values of the first round come first. -/
theorem bindLeaves_bindLeaves
    (hfirst : ∀ name value, first name = some value → Braceless value.toList)
    (h : row.Bindable) : (row.bindLeaves first).bindLeaves second =
      row.bindLeaves fun name ↦ (first name).or (second name) := by
  induction row with
  | nil => rfl
  | text s rest ih => exact congrArg (text s) (ih h)
  | comment s rest ih => exact congrArg (comment s) (ih h)
  | branch i l below rest ihb ihr =>
    obtain ⟨-, htidy, hbelow, hrest⟩ := h
    simp only [Nodes.bindLeaves, ihr hrest]
    congr 1
    by_cases hpos : 0 < below.elementCount
    · rw [if_pos hpos, if_pos hpos, elementCount_bindLeaves, if_pos hpos, ihb hbelow]
    · rw [if_neg hpos, if_neg hpos, if_neg (elementCount_bindLeaf first hpos),
        bindLeaf_bindLeaf hfirst (htidy hpos)]

end

end Markup.Nodes

namespace Template

variable {ι : Type} (data : Data) {row : Nodes ι}

theorem attempts_eq_nil {l : Label} (h : ∀ a ∈ l.attributes, a.name ≠ loopAttribute)
    (below : Nodes ι) : attempts data l below = [] := by
  refine List.filterMap_eq_nil_iff.2 fun a ha ↦ ?_
  rw [attempt, Directive.parse?, if_neg (h a ha)]
  rfl

theorem standIns?_eq_none {l : Label} (h : ∀ a ∈ l.attributes, a.name ≠ loopAttribute)
    (below : Nodes ι) : standIns? data l below = none := by
  rw [standIns?, attempts_eq_nil data h]
  rfl

theorem transform_of_bindable (h : row.Bindable) :
    transform data row = (row.bindLeaves (display? data)).map some := by
  induction row with
  | nil => rfl
  | text s rest ih => exact congrArg (Nodes.text s) (ih h)
  | comment s rest ih => exact congrArg (Nodes.comment s) (ih h)
  | branch i l below rest ihb ihr =>
    obtain ⟨hloop, -, hbelow, hrest⟩ := h
    simp only [transform, standIns?_eq_none data hloop, ihr hrest, Nodes.bindLeaves, Nodes.map,
      Nodes.branch_append, Nodes.nil_append]
    congr 1
    split
    · rw [ihb hbelow]
    · rfl

end Template

end LivePage
