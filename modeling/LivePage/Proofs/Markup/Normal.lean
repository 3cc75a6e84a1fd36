import LivePage.Proofs.Markup.Escaping
import LivePage.Proofs.Markup.Row

namespace LivePage.Markup

namespace Nodes

variable {ι : Type}

/-- Puts a text in front of a row: it joins a text that stands there, and is left out if it is
empty. -/
def consText (s : String) : Nodes ι → Nodes ι
  | text t rest => text (s ++ t) rest
  | r => if s = "" then r else text s r

/-- The row with neighbouring texts as one and without empty ones, at every depth. -/
def normal : Nodes ι → Nodes ι
  | nil => nil
  | text s rest => rest.normal.consText s
  | comment s rest => comment s rest.normal
  | branch i l below rest => branch i l below.normal rest.normal

def Bare : Nodes ι → Prop
  | text _ _ => False
  | _ => True

theorem consText_of_bare {r : Nodes ι} (h : r.Bare) (s : String) :
    r.consText s = if s = "" then r else text s r := by
  cases r with
  | text t rest => exact h.elim
  | nil | comment _ _ | branch _ _ _ _ => rfl

theorem bare_or (r : Nodes ι) : r.Bare ∨ ∃ t rest, r = text t rest := by
  cases r with
  | text t rest => exact .inr ⟨t, rest, rfl⟩
  | nil | comment _ _ | branch _ _ _ _ => exact .inl trivial

@[simp] theorem consText_empty (r : Nodes ι) : r.consText "" = r := by
  rcases r.bare_or with h | ⟨t, rest, rfl⟩
  · rw [consText_of_bare h, if_pos rfl]
  · rw [consText, String.empty_append]

theorem consText_consText (r : Nodes ι) (s t : String) :
    (r.consText t).consText s = r.consText (s ++ t) := by
  rcases r.bare_or with h | ⟨u, rest, rfl⟩
  · by_cases ht : t = ""
    · rw [ht, consText_empty, String.append_empty]
    · have hst : s ++ t ≠ "" := fun hst ↦ ht (String.append_eq_empty_iff.1 hst).2
      rw [consText_of_bare h, if_neg ht, consText, consText_of_bare h, if_neg hst]
  · rw [consText, consText, consText, String.append_assoc]

theorem normal_consText_append (r b : Nodes ι) (s : String) :
    (r.consText s ++ b).normal = (r ++ b).normal.consText s := by
  rcases r.bare_or with h | ⟨t, rest, rfl⟩
  · rw [consText_of_bare h]
    by_cases hs : s = ""
    · rw [if_pos hs, hs, consText_empty]
    · rw [if_neg hs, text_append, normal]
  · rw [consText, text_append, text_append, normal, normal, consText_consText]

theorem normal_append_left (a b : Nodes ι) : (a.normal ++ b).normal = (a ++ b).normal := by
  induction a generalizing b with
  | nil => rfl
  | text s rest ih => rw [normal, normal_consText_append, ih, text_append, normal]
  | comment s rest ih => rw [normal, comment_append, comment_append, normal, normal, ih]
  | branch i l below rest ihb ih =>
    have hbelow := ihb nil
    rw [append_nil, append_nil] at hbelow
    rw [normal, branch_append, branch_append, normal, normal, ih, hbelow]

theorem normal_append_congr_left {a a' : Nodes ι} (h : a.normal = a'.normal) (b : Nodes ι) :
    (a ++ b).normal = (a' ++ b).normal := by
  rw [← normal_append_left, h, normal_append_left]

theorem normal_append_congr (a : Nodes ι) {b c : Nodes ι} (h : b.normal = c.normal) :
    (a ++ b).normal = (a ++ c).normal := by
  induction a with
  | nil => exact h
  | text s rest ih => rw [text_append, text_append, normal, normal, ih]
  | comment s rest ih => rw [comment_append, comment_append, normal, normal, ih]
  | branch i l below rest _ ih => rw [branch_append, branch_append, normal, normal, ih]

theorem normal_normal (r : Nodes ι) : r.normal.normal = r.normal := by
  have h := normal_append_left r nil
  rwa [append_nil, append_nil] at h

theorem normal_appendText (s : String) (r : Nodes ι) :
    (r.appendText s).normal = (r ++ text s nil).normal := by
  fun_induction appendText s r with
  | case1 => rfl
  | case2 t =>
    rw [text_append, normal, normal, nil_append, normal, normal, normal, consText_consText]
  | case3 t rest _ ih => rw [normal, ih, text_append, normal]
  | case4 t rest ih => rw [normal, ih, comment_append, normal]
  | case5 i l below rest ih => rw [normal, ih, branch_append, normal]

theorem ids_appendText (s : String) (r : Nodes ι) : (r.appendText s).ids = r.ids := by
  fun_induction appendText s r with
  | case1 | case2 => rfl
  | case3 t rest _ ih | case4 t rest ih => exact ih
  | case5 i l below rest ih => rw [ids, ih, ids]

theorem plain_appendText (s : String) (r : Nodes ι) :
    (r.appendText s).plain = r.plain.appendText s := by
  fun_induction appendText s r with
  | case1 => rfl
  | case2 t => rfl
  | case3 t rest hrest ih =>
    rw [plain, ih, plain, appendText]
    intro hnil
    cases rest with
    | nil => exact hrest rfl
    | text _ _ | comment _ _ | branch _ _ _ _ => cases hnil
  | case4 t rest ih => rw [plain, ih, plain, appendText]
  | case5 i l below rest ih => rw [plain, ih, plain, appendText]

theorem map_consText {κ : Type} (g : ι → κ) (r : Nodes ι) (s : String) :
    (r.consText s).map g = (r.map g).consText s := by
  rcases r.bare_or with h | ⟨t, rest, rfl⟩
  · have hmap : (r.map g).Bare := by
      cases r with
      | text t rest => exact h.elim
      | nil | comment _ _ | branch _ _ _ _ => trivial
    rw [consText_of_bare h, consText_of_bare hmap]
    split <;> rfl
  · rfl

theorem normal_map {κ : Type} (g : ι → κ) (r : Nodes ι) : (r.map g).normal = r.normal.map g := by
  induction r with
  | nil => rfl
  | text s rest ih => rw [map, normal, ih, normal, map_consText]
  | comment s rest ih => exact congrArg (comment s) ih
  | branch i l below rest ihb ihr => rw [map, normal, ihb, ihr, normal, map]

theorem textContent_consText (r : Nodes ι) (s : String) :
    (r.consText s).textContent = s ++ r.textContent := by
  rcases r.bare_or with h | ⟨t, rest, rfl⟩
  · rw [consText_of_bare h]
    split
    · next hs => rw [hs, String.empty_append]
    · rfl
  · exact String.append_assoc

@[simp] theorem textContent_normal (r : Nodes ι) : r.normal.textContent = r.textContent := by
  induction r with
  | nil => rfl
  | text s rest ih => rw [normal, textContent_consText, ih, textContent]
  | comment s rest ih => exact ih
  | branch i l below rest ihb ihr => rw [normal, textContent, ihb, ihr, textContent]

theorem elementCount_consText (r : Nodes ι) (s : String) :
    (r.consText s).elementCount = r.elementCount := by
  rcases r.bare_or with h | ⟨t, rest, rfl⟩
  · rw [consText_of_bare h]
    split <;> rfl
  · rfl

@[simp] theorem elementCount_normal (r : Nodes ι) : r.normal.elementCount = r.elementCount := by
  induction r with
  | nil => rfl
  | text s rest ih => rw [normal, elementCount_consText, ih, elementCount]
  | comment s rest ih => exact ih
  | branch i l below rest _ ihr => rw [normal, elementCount, ihr, elementCount]

theorem writeWith_consText (raw : Bool) (r : Nodes ι) (s : String) :
    (r.consText s).writeWith raw = (text s r).writeWith raw := by
  rcases r.bare_or with h | ⟨t, rest, rfl⟩
  · rw [consText_of_bare h]
    split
    · next hs =>
      have hempty : (if raw then s else escapeText s) = "" := by
        rw [hs]
        cases raw <;> rfl
      rw [writeWith, hempty, String.empty_append]
    · rfl
  · have happend : (if raw then s ++ t else escapeText (s ++ t)) =
        (if raw then s else escapeText s) ++ (if raw then t else escapeText t) := by
      cases raw with
      | true => rfl
      | false => exact String.ext (by simp [escapeText])
    rw [consText, writeWith, happend, writeWith, writeWith, String.append_assoc]

/-- How texts are cut does not show in the markup. -/
theorem writeWith_normal (raw : Bool) (r : Nodes ι) : r.normal.writeWith raw = r.writeWith raw := by
  induction r generalizing raw with
  | nil => rfl
  | text s rest ih => rw [normal, writeWith_consText, writeWith, ih, writeWith]
  | comment s rest ih => rw [normal, writeWith, ih, writeWith]
  | branch i l below rest ihb ihr =>
    cases l with
    | document => rw [normal, writeWith, ihb, ihr, writeWith]
    | element tag attributes => rw [normal, writeWith, ihb, ihr, writeWith]

def Merged : Nodes ι → Prop
  | nil => True
  | text s rest => s ≠ "" ∧ rest.Bare ∧ rest.Merged
  | comment _ rest => rest.Merged
  | branch _ _ below rest => below.Merged ∧ rest.Merged

theorem normal_of_merged {r : Nodes ι} (h : r.Merged) : r.normal = r := by
  induction r with
  | nil => rfl
  | text s rest ih => rw [normal, ih h.2.2, consText_of_bare h.2.1, if_neg h.1]
  | comment s rest ih => rw [normal, ih h]
  | branch i l below rest ihb ihr => rw [normal, ihb h.1, ihr h.2]

theorem merged_consText {r : Nodes ι} (h : r.Merged) (s : String) : (r.consText s).Merged := by
  rcases r.bare_or with hbare | ⟨t, rest, rfl⟩
  · rw [consText_of_bare hbare]
    split
    · exact h
    · next hs => exact ⟨hs, hbare, h⟩
  · exact ⟨fun hst ↦ h.1 (String.append_eq_empty_iff.1 hst).2, h.2⟩

theorem merged_normal (r : Nodes ι) : r.normal.Merged := by
  induction r with
  | nil => trivial
  | text s rest ih => exact merged_consText ih s
  | comment s rest ih => exact ih
  | branch i l below rest ihb ihr => exact ⟨ihb, ihr⟩

theorem merged_appendText {s : String} (hs : s ≠ "") {r : Nodes ι} (h : r.Merged) :
    (r.appendText s).Merged := by
  fun_induction appendText s r with
  | case1 => exact ⟨hs, trivial, trivial⟩
  | case2 t => exact ⟨fun ht ↦ h.1 (String.append_eq_empty_iff.1 ht).1, trivial, trivial⟩
  | case3 t rest hrest ih =>
    refine ⟨h.1, ?_, ih h.2.2⟩
    have hbare := h.2.1
    cases rest with
    | nil => exact absurd rfl hrest
    | text _ _ => exact hbare.elim
    | comment _ _ | branch _ _ _ _ => trivial
  | case4 t rest ih => exact ih h
  | case5 i l below rest ih => exact ⟨h.1, ih h.2⟩

theorem merged_append_branch {i : ι} {l : Label} {below r : Nodes ι} (h : r.Merged)
    (hbelow : below.Merged) : (r ++ branch i l below nil).Merged := by
  induction r with
  | nil => exact ⟨hbelow, trivial⟩
  | text s rest ih =>
    refine ⟨h.1, ?_, ih h.2.2⟩
    have hbare := h.2.1
    cases rest with
    | text _ _ => exact hbare.elim
    | nil | comment _ _ | branch _ _ _ _ => trivial
  | comment s rest ih => exact ih h
  | branch j lj b rest _ ih => exact ⟨h.1, ih h.2⟩

end Nodes

def Label.Plain : Label → Prop
  | .document => False
  | .element tag attributes =>
    tag ∈ plainTags ∧ (attributes.map (·.name)).Nodup ∧ ∀ a ∈ attributes, a.Plain

instance : (l : Label) → Decidable l.Plain
  | .document => .isFalse id
  | .element tag attributes => inferInstanceAs (Decidable
      (tag ∈ plainTags ∧ (attributes.map (·.name)).Nodup ∧ ∀ a ∈ attributes, a.Plain))

namespace Nodes

variable {ι : Type}

def Simple : Nodes ι → Prop
  | nil => True
  | text s rest => Clean s ∧ rest.Simple
  | comment _ _ => False
  | branch _ l below rest => l.Plain ∧ below.Simple ∧ rest.Simple

def decideSimple : (r : Nodes ι) → Decidable r.Simple
  | nil => .isTrue trivial
  | text s rest =>
    let _ := decideSimple rest
    inferInstanceAs (Decidable (Clean s ∧ rest.Simple))
  | comment _ _ => .isFalse id
  | branch _ l below rest =>
    let _ := decideSimple below
    let _ := decideSimple rest
    inferInstanceAs (Decidable (l.Plain ∧ below.Simple ∧ rest.Simple))

instance (r : Nodes ι) : Decidable r.Simple := decideSimple r

@[simp] theorem simple_plain (r : Nodes ι) : r.plain.Simple ↔ r.Simple := by
  induction r with
  | nil => rfl
  | text s rest ih => simp only [plain, Simple, ih]
  | comment s rest _ => rfl
  | branch i l below rest ihb ihr => simp only [plain, Simple, ihb, ihr]

theorem simple_consText {r : Nodes ι} (h : r.Simple) {s : String} (hs : Clean s) :
    (r.consText s).Simple := by
  rcases r.bare_or with hbare | ⟨t, rest, rfl⟩
  · rw [consText_of_bare hbare]
    split
    · exact h
    · exact ⟨hs, h⟩
  · exact ⟨clean_append hs h.1, h.2⟩

theorem simple_normal {r : Nodes ι} (h : r.Simple) : r.normal.Simple := by
  induction r with
  | nil => trivial
  | text s rest ih => exact simple_consText (ih h.2) h.1
  | comment s rest _ => exact h.elim
  | branch i l below rest ihb ihr => exact ⟨h.1, ihb h.2.1, ihr h.2.2⟩

theorem copied_plain (r : Nodes ι) : r.plain.copied = r.copied := by
  induction r with
  | nil => rfl
  | text s rest ih => rw [plain, copied, copied, ih]
  | comment s rest ih => rw [plain, copied, copied, ih]
  | branch i l below rest ihb ihr =>
    cases l with
    | document => rw [plain, copied, copied, ihr]
    | element tag attributes => rw [plain, copied, copied, ihb, ihr]

theorem copied_of_simple {r : Nodes Unit} (h : r.Simple) : r.copied = r := by
  induction r with
  | nil => rfl
  | text s rest ih => rw [copied, ih h.2]
  | comment s rest _ => exact h.elim
  | branch i l below rest ihb ihr =>
    cases l with
    | document => exact h.1.elim
    | element tag attributes =>
      obtain ⟨⟨htag, -, hattributes⟩, hbelow, hrest⟩ := h
      have hmap : attributes.map (fun a ↦ Attribute.ofPair a.name a.value) = attributes := by
        refine (List.map_congr_left fun a ha ↦ ?_).trans (List.map_id _)
        rw [Attribute.ofPair, lower_of_plain (hattributes a ha).name]
        rfl
      rw [copied, ihb hbelow, ihr hrest, hmap, lower_of_plain (isPlainName_of_mem htag)]

theorem toList_writeWith_text (s : String) (rest : Nodes ι) :
    ((text s rest).writeWith false).toList =
      s.toList.flatMap escapeTextChar ++ (rest.writeWith false).toList := by
  simp [writeWith, escapeText]

theorem toList_writeStartTag (tag : String) (attributes : List Attribute) :
    (writeStartTag tag attributes).toList =
      '<' :: (tag.toList ++ (writtenAttributes attributes ++ ['>'])) := by
  have hattributes : (String.join (attributes.map Attribute.write)).toList =
      writtenAttributes attributes := by
    rw [String.toList_join, List.flatMap_map, writtenAttributes]
  simp [writeStartTag, hattributes]

theorem toList_writeWith_void (i : ι) {tag : String} (h : voidTags.contains tag = true)
    (attributes : List Attribute) (below rest : Nodes ι) :
    ((branch i (.element tag attributes) below rest).writeWith false).toList =
      '<' :: (tag.toList ++ (writtenAttributes attributes ++ '>' ::
        (rest.writeWith false).toList)) := by
  rw [writeWith, h]
  simp [toList_writeStartTag]

theorem toList_writeWith_element (i : ι) {tag : String} (hvoid : voidTags.contains tag = false)
    (hraw : rawTags.contains tag = false) (attributes : List Attribute) (below rest : Nodes ι) :
    ((branch i (.element tag attributes) below rest).writeWith false).toList =
      '<' :: (tag.toList ++ (writtenAttributes attributes ++ '>' ::
        ((below.writeWith false).toList ++ '<' :: '/' :: (tag.toList ++ '>' ::
          (rest.writeWith false).toList)))) := by
  rw [writeWith, hvoid, hraw]
  simp [toList_writeStartTag, writeEndTag]

theorem toList_writeWith_branch (i : ι) {tag : String} (h : tag ∈ plainTags)
    (attributes : List Attribute) (below rest : Nodes ι) :
    ((branch i (.element tag attributes) below rest).writeWith false).toList =
      '<' :: (tag.toList ++ (writtenAttributes attributes ++ '>' ::
        ((below.writeWith false).toList ++ '<' :: '/' :: (tag.toList ++ '>' ::
          (rest.writeWith false).toList)))) := by
  have hvoid : voidTags.contains tag = false := by
    revert tag
    decide
  have hraw : rawTags.contains tag = false := by
    revert tag
    decide
  exact toList_writeWith_element i hvoid hraw attributes below rest

end Nodes

end LivePage.Markup
