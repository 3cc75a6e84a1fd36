import LivePage.Proofs.Template.Replacing
import LivePage.Template.Expansion

namespace LivePage

namespace Template

open Markup Text

def Unescaped (c : Char) : Prop :=
  c ≠ '&' ∧ c ≠ '<' ∧ c ≠ '>'

instance (c : Char) : Decidable (Unescaped c) :=
  inferInstanceAs (Decidable (c ≠ '&' ∧ c ≠ '<' ∧ c ≠ '>'))

theorem not_unescaped_iff {c : Char} : ¬Unescaped c ↔ c = '&' ∨ c = '<' ∨ c = '>' := by
  unfold Unescaped
  tauto

theorem escapeTextChar_of_unescaped {c : Char} (h : Unescaped c) : escapeTextChar c = [c] := by
  obtain ⟨hamp, hlt, hgt⟩ := h
  rw [escapeTextChar, if_neg hamp, if_neg hlt, if_neg hgt]

theorem escapeTextChar_of_not_unescaped {c : Char} (h : ¬Unescaped c) :
    ∃ ds, escapeTextChar c = '&' :: ds ∧ '\x7b' ∉ escapeTextChar c := by
  rcases not_unescaped_iff.1 h with rfl | rfl | rfl
  · exact ⟨['a', 'm', 'p', ';'], rfl, by decide⟩
  · exact ⟨['l', 't', ';'], rfl, by decide⟩
  · exact ⟨['g', 't', ';'], rfl, by decide⟩

theorem angle_notMem_escapeTextChar (c : Char) :
    '<' ∉ escapeTextChar c ∧ '>' ∉ escapeTextChar c := by
  by_cases hc : Unescaped c
  · rw [escapeTextChar_of_unescaped hc, List.mem_singleton, List.mem_singleton]
    exact ⟨Ne.symm hc.2.1, Ne.symm hc.2.2⟩
  · rcases not_unescaped_iff.1 hc with rfl | rfl | rfl <;> decide

theorem IsToken.unescaped {raw name : List Char} (h : IsToken raw name) :
    ∀ c ∈ raw, Unescaped c := by
  obtain ⟨-, hname, front, back, hfront, hback, rfl⟩ := h
  have hside : ∀ side, AtMostOneBlank side → ∀ c ∈ side, Unescaped c := by
    rintro side (rfl | ⟨b, hb, rfl⟩) c hc
    · cases hc
    · rw [List.mem_singleton.1 hc]
      refine ⟨?_, ?_, ?_⟩ <;> rintro rfl <;> exact absurd hb (by decide)
  have hmiddle : ∀ c ∈ name, Unescaped c := by
    intro c hc
    refine ⟨?_, ?_, ?_⟩ <;> rintro rfl <;> exact absurd (hname _ hc) (by decide)
  intro c hc
  simp only [List.mem_cons, List.mem_append, List.not_mem_nil, or_false] at hc
  rcases hc with rfl | rfl | hc | hc | hc | rfl | rfl
  · decide
  · decide
  · exact hside front hfront c hc
  · exact hmiddle c hc
  · exact hside back hback c hc
  · decide
  · decide

theorem flatMap_escape_of_unescaped {cs : List Char} (h : ∀ c ∈ cs, Unescaped c) :
    cs.flatMap escapeTextChar = cs := by
  induction cs with
  | nil => rfl
  | cons c cs ih =>
    obtain ⟨hc, hcs⟩ := List.forall_mem_cons.1 h
    rw [List.flatMap_cons, escapeTextChar_of_unescaped hc, ih hcs, List.singleton_append]

/-- What an escaped text starts with, if nothing in it is escaped, the text starts with. -/
theorem exists_of_flatMap_escape {cs raw after : List Char} (h : ∀ c ∈ raw, Unescaped c)
    (heq : cs.flatMap escapeTextChar = raw ++ after) : ∃ rest, cs = raw ++ rest := by
  induction raw generalizing cs with
  | nil => exact ⟨cs, rfl⟩
  | cons c raw ih =>
    obtain ⟨hc, hraw⟩ := List.forall_mem_cons.1 h
    cases cs with
    | nil => cases heq
    | cons d cs =>
      rw [List.flatMap_cons] at heq
      by_cases hd : Unescaped d
      · rw [escapeTextChar_of_unescaped hd] at heq
        obtain ⟨rfl, htail⟩ := List.cons.inj heq
        obtain ⟨rest, rfl⟩ := ih hraw htail
        exact ⟨rest, rfl⟩
      · obtain ⟨ds, hescape, -⟩ := escapeTextChar_of_not_unescaped hd
        rw [hescape] at heq
        exact absurd (List.cons.inj heq).1.symm hc.1

theorem takePlaceholder?_escape {cs : List Char} (h : takePlaceholder? cs = none) :
    takePlaceholder? (cs.flatMap escapeTextChar) = none := by
  by_contra hsome
  obtain ⟨⟨name, after⟩, hfound⟩ := Option.ne_none_iff_exists'.1 hsome
  obtain ⟨raw, htoken, heq⟩ := isToken_of_takePlaceholder? hfound
  obtain ⟨rest, rfl⟩ := exists_of_flatMap_escape htoken.unescaped heq
  rw [takePlaceholder?_append htoken] at h
  cases h

theorem any_isToken_append {ds : List Char} (h : '\x7b' ∉ ds) (cs : List Char) :
    (pieces (ds ++ cs)).any Piece.isToken = (pieces cs).any Piece.isToken := by
  induction ds with
  | nil => rfl
  | cons d ds ih =>
    rw [List.mem_cons, not_or] at h
    rw [List.cons_append, pieces_cons (Ne.symm h.1), any_isToken_consLiteral, ih h.2]

theorem any_isToken_escape (cs : List Char) :
    (pieces (cs.flatMap escapeTextChar)).any Piece.isToken = (pieces cs).any Piece.isToken := by
  fun_induction pieces cs with
  | case1 cs name rest htake _ ih =>
    obtain ⟨raw, htoken, rfl⟩ := isToken_of_takePlaceholder? htake
    rw [List.flatMap_append, flatMap_escape_of_unescaped htoken.unescaped,
      pieces_append_of_isToken htoken]
    rfl
  | case2 => rw [List.flatMap_nil, pieces_nil]
  | case3 c rest htake ih =>
    rw [any_isToken_consLiteral, ← ih]
    by_cases hc : Unescaped c
    · have hnone := takePlaceholder?_escape htake
      rw [List.flatMap_cons, escapeTextChar_of_unescaped hc, List.singleton_append] at hnone ⊢
      rw [pieces_cons_of_none hnone, any_isToken_consLiteral]
    · obtain ⟨-, -, hopen⟩ := escapeTextChar_of_not_unescaped hc
      rw [List.flatMap_cons, any_isToken_append hopen]

theorem hasPlaceholder_escapeText (text : String) :
    hasPlaceholder (escapeText text) = hasPlaceholder text := by
  rw [hasPlaceholder, escapeText, String.toList_ofList]
  exact any_isToken_escape text.toList

theorem escapeText_append (s t : String) : escapeText (s ++ t) = escapeText s ++ escapeText t := by
  rw [escapeText, String.toList_append, List.flatMap_append, String.ofList_append, escapeText,
    escapeText]

def written (tag text : String) : String :=
  if rawTags.contains (lower tag) then text else escapeText text

def Cut.written (tag : String) (c : Cut) : Cut :=
  { c with behind := Template.written tag c.behind }

section

variable (tag : String)

theorem inner_ofTag (template : String) :
    Nodes.inner (.ofTag tag) (.text template .nil : Nodes Unit) = written tag template :=
  String.append_empty

theorem inner_ofText (template : String) :
    Nodes.inner (.ofTag tag) (.ofText template : Nodes Unit) = written tag template := by
  rw [Nodes.ofText]
  split
  · next hempty =>
    rw [hempty, written]
    split <;> rfl
  · exact inner_ofTag tag template

theorem hasPlaceholder_written (text : String) :
    hasPlaceholder (written tag text) = hasPlaceholder text := by
  unfold written
  split
  · rfl
  · exact hasPlaceholder_escapeText text

theorem Bare.write {text : String} (h : Bare text) : Bare (written tag text) := by
  rw [bare_iff_hasPlaceholder, hasPlaceholder_written]
  exact bare_iff_hasPlaceholder.1 h

theorem written_append (s t : String) : written tag (s ++ t) = written tag s ++ written tag t := by
  unfold written
  split
  · rfl
  · exact escapeText_append s t

theorem written_of_isToken {raw : String} {name : List Char} (h : IsToken raw.toList name) :
    written tag raw = raw := by
  unfold written
  split
  · rfl
  · rw [escapeText, flatMap_escape_of_unescaped h.unescaped, String.ofList_toList]

theorem angle_notMem_written (h : rawTags.contains (lower tag) = false) (text : String) :
    '<' ∉ (written tag text).toList ∧ '>' ∉ (written tag text).toList := by
  rw [written, h, if_neg Bool.false_ne_true, escapeText, String.toList_ofList]
  simp only [List.mem_flatMap, not_exists, not_and]
  exact ⟨fun c _ ↦ (angle_notMem_escapeTextChar c).1, fun c _ ↦ (angle_notMem_escapeTextChar c).2⟩

theorem written_join_cuts {cuts : List Cut}
    (h : ∀ c ∈ cuts, IsToken c.raw.toList c.name.toList) :
    written tag (String.join (cuts.map Cut.text)) =
      String.join ((cuts.map (Cut.written tag)).map Cut.text) := by
  induction cuts with
  | nil =>
    unfold written
    split <;> rfl
  | cons c cuts ih =>
    obtain ⟨hc, hcuts⟩ := List.forall_mem_cons.1 h
    simp only [List.map_cons, String.join_cons, written_append, ih hcuts, Cut.text,
      written_of_isToken tag hc, Cut.written]

theorem Decomposes.write {text front : String} {cuts : List Cut}
    (h : Decomposes text front cuts) :
    Decomposes (written tag text) (written tag front) (cuts.map (Cut.written tag)) where
  text_eq := by rw [h.text_eq, written_append, written_join_cuts tag h.tokens]
  tokens := List.forall_mem_map.2 h.tokens
  front_bare := h.front_bare.write tag
  behind_bare := List.forall_mem_map.2 fun c hc ↦ (h.behind_bare c hc).write tag

end

def answerFor (item value : String) : String → Option String :=
  fun name ↦ if name = item then some value else none

/-- The markup of a template with a value in place of the placeholders of an item. -/
def itemMarkup (tag item value front : String) (cuts : List Cut) : String :=
  written tag front ++ String.join (cuts.map fun c ↦
    (if c.name = item then value else c.raw) ++ written tag c.behind)

theorem any_answerFor (item value : String) (cuts : List Cut) :
    (cuts.map fun c ↦ answerFor item value c.name).any Option.isSome = true ↔
      item ∈ cuts.map Cut.name := by
  simp only [List.any_map, List.any_eq_true, List.mem_map, Function.comp_apply, answerFor]
  constructor
  · rintro ⟨c, hc, hsome⟩
    refine ⟨c, hc, ?_⟩
    by_contra hne
    rw [if_neg hne] at hsome
    cases hsome
  · rintro ⟨c, hc, rfl⟩
    refine ⟨c, hc, ?_⟩
    rw [if_pos rfl, Option.isSome_some]

theorem replacement_written (tag item value front : String) (cuts : List Cut) :
    replacement (written tag front) (cuts.map (Cut.written tag))
        ((cuts.map (Cut.written tag)).map fun c ↦ answerFor item value c.name) =
      if item ∈ cuts.map Cut.name then some (itemMarkup tag item value front cuts) else none := by
  have hnames : (cuts.map (Cut.written tag)).map (fun c ↦ answerFor item value c.name) =
      cuts.map fun c ↦ answerFor item value c.name := List.map_map
  have hjoin : List.zipWith Cut.answered (cuts.map (Cut.written tag))
      (cuts.map fun c ↦ answerFor item value c.name) =
        cuts.map fun c ↦ (if c.name = item then value else c.raw) ++ written tag c.behind := by
    rw [List.zipWith_map, List.zipWith_self]
    refine List.map_congr_left fun c _ ↦ ?_
    rw [Cut.answered, answerFor]
    split <;> rfl
  rw [hnames, replacement, hjoin, itemMarkup]
  simp only [any_answerFor]

section

variable {tag template front : String} {cuts : List Cut} (h : Decomposes template front cuts)

include h

theorem Decomposes.replace?_markup (item value : String) :
    replace? (answerFor item value) (written tag template) =
      if item ∈ namesIn template then some (itemMarkup tag item value front cuts) else none := by
  rw [(h.write tag).replace?_eq, replacement_written, h.namesIn_eq]

theorem Decomposes.content_eq (l : Loop) (value : Value) :
    l.content tag template value =
      if l.item ∈ namesIn template then
        readFragment tag (itemMarkup tag l.item value.display front cuts)
      else .ofText template := by
  have hfill : (fun name ↦ if name = l.item then some value.display else none) =
      answerFor l.item value.display := rfl
  rw [Loop.content]
  simp only [hfill, inner_ofText, h.replace?_markup]
  by_cases hitem : l.item ∈ namesIn template
  · simp only [if_pos hitem]
  · simp only [if_neg hitem]

end

/-- A template has the same placeholders before and after it is written. A value that is put in for
an item takes the place of those with its name, and the rest stays as it is written; unless that is
raw text, all angle brackets of the markup for an item are from its value. -/
theorem markup_keeps_placeholders (tag template : String) :
    (find (Nodes.inner (.ofTag tag) (.text template .nil : Nodes Unit))).map Placeholder.raw =
        (find template).map Placeholder.raw ∧
      hasPlaceholder (Nodes.inner (.ofTag tag) (.text template .nil : Nodes Unit)) =
        hasPlaceholder template ∧
      (∃ front cuts, Decomposes template front cuts) ∧
      ∀ front cuts, Decomposes template front cuts →
        (∀ item value : String,
          replace? (fun name ↦ if name = item then some value else none)
              (Nodes.inner (.ofTag tag) (.text template .nil : Nodes Unit)) =
            if item ∈ namesIn template then some (itemMarkup tag item value front cuts)
            else none) ∧
        (∀ (l : Loop) (value : Value), l.content tag template value =
          if l.item ∈ namesIn template then
            readFragment tag (itemMarkup tag l.item value.display front cuts)
          else .ofText template) ∧
        (rawTags.contains (lower tag) = false → ∀ angle ∈ ['<', '>'],
          angle ∉ (written tag front).toList ∧
          ∀ c ∈ cuts, angle ∉ c.raw.toList ∧ angle ∉ (written tag c.behind).toList) := by
  rw [inner_ofTag]
  refine ⟨?_, hasPlaceholder_written tag template, exists_decomposes template, ?_⟩
  · obtain ⟨front, cuts, h⟩ := exists_decomposes template
    rw [(h.write tag).find_eq, h.find_eq, map_raw_placed, map_raw_placed, List.map_map]
    rfl
  · intro front cuts h
    refine ⟨h.replace?_markup, h.content_eq, ?_⟩
    intro hraw angle hangle
    have hwritten : ∀ text, angle ∉ (written tag text).toList := by
      intro text
      obtain ⟨hlt, hgt⟩ := angle_notMem_written tag hraw text
      rcases List.mem_pair.1 hangle with rfl | rfl
      · exact hlt
      · exact hgt
    refine ⟨hwritten front, ?_⟩
    intro c hc
    refine ⟨?_, hwritten c.behind⟩
    rw [← written_of_isToken tag (h.tokens c hc)]
    exact hwritten c.raw

def angledTemplate : String :=
  "a<b&\x7b\x7bx\x7d\x7d>\x7b\x7b y \x7d\x7d"

theorem markup_keeps_placeholders_angles :
    replace? (fun name ↦ if name = "x" then some "<i>" else none)
          (Nodes.inner (.ofTag "DIV") (.text angledTemplate .nil : Nodes Unit)) =
        some "a&lt;b&amp;<i>&gt;\x7b\x7b y \x7d\x7d" ∧
      replace? (fun name ↦ if name = "x" then some "<i>" else none)
          (Nodes.inner (.ofTag "Script") (.text angledTemplate .nil : Nodes Unit)) =
        some "a<b&<i>>\x7b\x7b y \x7d\x7d" := by
  have hcuts : Decomposes angledTemplate "a<b&"
      [⟨"\x7b\x7bx\x7d\x7d", "x", ">"⟩, ⟨"\x7b\x7b y \x7d\x7d", "y", ""⟩] := by
    decide +kernel
  constructor
  · obtain ⟨-, -, -, h⟩ := markup_keeps_placeholders "DIV" angledTemplate
    rw [(h _ _ hcuts).1 "x" "<i>"]
    decide +kernel
  · obtain ⟨-, -, -, h⟩ := markup_keeps_placeholders "Script" angledTemplate
    rw [(h _ _ hcuts).1 "x" "<i>"]
    decide +kernel

end Template

end LivePage
