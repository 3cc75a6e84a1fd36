import LivePage.Proofs.Text.Letters
import LivePage.Text.Blank
import Mathlib.Data.List.TakeWhile

namespace LivePage.Text

theorem isBlank_eq_false_of_isNameChar {c : Char} (h : isNameChar c = true) :
    isBlank c = false := by
  rw [isNameChar_iff] at h
  simp only [isBlank, blankRanges, List.any_cons, List.any_nil, Bool.or_false, Bool.or_eq_false_iff,
    Bool.and_eq_false_iff, decide_eq_false_iff_not, Nat.not_le]
  omega

def IsGap (cs : List Char) : Prop :=
  ∀ c ∈ cs, isBlank c = true

def IsWord (cs : List Char) : Prop :=
  cs ≠ [] ∧ ∀ c ∈ cs, isBlank c = false

theorem isWord_of_nameChars {cs : List Char} (hne : cs ≠ []) (h : ∀ c ∈ cs, isNameChar c = true) :
    IsWord cs :=
  ⟨hne, fun c hc ↦ isBlank_eq_false_of_isNameChar (h c hc)⟩

theorem isWord_of_isName {s : String} (h : isName s = true) : IsWord s.toList :=
  isWord_of_nameChars (isName_iff.1 h).1 (isName_iff.1 h).2

theorem dropWhile_isBlank_append {gap w : List Char} (hgap : IsGap gap) (hw : IsWord w)
    (rest : List Char) : (gap ++ (w ++ rest)).dropWhile isBlank = w ++ rest := by
  obtain ⟨c, w, rfl⟩ := List.exists_cons_of_ne_nil hw.1
  rw [List.dropWhile_append_of_pos hgap, List.cons_append, List.dropWhile_cons_of_neg]
  exact Bool.eq_false_iff.1 (hw.2 c List.mem_cons_self)

theorem trimChars_append {front w back : List Char} (hfront : IsGap front) (hw : IsWord w)
    (hback : IsGap back) : trimChars (front ++ (w ++ back)) = w := by
  have hwr : IsWord w.reverse :=
    ⟨List.reverse_ne_nil_iff.2 hw.1, fun c hc ↦ hw.2 c (List.mem_reverse.1 hc)⟩
  have hbackr : IsGap back.reverse := fun c hc ↦ hback c (List.mem_reverse.1 hc)
  have hend := dropWhile_isBlank_append hbackr hwr []
  rw [List.append_nil] at hend
  rw [trimChars, dropWhile_isBlank_append hfront hw, dropEnd, List.reverse_append, hend,
    List.reverse_reverse]

theorem trim_of_isWord {s : String} (h : IsWord s.toList) : trim s = s := by
  have hgap : IsGap [] := fun c hc ↦ by cases hc
  have htrim := trimChars_append hgap h hgap
  rw [List.nil_append, List.append_nil] at htrim
  rw [trim, htrim, String.ofList_toList]

/-- Words with blanks between any two of them, and with blanks or nothing around. -/
inductive Spaced : List (List Char) → List Char → Prop
  | blank {gap : List Char} (hgap : IsGap gap) : Spaced [] gap
  | word {gap w rest : List Char} {ws : List (List Char)} (hgap : IsGap gap) (hw : IsWord w)
    (hrest : ∀ c ∈ rest.head?, isBlank c = true) (h : Spaced ws rest) :
    Spaced (w :: ws) (gap ++ (w ++ rest))

theorem wordsFrom_gap {gap : List Char} (hgap : IsGap gap) (rest : List Char) :
    wordsFrom [] (gap ++ rest) = wordsFrom [] rest := by
  induction gap with
  | nil => rfl
  | cons c gap ih =>
    obtain ⟨hc, hgap⟩ := List.forall_mem_cons.1 hgap
    rw [List.cons_append, wordsFrom, if_pos hc, if_pos rfl, ih hgap]

theorem wordsFrom_append {w : List Char} (hw : ∀ c ∈ w, isBlank c = false)
    (word rest : List Char) : wordsFrom word (w ++ rest) = wordsFrom (w.reverse ++ word) rest := by
  induction w generalizing word with
  | nil => rfl
  | cons c w ih =>
    obtain ⟨hc, hw⟩ := List.forall_mem_cons.1 hw
    rw [List.cons_append, wordsFrom, if_neg (Bool.eq_false_iff.1 hc), ih hw, List.reverse_cons,
      List.append_assoc, List.singleton_append]

theorem wordsFrom_stop {word rest : List Char} (hne : word ≠ [])
    (hrest : ∀ c ∈ rest.head?, isBlank c = true) :
    wordsFrom word rest = word.reverse :: wordsFrom [] rest := by
  cases rest with
  | nil => rw [wordsFrom, if_neg hne, wordsFrom, if_pos rfl]
  | cons c rest =>
    have hc := hrest c rfl
    rw [wordsFrom, if_pos hc, if_neg hne, wordsFrom, if_pos hc, if_pos rfl]

theorem Spaced.wordsFrom_eq {ws : List (List Char)} {cs : List Char} (h : Spaced ws cs) :
    wordsFrom [] cs = ws := by
  induction h with
  | @blank gap hgap =>
    rw [← List.append_nil gap, wordsFrom_gap hgap]
    rfl
  | @word gap w rest ws hgap hw hrest _ ih =>
    have hne : w.reverse ++ [] ≠ [] := by
      rw [List.append_nil]
      exact List.reverse_ne_nil_iff.2 hw.1
    rw [wordsFrom_gap hgap, wordsFrom_append hw.2, wordsFrom_stop hne hrest, ih, List.append_nil,
      List.reverse_reverse]

theorem Spaced.cons_blank {ws : List (List Char)} {cs : List Char} (h : Spaced ws cs) {c : Char}
    (hc : isBlank c = true) : Spaced ws (c :: cs) := by
  cases h with
  | blank hgap => exact .blank (List.forall_mem_cons.2 ⟨hc, hgap⟩)
  | @word gap w rest ws hgap hw hrest h =>
    have hwider : IsGap (c :: gap) := List.forall_mem_cons.2 ⟨hc, hgap⟩
    exact .word hwider hw hrest h

theorem Spaced.cons {ws : List (List Char)} {cs : List Char} (h : Spaced ws cs) {c : Char}
    (hc : isBlank c = false) : ∃ ws', Spaced ws' (c :: cs) := by
  have hgap : IsGap [] := fun d hd ↦ by cases hd
  have hone : IsWord [c] :=
    ⟨List.cons_ne_nil c [], fun d hd ↦ (List.mem_singleton.1 hd).symm ▸ hc⟩
  cases h with
  | blank hblank =>
    refine ⟨_, .word hgap hone (fun d hd ↦ hblank d ?_) (.blank hblank)⟩
    exact List.mem_of_mem_head? hd
  | @word gap w rest ws hblank hw hrest h =>
    cases gap with
    | nil =>
      have hjoined : IsWord (c :: w) := ⟨List.cons_ne_nil c w, List.forall_mem_cons.2 ⟨hc, hw.2⟩⟩
      exact ⟨_, .word hgap hjoined hrest h⟩
    | cons d gap =>
      refine ⟨_, .word hgap hone (fun e he ↦ ?_) (.word hblank hw hrest h)⟩
      obtain rfl := Option.some.inj he
      exact hblank d List.mem_cons_self

theorem exists_spaced (cs : List Char) : ∃ ws, Spaced ws cs := by
  induction cs with
  | nil => exact ⟨[], .blank fun c hc ↦ by cases hc⟩
  | cons c cs ih =>
    obtain ⟨ws, h⟩ := ih
    cases hc : isBlank c with
    | true => exact ⟨ws, h.cons_blank hc⟩
    | false => exact h.cons hc

/-- The words of a text are the only ones that it is spaced into. -/
theorem words_eq_iff {s : String} {ws : List String} :
    words s = ws ↔ Spaced (ws.map String.toList) s.toList := by
  have hinverse : ∀ vs : List (List Char), (vs.map String.ofList).map String.toList = vs := by
    intro vs
    rw [List.map_map]
    exact (List.map_congr_left fun v _ ↦ String.toList_ofList).trans (List.map_id _)
  constructor
  · rintro rfl
    obtain ⟨vs, h⟩ := exists_spaced s.toList
    rw [words, hinverse, h.wordsFrom_eq]
    exact h
  · intro h
    rw [words, h.wordsFrom_eq, List.map_map]
    exact (List.map_congr_left fun w _ ↦ String.ofList_toList).trans (List.map_id _)

end LivePage.Text
