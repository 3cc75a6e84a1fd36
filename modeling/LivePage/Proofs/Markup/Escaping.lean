import LivePage.Markup.Scan
import LivePage.Markup.Writing
import Mathlib.Data.List.Nodup

namespace LivePage.Markup

open Text Scan

/-- A text without the characters that scanning takes for others. -/
def Clean (s : String) : Prop :=
  ∀ c ∈ s.toList, c ≠ '\x00' ∧ c ≠ '\r' ∧ c ≠ '\ufeff'

-- not by inference, which may go through all characters
instance (s : String) : Decidable (Clean s) :=
  List.decidableBAll (fun c ↦ c ≠ '\x00' ∧ c ≠ '\r' ∧ c ≠ '\ufeff') s.toList

theorem clean_append {s t : String} (hs : Clean s) (ht : Clean t) : Clean (s ++ t) := by
  intro c hc
  rw [String.toList_append] at hc
  exact (List.mem_append.1 hc).elim (hs c) (ht c)

def isSmall (c : Char) : Bool :=
  'a' ≤ c && c ≤ 'z'

def isPlainChar (c : Char) : Bool :=
  isSmall c || isDigit c || c = '-'

/-- A name in small letters, digits and hyphens that starts with a letter. -/
def isPlainName (s : String) : Bool :=
  match s.toList with
  | [] => false
  | c :: cs => isSmall c && cs.all isPlainChar

theorem isPlainName_iff {s : String} :
    isPlainName s = true ↔
      ∃ c cs, s.toList = c :: cs ∧ isSmall c = true ∧ ∀ d ∈ cs, isPlainChar d = true := by
  unfold isPlainName
  cases s.toList with
  | nil => simp only [Bool.false_eq_true, reduceCtorEq, false_and, exists_false]
  | cons c cs =>
    rw [Bool.and_eq_true, List.all_eq_true]
    constructor
    · exact fun ⟨hc, hcs⟩ ↦ ⟨c, cs, rfl, hc, hcs⟩
    · rintro ⟨_, _, heq, hc, hcs⟩
      obtain ⟨rfl, rfl⟩ := List.cons.inj heq
      exact ⟨hc, hcs⟩

theorem isPlainChar_of_isSmall {c : Char} (h : isSmall c = true) : isPlainChar c = true := by
  rw [isPlainChar, h, Bool.true_or, Bool.true_or]

theorem plain_of_mem {s : String} (h : isPlainName s = true) {c : Char} (hc : c ∈ s.toList) :
    isPlainChar c = true := by
  obtain ⟨d, ds, hs, hd, hds⟩ := isPlainName_iff.1 h
  rw [hs] at hc
  rcases List.mem_cons.1 hc with rfl | hc
  · exact isPlainChar_of_isSmall hd
  · exact hds c hc

section

variable {c : Char} (h : isPlainChar c = true)

include h

theorem ne_of_isPlainChar {d : Char} (hd : isPlainChar d = false) : c ≠ d := by
  rintro rfl
  rw [h] at hd
  cases hd

theorem endsAttributeName_of_plain : endsAttributeName c = false := by
  simp only [endsAttributeName, endsTagName, isMarkupBlank, Bool.or_eq_false_iff,
    decide_eq_false_iff_not]
  exact ⟨⟨⟨⟨⟨⟨⟨ne_of_isPlainChar h rfl, ne_of_isPlainChar h rfl⟩, ne_of_isPlainChar h rfl⟩,
    ne_of_isPlainChar h rfl⟩, ne_of_isPlainChar h rfl⟩, ne_of_isPlainChar h rfl⟩,
    ne_of_isPlainChar h rfl⟩, ne_of_isPlainChar h rfl⟩

theorem endsTagName_of_plain : endsTagName c = false :=
  (Bool.or_eq_false_iff.1 (endsAttributeName_of_plain h)).1

theorem lowerChar_of_plain : lowerChar c = c := by
  refine if_neg fun hcap ↦ ?_
  simp only [isPlainChar, isSmall, isDigit, Bool.or_eq_true, Bool.and_eq_true,
    decide_eq_true_eq] at h
  rcases h with (⟨ha, -⟩ | ⟨-, h9⟩) | rfl
  · exact absurd (Char.le_trans ha hcap.2) (by decide)
  · exact absurd (Char.le_trans hcap.1 h9) (by decide)
  · exact absurd hcap.1 (by decide)

theorem lowerChar_shown_of_plain : lowerChar (shown c) = c := by
  rw [shown, if_neg (ne_of_isPlainChar h rfl), lowerChar_of_plain h]

end

theorem nameOf_of_plain {s : String} (h : isPlainName s = true) : nameOf s.toList = s := by
  have hmap : s.toList.map (lowerChar ∘ shown) = s.toList :=
    (List.map_congr_left fun c hc ↦ lowerChar_shown_of_plain (plain_of_mem h hc)).trans
      (List.map_id _)
  rw [nameOf, hmap, String.ofList_toList]

theorem lower_of_plain {s : String} (h : isPlainName s = true) : lower s = s := by
  have hmap : s.toList.map lowerChar = s.toList :=
    (List.map_congr_left fun c hc ↦ lowerChar_of_plain (plain_of_mem h hc)).trans (List.map_id _)
  rw [lower, hmap, String.ofList_toList]

theorem readReference?_named {name ds : List Char} (hname : name.all isReferenceChar = true)
    (hds : named? name = some ds) (inValue : Bool) (rest : List Char) :
    readReference? inValue (name ++ ';' :: rest) = some (ds, rest) := by
  rw [List.all_eq_true] at hname
  have htake : (name ++ ';' :: rest).takeWhile isReferenceChar = name := by
    rw [List.takeWhile_append_of_pos hname, List.takeWhile_cons_of_neg (by decide), List.append_nil]
  have hdrop : (name ++ ';' :: rest).dropWhile isReferenceChar = ';' :: rest := by
    rw [List.dropWhile_append_of_pos hname, List.dropWhile_cons_of_neg (by decide)]
  have hended : readEndedName? (name ++ ';' :: rest) = some (ds, rest) := by
    rw [readEndedName?, htake, hdrop, hds]
    rfl
  cases name with
  | nil => cases hds
  | cons c cs =>
    have hc : c ≠ '#' := by
      rintro rfl
      exact absurd (hname '#' List.mem_cons_self) (by decide)
    rw [List.cons_append] at hended ⊢
    unfold readReference?
    split
    · next heq => exact absurd (List.cons.inj heq).1 hc
    · next heq => exact absurd (List.cons.inj heq).1 hc
    · next heq => exact absurd (List.cons.inj heq).1 hc
    · rw [hended, Option.some_or]

/-- What is written for a character is a reference to it by a name. -/
def IsReference (cs : List Char) (c : Char) : Prop :=
  ∃ name, cs = '&' :: (name ++ [';']) ∧ name.all isReferenceChar = true ∧ named? name = some [c]

theorem IsReference.exists_read {cs : List Char} {c : Char} (h : IsReference cs c) :
    ∃ ds, cs = '&' :: ds ∧
      ∀ inValue rest, readReference? inValue (ds ++ rest) = some ([c], rest) := by
  obtain ⟨name, rfl, hname, hc⟩ := h
  refine ⟨name ++ [';'], rfl, fun inValue rest ↦ ?_⟩
  rw [List.append_assoc]
  exact readReference?_named hname hc inValue rest

theorem isReference_escapeTextChar (c : Char) :
    IsReference (escapeTextChar c) c ∨ escapeTextChar c = [c] ∧ c ≠ '&' ∧ c ≠ '<' := by
  unfold escapeTextChar
  by_cases hamp : c = '&'
  · subst hamp
    exact .inl ⟨['a', 'm', 'p'], rfl, by decide, by decide +kernel⟩
  · by_cases hlt : c = '<'
    · subst hlt
      exact .inl ⟨['l', 't'], rfl, by decide, by decide +kernel⟩
    · by_cases hgt : c = '>'
      · subst hgt
        exact .inl ⟨['g', 't'], rfl, by decide, by decide +kernel⟩
      · exact .inr ⟨by rw [if_neg hamp, if_neg hlt, if_neg hgt], hamp, hlt⟩

theorem isReference_escapeValueChar (c : Char) :
    IsReference (escapeValueChar c) c ∨ escapeValueChar c = [c] ∧ c ≠ '&' := by
  unfold escapeValueChar
  by_cases hquot : c = '"'
  · subst hquot
    exact .inl ⟨['q', 'u', 'o', 't'], rfl, by decide, by decide +kernel⟩
  · rw [if_neg hquot]
    exact (isReference_escapeTextChar c).imp id fun ⟨hself, hamp, _⟩ ↦ ⟨hself, hamp⟩

theorem exists_escapeTextChar (foreign : Bool) (c : Char) :
    ∃ d ds, escapeTextChar c = d :: ds ∧
      ∀ rest, markup foreign d (ds ++ rest) = ⟨[.character c], rest, .markup⟩ := by
  rcases isReference_escapeTextChar c with href | ⟨hself, hamp, hlt⟩
  · obtain ⟨ds, hcs, hread⟩ := href.exists_read
    refine ⟨'&', ds, hcs, fun rest ↦ ?_⟩
    simp only [markup, if_pos, hread false rest, List.map_cons, List.map_nil]
  · refine ⟨c, [], hself, fun rest ↦ ?_⟩
    simp only [markup, if_neg hamp, if_neg hlt, List.nil_append]

theorem decodeValue_reference {rest ds tail : List Char}
    (h : readReference? true rest = some (ds, tail)) :
    decodeValue ('&' :: rest) = ds ++ decodeValue tail := by
  rw [decodeValue, if_pos rfl]
  split
  · next ds' tail' heq =>
    rw [h] at heq
    obtain ⟨rfl, rfl⟩ := Prod.mk.inj (Option.some.inj heq)
    rfl
  · next heq =>
    rw [h] at heq
    cases heq

theorem decodeValue_escapeValueChar {c : Char} (hc : c ≠ '\x00') (rest : List Char) :
    decodeValue (escapeValueChar c ++ rest) = c :: decodeValue rest := by
  rcases isReference_escapeValueChar c with href | ⟨hself, hamp⟩
  · obtain ⟨ds, hcs, hread⟩ := href.exists_read
    rw [hcs]
    exact decodeValue_reference (hread true rest)
  · rw [hself, List.singleton_append, decodeValue, if_neg hamp, if_neg hc]

theorem decodeValue_flatMap {cs : List Char} (h : ∀ c ∈ cs, c ≠ '\x00') :
    decodeValue (cs.flatMap escapeValueChar) = cs := by
  induction cs with
  | nil => rw [List.flatMap_nil, decodeValue]
  | cons c cs ih =>
    obtain ⟨hc, hcs⟩ := List.forall_mem_cons.1 h
    rw [List.flatMap_cons, decodeValue_escapeValueChar hc, ih hcs]

theorem quote_notMem_escapeValueChar (c : Char) : '"' ∉ escapeValueChar c := by
  unfold escapeValueChar escapeTextChar
  by_cases hquot : c = '"'
  · rw [if_pos hquot]
    decide
  · rw [if_neg hquot]
    split
    · decide
    · split
      · decide
      · split
        · decide
        · exact fun h ↦ hquot (List.mem_singleton.1 h).symm

structure Attribute.Plain (a : Attribute) : Prop where
  name : isPlainName a.name = true
  value : Clean a.value

instance (a : Attribute) : Decidable a.Plain :=
  decidable_of_iff (isPlainName a.name = true ∧ Clean a.value)
    ⟨fun h ↦ ⟨h.1, h.2⟩, fun h ↦ ⟨h.name, h.value⟩⟩

theorem takeWhile_stop {p : Char → Bool} {cs : List Char} (h : ∀ c ∈ cs, p c = true) {d : Char}
    (hd : p d = false) (rest : List Char) : (cs ++ d :: rest).takeWhile p = cs := by
  rw [List.takeWhile_append_of_pos h, List.takeWhile_cons_of_neg (Bool.eq_false_iff.1 hd),
    List.append_nil]

theorem dropWhile_stop {p : Char → Bool} {cs : List Char} (h : ∀ c ∈ cs, p c = true) {d : Char}
    (hd : p d = false) (rest : List Char) : (cs ++ d :: rest).dropWhile p = d :: rest := by
  rw [List.dropWhile_append_of_pos h, List.dropWhile_cons_of_neg (Bool.eq_false_iff.1 hd)]

theorem takeValue?_quoted {cs : List Char} (h : '"' ∉ cs) (rest : List Char) :
    takeValue? ('"' :: (cs ++ '"' :: rest)) = some (cs, rest) := by
  have hne : ∀ c ∈ cs, (c ≠ '"' : Bool) = true := fun c hc ↦
    decide_eq_true fun heq ↦ h (heq ▸ hc)
  have hstop : ('"' ≠ '"' : Bool) = false := rfl
  unfold takeValue?
  rw [List.dropWhile_cons_of_neg (by decide)]
  simp only [true_or, if_true]
  rw [dropWhile_stop hne hstop, takeWhile_stop hne hstop]

theorem takeAttribute?_write {a : Attribute} (h : a.Plain) (rest : List Char) :
    takeAttribute? (a.name.toList ++ '=' :: '"' ::
      ((a.value.toList.flatMap escapeValueChar) ++ '"' :: rest)) = some (a, rest) := by
  obtain ⟨c, cs, hname, -, hcs⟩ := isPlainName_iff.1 h.name
  have hends : ∀ d ∈ cs, (!endsAttributeName d) = true := fun d hd ↦ by
    rw [endsAttributeName_of_plain (hcs d hd), Bool.not_false]
  have hquote : '"' ∉ a.value.toList.flatMap escapeValueChar := by
    intro hmem
    obtain ⟨d, -, hd⟩ := List.mem_flatMap.1 hmem
    exact quote_notMem_escapeValueChar d hd
  have htake : ∀ tail, takeAttributeName (a.name.toList ++ '=' :: tail) =
      (a.name.toList, '=' :: tail) := fun tail ↦ by
    rw [hname, List.cons_append, takeAttributeName, takeWhile_stop hends rfl,
      dropWhile_stop hends rfl]
  have hvalue : valueOf (a.value.toList.flatMap escapeValueChar) = a.value := by
    rw [valueOf, decodeValue_flatMap fun d hd ↦ (h.value d hd).1, String.ofList_toList]
  unfold takeAttribute?
  rw [htake]
  dsimp only
  rw [List.dropWhile_cons_of_neg (by decide)]
  simp only [takeValue?_quoted hquote, Option.map_some, nameOf_of_plain h.name, hvalue]

theorem toList_write (a : Attribute) :
    a.write.toList = ' ' :: (a.name.toList ++ '=' :: '"' ::
      ((a.value.toList.flatMap escapeValueChar) ++ ['"'])) := by
  simp [Attribute.write, escapeValue]

def writtenAttributes (as : List Attribute) : List Char :=
  as.flatMap fun a ↦ a.write.toList

theorem writtenAttributes_cons_append (a : Attribute) (as : List Attribute) (rest : List Char) :
    writtenAttributes (a :: as) ++ rest = ' ' :: (a.name.toList ++ '=' :: '"' ::
      ((a.value.toList.flatMap escapeValueChar) ++ '"' :: (writtenAttributes as ++ rest))) := by
  simp [writtenAttributes, toList_write]

theorem takeAttributes?_written {as : List Attribute} (h : ∀ a ∈ as, a.Plain) {fuel : Nat}
    (hfuel : as.length < fuel) (rest : List Char) :
    takeAttributes? fuel (writtenAttributes as ++ '>' :: rest) = some (as, false, rest) := by
  induction as generalizing fuel with
  | nil =>
    obtain ⟨k, rfl⟩ := Nat.exists_eq_succ_of_ne_zero (Nat.ne_of_gt hfuel)
    rw [takeAttributes?, writtenAttributes, List.flatMap_nil, List.nil_append,
      List.dropWhile_cons_of_neg (by decide)]
    rfl
  | cons a as ih =>
    obtain ⟨ha, has⟩ := List.forall_mem_cons.1 h
    obtain ⟨k, rfl⟩ := Nat.exists_eq_succ_of_ne_zero (Nat.ne_of_gt (Nat.zero_lt_of_lt hfuel))
    have hrest := ih has (Nat.lt_of_succ_lt_succ hfuel)
    obtain ⟨c, cs, hname, hc, -⟩ := isPlainName_iff.1 ha.name
    have hplain := isPlainChar_of_isSmall hc
    have hblank : isMarkupBlank c = false := by
      have hends := endsTagName_of_plain hplain
      simp only [endsTagName, Bool.or_eq_false_iff] at hends
      exact hends.1.1
    have hstart := takeAttribute?_write ha (writtenAttributes as ++ '>' :: rest)
    rw [writtenAttributes_cons_append, takeAttributes?, List.dropWhile_cons_of_pos (by decide)]
    rw [hname, List.cons_append] at hstart ⊢
    rw [List.dropWhile_cons_of_neg (Bool.eq_false_iff.1 hblank)]
    split
    · next heq => cases heq
    · next heq => exact absurd (List.cons.inj heq).1 (ne_of_isPlainChar hplain rfl)
    · next heq => exact absurd (List.cons.inj heq).1 (ne_of_isPlainChar hplain rfl)
    · next heq => exact absurd (List.cons.inj heq).1 (ne_of_isPlainChar hplain rfl)
    · rw [hstart]
      simp only [Option.bind_eq_bind, Option.bind_some, hrest]

theorem firstOfEach_of_nodup {as : List Attribute} (h : (as.map (·.name)).Nodup) :
    firstOfEach as = as := by
  induction as with
  | nil => rfl
  | cons a as ih =>
    obtain ⟨ha, has⟩ := List.nodup_cons.1 h
    rw [firstOfEach, ih has, List.filter_eq_self.2]
    intro b hb
    exact decide_eq_true fun heq ↦ ha (List.mem_map.2 ⟨b, hb, heq⟩)

/-- Tags of elements that hold other elements and text, and nothing else about them is special. -/
def plainTags : List String :=
  ["div", "span", "section"]

theorem isPlainName_of_mem {t : String} (h : t ∈ plainTags) : isPlainName t = true := by
  revert t
  decide

theorem tag_written {t : String} (ht : isPlainName t = true) {as : List Attribute}
    (has : ∀ a ∈ as, a.Plain) (hnames : (as.map (·.name)).Nodup) (isEnd : Bool)
    (rest : List Char) :
    Scan.tag isEnd (t.toList ++ (writtenAttributes as ++ '>' :: rest)) =
      ⟨[if isEnd then .endTag t else .startTag t as false], rest, .markup⟩ := by
  have hends : ∀ c ∈ t.toList, (!endsTagName c) = true := fun c hc ↦ by
    rw [endsTagName_of_plain (plain_of_mem ht hc), Bool.not_false]
  obtain ⟨d, tail, htail, hd⟩ : ∃ d tail,
      writtenAttributes as ++ '>' :: rest = d :: tail ∧ endsTagName d = true := by
    cases as with
    | nil => exact ⟨'>', rest, rfl, rfl⟩
    | cons a as =>
      exact ⟨' ', _, writtenAttributes_cons_append a as _, rfl⟩
  have hstop : (!endsTagName d) = false := by rw [hd, Bool.not_true]
  have hlength : as.length < (writtenAttributes as ++ '>' :: rest).length + 1 := by
    have hle : as.length ≤ (writtenAttributes as).length := by
      clear htail has hnames
      induction as with
      | nil => exact Nat.zero_le _
      | cons a as ih =>
        rw [writtenAttributes, List.flatMap_cons, toList_write]
        simp only [List.length_cons, List.length_append]
        rw [writtenAttributes] at ih
        omega
    rw [List.length_append]
    omega
  have hattributes := takeAttributes?_written has hlength rest
  unfold Scan.tag
  rw [htail] at hattributes ⊢
  rw [takeWhile_stop hends hstop, dropWhile_stop hends hstop]
  simp only [hattributes, nameOf_of_plain ht, firstOfEach_of_nodup hnames]

theorem markup_startTag (foreign : Bool) {t : String} (ht : t ∈ plainTags) {as : List Attribute}
    (has : ∀ a ∈ as, a.Plain) (hnames : (as.map (·.name)).Nodup) (rest : List Char) :
    markup foreign '<' (t.toList ++ (writtenAttributes as ++ '>' :: rest)) =
      ⟨[.startTag t as false], rest, .markup⟩ := by
  have htag := tag_written (isPlainName_of_mem ht) has hnames false rest
  simp only [plainTags, List.mem_cons, List.not_mem_nil, or_false] at ht
  rcases ht with rfl | rfl | rfl <;> exact htag

theorem markup_endTag (foreign : Bool) {t : String} (ht : t ∈ plainTags) (rest : List Char) :
    markup foreign '<' ('/' :: (t.toList ++ '>' :: rest)) = ⟨[.endTag t], rest, .markup⟩ := by
  simp only [plainTags, List.mem_cons, List.not_mem_nil, or_false] at ht
  rcases ht with rfl | rfl | rfl <;> rfl

end LivePage.Markup
