import LivePage.Json.Reading
import LivePage.Json.Writing
import LivePage.Proofs.Number.Whole

namespace LivePage.Json

@[simp]
theorem ok_bind {ε α β : Type} (a : α) (f : α → Except ε β) : (Except.ok a >>= f) = f a := rfl

theorem hex_control : ∀ n < 0x20, (Text.hex 4 n).toList.length = 4 ∧
    ((Text.hex 4 n).toList.all fun c ↦ (Text.digitValue? 16 c).isSome) ∧
    Text.digitsValue 16 (Text.hex 4 n).toList = n := by
  decide

theorem readCode_hex {n : Nat} (h : n < 0x20) (rest : List Char) :
    readCode ((Text.hex 4 n).toList ++ rest) = .ok (Char.ofNat n, rest) := by
  obtain ⟨hlength, hall, hvalue⟩ := hex_control n h
  have hread : readHex ((Text.hex 4 n).toList ++ rest) = .ok (n, rest) := by
    unfold readHex
    dsimp only
    rw [List.take_left' hlength, List.drop_left' hlength, if_pos ⟨hlength, hall⟩, hvalue]
  have hlow : isLowSurrogate n = false := by
    simp [isLowSurrogate]
    omega
  have hhigh : isHighSurrogate n = false := by
    simp [isHighSurrogate]
    omega
  rw [readCode, hread]
  simp [hlow, hhigh]

theorem readString_escape {fuel : Nat} {c d : Char} {cs rest tail s : List Char}
    (hescape : readEscape (c :: cs) = .ok (d, rest)) (hrest : readString fuel rest = .ok (s, tail)) :
    readString (fuel + 1) ('\\' :: c :: cs) = .ok (d :: s, tail) := by
  rw [readString, if_neg (by decide), if_pos rfl, hescape]
  simp [hrest]

theorem readString_writeChar {fuel : Nat} {c : Char} {cs s tail : List Char}
    (h : readString fuel cs = .ok (s, tail)) :
    readString (fuel + 1) (writeChar c ++ cs) = .ok (c :: s, tail) := by
  unfold writeChar
  split_ifs with hquote hslash hnewline hreturn htab hback hfeed hcontrol
  · exact readString_escape (by rw [hquote]; rfl) h
  · exact readString_escape (by rw [hslash]; rfl) h
  · exact readString_escape (by rw [hnewline]; rfl) h
  · exact readString_escape (by rw [hreturn]; rfl) h
  · exact readString_escape (by rw [htab]; rfl) h
  · exact readString_escape (by rw [hback]; rfl) h
  · exact readString_escape (by rw [hfeed]; rfl) h
  · refine readString_escape ?_ h
    rw [readEscape, if_pos rfl]
    exact (readCode_hex hcontrol cs).trans (by rw [Char.ofNat_toNat])
  · rw [List.singleton_append, readString, if_neg hquote, if_neg hslash, if_neg hcontrol, h]
    rfl

theorem readString_flatMap {s : List Char} {fuel : Nat} (h : s.length < fuel) (rest : List Char) :
    readString fuel (s.flatMap writeChar ++ '"' :: rest) = .ok (s, rest) := by
  induction s generalizing fuel with
  | nil =>
    obtain ⟨fuel, rfl⟩ := Nat.exists_eq_succ_of_ne_zero (Nat.ne_zero_of_lt h)
    rfl
  | cons c s ih =>
    obtain ⟨fuel, rfl⟩ := Nat.exists_eq_succ_of_ne_zero (Nat.ne_zero_of_lt h)
    rw [List.flatMap_cons, List.append_assoc]
    exact readString_writeChar (ih (Nat.lt_of_succ_lt_succ h))

theorem length_le_flatMap_writeChar (s : List Char) : s.length ≤ (s.flatMap writeChar).length := by
  induction s with
  | nil => exact le_rfl
  | cons c s ih =>
    have hpos : 0 < (writeChar c).length := by
      unfold writeChar
      split_ifs <;> exact Nat.succ_pos _
    rw [List.flatMap_cons, List.length_append, List.length_cons]
    omega

theorem readString_writeString (s : String) (rest : List Char) :
    ∃ cs, (writeString s).toList ++ rest = '"' :: cs ∧
      readString (cs.length + 1) cs = .ok (s.toList, rest) := by
  refine ⟨s.toList.flatMap writeChar ++ '"' :: rest, ?_, readString_flatMap ?_ rest⟩
  · rw [writeString, String.toList_ofList]
    simp
  · have := length_le_flatMap_writeChar s.toList
    rw [List.length_append]
    omega

/-- Nothing at the start of the text continues a numeral. -/
def EndsNumeral (rest : List Char) : Prop :=
  ∀ c ∈ rest.head?, Text.isDigit c = false ∧ c ≠ 'e' ∧ c ≠ 'E'

theorem EndsNumeral.cons {c : Char} (h : Text.isDigit c = false ∧ c ≠ 'e' ∧ c ≠ 'E')
    (cs : List Char) : EndsNumeral (c :: cs) := by
  intro d hd
  obtain rfl := Option.some.inj hd
  exact h

theorem readFigures_append (atEnd : Fault) {figures rest : List Char} (hne : figures ≠ [])
    (hfigures : ∀ c ∈ figures, Text.isDigit c = true)
    (hrest : ∀ c ∈ rest.head?, Text.isDigit c = false) :
    readFigures atEnd (figures ++ rest) = .ok (figures, rest) := by
  have htake : (figures ++ rest).takeWhile Text.isDigit = figures := by
    rw [List.takeWhile_append_of_pos hfigures]
    cases rest with
    | nil => exact List.append_nil _
    | cons c rest =>
      have hc : Text.isDigit c = false := hrest c rfl
      rw [List.takeWhile_cons_of_neg (by rw [hc]; decide), List.append_nil]
  have hdrop : (figures ++ rest).dropWhile Text.isDigit = rest := by
    rw [List.dropWhile_append_of_pos hfigures]
    cases rest with
    | nil => rfl
    | cons c rest =>
      have hc : Text.isDigit c = false := hrest c rfl
      rw [List.dropWhile_cons_of_neg (by rw [hc]; decide)]
  unfold readFigures
  split
  · next hnil => exact absurd (List.append_eq_nil_iff.1 hnil).1 hne
  · dsimp only
    rw [htake, hdrop, if_neg hne]

theorem readWhole_toDigits (atEnd : Fault) (n : Nat) {rest : List Char}
    (hrest : ∀ c ∈ rest.head?, Text.isDigit c = false) :
    readWhole atEnd (Nat.toDigits 10 n ++ rest) = .ok (Nat.toDigits 10 n, rest) := by
  have hfigures := readFigures_append atEnd Nat.toDigits_ne_nil
    (fun c ↦ Text.isDigit_of_mem_toDigits (n := n)) hrest
  have hzero : ¬((Nat.toDigits 10 n).head? = some '0' ∧ (Nat.toDigits 10 n).length ≠ 1) := by
    rintro ⟨hhead, hlength⟩
    rcases Nat.eq_zero_or_pos n with rfl | hpos
    · exact hlength rfl
    · exact Text.head?_toDigits hpos hhead
  rw [readWhole, hfigures]
  exact if_neg hzero

def wholeNumeral (n : Nat) : Numeral :=
  ⟨Nat.toDigits 10 n, some ['0'], none⟩

theorem readNumeral_whole (atEnd : Fault) (n : Nat) {rest : List Char} (hrest : EndsNumeral rest) :
    readNumeral atEnd (Nat.toDigits 10 n ++ '.' :: '0' :: rest) = .ok (wholeNumeral n, rest) := by
  have hpoint : ∀ c ∈ ('.' :: '0' :: rest).head?, Text.isDigit c = false := by
    intro c hc
    obtain rfl := Option.some.inj hc
    decide
  have hzero : ∀ c ∈ ['0'], Text.isDigit c = true := by
    intro c hc
    rw [List.mem_singleton.1 hc]
    decide
  have hfraction := readFigures_append atEnd (List.cons_ne_nil '0' []) hzero
    fun c hc ↦ (hrest c hc).1
  have hexponent : readExponent atEnd rest = .ok (none, rest) := by
    cases rest with
    | nil => rfl
    | cons c rest =>
      have hc := (hrest c rfl).2
      rw [readExponent, if_neg (not_or.2 hc)]
  rw [List.singleton_append] at hfraction
  simp only [readNumeral, readWhole_toDigits atEnd n hpoint, readFraction, hfraction, hexponent,
    ok_bind, wholeNumeral]

namespace Numeral

open Number

theorem le_foldl_figures (cs : List Char) (n : Nat) :
    n ≤ cs.foldl (fun n c ↦ n * 10 + (Text.digitValue? 10 c).getD 0) n := by
  induction cs generalizing n with
  | nil => exact le_rfl
  | cons c cs ih =>
    refine le_trans ?_ (ih _)
    dsimp only
    omega

theorem takeFitting_of_lt {cs : List Char} {n : Nat}
    (h : cs.foldl (fun n c ↦ n * 10 + (Text.digitValue? 10 c).getD 0) n < Nat.pow 2 64) :
    takeFitting n cs =
      (cs.foldl (fun n c ↦ n * 10 + (Text.digitValue? 10 c).getD 0) n, cs.length) := by
  induction cs generalizing n with
  | nil => rfl
  | cons c cs ih =>
    unfold takeFitting
    dsimp only
    rw [if_pos (lt_of_le_of_lt (le_foldl_figures cs _) h), ih h]
    rfl

theorem takeFitting_toDigits {n : Nat} (h : n < Nat.pow 2 64) :
    takeFitting 0 (Nat.toDigits 10 n) = (n, (Nat.toDigits 10 n).length) := by
  have hvalue := Text.digitsValue_toDigits n
  unfold Text.digitsValue at hvalue
  rw [takeFitting_of_lt (by rwa [hvalue]), hvalue]

theorem divideByPower_ten {rank n : Nat} (h : binary64.units rank = n * binary64.one)
    (hn : n * 10 ≤ 2 ^ 53) :
    divideByPower (binary64.nearest (n * 10 * binary64.one) 1) 1 = rank := by
  rcases Nat.eq_zero_or_pos n with rfl | hpos
  · have hrank : rank = 0 := units_injective (by rw [h, units_zero, Nat.zero_mul])
    rw [Nat.zero_mul, nearest_zero, hrank, divideByPower, if_pos rfl]
  · obtain ⟨s, k, hten⟩ := exists_shifted_whole (n := 10) (by omega) (by omega)
    obtain ⟨t, j, hproduct⟩ := exists_shifted_whole (Nat.mul_pos hpos (by omega)) hn
    obtain ⟨u, i, hnumber⟩ := exists_shifted_whole hpos (by omega)
    have hrank : rank = i * 2 ^ 52 + u := units_injective (h.trans hnumber.units_eq.symm)
    have hpower : powerRank 1 = k * 2 ^ 52 + s := by
      rw [powerRank, Nat.pow_eq, pow_one, hten.nearest_eq]
    have hne : j * 2 ^ 52 + t ≠ 0 := by
      have := hproduct.low
      omega
    have hsmall : 1 ≤ maxPower := by decide
    rw [hproduct.nearest_eq, divideByPower, if_neg hne, if_pos hsmall, hpower, divideRank,
      hten.units_eq, hproduct.units_eq, hrank]
    refine nearest_of_eq (Nat.mul_pos (by omega) binary64.one_pos) ?_ hnumber.low hnumber.high
    rw [← hnumber.eq]
    ring

theorem rank?_whole {rank n : Nat} (h : binary64.units rank = n * binary64.one) (hn : n * 10 ≤ 2 ^ 53) :
    (wholeNumeral n).rank? = some rank := by
  have hwhole : takeFitting 0 (Nat.toDigits 10 n) = (n, (Nat.toDigits 10 n).length) :=
    takeFitting_toDigits (lt_of_le_of_lt (Nat.le_mul_of_pos_right n (by omega))
      (lt_of_le_of_lt hn (by decide)))
  have hfraction : takeFitting n ['0'] = (n * 10, 1) :=
    takeFitting_of_lt (lt_of_le_of_lt hn (by decide))
  unfold rank? wholeNumeral
  dsimp only [Option.getD_some]
  rw [hwhole]
  dsimp only
  rw [hfraction]
  dsimp only
  have hstart : ((Nat.toDigits 10 n).length : Int) - ((Nat.toDigits 10 n).length : Nat) -
      (1 : Nat) = -1 := by omega
  rw [hstart, scale?, if_pos (by decide)]
  exact congrArg some (divideByPower_ten h hn)

end Numeral

theorem numberStyle_plainly {n : Nat} (hn : n ≤ 10 ^ 14) : numberStyle.Plainly n := by
  intro bounds hbounds
  obtain rfl := Option.some.inj hbounds
  have hlength : (Nat.toDigits 10 n).length ≤ 15 :=
    (Nat.length_toDigits_le_iff (by omega) (by omega)).2 (by omega)
  dsimp only
  omega

/-- A whole number up to `10 ^ 14` is read back from its text, with its sign. -/
theorem readNumber_writeNumber (negative : Bool) {rank : Fin (2047 * Nat.pow 2 52)} {n : Nat}
    (h : Number.whole? rank.val = some n) (hn : n ≤ 10 ^ 14) {rest : List Char}
    (hrest : EndsNumeral rest) :
    ∃ c cs, (writeNumber (.finite negative rank)).toList ++ rest = c :: cs ∧
      (c = '-' ∨ Text.isDigit c = true) ∧ readNumber c cs = .ok (.finite negative rank, rest) := by
  have htext : (writeNumber (.finite negative rank)).toList ++ rest =
      (Number.Style.sign negative).toList ++ (Nat.toDigits 10 n ++ '.' :: '0' :: rest) := by
    rw [writeNumber, Number.Style.write_whole h (by omega) (numberStyle_plainly hn)]
    · simp [numberStyle]
    · nofun
  have hnumber : (wholeNumeral n).number negative = .ok (.finite negative rank) := by
    rw [Numeral.number, Numeral.rank?_whole (Number.units_eq_of_whole? h) (by omega)]
    exact congrArg Except.ok (Number.ofRank_of_lt negative rank.isLt)
  have hnumeral := readNumeral_whole .unfinished n hrest
  cases negative with
  | true =>
    refine ⟨'-', Nat.toDigits 10 n ++ '.' :: '0' :: rest, htext, .inl rfl, ?_⟩
    simp [readNumber, hnumeral, hnumber]
  | false =>
    obtain ⟨c, cs, hdigits⟩ := List.exists_cons_of_ne_nil (Nat.toDigits_ne_nil (b := 10) (n := n))
    have hmem : c ∈ Nat.toDigits 10 n := by
      rw [hdigits]
      exact List.mem_cons_self
    have hc : Text.isDigit c = true := Text.isDigit_of_mem_toDigits hmem
    have hminus : c ≠ '-' := by
      rintro rfl
      exact absurd hc (by decide)
    refine ⟨c, cs ++ '.' :: '0' :: rest, ?_, .inr hc, ?_⟩
    · rw [htext, hdigits]
      rfl
    · rw [hdigits, List.cons_append] at hnumeral
      simp [readNumber, hminus, hnumeral, hnumber]

end LivePage.Json
