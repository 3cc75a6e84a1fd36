import LivePage.Number.Reading
import Mathlib.Tactic.Ring

namespace LivePage

namespace Text

theorem isDigit_digitChar {d : Nat} (h : d < 10) : isDigit d.digitChar = true := by
  revert d
  decide

theorem digitValue?_digitChar {d : Nat} (h : d < 10) : digitValue? 10 d.digitChar = some d := by
  revert d
  decide

theorem digitsValue_append_singleton (base : Nat) (cs : List Char) (c : Char) :
    digitsValue base (cs ++ [c]) = digitsValue base cs * base + (digitValue? base c).getD 0 := by
  rw [digitsValue, List.foldl_append]
  rfl

theorem isDigit_of_mem_toDigits {n : Nat} {c : Char} (h : c ∈ Nat.toDigits 10 n) :
    isDigit c = true := by
  induction n using Nat.strongRecOn with
  | ind n ih =>
    rw [Nat.toDigits_eq_if (by omega)] at h
    split at h
    · next hlt =>
      rw [List.mem_singleton.1 h]
      exact isDigit_digitChar hlt
    · rcases List.mem_append.1 h with h | h
      · exact ih (n / 10) (by omega) h
      · rw [List.mem_singleton.1 h]
        exact isDigit_digitChar (Nat.mod_lt n (by omega))

theorem digitsValue_toDigits (n : Nat) : digitsValue 10 (Nat.toDigits 10 n) = n := by
  induction n using Nat.strongRecOn with
  | ind n ih =>
    rw [Nat.toDigits_eq_if (by omega)]
    split
    · next hlt =>
      rw [← List.nil_append [n.digitChar], digitsValue_append_singleton, digitValue?_digitChar hlt]
      exact Nat.zero_add n
    · rw [digitsValue_append_singleton, ih (n / 10) (by omega),
        digitValue?_digitChar (Nat.mod_lt n (by omega))]
      exact Nat.div_add_mod' n 10

theorem head?_toDigits {n : Nat} (h : 0 < n) : (Nat.toDigits 10 n).head? ≠ some '0' := by
  induction n using Nat.strongRecOn with
  | ind n ih =>
    rw [Nat.toDigits_eq_if (by omega)]
    split
    · simpa using h.ne'
    · have hhead := ih (n / 10) (by omega) (by omega)
      rw [List.head?_eq_some_head Nat.toDigits_ne_nil] at hhead
      rw [List.head?_append, List.head?_eq_some_head Nat.toDigits_ne_nil]
      exact hhead

end Text

namespace Number

theorem toDigits_mul_pow {d : Nat} (hd : 0 < d) (e : Nat) :
    Nat.toDigits 10 (d * 10 ^ e) = Nat.toDigits 10 d ++ List.replicate e '0' := by
  induction e with
  | zero => simp
  | succ e ih =>
    have hmul : d * 10 ^ (e + 1) = 10 * (d * 10 ^ e) + 0 := by ring
    have hpos : 0 < d * 10 ^ e := Nat.mul_pos hd (Nat.pow_pos (by omega))
    rw [hmul, ← Nat.toDigits_append_toDigits (by omega) hpos (by omega), ih, Nat.toDigits_zero,
      List.replicate_succ', List.append_assoc]

theorem takeSign_of_digits {cs : List Char} (h : ∀ c ∈ cs, Text.isDigit c = true) :
    Numeral.takeSign cs = (false, cs) := by
  unfold Numeral.takeSign
  split
  · exact absurd (h '-' List.mem_cons_self) (by decide)
  · exact absurd (h '+' List.mem_cons_self) (by decide)
  · rfl

theorem readInt?_repr {s : String} {n : Int}
    (h : s = (if n < 0 then "-" else "") ++ Nat.repr n.natAbs) : readInt? s = some n := by
  have hdigits : ∀ c ∈ Nat.toDigits 10 n.natAbs, Text.isDigit c = true :=
    fun c ↦ Text.isDigit_of_mem_toDigits
  have hsign : Numeral.takeSign s.toList = (decide (n < 0), Nat.toDigits 10 n.natAbs) := by
    rw [h, String.toList_append, Nat.toList_repr]
    split
    · next hneg => simp [Numeral.takeSign, hneg]
    · next hneg => simp [takeSign_of_digits hdigits, hneg]
  have hall : (Nat.toDigits 10 n.natAbs).all Text.isDigit = true := List.all_eq_true.2 hdigits
  unfold readInt?
  rw [hsign]
  dsimp only
  rw [if_pos ⟨Nat.toDigits_ne_nil, hall⟩, Text.digitsValue_toDigits]
  refine congrArg some ?_
  by_cases hneg : n < 0
  · simp only [hneg, decide_true, if_true]
    omega
  · simp only [hneg, decide_false, Bool.false_eq_true, if_false]
    omega

end Number

end LivePage
