import LivePage.Number.Writing
import Mathlib.Tactic.Ring

namespace LivePage.Number

theorem block_binary64 : binary64.block = 2 ^ 52 := rfl

theorem scale_binary64 : binary64.scale = 1074 := rfl

theorem Grid.one_eq (g : Grid) : g.one = 2 ^ g.scale :=
  Nat.pow_eq

theorem Grid.one_pos (g : Grid) : 0 < g.one :=
  Nat.two_pow_pos g.scale

theorem roundHalfEven_mul {n den : Nat} (h : 0 < den) : roundHalfEven (n * den) den = n := by
  have hmod : n * den % den = 0 := Nat.mul_mod_left n den
  have hdiv : n * den / den = n := Nat.mul_div_cancel n h
  rw [roundHalfEven, hmod, hdiv, if_pos (.inl (by omega))]

theorem log2_mul_pow {n : Nat} (h : 0 < n) (k : Nat) : (n * 2 ^ k).log2 = n.log2 + k := by
  refine (Nat.log2_eq_iff (Nat.mul_pos h (Nat.two_pow_pos k)).ne').2 ⟨?_, ?_⟩
  · rw [pow_add]
    exact Nat.mul_le_mul_right _ (Nat.log2_self_le h.ne')
  · rw [Nat.add_right_comm, pow_add]
    exact Nat.mul_lt_mul_of_pos_right Nat.lt_log2_self (Nat.two_pow_pos k)

/-- A quotient that is a significand of 53 bits, shifted, is rounded to itself. -/
theorem nearest_of_eq {num den s k : Nat} (hden : 0 < den) (h : num = s * 2 ^ k * den)
    (hlow : 2 ^ 52 ≤ s) (hhigh : s < 2 ^ 53) : binary64.nearest num den = k * 2 ^ 52 + s := by
  have hdiv : num / den = s * 2 ^ k := by
    rw [h]
    exact Nat.mul_div_cancel _ hden
  have hlog : s.log2 = 52 := (Nat.log2_eq_iff (by omega)).2 ⟨hlow, hhigh⟩
  have hshift : (s * 2 ^ k).log2 - (binary64.precision - 1) = k := by
    rw [log2_mul_pow (by omega), hlog]
    exact Nat.add_sub_cancel_left ..
  have hnum : num = s * (den * 2 ^ k) := by
    rw [h]
    ring
  rw [Grid.nearest, hdiv, hshift, block_binary64, Nat.pow_eq, hnum,
    roundHalfEven_mul (Nat.mul_pos hden (Nat.two_pow_pos k))]

theorem units_shifted {s k : Nat} (hlow : 2 ^ 52 ≤ s) (hhigh : s ≤ 2 ^ 53) :
    binary64.units (k * 2 ^ 52 + s) = s * 2 ^ k := by
  rw [Grid.units, block_binary64, if_neg (by omega)]
  rcases Nat.lt_or_eq_of_le hhigh with h | rfl
  · have hdiv : (k * 2 ^ 52 + s) / 2 ^ 52 - 1 = k := by omega
    have hmod : 2 ^ 52 + (k * 2 ^ 52 + s) % 2 ^ 52 = s := by omega
    rw [hdiv, hmod, Nat.pow_eq]
  · have hdiv : (k * 2 ^ 52 + 2 ^ 53) / 2 ^ 52 - 1 = k + 1 := by omega
    have hmod : 2 ^ 52 + (k * 2 ^ 52 + 2 ^ 53) % 2 ^ 52 = 2 ^ 52 := by omega
    rw [hdiv, hmod, Nat.pow_eq]
    ring

theorem exists_shifted {rank : Nat} (h : 2 ^ 52 ≤ rank) :
    ∃ s k, rank = k * 2 ^ 52 + s ∧ 2 ^ 52 ≤ s ∧ s < 2 ^ 53 :=
  ⟨2 ^ 52 + rank % 2 ^ 52, rank / 2 ^ 52 - 1, by omega, by omega, by omega⟩

theorem nearest_units (rank : Nat) : binary64.nearest (binary64.units rank) 1 = rank := by
  by_cases h : rank < 2 ^ 52
  · have hlog : rank.log2 - (binary64.precision - 1) = 0 := by
      rcases Nat.eq_zero_or_pos rank with rfl | hpos
      · rfl
      · have hlt := (Nat.log2_lt (k := 52) hpos.ne').2 h
        change rank.log2 - 52 = 0
        omega
    rw [Grid.units, block_binary64, if_pos h, Grid.nearest, Nat.div_one, hlog, Nat.zero_mul,
      Nat.zero_add]
    simpa using roundHalfEven_mul (n := rank) Nat.one_pos
  · obtain ⟨s, k, rfl, hlow, hhigh⟩ := exists_shifted (Nat.le_of_not_lt h)
    rw [units_shifted hlow hhigh.le]
    exact nearest_of_eq Nat.one_pos (Nat.mul_one _).symm hlow hhigh

theorem units_injective {m n : Nat} (h : binary64.units m = binary64.units n) : m = n := by
  rw [← nearest_units m, h, nearest_units]

theorem nearest_zero : binary64.nearest 0 1 = 0 := by
  decide

theorem units_zero : binary64.units 0 = 0 := by
  rw [Grid.units, block_binary64, if_pos (Nat.two_pow_pos 52)]

/-- The whole number `n` is the significand `s`, shifted by `k` units. -/
structure Shifted (n s k : Nat) : Prop where
  eq : n * binary64.one = s * 2 ^ k
  low : 2 ^ 52 ≤ s
  high : s < 2 ^ 53

theorem exists_shifted_whole {n : Nat} (hpos : 0 < n) (h : n ≤ 2 ^ 53) : ∃ s k, Shifted n s k := by
  rcases Nat.lt_or_eq_of_le h with hlt | rfl
  · have hlog : n.log2 ≤ 52 := Nat.le_of_lt_succ ((Nat.log2_lt hpos.ne').2 hlt)
    refine ⟨n * 2 ^ (52 - n.log2), 1022 + n.log2, ?_, ?_, ?_⟩
    · rw [Grid.one_eq, Nat.mul_assoc, ← pow_add]
      refine congrArg (n * 2 ^ ·) ?_
      rw [scale_binary64]
      omega
    · calc 2 ^ 52 = 2 ^ n.log2 * 2 ^ (52 - n.log2) := by
            rw [← pow_add]
            exact congrArg (2 ^ ·) (by omega)
        _ ≤ n * 2 ^ (52 - n.log2) := Nat.mul_le_mul_right _ (Nat.log2_self_le hpos.ne')
    · calc n * 2 ^ (52 - n.log2) < 2 ^ (n.log2 + 1) * 2 ^ (52 - n.log2) :=
            Nat.mul_lt_mul_of_pos_right Nat.lt_log2_self (Nat.two_pow_pos _)
        _ = 2 ^ 53 := by
            rw [← pow_add]
            exact congrArg (2 ^ ·) (by omega)
  · refine ⟨2 ^ 52, binary64.scale + 1, ?_, le_rfl, by decide⟩
    rw [Grid.one_eq, ← pow_add, ← pow_add]
    exact congrArg (2 ^ ·) (by omega)

theorem units_before {s k : Nat} (hlow : 2 ^ 52 ≤ s) (hhigh : s < 2 ^ 53) (hk : 0 < k) :
    (s - 1) * 2 ^ k ≤ binary64.units (k * 2 ^ 52 + s - 1) ∧
      binary64.units (k * 2 ^ 52 + s - 1) < s * 2 ^ k := by
  rcases Nat.lt_or_eq_of_le hlow with h | rfl
  · have hrank : k * 2 ^ 52 + s - 1 = k * 2 ^ 52 + (s - 1) := by omega
    rw [hrank, units_shifted (by omega) (by omega)]
    exact ⟨le_rfl, Nat.mul_lt_mul_of_pos_right (by omega) (Nat.two_pow_pos k)⟩
  · obtain ⟨k, rfl⟩ := Nat.exists_eq_add_of_lt hk
    have hrank : (0 + k + 1) * 2 ^ 52 + 2 ^ 52 - 1 = k * 2 ^ 52 + (2 ^ 53 - 1) := by omega
    have hpow : 2 ^ (0 + k + 1) = 2 * 2 ^ k := by ring
    rw [hrank, units_shifted (by omega) (by omega), hpow, ← Nat.mul_assoc, ← Nat.mul_assoc]
    exact ⟨Nat.mul_le_mul_right _ (by omega),
      Nat.mul_lt_mul_of_pos_right (by omega) (Nat.two_pow_pos k)⟩

theorem shift_lt_of_mul_eq {n s k a j : Nat} (h : n * 2 ^ a = s * 2 ^ k) (hlow : 2 ^ 52 ≤ s)
    (hn : n < 2 ^ (52 + j)) : k < a + j := by
  by_contra hk
  have hpow : 2 ^ (a + j) ≤ 2 ^ k := Nat.pow_le_pow_right Nat.two_pos (Nat.le_of_not_lt hk)
  have hle : 2 ^ (52 + j) * 2 ^ a ≤ n * 2 ^ a := by
    calc 2 ^ (52 + j) * 2 ^ a = 2 ^ 52 * 2 ^ (a + j) := by ring
      _ ≤ s * 2 ^ k := Nat.mul_le_mul hlow hpow
      _ = n * 2 ^ a := h.symm
  exact absurd (Nat.le_of_mul_le_mul_right hle (Nat.two_pow_pos a)) (Nat.not_le_of_lt hn)

namespace Shifted

variable {n s k : Nat} (h : Shifted n s k)

include h

theorem units_eq : binary64.units (k * 2 ^ 52 + s) = n * binary64.one := by
  rw [units_shifted h.low h.high.le, h.eq]

theorem nearest_eq : binary64.nearest (n * binary64.one) 1 = k * 2 ^ 52 + s := by
  rw [← h.units_eq, nearest_units]

theorem shift_pos (hn : 0 < n) : 0 < k := by
  refine Nat.pos_of_ne_zero ?_
  rintro rfl
  have hle : 2 ^ binary64.scale ≤ s := by
    have heq := h.eq
    rw [pow_zero, Nat.mul_one, Grid.one_eq] at heq
    exact heq ▸ Nat.le_mul_of_pos_left _ hn
  have hpow : 2 ^ 53 ≤ 2 ^ binary64.scale := by
    refine Nat.pow_le_pow_right Nat.two_pos ?_
    rw [scale_binary64]
    omega
  exact absurd h.high (Nat.not_lt_of_le (hpow.trans hle))

theorem eq_pow : n * 2 ^ binary64.scale = s * 2 ^ k := by
  rw [← Grid.one_eq, h.eq]

theorem shift_le (hn : n ≤ 2 ^ 53) : k ≤ binary64.scale + 1 :=
  Nat.le_of_lt_succ (shift_lt_of_mul_eq (j := 2) h.eq_pow h.low (by omega))

theorem shift_lt (hn : n < 2 ^ 53) : k < binary64.scale + 1 :=
  shift_lt_of_mul_eq (j := 1) h.eq_pow h.low hn

theorem rank_lt (hn : n ≤ 2 ^ 53) : k * 2 ^ 52 + s < 2047 * Nat.pow 2 52 := by
  have hk := h.shift_le hn
  have hs := h.high
  rw [scale_binary64] at hk
  rw [Nat.pow_eq]
  omega

end Shifted

end LivePage.Number
