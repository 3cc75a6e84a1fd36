import LivePage.Data.Value
import LivePage.Proofs.Number.Digits
import LivePage.Proofs.Number.Exact

namespace LivePage.Number

/-- The decimal has no fraction and is the number `n`. -/
structure Decimal.Spells (d : Decimal) (n : Nat) : Prop where
  nonneg : 0 ≤ d.exponent
  value : d.digits * 10 ^ d.exponent.toNat = n

theorem onGrid?_eq_some {tie : Tie} {rank : Nat} {e : Int} {d : Decimal}
    (h : onGrid? tie rank e = some d) : d.exponent = e ∧ readsBack rank d.digits e = true := by
  unfold onGrid? at h
  extract_lets num den below twice upperFirst first second at h
  split at h
  · next hfirst =>
    obtain rfl := Option.some.inj h
    exact ⟨rfl, hfirst⟩
  · split at h
    · next hsecond =>
      obtain rfl := Option.some.inj h
      exact ⟨rfl, hsecond⟩
    · cases h

theorem le_of_readsBack {rank d : Nat} {e : Int} (he : 0 ≤ e) (h : readsBack rank d e = true) :
    binary64.units (rank - 1) + binary64.units rank ≤ d * 10 ^ e.toNat * (2 * binary64.one) ∧
      d * 10 ^ e.toNat * (2 * binary64.one) ≤ binary64.units rank + binary64.units (rank + 1) := by
  have hpower : Nat.pow 10 (-e).toNat = 1 := by
    rw [Int.toNat_of_nonpos (Int.neg_nonpos_of_nonneg he)]
  unfold readsBack at h
  dsimp only at h
  rw [hpower, Nat.mul_one, Nat.mul_one, Nat.pow_eq] at h
  split at h
  · rw [Bool.and_eq_true, decide_eq_true_eq, decide_eq_true_eq] at h
    exact h
  · rw [Bool.and_eq_true, decide_eq_true_eq, decide_eq_true_eq] at h
    exact ⟨h.1.le, h.2.le⟩

/-- A number is told by a step that is shorter than its unit, and but for its neighbours by one that
is as long. -/
theorem near_of_step {n v unit step : Nat} (hlow : n * unit ≤ v * unit + step)
    (hhigh : v * unit ≤ n * unit + step) :
    (step < unit → v = n) ∧ (0 < unit → step ≤ unit → n ≤ v + 1 ∧ v ≤ n + 1) := by
  refine ⟨fun hstep ↦ ?_, fun hunit hstep ↦ ⟨?_, ?_⟩⟩
  · refine Nat.le_antisymm (Nat.le_of_lt_succ ?_) (Nat.le_of_lt_succ ?_)
    · refine Nat.lt_of_mul_lt_mul_right (a := unit) ?_
      rw [Nat.succ_mul]
      omega
    · refine Nat.lt_of_mul_lt_mul_right (a := unit) ?_
      rw [Nat.succ_mul]
      omega
  · refine Nat.le_of_mul_le_mul_right ?_ hunit
    rw [Nat.succ_mul]
    omega
  · refine Nat.le_of_mul_le_mul_right ?_ hunit
    rw [Nat.succ_mul]
    omega

namespace Shifted

variable {n s k : Nat} (h : Shifted n s k)

include h

theorem units_after : binary64.units (k * 2 ^ 52 + s + 1) = s * 2 ^ k + 2 ^ k := by
  rw [Nat.add_assoc, units_shifted (Nat.le_succ_of_le h.low) h.high, Nat.succ_mul]

theorem readsBack_self (hpos : 0 < n) : readsBack (k * 2 ^ 52 + s) n 0 = true := by
  have hbefore := (units_before h.low h.high (h.shift_pos hpos)).2
  have hpow := Nat.two_pow_pos k
  have hdouble : n * (2 * binary64.one) = 2 * (s * 2 ^ k) := by
    rw [← h.eq, Nat.mul_left_comm]
  unfold readsBack
  dsimp only
  rw [h.units_after, units_shifted h.low h.high.le]
  simp only [Int.toNat_zero, Int.neg_zero, Nat.pow_eq, pow_zero, Nat.mul_one, hdouble]
  split
  · rw [Bool.and_eq_true, decide_eq_true_eq, decide_eq_true_eq]
    omega
  · rw [Bool.and_eq_true, decide_eq_true_eq, decide_eq_true_eq]
    omega

theorem eq_of_readsBack (hpos : 0 < n) (hn : n ≤ 2 ^ 53) {d : Nat} {e : Int} (he : 0 < e)
    (hback : readsBack (k * 2 ^ 52 + s) d e = true) : d * 10 ^ e.toNat = n := by
  obtain ⟨hlow, hhigh⟩ := le_of_readsBack he.le hback
  have hbefore := (units_before h.low h.high (h.shift_pos hpos)).1
  have hdouble : n * (2 * binary64.one) = 2 * (s * 2 ^ k) := by
    rw [← h.eq, Nat.mul_left_comm]
  rw [units_shifted h.low h.high.le] at hlow hhigh
  rw [h.units_after] at hhigh
  rw [Nat.sub_mul, Nat.one_mul] at hbefore
  have habove : n * (2 * binary64.one) ≤ d * 10 ^ e.toNat * (2 * binary64.one) + 2 ^ k := by omega
  have hbelow : d * 10 ^ e.toNat * (2 * binary64.one) ≤ n * (2 * binary64.one) + 2 ^ k := by omega
  obtain ⟨hshort, hlong⟩ := near_of_step habove hbelow
  rcases Nat.lt_or_eq_of_le hn with hlt | hbound
  · have hpow := Nat.pow_lt_pow_right Nat.one_lt_two (h.shift_lt hlt)
    rw [pow_succ', ← Grid.one_eq] at hpow
    exact hshort hpow
  · have hpow := Nat.pow_le_pow_right Nat.two_pos (h.shift_le hn)
    rw [pow_succ', ← Grid.one_eq] at hpow
    have hnear := hlong (Nat.mul_pos Nat.two_pos binary64.one_pos) hpow
    have hten : 10 ∣ d * 10 ^ e.toNat := Nat.dvd_mul_left_of_dvd (dvd_pow_self 10 (by omega)) d
    omega

theorem onGrid?_zero (hpos : 0 < n) (tie : Tie) :
    onGrid? tie (k * 2 ^ 52 + s) 0 = some ⟨n, 0⟩ := by
  have hnum : binary64.units (k * 2 ^ 52 + s) * Nat.pow 10 (-(0 : Int)).toNat = n * binary64.one := by
    rw [h.units_eq, Int.neg_zero, Int.toNat_zero, Nat.pow_eq, pow_zero, Nat.mul_one]
  have hden : Nat.pow 10 (0 : Int).toNat * binary64.one = binary64.one := by
    rw [Int.toNat_zero, Nat.pow_eq, pow_zero, Nat.one_mul]
  have hunit := binary64.one_pos
  unfold onGrid?
  dsimp only
  rw [hnum, hden, Nat.mul_div_cancel _ hunit, Nat.mul_mod_left, Nat.mul_zero,
    decide_eq_false (Nat.not_lt_zero _), decide_eq_false hunit.ne']
  simp only [Bool.false_or, Bool.false_and, Bool.false_eq_true, if_false, h.readsBack_self hpos,
    if_true]

/-- The search goes through coarser grids first, and ends on the grid of the whole numbers. -/
theorem searchGrids_spells (hpos : 0 < n) (hn : n ≤ 2 ^ 53) (tie : Tie) {fuel : Nat} {e : Int}
    (he : 0 ≤ e) (hfuel : e < fuel) :
    ∃ d, searchGrids tie (k * 2 ^ 52 + s) fuel e = some d ∧ d.Spells n := by
  induction fuel generalizing e with
  | zero => omega
  | succ fuel ih =>
    rw [searchGrids]
    rcases Int.lt_or_eq_of_le he with hlt | rfl
    · cases hgrid : onGrid? tie (k * 2 ^ 52 + s) e with
      | some d =>
        obtain ⟨rfl, hback⟩ := onGrid?_eq_some hgrid
        exact ⟨d, rfl, he, h.eq_of_readsBack hpos hn hlt hback⟩
      | none => exact ih (by omega) (by omega)
    · rw [h.onGrid?_zero hpos tie]
      exact ⟨⟨n, 0⟩, rfl, le_rfl, Nat.mul_one n⟩

theorem topExponent_bounds (hpos : 0 < n) (hn : n ≤ 2 ^ 53) :
    0 ≤ topExponent (k * 2 ^ 52 + s) ∧ topExponent (k * 2 ^ 52 + s) < (20 : Nat) := by
  have hlog : n.log2 < 54 := (Nat.log2_lt hpos.ne').2 (by omega)
  rw [topExponent, h.units_eq, Grid.one_eq, log2_mul_pow hpos, scale_binary64]
  omega

theorem shortest_spells (hpos : 0 < n) (hn : n ≤ 2 ^ 53) (tie : Tie) :
    (shortest tie (k * 2 ^ 52 + s)).Spells n := by
  obtain ⟨htop, hfuel⟩ := h.topExponent_bounds hpos hn
  obtain ⟨d, hd, hspells⟩ := h.searchGrids_spells hpos hn tie htop hfuel
  rw [shortest, hd]
  exact hspells

end Shifted

theorem Decimal.Spells.stripZeros {d : Decimal} {n : Nat} (h : d.Spells n) (fuel : Nat) :
    (d.stripZeros fuel).Spells n := by
  fun_induction Decimal.stripZeros fuel d with
  | case1 d => exact h
  | case2 fuel d hzero ih =>
    refine ih ⟨Int.le_add_one h.nonneg, ?_⟩
    obtain ⟨e, he⟩ := Int.eq_ofNat_of_zero_le h.nonneg
    have hvalue := h.value
    have hdigits : d.digits / 10 * 10 = d.digits :=
      Nat.div_mul_cancel (Nat.dvd_of_mod_eq_zero hzero.2)
    rw [he] at hvalue ⊢
    rw [← hvalue]
    change d.digits / 10 * 10 ^ (e + 1) = d.digits * 10 ^ e
    rw [pow_succ', ← Nat.mul_assoc, hdigits]
  | case3 fuel d hstop => exact h

theorem units_eq_of_whole? {rank n : Nat} (h : whole? rank = some n) :
    binary64.units rank = n * binary64.one := by
  unfold whole? at h
  dsimp only at h
  split at h
  · next hmod =>
    obtain rfl := Option.some.inj h
    exact (Nat.div_mul_cancel (Nat.dvd_of_mod_eq_zero hmod)).symm
  · cases h

theorem whole?_of_units_eq {rank n : Nat} (h : binary64.units rank = n * binary64.one) :
    whole? rank = some n := by
  unfold whole?
  dsimp only
  rw [h, Nat.mul_mod_left, Nat.mul_div_cancel _ binary64.one_pos, if_pos rfl]

namespace Style

variable {style : Style} {n : Nat}

/-- The style writes the whole number `n` without an exponent. -/
def Plainly (style : Style) (n : Nat) : Prop :=
  ∀ bounds ∈ style.plain?, bounds.1 ≤ ((Nat.toDigits 10 n).length : Int) - 1 ∧
    ((Nat.toDigits 10 n).length : Int) - 1 < bounds.2

theorem decimalText_of_spells {d : Decimal} (h : d.Spells n) (hd : 0 < d.digits ∨ d.exponent = 0)
    (hplain : style.Plainly n) : style.decimalText d = Nat.repr n ++ style.wholeTail := by
  have hdigits : Nat.toDigits 10 d.digits ++ List.replicate d.exponent.toNat '0' =
      Nat.toDigits 10 n := by
    rw [← h.value]
    rcases hd with hpos | hzero
    · exact (toDigits_mul_pow hpos _).symm
    · rw [hzero]
      simp
  have hlength : d.exponent + (Nat.toDigits 10 d.digits).length - 1 =
      ((Nat.toDigits 10 n).length : Int) - 1 := by
    have := h.nonneg
    rw [← hdigits, List.length_append, List.length_replicate]
    omega
  have htext : style.plainText (Nat.toDigits 10 d.digits) d.exponent =
      Nat.repr n ++ style.wholeTail := by
    rw [plainText, if_pos h.nonneg, hdigits, Nat.repr_eq_ofList_toDigits]
  unfold decimalText
  dsimp only
  rw [hlength, htext]
  unfold Plainly at hplain
  cases hstyle : style.plain? with
  | none => rfl
  | some bounds =>
    obtain ⟨hlow, hhigh⟩ := hplain bounds hstyle
    simp [hlow, hhigh]

theorem write_whole {negative : Bool} {rank : Fin (2047 * Nat.pow 2 52)}
    (h : whole? rank.val = some n) (hn : n ≤ 2 ^ 53) (hplain : style.Plainly n) :
    style.write (.finite negative rank) = sign negative ++ (Nat.repr n ++ style.wholeTail) := by
  have hunits := units_eq_of_whole? h
  unfold write
  dsimp only
  refine congrArg (sign negative ++ ·) ?_
  rcases Nat.eq_zero_or_pos n with rfl | hpos
  · have hrank : rank.val = 0 := units_injective (by rw [hunits, units_zero, Nat.zero_mul])
    rw [if_pos hrank]
    exact decimalText_of_spells ⟨le_rfl, rfl⟩ (.inr rfl) hplain
  · obtain ⟨s, k, hshifted⟩ := exists_shifted_whole hpos hn
    have hrank : rank.val = k * 2 ^ 52 + s := units_injective (hunits.trans hshifted.units_eq.symm)
    have hlow := hshifted.low
    rw [if_neg (by omega), hrank]
    have hspells := (hshifted.shortest_spells hpos hn style.tie).stripZeros 400
    refine decimalText_of_spells hspells (.inl (Nat.pos_of_ne_zero fun hzero ↦ ?_)) hplain
    have hvalue := hspells.value
    rw [hzero, Nat.zero_mul] at hvalue
    omega

end Style

theorem sign_and_ne_zero (n : Int) :
    Style.sign (decide (n < 0) && decide (n.natAbs ≠ 0)) = Style.sign (decide (n < 0)) := by
  by_cases h : n < 0
  · have hne : n.natAbs ≠ 0 := by omega
    simp [h, hne]
  · simp [h]

theorem ofRank_of_lt {rank : Nat} (negative : Bool) (h : rank < 2047 * Nat.pow 2 52) :
    ofRank negative rank = .finite negative ⟨rank, h⟩ :=
  dif_pos h

theorem exists_ofInt {n : Int} (h : n.natAbs ≤ 2 ^ 53) :
    ∃ rank, ofInt n = .finite (n < 0) rank ∧ whole? rank.val = some n.natAbs := by
  have hof : ofInt n = ofRank (n < 0) (binary64.nearest (n.natAbs * binary64.one) 1) := by
    rw [ofInt, ofRatio]
  rw [hof]
  rcases Nat.eq_zero_or_pos n.natAbs with hzero | hpos
  · have hlt : 0 < 2047 * Nat.pow 2 52 := by decide
    rw [hzero, Nat.zero_mul, nearest_zero, ofRank_of_lt _ hlt]
    exact ⟨⟨0, hlt⟩, rfl, whole?_of_units_eq (units_zero.trans (Nat.zero_mul _).symm)⟩
  · obtain ⟨s, k, hshifted⟩ := exists_shifted_whole hpos h
    rw [hshifted.nearest_eq, ofRank_of_lt _ (hshifted.rank_lt h)]
    exact ⟨⟨_, hshifted.rank_lt h⟩, rfl, whole?_of_units_eq hshifted.units_eq⟩

theorem display_of_whole? {negative : Bool} {rank : Fin (2047 * Nat.pow 2 52)} {n : Nat}
    (h : whole? rank.val = some n) :
    display (.finite negative rank) =
      if n < Nat.pow 10 15 then Style.sign (negative && n ≠ 0) ++ Nat.repr n
      else plainStyle.write (.finite negative rank) := by
  rw [display, h]

theorem plainStyle_write {negative : Bool} {rank : Fin (2047 * Nat.pow 2 52)} {n : Nat}
    (h : whole? rank.val = some n) (hn : n ≤ 2 ^ 53) :
    plainStyle.write (.finite negative rank) = Style.sign negative ++ Nat.repr n := by
  have hplain : plainStyle.Plainly n := fun _ hbounds ↦ by cases hbounds
  rw [Style.write_whole h hn hplain, plainStyle, String.append_empty]

theorem display_ofInt_text {n : Int} (h : n.natAbs ≤ 2 ^ 53) :
    display (ofInt n) = Style.sign (n < 0) ++ Nat.repr n.natAbs := by
  obtain ⟨rank, hof, hwhole⟩ := exists_ofInt h
  rw [hof, display_of_whole? hwhole]
  split
  · rw [sign_and_ne_zero]
  · exact plainStyle_write hwhole h

theorem readInt?_display_ofInt {n : Int} (h : n.natAbs ≤ 2 ^ 53) :
    readInt? (display (ofInt n)) = some n := by
  refine readInt?_repr ((display_ofInt_text h).trans ?_)
  simp only [Style.sign, decide_eq_true_eq]

end Number

/-- Integers up to `2 ^ 53` in absolute value are numbers without rounding, and are displayed as they
are written in decimal digits, with a sign if they are negative. So the text of small whole numbers
and the general text are the same for all of them, and different integers look different. -/
theorem Value.display_ofInt {n : Int} (h : n.natAbs ≤ 2 ^ 53) :
    (Value.number (.ofInt n)).display = (if n < 0 then "-" else "") ++ Nat.repr n.natAbs ∧
    (∃ rank, Number.ofInt n = .finite (n < 0) rank ∧ Number.whole? rank.val = some n.natAbs ∧
      Number.plainStyle.write (.ofInt n) =
        Number.Style.sign (n < 0 && n.natAbs ≠ 0) ++ Nat.repr n.natAbs) ∧
    Number.readInt? (Value.number (.ofInt n)).display = some n ∧
    ∀ m : Int, m.natAbs ≤ 2 ^ 53 →
      (Value.number (.ofInt m)).display = (Value.number (.ofInt n)).display → m = n := by
  have hread : Number.readInt? (Value.number (.ofInt n)).display = some n :=
    Number.readInt?_display_ofInt h
  refine ⟨?_, ?_, hread, fun m hm hsame ↦ ?_⟩
  · rw [display, Number.display_ofInt_text h, Number.Style.sign]
    simp only [decide_eq_true_eq]
  · obtain ⟨rank, hof, hwhole⟩ := Number.exists_ofInt h
    rw [hof, Number.sign_and_ne_zero]
    exact ⟨rank, rfl, hwhole, Number.plainStyle_write hwhole h⟩
  · have hother : Number.readInt? (Value.number (.ofInt m)).display = some m :=
      Number.readInt?_display_ofInt hm
    rw [hsame, hread] at hother
    exact (Option.some.inj hother).symm

theorem Value.display_ofInt_bound :
    (-9007199254740992 : Int).natAbs ≤ 2 ^ 53 ∧ (9007199254740991 : Int).natAbs ≤ 2 ^ 53 ∧
      (Value.number (.ofInt (-9007199254740992))).display = "-9007199254740992" ∧
      (Value.number (.ofInt 9007199254740991)).display = "9007199254740991" :=
  ⟨by decide, by decide, (Value.display_ofInt (by decide)).1.trans (by decide),
    (Value.display_ofInt (by decide)).1.trans (by decide)⟩

end LivePage
