import LivePage.Text.Letters

namespace LivePage.Text

variable {c : Char}

theorem isNameChar_iff : isNameChar c = true ↔
    (97 ≤ c.toNat ∧ c.toNat ≤ 122) ∨ (65 ≤ c.toNat ∧ c.toNat ≤ 90) ∨
      (48 ≤ c.toNat ∧ c.toNat ≤ 57) ∨ c.toNat = 95 ∨ c.toNat = 45 := by
  have hle : ∀ d : Char, (c ≤ d ↔ c.toNat ≤ d.toNat) ∧ (d ≤ c ↔ d.toNat ≤ c.toNat) := fun d ↦
    ⟨UInt32.le_iff_toNat_le, UInt32.le_iff_toNat_le⟩
  have heq : ∀ d : Char, c = d ↔ c.toNat = d.toNat := fun d ↦
    ⟨congrArg Char.toNat, fun hn ↦ Char.ext (UInt32.toNat_inj.1 hn)⟩
  simp only [isNameChar, isLetter, isDigit, Bool.or_eq_true, Bool.and_eq_true, decide_eq_true_eq,
    hle, heq, Char.reduceToNat, or_assoc]

theorem toNat_lowerChar (c : Char) : (lowerChar c).toNat =
    if 65 ≤ c.toNat ∧ c.toNat ≤ 90 then c.toNat + 32 else c.toNat := by
  have hcap : ('A' ≤ c ∧ c ≤ 'Z') ↔ 65 ≤ c.toNat ∧ c.toNat ≤ 90 :=
    and_congr UInt32.le_iff_toNat_le UInt32.le_iff_toNat_le
  unfold lowerChar
  simp only [hcap]
  split
  · next h =>
    have hvalid : (c.toNat + 32).isValidChar := .inl (by omega)
    rw [Char.ofNat, dif_pos hvalid]
    rfl
  · rfl

theorem lowerChar_lowerChar (c : Char) : lowerChar (lowerChar c) = lowerChar c := by
  refine Char.ext (UInt32.toNat_inj.1 ?_)
  change (lowerChar (lowerChar c)).toNat = (lowerChar c).toNat
  rw [toNat_lowerChar, if_neg]
  rw [toNat_lowerChar]
  split <;> omega

theorem lower_lower (s : String) : lower (lower s) = lower s := by
  simp only [lower, String.toList_ofList, List.map_map]
  congr 1
  exact List.map_congr_left fun c _ ↦ lowerChar_lowerChar c

theorem isNameChar_lowerChar (h : isNameChar c = true) : isNameChar (lowerChar c) = true := by
  rw [isNameChar_iff] at h ⊢
  rw [toNat_lowerChar]
  split <;> omega

theorem isName_iff {s : String} :
    isName s = true ↔ s.toList ≠ [] ∧ ∀ c ∈ s.toList, isNameChar c = true := by
  rw [isName, Bool.and_eq_true, decide_eq_true_eq, List.all_eq_true]

theorem isName_lower {s : String} (h : isName s = true) : isName (lower s) = true := by
  rw [isName_iff] at h ⊢
  rw [lower, String.toList_ofList]
  refine ⟨fun hnil ↦ h.1 (List.map_eq_nil_iff.1 hnil), fun c hc ↦ ?_⟩
  obtain ⟨d, hd, rfl⟩ := List.mem_map.1 hc
  exact isNameChar_lowerChar (h.2 d hd)

end LivePage.Text
