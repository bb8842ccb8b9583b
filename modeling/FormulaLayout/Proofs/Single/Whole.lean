/-
Whole numbers in single precision.

There are two ways of converting a whole number. A small one is converted as a machine word and multiplied by one; a
great one is shifted until it has all its digits in front of the point, and rounded there. Either way it becomes the
nearest value (`nearest_natCast`), so a greater number does not become a lesser value.
-/
import FormulaLayout.Proofs.Single.Amount

namespace FormulaLayout.Single

open Float.Model Float.Model.UnpackedFloat

variable {n m : ℕ}

theorem nearest_toFloat32 (n : UInt64) : Nearest n.toFloat32 n.toNat := by
  have hholds := normalize_holds n.toNat 0 .positive
  rw [zpow_zero, mul_one, Int.cast_natCast] at hholds
  exact nearest_of_holds hholds

theorem value_one : value 1.0 = 1 := by
  decide +kernel

theorem isFinite_one : Float32.isFinite 1.0 := rfl

theorem isSingle_natCast (h : n ≤ 2 ^ 24) : IsSingle n := by
  refine ⟨n, 0, ?_, by norm_num, by simp⟩
  rw [Nat.abs_cast]
  exact_mod_cast h

/-- a small whole number is converted, and multiplied by one -/
theorem nearest_small (h : n < 2 ^ 23) : Nearest (n.toUInt64.toFloat32 * Float32.ofBits 0x3F800000) n := by
  have hone : value (Float32.ofBits 0x3F800000) = 1 := by decide +kernel
  have hsingle : IsSingle n := isSingle_natCast (by omega)
  have hword : n.toUInt64.toNat = n := UInt64.toNat_ofNat_of_lt' (h.trans (by decide))
  have hconverted := nearest_toFloat32 n.toUInt64
  rw [hword] at hconverted
  have hrange : |rounded n| < 2 ^ 128 := by
    have hcast : (n : ℚ) < 2 ^ 23 := by exact_mod_cast h
    rw [hsingle.rounded_eq, Nat.abs_cast]
    linarith
  obtain ⟨hfinite, hvalue⟩ := hconverted.finite hrange
  have hproduct := nearest_mul hfinite (rfl : (Float32.ofBits 0x3F800000).isFinite = true)
  rwa [hvalue, hsingle.rounded_eq, hone, mul_one] at hproduct

/-- a whole number is converted by multiplying its shifted digits by one -/
theorem ofScientific_eq_mul (hpos : 0 < n) {m : ℕ} (hm : m = n <<< Format.binary32.mantissaBits) (hshifted : 0 < m) :
    UnpackedFloat.ofScientific Format.binary32 n 0 =
      UnpackedFloat.mul Format.binary32 (.finite .positive m (-24) hshifted) (.finite .positive 1 0 one_pos) := by
  have hbelow : ¬ (0 : ℤ) > 2 ^ Format.binary32.exponentBits := by decide
  have habove : ¬ (0 : ℤ) < -((2 ^ Format.binary32.exponentBits : ℤ) + n.log2) := by
    change ¬ (0 : ℤ) < -(256 + (n.log2 : ℤ))
    omega
  have hle : (0 : ℤ) ≤ 0 := by decide
  simp only [UnpackedFloat.ofScientific, dif_neg hpos.ne', if_neg hbelow, if_neg habove, if_pos hle, ← hm]
  rfl

/-- a great whole number is rounded once -/
theorem nearest_great (h : 2 ^ 23 ≤ n) : Nearest (.ofModel (.ofScientific n 0)) n := by
  have hpos : 0 < n := by omega
  obtain ⟨m, hm⟩ : ∃ m, m = n <<< Format.binary32.mantissaBits := ⟨_, rfl⟩
  have hdigits : m = n * 2 ^ 24 := hm.trans (Nat.shiftLeft_eq n _)
  have hshifted : 0 < m := by omega
  have hholds := @mul_finite_holds .positive .positive m 1 (-24) 0 hshifted one_pos (Or.inl (by omega))
  have hproduct : signed .positive (m * 2 ^ (-24 : ℤ)) * signed .positive ((1 : ℕ) * 2 ^ (0 : ℤ)) = (n : ℚ) := by
    change (m : ℚ) * 2 ^ (-24 : ℤ) * ((1 : ℕ) * 2 ^ (0 : ℤ)) = n
    rw [hdigits]
    push_cast
    norm_num
    ring
  rw [← ofScientific_eq_mul hpos hm hshifted, hproduct] at hholds
  exact nearest_of_holds hholds

/-- a whole number becomes the nearest value -/
theorem nearest_natCast (n : ℕ) : Nearest (Float32.ofNat n) n := by
  change Nearest (Float32.ofScientific n false 0) n
  unfold Float32.ofScientific
  by_cases hsmall : n < 2 ^ 23
  · rw [dif_pos ⟨hsmall, by norm_num⟩]
    exact nearest_small hsmall
  · rw [dif_neg fun h => hsmall h.1]
    exact nearest_great (not_lt.1 hsmall)

theorem amount_natCast (n : ℕ) : IsAmount (n : Float32) ∧ amount (n : Float32) = held n :=
  (nearest_natCast n).isAmount (Nat.cast_nonneg n)

end FormulaLayout.Single
