/-
Coordinates in single precision.

A coordinate has either sign, so infinities cannot be ordered away as they are for sizes: two of them may make a value
that is no number. What is kept here instead is headroom. A coordinate is within `k` units if it is a number and at most
`k` times `2 ^ 119` from zero. Each operation adds the units of its operands, rounding takes none, and there are 512
units in the range.
-/
import FormulaLayout.Proofs.Single.Amount

namespace FormulaLayout.Single

/-- the value is a number, at most so many times `2 ^ 119` from zero -/
structure Within (k : ℕ) (x : Float32) : Prop where
  finite : x.isFinite
  bound : |value x| ≤ k * 2 ^ 119

variable {j k : ℕ} {x y : Float32} {q : ℚ}

theorem isSingle_units (hk : k < 512) : IsSingle (k * 2 ^ 119) := by
  refine ⟨k, 119, ?_, by norm_num, by push_cast; rfl⟩
  rw [Nat.abs_cast]
  omega

theorem Within.mono (h : Within j x) (hle : j ≤ k) : Within k x := by
  refine ⟨h.finite, h.bound.trans ?_⟩
  have hcast : (j : ℚ) ≤ k := by exact_mod_cast hle
  exact mul_le_mul_of_nonneg_right hcast (by positivity)

theorem within_zero (k : ℕ) : Within k 0.0 := by
  refine ⟨isFinite_zero, ?_⟩
  rw [value_zero, abs_zero]
  positivity

/-- the greater of two coordinates is one of them -/
theorem Within.larger (hx : Within k x) (hy : Within k y) : Within k (Scalar.larger x y) := by
  unfold Scalar.larger
  split_ifs
  · exact hy
  · exact hx

/-- a rounded result stays within the units of the exact one -/
theorem Nearest.within (h : Nearest x q) (hq : |q| ≤ k * 2 ^ 119) (hk : k < 512) : Within k x := by
  have hrounded := (isSingle_units hk).abs_rounded_le hq
  have hrange : (k : ℚ) * 2 ^ 119 < 2 ^ 128 := by
    have hcast : (k : ℚ) < 512 := by exact_mod_cast hk
    linarith
  obtain ⟨hfinite, hvalue⟩ := h.finite (hrounded.trans_lt hrange)
  exact ⟨hfinite, hvalue ▸ hrounded⟩

theorem Within.add (hx : Within j x) (hy : Within k y) (h : j + k < 512) : Within (j + k) (x + y) := by
  apply (nearest_add hx.finite hy.finite).within _ h
  calc |value x + value y| ≤ |value x| + |value y| := abs_add_le _ _
    _ ≤ j * 2 ^ 119 + k * 2 ^ 119 := add_le_add hx.bound hy.bound
    _ = (j + k : ℕ) * 2 ^ 119 := by push_cast; ring

theorem Within.sub (hx : Within j x) (hy : Within k y) (h : j + k < 512) : Within (j + k) (x - y) := by
  apply (nearest_sub hx.finite hy.finite).within _ h
  calc |value x - value y| ≤ |value x| + |value y| := abs_sub _ _
    _ ≤ j * 2 ^ 119 + k * 2 ^ 119 := add_le_add hx.bound hy.bound
    _ = (j + k : ℕ) * 2 ^ 119 := by push_cast; ring

theorem Within.half (hx : Within k x) (hk : k < 512) : Within k (x / 2.0) := by
  have htwo : value 2.0 ≠ 0 := by
    rw [value_two]
    norm_num
  apply (nearest_div hx.finite isFinite_two htwo).within _ hk
  rw [value_two, abs_div, abs_two]
  have hbound := hx.bound
  have hnonneg := abs_nonneg (value x)
  linarith

/-- a size of at most one unit -/
theorem IsAmount.within (hx : IsAmount x) (h : amount x ≤ 2 ^ 119) : Within 1 x := by
  have hfinite : x.isFinite := hx.isFinite_iff.2 (h.trans_lt (by norm_num))
  have hnonneg := hx.nonneg
  rw [amount_of_finite hfinite] at h hnonneg
  refine ⟨hfinite, ?_⟩
  rw [abs_of_nonneg hnonneg, Nat.cast_one, one_mul]
  exact h

/-- sizes of at most one unit differ by at most one -/
theorem IsAmount.within_sub (hx : IsAmount x) (hy : IsAmount y) (hboundX : amount x ≤ 2 ^ 119)
    (hboundY : amount y ≤ 2 ^ 119) : Within 1 (x - y) := by
  have hnonnegX := hx.nonneg
  have hnonnegY := hy.nonneg
  have hfiniteX := (hx.within hboundX).finite
  have hfiniteY := (hy.within hboundY).finite
  have hnearest := nearest_sub hfiniteX hfiniteY
  rw [← amount_of_finite hfiniteX, ← amount_of_finite hfiniteY] at hnearest
  apply hnearest.within _ (by norm_num)
  rw [Nat.cast_one, one_mul, abs_le]
  constructor <;> linarith

end FormulaLayout.Single
