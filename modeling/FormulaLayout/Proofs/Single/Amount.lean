/-
Sizes in single precision.

A size is not negative and is a number or infinite (`IsAmount`). Infinity counts as `2 ^ 128`, the first number beyond
the range (`amount`); then every comparison of sizes is one of numbers, a sum or a product of sizes is the exact one
rounded and cut off there (`held`), and rounding keeps the order. So bounds that hold of exact sizes hold of rounded
ones as long as each side is rounded once.
-/
import FormulaLayout.Proofs.Single.Order

namespace FormulaLayout.Single

open Float.Model Float.Model.UnpackedFloat

/-! ## Infinity as a number -/

/-- a number that is not negative, or infinity -/
def IsAmount (x : Float32) : Prop :=
  x.isFinite ∧ 0 ≤ value x ∨ unpacked x = .infinity .positive

/-- the number that a value is; infinity counts as the first number beyond the range -/
def amount (x : Float32) : ℚ :=
  match unpacked x with
  | .infinity _ => 2 ^ 128
  | u => unpackedValue u

variable {x y z w c : Float32} {p q : ℚ}

theorem amount_of_finite (h : x.isFinite) : amount x = value x := by
  rw [value, amount]
  obtain ⟨s, hx⟩ | ⟨s, m, e, hm, hx⟩ := unpacked_of_isFinite h
  · rw [hx]
  · rw [hx]

theorem amount_of_infinite (h : unpacked x = .infinity .positive) : amount x = 2 ^ 128 := by
  rw [amount, h]

theorem not_isFinite_of_infinite {s : Sign} (h : unpacked x = .infinity s) : ¬ x.isFinite := by
  change ¬ (unpacked x).isFinite
  rw [h]
  exact Bool.false_ne_true

theorem isAmount_of_finite (h : x.isFinite) (hnonneg : 0 ≤ value x) : IsAmount x :=
  Or.inl ⟨h, hnonneg⟩

theorem IsAmount.nonneg (h : IsAmount x) : 0 ≤ amount x := by
  rcases h with ⟨hfinite, hnonneg⟩ | hinfinite
  · rwa [amount_of_finite hfinite]
  · rw [amount_of_infinite hinfinite]
    positivity

theorem IsAmount.le_limit (h : IsAmount x) : amount x ≤ 2 ^ 128 := by
  rcases h with ⟨hfinite, -⟩ | hinfinite
  · rw [amount_of_finite hfinite]
    exact (le_abs_self _).trans (abs_value_lt hfinite).le
  · exact (amount_of_infinite hinfinite).le

/-- a size is finite exactly if it counts as a number within the range -/
theorem IsAmount.isFinite_iff (h : IsAmount x) : x.isFinite ↔ amount x < 2 ^ 128 := by
  rcases h with ⟨hfinite, -⟩ | hinfinite
  · rw [amount_of_finite hfinite]
    exact iff_of_true hfinite ((le_abs_self _).trans_lt (abs_value_lt hfinite))
  · rw [amount_of_infinite hinfinite]
    exact iff_of_false (not_isFinite_of_infinite hinfinite) (lt_irrefl _)

/-- a size that is bounded by a finite one is finite -/
theorem IsAmount.finite_of_le (hx : IsAmount x) (hy : y.isFinite) (h : amount x ≤ amount y) : x.isFinite := by
  rw [hx.isFinite_iff]
  rw [amount_of_finite hy] at h
  exact h.trans_lt ((le_abs_self _).trans_lt (abs_value_lt hy))

theorem unpacked_zero : unpacked 0.0 = .zero .positive := rfl

theorem isFinite_zero : Float32.isFinite 0.0 := rfl

theorem isAmount_zero : IsAmount 0.0 :=
  isAmount_of_finite isFinite_zero (by rw [value, unpacked_zero]; rfl)

theorem amount_zero : amount 0.0 = 0 := by
  rw [amount, unpacked_zero]
  rfl

theorem value_zero : value 0.0 = 0 :=
  (amount_of_finite isFinite_zero).symm.trans amount_zero

/-- sizes are compared as the numbers they count as -/
theorem IsAmount.le_iff (hx : IsAmount x) (hy : IsAmount y) : x ≤ y ↔ amount x ≤ amount y := by
  rcases id hx with ⟨hfiniteX, -⟩ | hinfiniteX
  · rcases hy with ⟨hfiniteY, -⟩ | hinfiniteY
    · rw [le_iff_value hfiniteX hfiniteY, amount_of_finite hfiniteX, amount_of_finite hfiniteY]
    · refine iff_of_true ?_ (amount_of_infinite hinfiniteY ▸ hx.le_limit)
      rw [le_iff_unpacked, hinfiniteY]
      obtain ⟨s, hx⟩ | ⟨s, m, e, hm, hx⟩ := unpacked_of_isFinite hfiniteX
      · rw [hx]; rfl
      · rw [hx]; cases s <;> rfl
  · rcases id hy with ⟨hfiniteY, -⟩ | hinfiniteY
    · have hlt := hy.isFinite_iff.1 hfiniteY
      refine iff_of_false ?_ (by rw [amount_of_infinite hinfiniteX]; exact not_le.2 hlt)
      rw [le_iff_unpacked, hinfiniteX]
      obtain ⟨s, hy⟩ | ⟨s, m, e, hm, hy⟩ := unpacked_of_isFinite hfiniteY
      · rw [hy]; exact Bool.false_ne_true
      · rw [hy]; exact Bool.false_ne_true
    · refine iff_of_true ?_ (by rw [amount_of_infinite hinfiniteX, amount_of_infinite hinfiniteY])
      rw [le_iff_unpacked, hinfiniteX, hinfiniteY]
      rfl

/-! ## Rounding within the range -/

/-- a number rounded, and cut off behind the range -/
def held (q : ℚ) : ℚ :=
  min (rounded q) (2 ^ 128)

theorem held_mono (h : p ≤ q) : held p ≤ held q :=
  min_le_min_right _ (rounded_mono h)

theorem IsAmount.isSingle (h : IsAmount x) : IsSingle (amount x) := by
  rcases h with ⟨hfinite, -⟩ | hinfinite
  · rw [amount_of_finite hfinite]
    exact isSingle_value hfinite
  · rw [amount_of_infinite hinfinite]
    exact ⟨1, 128, by norm_num, by norm_num, by norm_num⟩

/-- a size is not changed by rounding -/
theorem IsAmount.held_eq (h : IsAmount x) : held (amount x) = amount x := by
  rw [held, h.isSingle.rounded_eq, min_eq_left h.le_limit]

/-- a bound that is a size still holds behind the rounding -/
theorem IsAmount.held_le (h : IsAmount x) (hq : q ≤ amount x) : held q ≤ amount x :=
  (held_mono hq).trans_eq h.held_eq

theorem IsAmount.le_held (h : IsAmount x) (hq : amount x ≤ q) : amount x ≤ held q :=
  h.held_eq.ge.trans (held_mono hq)

/-- a rounded result that is not negative is a size -/
theorem Nearest.isAmount (h : Nearest x q) (hq : 0 ≤ q) : IsAmount x ∧ amount x = held q := by
  have hnonneg := rounded_nonneg hq
  by_cases hlt : rounded q < 2 ^ 128
  · obtain ⟨hfinite, hvalue⟩ := h.finite (by rwa [abs_of_nonneg hnonneg])
    rw [amount_of_finite hfinite, held, min_eq_left hlt.le]
    exact ⟨isAmount_of_finite hfinite (hvalue ▸ hnonneg), hvalue⟩
  · have hinfinite := h.infinite (not_lt.1 hlt)
    rw [amount_of_infinite hinfinite, held, min_eq_right (not_lt.1 hlt)]
    exact ⟨Or.inr hinfinite, rfl⟩

/-- what is beyond the range counts as its end -/
theorem held_of_limit_le (h : 2 ^ 128 ≤ q) : held q = 2 ^ 128 := by
  have hsingle : IsSingle (2 ^ 128) := ⟨1, 128, by norm_num, by norm_num, by norm_num⟩
  exact min_eq_right (hsingle.le_rounded h)

/-! ## The operations on sizes -/

/-- a size taken apart: infinite, zero or a positive number -/
theorem IsAmount.unpacked_cases (h : IsAmount x) :
    unpacked x = .infinity .positive ∨ (∃ s, unpacked x = .zero s) ∨
      ∃ m e hm, unpacked x = .finite .positive m e hm := by
  rcases h with ⟨hfinite, hnonneg⟩ | hinfinite
  · obtain ⟨s, hx⟩ | ⟨s, m, e, hm, hx⟩ := unpacked_of_isFinite hfinite
    · exact Or.inr (Or.inl ⟨s, hx⟩)
    · cases s with
      | positive => exact Or.inr (Or.inr ⟨m, e, hm, hx⟩)
      | negative =>
        have hpos := magnitude_pos hm e
        rw [value, hx] at hnonneg
        change 0 ≤ -((m : ℚ) * 2 ^ e) at hnonneg
        linarith
  · exact Or.inl hinfinite

theorem unpacked_pack_infinity (s : Sign) : unpacked (.ofModel (.pack (.infinity s))) = .infinity s :=
  unpack_packedInfinity s

/-- infinity and any size make infinity -/
theorem unpacked_add_infinite (hx : unpacked x = .infinity .positive) (hy : IsAmount y) :
    unpacked (x + y) = .infinity .positive := by
  have hsum : UnpackedFloat.add Format.binary32 (unpacked x) (unpacked y) = .infinity .positive := by
    rw [hx]
    rcases hy.unpacked_cases with hy | ⟨s, hy⟩ | ⟨m, e, hm, hy⟩
    · rw [hy]; rfl
    · rw [hy]; rfl
    · rw [hy]; rfl
  change unpacked (.ofModel (.pack (UnpackedFloat.add Format.binary32 (unpacked x) (unpacked y)))) = _
  rw [hsum]
  exact unpacked_pack_infinity _

/-- any size and infinity make infinity -/
theorem unpacked_infinite_add (hx : IsAmount x) (hy : unpacked y = .infinity .positive) :
    unpacked (x + y) = .infinity .positive := by
  have hsum : UnpackedFloat.add Format.binary32 (unpacked x) (unpacked y) = .infinity .positive := by
    rw [hy]
    rcases hx.unpacked_cases with hx | ⟨s, hx⟩ | ⟨m, e, hm, hx⟩
    · rw [hx]; rfl
    · rw [hx]; rfl
    · rw [hx]; rfl
  change unpacked (.ofModel (.pack (UnpackedFloat.add Format.binary32 (unpacked x) (unpacked y)))) = _
  rw [hsum]
  exact unpacked_pack_infinity _

/-- **A sum of sizes** is the exact sum, rounded and cut off -/
theorem IsAmount.add (hx : IsAmount x) (hy : IsAmount y) :
    IsAmount (x + y) ∧ amount (x + y) = held (amount x + amount y) := by
  have hnonnegX := hx.nonneg
  have hnonnegY := hy.nonneg
  by_cases hfiniteX : x.isFinite
  · by_cases hfiniteY : y.isFinite
    · have hnearest := nearest_add hfiniteX hfiniteY
      rw [← amount_of_finite hfiniteX, ← amount_of_finite hfiniteY] at hnearest
      exact hnearest.isAmount (add_nonneg hnonnegX hnonnegY)
    · have hinfinite := unpacked_infinite_add hx (hy.resolve_left fun h => hfiniteY h.1)
      have hlimit : 2 ^ 128 ≤ amount y := not_lt.1 (hy.isFinite_iff.not.1 hfiniteY)
      rw [amount_of_infinite hinfinite, held_of_limit_le (by linarith)]
      exact ⟨Or.inr hinfinite, rfl⟩
  · have hinfinite := unpacked_add_infinite (hx.resolve_left fun h => hfiniteX h.1) hy
    have hlimit : 2 ^ 128 ≤ amount x := not_lt.1 (hx.isFinite_iff.not.1 hfiniteX)
    rw [amount_of_infinite hinfinite, held_of_limit_le (by linarith)]
    exact ⟨Or.inr hinfinite, rfl⟩

theorem IsAmount.le_add_right (hx : IsAmount x) (hy : IsAmount y) : amount x ≤ amount (x + y) := by
  have hnonneg := hy.nonneg
  rw [(hx.add hy).2]
  exact hx.le_held (by linarith)

theorem IsAmount.le_add_left (hx : IsAmount x) (hy : IsAmount y) : amount y ≤ amount (x + y) := by
  have hnonneg := hx.nonneg
  rw [(hx.add hy).2]
  exact hy.le_held (by linarith)

theorem IsAmount.add_le_add (hx : IsAmount x) (hy : IsAmount y) (hz : IsAmount z) (hw : IsAmount w)
    (h : amount x ≤ amount z) (h' : amount y ≤ amount w) : amount (x + y) ≤ amount (z + w) := by
  rw [(hx.add hy).2, (hz.add hw).2]
  apply held_mono
  linarith

/-- a positive ratio of at most one -/
structure IsRatio (c : Float32) : Prop where
  finite : c.isFinite
  pos : 0 < value c
  le_one : value c ≤ 1

/-- a positive number taken apart -/
theorem unpacked_of_pos (h : x.isFinite) (hpos : 0 < value x) : ∃ m e hm, unpacked x = .finite .positive m e hm := by
  rcases (isAmount_of_finite h hpos.le).unpacked_cases with hx | ⟨s, hx⟩ | hx
  · exact absurd h (not_isFinite_of_infinite hx)
  · rw [value, hx] at hpos
    exact absurd hpos (lt_irrefl _)
  · exact hx

/-- **A product of finite sizes** is the exact product, rounded and cut off -/
theorem IsAmount.mul (hx : IsAmount x) (hy : IsAmount y) (hfiniteX : x.isFinite) (hfiniteY : y.isFinite) :
    IsAmount (x * y) ∧ amount (x * y) = held (amount x * amount y) := by
  have hnearest := nearest_mul hfiniteX hfiniteY
  rw [← amount_of_finite hfiniteX, ← amount_of_finite hfiniteY] at hnearest
  exact hnearest.isAmount (mul_nonneg hx.nonneg hy.nonneg)

theorem unpacked_infinite_mul (hx : unpacked x = .infinity .positive) (hc : c.isFinite) (hpos : 0 < value c) :
    unpacked (x * c) = .infinity .positive := by
  obtain ⟨m, e, hm, hunpacked⟩ := unpacked_of_pos hc hpos
  change unpacked (.ofModel (.pack (UnpackedFloat.mul Format.binary32 (unpacked x) (unpacked c)))) = _
  rw [hx, hunpacked]
  exact unpacked_pack_infinity _

theorem unpacked_mul_infinite (hc : c.isFinite) (hpos : 0 < value c) (hx : unpacked x = .infinity .positive) :
    unpacked (c * x) = .infinity .positive := by
  obtain ⟨m, e, hm, hunpacked⟩ := unpacked_of_pos hc hpos
  change unpacked (.ofModel (.pack (UnpackedFloat.mul Format.binary32 (unpacked c) (unpacked x)))) = _
  rw [hx, hunpacked]
  exact unpacked_pack_infinity _

/-- a product with a positive factor is a size, and keeps the order -/
theorem IsAmount.mul_le_mul_right (hx : IsAmount x) (hy : IsAmount y) (hc : c.isFinite) (hpos : 0 < value c)
    (h : amount x ≤ amount y) : IsAmount (x * c) ∧ IsAmount (y * c) ∧ amount (x * c) ≤ amount (y * c) := by
  have hfactor := isAmount_of_finite hc hpos.le
  by_cases hfiniteY : y.isFinite
  · have hfiniteX := hx.finite_of_le hfiniteY h
    obtain ⟨hproductX, hamountX⟩ := hx.mul hfactor hfiniteX hc
    obtain ⟨hproductY, hamountY⟩ := hy.mul hfactor hfiniteY hc
    refine ⟨hproductX, hproductY, ?_⟩
    rw [hamountX, hamountY]
    exact held_mono (mul_le_mul_of_nonneg_right h hfactor.nonneg)
  · have hinfiniteY := unpacked_infinite_mul (hy.resolve_left fun h => hfiniteY h.1) hc hpos
    have hproductX : IsAmount (x * c) := by
      by_cases hfiniteX : x.isFinite
      · exact (hx.mul hfactor hfiniteX hc).1
      · exact Or.inr (unpacked_infinite_mul (hx.resolve_left fun h => hfiniteX h.1) hc hpos)
    refine ⟨hproductX, Or.inr hinfiniteY, ?_⟩
    rw [amount_of_infinite hinfiniteY]
    exact hproductX.le_limit

/-- **A part of a size** is a size, and not greater -/
theorem IsAmount.mul_ratio (hx : IsAmount x) (hc : IsRatio c) : IsAmount (x * c) ∧ amount (x * c) ≤ amount x := by
  rcases id hx with ⟨hfinite, -⟩ | hinfinite
  · obtain ⟨hproduct, hamount⟩ := hx.mul (isAmount_of_finite hc.finite hc.pos.le) hfinite hc.finite
    refine ⟨hproduct, ?_⟩
    rw [hamount, amount_of_finite hc.finite]
    exact hx.held_le (mul_le_of_le_one_right hx.nonneg hc.le_one)
  · have hproduct := unpacked_infinite_mul hinfinite hc.finite hc.pos
    rw [amount_of_infinite hinfinite, amount_of_infinite hproduct]
    exact ⟨Or.inr hproduct, le_rfl⟩

theorem unpacked_two : unpacked 2.0 = .finite .positive (2 ^ 23) (-22) (by decide) := rfl

theorem isFinite_two : Float32.isFinite 2.0 := rfl

theorem value_two : value 2.0 = 2 := by
  rw [value, unpacked_two]
  norm_num [signed]

/-- half of a size is a size, and not greater -/
theorem IsAmount.half (hx : IsAmount x) : IsAmount (x / 2.0) ∧ amount (x / 2.0) ≤ amount x := by
  have hnonneg := hx.nonneg
  rcases id hx with ⟨hfinite, -⟩ | hinfinite
  · have hnearest := nearest_div hfinite isFinite_two (by rw [value_two]; norm_num)
    rw [← amount_of_finite hfinite, value_two] at hnearest
    obtain ⟨hamount, heq⟩ := hnearest.isAmount (by positivity)
    refine ⟨hamount, ?_⟩
    rw [heq]
    exact hx.held_le (by linarith)
  · have hquotient : unpacked (x / 2.0) = .infinity .positive := by
      change unpacked (.ofModel (.pack (UnpackedFloat.div Format.binary32 (unpacked x) (unpacked 2.0)))) = _
      rw [hinfinite, unpacked_two]
      exact unpacked_pack_infinity _
    rw [amount_of_infinite hinfinite, amount_of_infinite hquotient]
    exact ⟨Or.inr hquotient, le_rfl⟩

/-- twice a size is a size, and not less -/
theorem IsAmount.double (hx : IsAmount x) : IsAmount (2.0 * x) ∧ amount x ≤ amount (2.0 * x) := by
  have hnonneg := hx.nonneg
  have htwo : 0 < value 2.0 := by
    rw [value_two]
    norm_num
  rcases id hx with ⟨hfinite, -⟩ | hinfinite
  · obtain ⟨hproduct, hamount⟩ := (isAmount_of_finite isFinite_two htwo.le).mul hx isFinite_two hfinite
    refine ⟨hproduct, ?_⟩
    rw [hamount, amount_of_finite isFinite_two, value_two]
    exact hx.le_held (by linarith)
  · have hproduct := unpacked_mul_infinite isFinite_two htwo hinfinite
    rw [amount_of_infinite hinfinite, amount_of_infinite hproduct]
    exact ⟨Or.inr hproduct, le_rfl⟩

/-! ## The greater of two -/

/-- only what is not a number differs from itself -/
theorem bne_self_iff : (x != x) = true ↔ unpacked x = .notANumber := by
  change (!(unpacked x).beq (unpacked x)) = true ↔ _
  rw [Bool.not_eq_true', ← Bool.not_eq_true, beq_iff_ne_notANumber_and_eq]
  simp

theorem IsAmount.bne_self (h : IsAmount x) : (x != x) = false := by
  rw [Bool.eq_false_iff, ne_eq, bne_self_iff]
  intro hx
  rcases h.unpacked_cases with h | ⟨s, h⟩ | ⟨m, e, hm, h⟩ <;> exact UnpackedFloat.noConfusion (hx.symm.trans h)

/-- the greater of two sizes -/
theorem IsAmount.larger (hx : IsAmount x) (hy : IsAmount y) :
    IsAmount (Scalar.larger x y) ∧ amount (Scalar.larger x y) = max (amount x) (amount y) := by
  rw [Scalar.larger, hx.bne_self]
  by_cases hle : x ≤ y
  · have hamount := (hx.le_iff hy).1 hle
    rw [decide_eq_true hle, max_eq_right hamount]
    exact ⟨hy, rfl⟩
  · have hamount := (hx.le_iff hy).not.1 hle
    rw [decide_eq_false hle, max_eq_left (not_le.1 hamount).le]
    exact ⟨hx, rfl⟩

theorem IsAmount.le_larger_left (hx : IsAmount x) (hy : IsAmount y) : amount x ≤ amount (Scalar.larger x y) :=
  (le_max_left _ _).trans_eq (hx.larger hy).2.symm

theorem IsAmount.le_larger_right (hx : IsAmount x) (hy : IsAmount y) : amount y ≤ amount (Scalar.larger x y) :=
  (le_max_right _ _).trans_eq (hx.larger hy).2.symm

/-- whatever the value is, the greater of it and zero is a size -/
theorem isAmount_larger_zero (x : Float32) : IsAmount (Scalar.larger x 0.0) := by
  unfold Scalar.larger
  split_ifs with hcond
  · exact isAmount_zero
  · rw [Bool.or_eq_true, decide_eq_true_eq, not_or, bne_self_iff] at hcond
    obtain ⟨hpos, hnumber⟩ := hcond
    cases hx : unpacked x with
    | notANumber => exact absurd hx hnumber
    | infinity s =>
      cases s with
      | positive => exact Or.inr hx
      | negative =>
        refine absurd ?_ hpos
        rw [le_iff_unpacked, hx, unpacked_zero]
        rfl
    | _ =>
      have hfinite : x.isFinite := by
        change (unpacked x).isFinite = true
        rw [hx]
        rfl
      rw [le_iff_value hfinite isFinite_zero] at hpos
      rw [value_zero] at hpos
      exact isAmount_of_finite hfinite (not_le.1 hpos).le

theorem value_le_larger_zero (h : x.isFinite) : value x ≤ amount (Scalar.larger x 0.0) := by
  rcases le_or_gt 0 (value x) with hnonneg | hneg
  · obtain ⟨-, hmax⟩ := (isAmount_of_finite h hnonneg).larger isAmount_zero
    rw [hmax, ← amount_of_finite h]
    exact le_max_left _ _
  · exact hneg.le.trans (isAmount_larger_zero x).nonneg

theorem unpacked_sub_infinite (hx : unpacked x = .infinity .positive) (hy : y.isFinite) :
    unpacked (x - y) = .infinity .positive := by
  change unpacked (.ofModel (.pack (UnpackedFloat.sub Format.binary32 (unpacked x) (unpacked y)))) = _
  rw [hx]
  obtain ⟨s, hy⟩ | ⟨s, m, e, hm, hy⟩ := unpacked_of_isFinite hy
  · rw [hy]; exact unpacked_pack_infinity _
  · rw [hy]; exact unpacked_pack_infinity _

/-- less than half of a size stays at most half of it -/
theorem IsAmount.two_mul_ratio_le (hx : IsAmount x) (hfinite : x.isFinite) (hc : IsRatio c) (hhalf : value c < 1 / 2) :
    2 * amount (x * c) ≤ amount x := by
  have hpos := hc.pos
  rcases hx.nonneg.eq_or_lt with hzero | hpositive
  · have hle := (hx.mul_ratio hc).2
    linarith
  · have hproduct := mul_pos hpositive hpos
    rw [(hx.mul (isAmount_of_finite hc.finite hpos.le) hfinite hc.finite).2, amount_of_finite hc.finite, held]
    have hrounded := hx.isSingle.two_mul_rounded_le hproduct (by nlinarith)
    have hmin := min_le_left (rounded (amount x * value c)) (2 ^ 128)
    linarith

/-- the difference of two finite sizes lies between their negatives -/
theorem IsAmount.sub_finite (hx : IsAmount x) (hy : IsAmount y) (hfiniteX : x.isFinite) (hfiniteY : y.isFinite) :
    (x - y).isFinite ∧ value (x - y) = rounded (amount x - amount y) := by
  have hnearest := nearest_sub hfiniteX hfiniteY
  rw [← amount_of_finite hfiniteX, ← amount_of_finite hfiniteY] at hnearest
  apply hnearest.finite
  have hnonnegX := hx.nonneg
  have hnonnegY := hy.nonneg
  rw [hx.isFinite_iff] at hfiniteX
  rw [hy.isFinite_iff] at hfiniteY
  rcases le_total (amount y) (amount x) with hle | hle
  · refine (hx.isSingle.abs_rounded_le ?_).trans_lt hfiniteX
    rw [abs_of_nonneg (by linarith)]
    linarith
  · refine (hy.isSingle.abs_rounded_le ?_).trans_lt hfiniteY
    rw [abs_of_nonpos (by linarith)]
    linarith

/-- **A size is at most what it exceeds a small part of another by, and the other.** The part is less than half of the
other, so that the error of the difference, which is at most the part, leaves room. -/
theorem IsAmount.le_larger_sub_add (hx : IsAmount x) (hy : IsAmount y) (hc : IsRatio c)
    (hhalf : value c < 1 / 2) : amount x ≤ amount (Scalar.larger (x - y * c) 0.0 + y) := by
  obtain ⟨hpart, hle⟩ := hy.mul_ratio hc
  have hexcess := isAmount_larger_zero (x - y * c)
  rw [(hexcess.add hy).2]
  by_cases hfiniteY : y.isFinite
  · have hfinite := hpart.finite_of_le hfiniteY hle
    by_cases hfiniteX : x.isFinite
    · apply hx.le_held
      obtain ⟨hdifference, hvalue⟩ := hx.sub_finite hpart hfiniteX hfinite
      have hlarger := value_le_larger_zero hdifference
      -- the size itself is not nearer to the exact difference than the rounded one
      have herror := abs_rounded_sub_le (amount x - amount (y * c)) hx.isSingle
      rw [sub_sub_cancel, abs_of_nonneg hpart.nonneg, ← hvalue] at herror
      have hbelow := (abs_le.1 herror).1
      have htwice := hy.two_mul_ratio_le hfiniteY hc hhalf
      linarith
    · have hinfinite := unpacked_sub_infinite (hx.resolve_left fun h => hfiniteX h.1) hfinite
      have hdifference : IsAmount (x - y * c) := Or.inr hinfinite
      have hnonneg := hy.nonneg
      rw [(hdifference.larger isAmount_zero).2, amount_of_infinite hinfinite, held_of_limit_le]
      · exact hx.le_limit
      · have hmax := le_max_left (2 ^ 128 : ℚ) (amount 0.0)
        linarith
  · have hlimit := not_lt.1 (hy.isFinite_iff.not.1 hfiniteY)
    have hnonneg := hexcess.nonneg
    rw [held_of_limit_le (by linarith)]
    exact hx.le_limit

end FormulaLayout.Single
