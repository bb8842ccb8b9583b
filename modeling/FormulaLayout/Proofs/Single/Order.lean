/-
The order and the operations of single precision, by the numbers that the values are.

A finite value is a rational number (`value`), and no two of them are compared otherwise than as numbers are
(`le_iff_value`): canonical numbers have their digits in front, so exponents decide before mantissas do. Each operation
gives the value nearest to the exact result, or an infinity where that lies beyond the range (`Nearest`, `nearest_add`
and its like). What the theory of this project needs of the format is stated in these terms; the bits are not met again.
-/
import FormulaLayout.Proofs.Single.Packed
import FormulaLayout.Scalar

namespace FormulaLayout.Single

open Float.Model Float.Model.UnpackedFloat

/-! ## Comparing canonical numbers -/

/-- of two canonical magnitudes the one with the greater exponent is greater -/
theorem magnitude_lt {m m' : ℕ} {e e' : ℤ} (hhigh : m < 2 ^ 24) (hlow : 2 ^ 23 ≤ m') (h : e < e') :
    (m : ℚ) * 2 ^ e < m' * 2 ^ e' := by
  have hm : (m : ℚ) < 2 ^ 24 := by exact_mod_cast hhigh
  have hm' : (2 : ℚ) ^ 23 ≤ m' := by exact_mod_cast hlow
  calc (m : ℚ) * 2 ^ e < 2 ^ 24 * 2 ^ e := mul_lt_mul_of_pos_right hm (two_zpow_pos e)
    _ = 2 ^ 23 * 2 ^ (e + 1) := by rw [zpow_add₀ two_ne_zero]; ring
    _ ≤ 2 ^ 23 * 2 ^ e' := by
      have hstep : (2 : ℚ) ^ (e + 1) ≤ 2 ^ e' := zpow_le_zpow_right₀ one_le_two h
      linarith
    _ ≤ m' * 2 ^ e' := mul_le_mul_of_nonneg_right hm' (two_zpow_pos e').le

/-- the exponents are compared first, the mantissas only if these are equal -/
theorem compare_magnitudes {m m' : ℕ} {e e' : ℤ} {s s' : Sign} {hm : 0 < m} {hm' : 0 < m'}
    (h : IsCanonical (.finite s m e hm)) (h' : IsCanonical (.finite s' m' e' hm')) :
    (compare e e').then (compare m m') = compare ((m : ℚ) * 2 ^ e) (m' * 2 ^ e') := by
  obtain ⟨hhigh, hleast, hlow⟩ := h
  obtain ⟨hhigh', hleast', hlow'⟩ := h'
  rcases lt_trichotomy e e' with hlt | rfl | hgt
  · rw [compare_lt_iff_lt.2 hlt, compare_lt_iff_lt.2 (magnitude_lt hhigh (by omega) hlt)]
    rfl
  · have hpos := two_zpow_pos e
    rw [compare_eq_iff_eq.2 rfl, Ordering.eq_then]
    rcases lt_trichotomy m m' with hlt | rfl | hgt
    · rw [compare_lt_iff_lt.2 hlt, compare_lt_iff_lt.2]
      exact mul_lt_mul_of_pos_right (by exact_mod_cast hlt) hpos
    · rw [compare_eq_iff_eq.2 rfl, compare_eq_iff_eq.2 rfl]
    · rw [compare_gt_iff_gt.2 hgt, compare_gt_iff_gt.2]
      exact mul_lt_mul_of_pos_right (by exact_mod_cast hgt) hpos
  · rw [compare_gt_iff_gt.2 hgt, compare_gt_iff_gt.2 (magnitude_lt hhigh' (by omega) hgt)]
    rfl

theorem magnitude_pos {m : ℕ} (hm : 0 < m) (e : ℤ) : 0 < (m : ℚ) * 2 ^ e :=
  mul_pos (by exact_mod_cast hm) (two_zpow_pos e)

theorem compare_neg_neg (p q : ℚ) : compare (-p) (-q) = (compare p q).swap := by
  rcases lt_trichotomy p q with h | rfl | h
  · rw [compare_lt_iff_lt.2 h, compare_gt_iff_gt.2 (neg_lt_neg h)]
    rfl
  · rw [compare_eq_iff_eq.2 rfl, compare_eq_iff_eq.2 rfl]
    rfl
  · rw [compare_gt_iff_gt.2 h, compare_lt_iff_lt.2 (neg_lt_neg h)]
    rfl

/-- values are compared as the numbers they are -/
theorem Holds.compare_eq {a b : UnpackedFloat} {p q : ℚ} (ha : Holds a p) (hb : Holds b q) :
    a.compare b = some (compare p q) := by
  obtain ⟨hfiniteA, hcanonicalA, rfl⟩ := ha
  obtain ⟨hfiniteB, hcanonicalB, rfl⟩ := hb
  obtain ⟨s, rfl⟩ | ⟨s, m, e, hm, rfl⟩ := finite_cases hfiniteA
  · obtain ⟨s', rfl⟩ | ⟨s', m', e', hm', rfl⟩ := finite_cases hfiniteB
    · exact congrArg some (compare_eq_iff_eq.2 rfl).symm
    · have hpos := magnitude_pos hm' e'
      cases s' with
      | positive => exact congrArg some (compare_lt_iff_lt.2 hpos).symm
      | negative => exact congrArg some (compare_gt_iff_gt.2 (neg_neg_iff_pos.2 hpos)).symm
  · have hpos := magnitude_pos hm e
    obtain ⟨s', rfl⟩ | ⟨s', m', e', hm', rfl⟩ := finite_cases hfiniteB
    · cases s with
      | positive => exact congrArg some (compare_gt_iff_gt.2 hpos).symm
      | negative => exact congrArg some (compare_lt_iff_lt.2 (neg_neg_iff_pos.2 hpos)).symm
    · have hpos' := magnitude_pos hm' e'
      have hmagnitudes := compare_magnitudes hcanonicalA hcanonicalB
      cases s with
      | positive =>
        cases s' with
        | positive => exact congrArg some hmagnitudes
        | negative => exact congrArg some (compare_gt_iff_gt.2 ((neg_neg_iff_pos.2 hpos').trans hpos)).symm
      | negative =>
        cases s' with
        | positive => exact congrArg some (compare_lt_iff_lt.2 ((neg_neg_iff_pos.2 hpos).trans hpos')).symm
        | negative =>
          change some _ = some (compare (-((m : ℚ) * 2 ^ e)) (-(m' * 2 ^ e')))
          rw [hmagnitudes, compare_neg_neg]

/-! ## The values of single precision -/

/-- the value taken apart -/
def unpacked (x : Float32) : UnpackedFloat :=
  x.toModel.unpack

/-- the number that a value is, if it is one -/
def value (x : Float32) : ℚ :=
  unpackedValue (unpacked x)

variable {x y : Float32} {p q : ℚ}

theorem holds_value (h : x.isFinite) : Holds (unpacked x) (value x) :=
  ⟨h, isCanonical_unpack _, rfl⟩

theorem unpacked_of_isFinite (h : x.isFinite) :
    (∃ s, unpacked x = .zero s) ∨ ∃ s m e hm, unpacked x = .finite s m e hm :=
  finite_cases h

theorem isSingle_value (h : x.isFinite) : IsSingle (value x) :=
  (holds_value h).isSingle

theorem le_iff_unpacked : x ≤ y ↔ (unpacked x).le (unpacked y) = true := by
  change decide ((unpacked x).le (unpacked y) = true) = true ↔ _
  exact decide_eq_true_iff

theorem le_iff_value (hx : x.isFinite) (hy : y.isFinite) : x ≤ y ↔ value x ≤ value y := by
  rw [le_iff_unpacked, UnpackedFloat.le, (holds_value hx).compare_eq (holds_value hy), ← compare_le_iff_le]
  cases compare (value x) (value y) <;> decide

/-- an exponent that fits makes a number within the range, and one that does not fit one beyond it -/
theorem magnitude_lt_iff {s : Sign} {m : ℕ} {e : ℤ} {hm : 0 < m} (h : IsCanonical (.finite s m e hm)) :
    (m : ℚ) * 2 ^ e < 2 ^ 128 ↔ e ≤ 104 := by
  obtain ⟨hhigh, hleast, hlow⟩ := h
  constructor
  · intro hlt
    by_contra hgt
    have hm : (2 : ℚ) ^ 23 ≤ m := by exact_mod_cast hlow.resolve_right (by omega)
    have he : (2 : ℚ) ^ (105 : ℤ) ≤ 2 ^ e := zpow_le_zpow_right₀ one_le_two (by omega)
    have hproduct : (2 : ℚ) ^ 23 * 2 ^ (105 : ℤ) ≤ m * 2 ^ e :=
      mul_le_mul hm he (two_zpow_pos 105).le (Nat.cast_nonneg m)
    norm_num at hproduct hlt
    linarith
  · intro he
    have hm : (m : ℚ) < 2 ^ 24 := by exact_mod_cast hhigh
    calc (m : ℚ) * 2 ^ e < 2 ^ 24 * 2 ^ e := mul_lt_mul_of_pos_right hm (two_zpow_pos e)
      _ ≤ 2 ^ 24 * 2 ^ (104 : ℤ) := mul_le_mul_of_nonneg_left (zpow_le_zpow_right₀ one_le_two he) (by norm_num)
      _ = 2 ^ 128 := by norm_num

theorem abs_signed (s : Sign) (q : ℚ) : |signed s q| = |q| := by
  cases s with
  | negative => exact abs_neg q
  | positive => rfl

/-- a finite value lies within the range -/
theorem abs_value_lt (h : x.isFinite) : |value x| < 2 ^ 128 := by
  have hcanonical : IsCanonical (unpacked x) := isCanonical_unpack _
  have hrange : InRange (unpacked x) := inRange_unpack _
  rw [value]
  obtain ⟨s, hx⟩ | ⟨s, m, e, hm, hx⟩ := unpacked_of_isFinite h
  · rw [hx]
    norm_num
  · rw [hx] at hcanonical hrange ⊢
    rw [unpackedValue_finite, abs_signed, abs_of_pos (magnitude_pos hm e)]
    exact (magnitude_lt_iff hcanonical).2 hrange

/-! ## Rounded results -/

/-- the value is the number of single precision nearest to a rational number, infinite if that is beyond the range -/
def Nearest (x : Float32) (q : ℚ) : Prop :=
  ∃ u, Holds u (rounded q) ∧ unpacked x = confined u

/-- a number within the range is not changed -/
theorem Holds.confined_eq {u : UnpackedFloat} (h : Holds u q) (hq : |q| < 2 ^ 128) : confined u = u := by
  obtain ⟨hfinite, hcanonical, rfl⟩ := h
  obtain ⟨s, rfl⟩ | ⟨s, m, e, hm, rfl⟩ := finite_cases hfinite
  · rfl
  · rw [unpackedValue_finite, abs_signed, abs_of_pos (magnitude_pos hm e), magnitude_lt_iff hcanonical] at hq
    exact if_neg hq.not_gt

/-- a number beyond the range becomes infinite -/
theorem Holds.confined_eq_infinity {u : UnpackedFloat} (h : Holds u q) (hq : 2 ^ 128 ≤ q) :
    confined u = .infinity .positive := by
  obtain ⟨hfinite, hcanonical, rfl⟩ := h
  obtain ⟨s, rfl⟩ | ⟨s, m, e, hm, rfl⟩ := finite_cases hfinite
  · norm_num at hq
  · have hpos := magnitude_pos hm e
    cases s with
    | negative =>
      change (2 : ℚ) ^ 128 ≤ -(m * 2 ^ e) at hq
      norm_num at hq
      linarith
    | positive =>
      have he : ¬ e ≤ 104 := (magnitude_lt_iff hcanonical).not.1 (not_lt.2 hq)
      exact if_pos (not_le.1 he)

/-- a result within the range is finite -/
theorem Nearest.finite (h : Nearest x q) (hq : |rounded q| < 2 ^ 128) : x.isFinite ∧ value x = rounded q := by
  obtain ⟨u, hu, hx⟩ := h
  rw [hu.confined_eq hq] at hx
  exact ⟨by rw [← hu.finite, ← hx]; rfl, by rw [value, hx, hu.value]⟩

/-- a result beyond the range is infinite -/
theorem Nearest.infinite (h : Nearest x q) (hq : 2 ^ 128 ≤ rounded q) : unpacked x = .infinity .positive := by
  obtain ⟨u, hu, hx⟩ := h
  rw [hx, hu.confined_eq_infinity hq]

/-- what is packed is taken apart again -/
theorem nearest_of_holds {u : UnpackedFloat} (h : Holds u (rounded q)) :
    Nearest (.ofModel (.pack u)) q :=
  ⟨u, h, unpack_pack h.canonical⟩

theorem nearest_add (hx : x.isFinite) (hy : y.isFinite) : Nearest (x + y) (value x + value y) :=
  nearest_of_holds (add_holds (holds_value hx) (holds_value hy))

theorem nearest_sub (hx : x.isFinite) (hy : y.isFinite) : Nearest (x - y) (value x - value y) :=
  nearest_of_holds (sub_holds (holds_value hx) (holds_value hy))

theorem nearest_mul (hx : x.isFinite) (hy : y.isFinite) : Nearest (x * y) (value x * value y) :=
  nearest_of_holds (mul_holds (holds_value hx) (holds_value hy))

theorem nearest_div (hx : x.isFinite) (hy : y.isFinite) (h : value y ≠ 0) : Nearest (x / y) (value x / value y) :=
  nearest_of_holds (div_holds (holds_value hx) (holds_value hy) h)

/-- what is not finite makes no finite sum -/
theorem add_not_finite (a : UnpackedFloat) {b : UnpackedFloat} (hb : ¬ b.isFinite) :
    UnpackedFloat.add Format.binary32 a b = .notANumber ∨ ∃ s, UnpackedFloat.add Format.binary32 a b = .infinity s := by
  cases b with
  | zero s => exact absurd rfl hb
  | finite s m e hm => exact absurd rfl hb
  | notANumber => cases a <;> exact Or.inl rfl
  | infinity s =>
    cases a with
    | infinity s' =>
      cases s' <;> cases s
      · exact Or.inr ⟨_, rfl⟩
      · exact Or.inl rfl
      · exact Or.inl rfl
      · exact Or.inr ⟨_, rfl⟩
    | notANumber => exact Or.inl rfl
    | zero s' => exact Or.inr ⟨s, rfl⟩
    | finite s' m e hm => exact Or.inr ⟨s, rfl⟩

/-- a finite sum has no infinite part -/
theorem isFinite_of_add (h : (x + y).isFinite) : y.isFinite := by
  change (UnpackedFloat.unpack Format.binary32 (UnpackedFloat.pack Format.binary32
    (UnpackedFloat.add Format.binary32 (unpacked x) (unpacked y)))).isFinite = true at h
  by_contra hy
  rcases @add_not_finite (unpacked x) (unpacked y) hy with hsum | ⟨s, hsum⟩
  · rw [hsum, @unpack_pack .notANumber trivial] at h
    exact Bool.false_ne_true h
  · rw [hsum, @unpack_pack (.infinity s) trivial] at h
    exact Bool.false_ne_true h

end FormulaLayout.Single
