/-
Rounding to single precision, on rational numbers.

The single-precision numbers are the multiples of powers of two, from `2 ^ -149` on, whose factor has at most 24 binary
digits (`IsSingle`); no greatest power is set here. A number is rounded on a grid whose step depends on its leading
digit: to the nearest multiple of the step, and to the even one of two that are equally near (`rounded`).

No single-precision number is nearer to a number than the one it is rounded to (`abs_rounded_sub_le`). Everything else
follows from that: numbers of single precision are not changed (`IsSingle.rounded_eq`), and rounding keeps the order
(`rounded_mono`).
-/
import Mathlib.Tactic
import Mathlib.Data.Int.Log

namespace FormulaLayout.Single

/-! ## The nearest integer -/

/-- the integer nearest to a number, the even one of two -/
def halfEven (q : ℚ) : ℤ :=
  if Int.fract q < 1 / 2 then ⌊q⌋ else if 1 / 2 < Int.fract q then ⌊q⌋ + 1 else ⌊q⌋ + ⌊q⌋ % 2

theorem abs_halfEven_sub_le_half (q : ℚ) : |(halfEven q : ℚ) - q| ≤ 1 / 2 := by
  have hfloor : (⌊q⌋ : ℚ) = q - Int.fract q := (Int.self_sub_fract q).symm
  have hnonneg := Int.fract_nonneg q
  have hlt := Int.fract_lt_one q
  unfold halfEven
  split_ifs with hbelow habove
  · rw [abs_le]
    constructor <;> linarith
  · push_cast
    rw [abs_le]
    constructor <;> linarith
  · rcases Int.emod_two_eq_zero_or_one ⌊q⌋ with heven | hodd
    · rw [heven, add_zero, abs_le]
      constructor <;> linarith
    · rw [hodd]
      push_cast
      rw [abs_le]
      constructor <;> linarith

/-- no integer is nearer -/
theorem abs_halfEven_sub_le (q : ℚ) (k : ℤ) : |(halfEven q : ℚ) - q| ≤ |(k : ℚ) - q| := by
  have hhalf := abs_halfEven_sub_le_half q
  by_cases hk : k = halfEven q
  · rw [hk]
  · have hapart : (1 : ℚ) ≤ |(k : ℚ) - halfEven q| := by
      exact_mod_cast Int.one_le_abs (sub_ne_zero.2 hk)
    have htriangle : |(k : ℚ) - halfEven q| ≤ |(k : ℚ) - q| + |(halfEven q : ℚ) - q| := by
      rw [abs_sub_comm (halfEven q : ℚ) q]
      exact abs_sub_le _ _ _
    linarith

theorem halfEven_nonneg {q : ℚ} (h : 0 ≤ q) : 0 ≤ halfEven q := by
  have hfloor : 0 ≤ ⌊q⌋ := Int.floor_nonneg.2 h
  unfold halfEven
  split_ifs <;> omega

theorem le_halfEven {q : ℚ} {k : ℤ} (h : (k : ℚ) ≤ q) : k ≤ halfEven q := by
  have hfloor : k ≤ ⌊q⌋ := Int.le_floor.2 h
  unfold halfEven
  split_ifs <;> omega

theorem halfEven_le {q : ℚ} {k : ℤ} (h : q ≤ k) : halfEven q ≤ k := by
  have hhalf := (abs_le.1 (abs_halfEven_sub_le_half q)).2
  have hlt : (halfEven q : ℚ) < k + 1 := by linarith
  exact Int.lt_add_one_iff.1 (by exact_mod_cast hlt)

/-! ## The grid -/

/-- the exponent of the step of the grid on which a magnitude is rounded -/
def gridExponent (q : ℚ) : ℤ :=
  max (Int.log 2 q - 23) (-149)

/-- a magnitude rounded on its grid -/
def roundedMagnitude (q : ℚ) : ℚ :=
  halfEven (q / 2 ^ gridExponent q) * 2 ^ gridExponent q

/-- the single-precision number nearest to a rational number, the even one of two -/
def rounded (q : ℚ) : ℚ :=
  if 0 ≤ q then roundedMagnitude q else -roundedMagnitude (-q)

/-- a number with at most 24 binary digits, none of them finer than `2 ^ -149` -/
def IsSingle (r : ℚ) : Prop :=
  ∃ n g : ℤ, |n| ≤ 2 ^ 24 ∧ -149 ≤ g ∧ r = n * 2 ^ g

theorem IsSingle.neg {r : ℚ} (h : IsSingle r) : IsSingle (-r) := by
  obtain ⟨n, g, hn, hg, rfl⟩ := h
  exact ⟨-n, g, by rwa [abs_neg], hg, by push_cast; ring⟩

theorem isSingle_zero : IsSingle 0 :=
  ⟨0, 0, by norm_num, by norm_num, by norm_num⟩

theorem two_zpow_pos (g : ℤ) : (0 : ℚ) < 2 ^ g :=
  zpow_pos two_pos g

/-- below the end of its grid, a magnitude has less than 24 digits in front of the point -/
theorem lt_grid (q : ℚ) : q < 2 ^ 24 * 2 ^ gridExponent q := by
  have hlog : q < 2 ^ (Int.log 2 q + 1) := by exact_mod_cast Int.lt_zpow_succ_log_self one_lt_two q
  have hgrid : Int.log 2 q + 1 ≤ 24 + gridExponent q := by
    have := le_max_left (Int.log 2 q - 23) (-149)
    rw [gridExponent]
    omega
  calc q < 2 ^ (Int.log 2 q + 1) := hlog
    _ ≤ 2 ^ (24 + gridExponent q) := zpow_le_zpow_right₀ one_le_two hgrid
    _ = 2 ^ 24 * 2 ^ gridExponent q := by rw [zpow_add₀ two_ne_zero]; norm_num

/-- a grid that is not the finest has a magnitude of 24 digits -/
theorem grid_le {q : ℚ} (h : 0 < q) (hgrid : -149 < gridExponent q) : 2 ^ 23 * 2 ^ gridExponent q ≤ q := by
  have hlog : (2 : ℚ) ^ Int.log 2 q ≤ q := by exact_mod_cast Int.zpow_log_le_self one_lt_two h
  have hexponent : Int.log 2 q = 23 + gridExponent q := by
    rw [gridExponent] at hgrid ⊢
    omega
  rwa [hexponent, zpow_add₀ two_ne_zero] at hlog

theorem isSingle_roundedMagnitude {q : ℚ} (h : 0 ≤ q) : IsSingle (roundedMagnitude q) := by
  have hpos := two_zpow_pos (gridExponent q)
  have hdigits : halfEven (q / 2 ^ gridExponent q) ≤ (2 ^ 24 : ℤ) := by
    apply halfEven_le
    rw [div_le_iff₀ hpos]
    exact_mod_cast (lt_grid q).le
  have hnonneg : 0 ≤ halfEven (q / 2 ^ gridExponent q) := halfEven_nonneg (div_nonneg h hpos.le)
  refine ⟨halfEven (q / 2 ^ gridExponent q), gridExponent q, ?_, le_max_right _ _, rfl⟩
  rwa [abs_of_nonneg hnonneg]

theorem isSingle_rounded (q : ℚ) : IsSingle (rounded q) := by
  unfold rounded
  split_ifs with h
  · exact isSingle_roundedMagnitude h
  · exact (isSingle_roundedMagnitude (by linarith)).neg

/-- a number with a coarser step is a whole number of finer steps -/
theorem eq_mul_step (n : ℤ) {g t : ℤ} (h : t ≤ g) : (n : ℚ) * 2 ^ g = (n * 2 ^ (g - t).toNat : ℤ) * 2 ^ t := by
  have hsplit : g = (g - t).toNat + t := by omega
  conv_lhs => rw [hsplit, zpow_add₀ two_ne_zero, zpow_natCast]
  push_cast
  ring

/-- 24 digits with a finer step are at most 23 digits with a coarser one -/
theorem le_mul_step {n g t : ℤ} (hn : |n| ≤ 2 ^ 24) (h : g < t) : (n : ℚ) * 2 ^ g ≤ 2 ^ 23 * 2 ^ t := by
  have hn : (n : ℚ) ≤ 2 ^ 24 := by exact_mod_cast (abs_le.1 hn).2
  calc (n : ℚ) * 2 ^ g ≤ 2 ^ 24 * 2 ^ g := mul_le_mul_of_nonneg_right hn (two_zpow_pos g).le
    _ = 2 ^ 23 * 2 ^ (g + 1) := by rw [zpow_add₀ two_ne_zero]; ring
    _ ≤ 2 ^ 23 * 2 ^ t := mul_le_mul_of_nonneg_left (zpow_le_zpow_right₀ one_le_two h) (by norm_num)

/-! ## Nothing is nearer -/

/-- no multiple of the step is nearer -/
theorem abs_roundedMagnitude_sub_le_grid (q : ℚ) (k : ℤ) :
    |roundedMagnitude q - q| ≤ |k * 2 ^ gridExponent q - q| := by
  have hpos := two_zpow_pos (gridExponent q)
  have hscale : ∀ n : ℤ,
      |(n : ℚ) * 2 ^ gridExponent q - q| = |(n : ℚ) - q / 2 ^ gridExponent q| * 2 ^ gridExponent q := by
    intro n
    rw [← abs_of_pos hpos, ← abs_mul, abs_of_pos hpos, sub_mul, div_mul_cancel₀ _ hpos.ne']
  rw [roundedMagnitude, hscale, hscale]
  exact mul_le_mul_of_nonneg_right (abs_halfEven_sub_le _ k) hpos.le

theorem abs_roundedMagnitude_sub_le {q r : ℚ} (h : 0 ≤ q) (hr : IsSingle r) :
    |roundedMagnitude q - q| ≤ |r - q| := by
  obtain ⟨n, g, hn, hg, rfl⟩ := hr
  rcases h.eq_or_lt with rfl | h
  · have hzero : roundedMagnitude 0 = 0 := by simp [roundedMagnitude, halfEven]
    rw [hzero, sub_zero, abs_zero]
    exact abs_nonneg _
  by_cases hgrid : gridExponent q ≤ g
  · -- the number lies on the grid
    rw [eq_mul_step n hgrid]
    exact abs_roundedMagnitude_sub_le_grid q _
  · -- the number has a finer step, so it lies below the first number of 24 digits on the grid
    have hlow := grid_le h (by omega)
    have hr := le_mul_step hn (not_le.1 hgrid)
    calc |roundedMagnitude q - q| ≤ |((2 ^ 23 : ℤ) : ℚ) * 2 ^ gridExponent q - q| :=
          abs_roundedMagnitude_sub_le_grid q (2 ^ 23)
      _ = q - 2 ^ 23 * 2 ^ gridExponent q := by
        rw [Int.cast_pow, Int.cast_ofNat, abs_of_nonpos (by linarith), neg_sub]
      _ ≤ q - n * 2 ^ g := by linarith
      _ = |(n : ℚ) * 2 ^ g - q| := by rw [abs_of_nonpos (by linarith), neg_sub]

/-- **No number of single precision is nearer.** -/
theorem abs_rounded_sub_le (q : ℚ) {r : ℚ} (hr : IsSingle r) : |rounded q - q| ≤ |r - q| := by
  unfold rounded
  split_ifs with h
  · exact abs_roundedMagnitude_sub_le h hr
  · have hneg := abs_roundedMagnitude_sub_le (by linarith : 0 ≤ -q) hr.neg
    have hleft : |(-roundedMagnitude (-q)) - q| = |roundedMagnitude (-q) - -q| := by
      rw [← abs_neg]
      ring_nf
    have hright : |r - q| = |-r - -q| := by
      rw [← abs_neg]
      ring_nf
    rwa [hleft, hright]

/-- a number of single precision is not changed -/
theorem IsSingle.rounded_eq {r : ℚ} (h : IsSingle r) : rounded r = r := by
  have hnearest := abs_rounded_sub_le r h
  rw [sub_self, abs_zero] at hnearest
  exact sub_eq_zero.1 (abs_nonpos_iff.1 hnearest)

/-- **Rounding keeps the order.** Of two numbers rounded in the wrong order, both would lie nearest to the other's side
of the middle. -/
theorem rounded_mono {p q : ℚ} (h : p ≤ q) : rounded p ≤ rounded q := by
  rcases h.eq_or_lt with rfl | h
  · rfl
  by_contra hlt
  rw [not_le] at hlt
  have hp := abs_rounded_sub_le p (isSingle_rounded q)
  have hq := abs_rounded_sub_le q (isSingle_rounded p)
  rw [← sq_le_sq] at hp hq
  nlinarith

theorem rounded_neg (q : ℚ) : rounded (-q) = -rounded q := by
  rcases lt_trichotomy q 0 with h | rfl | h
  · rw [rounded, rounded, if_pos (by linarith), if_neg (by linarith), neg_neg]
  · simp [rounded, roundedMagnitude, halfEven]
  · rw [rounded, rounded, if_neg (by linarith), if_pos h.le, neg_neg]

/-- a bound of single precision still holds behind the rounding -/
theorem IsSingle.rounded_le {q r : ℚ} (hr : IsSingle r) (h : q ≤ r) : rounded q ≤ r :=
  hr.rounded_eq ▸ rounded_mono h

theorem IsSingle.le_rounded {q r : ℚ} (hr : IsSingle r) (h : r ≤ q) : r ≤ rounded q :=
  hr.rounded_eq ▸ rounded_mono h

theorem rounded_nonneg {q : ℚ} (h : 0 ≤ q) : 0 ≤ rounded q :=
  isSingle_zero.le_rounded h

theorem IsSingle.abs_rounded_le {q r : ℚ} (hr : IsSingle r) (h : |q| ≤ r) : |rounded q| ≤ r := by
  rw [abs_le] at h ⊢
  exact ⟨hr.neg.le_rounded h.1, hr.rounded_le h.2⟩

/-- a number of single precision is a whole number of steps on the grid of any lesser number -/
theorem IsSingle.exists_eq_mul_grid {r q : ℚ} (hr : IsSingle r) (hq : 0 < q) (h : q < r) :
    ∃ k : ℤ, r = k * 2 ^ gridExponent q := by
  obtain ⟨n, g, hn, hg, rfl⟩ := hr
  have hgrid : gridExponent q ≤ g := by
    by_contra hfiner
    have hlow := grid_le hq (by omega)
    have hhigh := le_mul_step hn (not_le.1 hfiner)
    linarith
  exact ⟨_, eq_mul_step n hgrid⟩

/-- less than half of a number of single precision is not rounded to more than half of it -/
theorem IsSingle.two_mul_rounded_le {r q : ℚ} (hr : IsSingle r) (hq : 0 < q) (h : 2 * q < r) : 2 * rounded q ≤ r := by
  obtain ⟨k, hk⟩ := hr.exists_eq_mul_grid hq (by linarith)
  have hstep := two_zpow_pos (gridExponent q)
  -- the nearest whole number to less than half of a whole number is at most half of it
  have hhalf : q / 2 ^ gridExponent q < k / 2 := by
    rw [div_lt_iff₀ hstep]
    linarith
  have hinteger : 2 * halfEven (q / 2 ^ gridExponent q) ≤ k := by
    have hnear := (abs_le.1 (abs_halfEven_sub_le_half (q / 2 ^ gridExponent q))).2
    have hlt : (2 * halfEven (q / 2 ^ gridExponent q) : ℚ) < k + 1 := by linarith
    exact Int.lt_add_one_iff.1 (by exact_mod_cast hlt)
  have hcast : (2 * halfEven (q / 2 ^ gridExponent q) : ℚ) ≤ k := by exact_mod_cast hinteger
  calc 2 * rounded q = 2 * halfEven (q / 2 ^ gridExponent q) * 2 ^ gridExponent q := by
        rw [rounded, if_pos hq.le, roundedMagnitude, mul_assoc]
    _ ≤ k * 2 ^ gridExponent q := mul_le_mul_of_nonneg_right hcast hstep.le
    _ = r := hk.symm

end FormulaLayout.Single
