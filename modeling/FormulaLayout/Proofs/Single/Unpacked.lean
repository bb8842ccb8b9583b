/-
Single precision on numbers taken apart.

A finite number taken apart is a sign, a mantissa and an exponent. An operation computes the first digits of the exact
result and keeps of the rest only its first digit and whether any other digit is set (`Describes`). That is enough to
round: a mantissa shifted to the grid and rounded there is the exact result, rounded (`roundWithAccuracy_holds`). What
comes out is canonical: the mantissa has 24 digits, or fewer at the least exponent.

- `add_holds`, `sub_holds`, `mul_holds`, `div_holds`: each operation on canonical numbers is the exact one, rounded.
-/
import FormulaLayout.Proofs.Single.Rounding
import Mathlib

namespace FormulaLayout.Single

open Float.Model Float.Model.UnpackedFloat

/-! ## The digits of a number -/

/-- the mantissa is the whole part of the number, the round bit its first binary digit behind the point, and the sticky
bit tells whether there is more -/
def Describes (em : ExtendedMantissa) (q : ℚ) : Prop :=
  ∃ rest : ℚ, 0 ≤ rest ∧ rest < 1 / 2 ∧ q = em.mantissa + (bif em.roundBit then 1 / 2 else 0) + rest ∧
    (em.stickyBit = true ↔ 0 < rest)

theorem Describes.shiftRightOne {em : ExtendedMantissa} {q : ℚ} (h : Describes em q) :
    Describes em.shiftRightOne (q / 2) := by
  obtain ⟨rest, hnonneg, hlt, rfl, hsticky⟩ := h
  obtain ⟨m, round, sticky⟩ := em
  have hsplit : (m : ℚ) = 2 * (m / 2 : ℕ) + (m % 2 : ℕ) := by exact_mod_cast (Nat.div_add_mod m 2).symm
  refine ⟨(bif round then 1 / 4 else 0) + rest / 2, ?_, ?_, ?_, ?_⟩
  · cases round <;> simp <;> linarith
  · cases round <;> simp <;> linarith
  · rcases Nat.mod_two_eq_zero_or_one m with hdigit | hdigit
    · rw [hsplit]
      cases round <;> simp [ExtendedMantissa.shiftRightOne, hdigit] <;> ring
    · rw [hsplit]
      cases round <;> simp [ExtendedMantissa.shiftRightOne, hdigit] <;> ring
  · dsimp only [ExtendedMantissa.shiftRightOne] at hsticky ⊢
    rw [Bool.or_eq_true, hsticky]
    cases round with
    | false => simp
    | true => exact iff_of_true (Or.inl rfl) (by simp; linarith)

theorem Describes.shiftRight {em : ExtendedMantissa} {q : ℚ} (h : Describes em q) (n : ℕ) :
    Describes (em >>> n) (q / 2 ^ n) := by
  change Describes (n.repeat ExtendedMantissa.shiftRightOne em) (q / 2 ^ n)
  induction n with
  | zero => simpa [Nat.repeat] using h
  | succ n ih =>
    have hstep := ih.shiftRightOne
    rwa [div_div, ← pow_succ] at hstep

theorem Describes.floor_eq {em : ExtendedMantissa} {q : ℚ} (h : Describes em q) : ⌊q⌋ = em.mantissa := by
  obtain ⟨rest, hnonneg, hlt, rfl, -⟩ := h
  rw [Int.floor_eq_iff, Int.cast_natCast]
  cases em.roundBit
  all_goals simp only [cond_true, cond_false]
  all_goals constructor <;> linarith

theorem Describes.nonneg {em : ExtendedMantissa} {q : ℚ} (h : Describes em q) : 0 ≤ q := by
  apply Int.floor_nonneg.1
  rw [h.floor_eq]
  exact Int.natCast_nonneg _

/-- the two bits are enough to round -/
theorem Describes.roundedMantissa_eq {em : ExtendedMantissa} {q : ℚ} (h : Describes em q) :
    (em.roundedMantissa : ℤ) = halfEven q := by
  have hfloor := h.floor_eq
  obtain ⟨rest, hnonneg, hlt, hq, hsticky⟩ := h
  have hfract : Int.fract q = (bif em.roundBit then 1 / 2 else 0) + rest := by
    rw [Int.fract, hfloor, hq]
    push_cast
    ring
  obtain ⟨m, round, sticky⟩ := em
  dsimp only at hfloor hfract hsticky
  rw [halfEven, hfract, hfloor]
  cases round <;> cases sticky
  all_goals simp only [Bool.false_eq_true, cond_true, cond_false, false_iff, true_iff, not_lt] at hsticky ⊢
  all_goals simp only [ExtendedMantissa.roundedMantissa, ExtendedMantissa.accuracy, Accuracy.roundToNearestEven]
  · rw [if_pos (by linarith)]
  · rw [if_pos (by linarith)]
  · rw [if_neg (by linarith), if_neg (by linarith)]
    push_cast
    rfl
  · rw [if_neg (by linarith), if_pos (by linarith)]
    push_cast
    rfl

theorem describes_exact (m : ℕ) : Describes (.ofMantissaAndAccuracy m .exact) m :=
  ⟨0, le_rfl, by norm_num, by simp [ExtendedMantissa.ofMantissaAndAccuracy],
    by simp [ExtendedMantissa.ofMantissaAndAccuracy]⟩

/-- a quotient in whole numbers, and what the remainder tells about the rest -/
theorem describes_quotient (m : ℕ) {d : ℕ} (hd : 0 < d) :
    Describes (.ofMantissaAndAccuracy (m / d) (accuracyOfFraction (m % d) d)) (m / d) := by
  have hpos : (0 : ℚ) < d := by exact_mod_cast hd
  have hmod : ((m % d : ℕ) : ℚ) < d := by exact_mod_cast Nat.mod_lt m hd
  have hrest : (m : ℚ) / d = (m / d : ℕ) + ((m % d : ℕ) : ℚ) / d := by
    have hsplit : (m : ℚ) = d * (m / d : ℕ) + (m % d : ℕ) := by exact_mod_cast (Nat.div_add_mod m d).symm
    rw [div_eq_iff hpos.ne', add_mul, div_mul_cancel₀ _ hpos.ne', mul_comm]
    exact hsplit
  generalize m / d = whole at hrest ⊢
  generalize m % d = num at hmod hrest ⊢
  rw [hrest]
  unfold accuracyOfFraction
  split_ifs with hzero
  · rw [hzero, Nat.cast_zero, zero_div, add_zero]
    exact describes_exact whole
  · have hnum : (0 : ℚ) < num := by exact_mod_cast Nat.pos_of_ne_zero hzero
    have hfraction : 0 < (num : ℚ) / d := div_pos hnum hpos
    rcases lt_trichotomy (2 * num) d with hhalf | hhalf | hhalf
    · rw [Nat.compare_eq_lt.2 hhalf]
      have hhalf : 2 * (num : ℚ) < d := by exact_mod_cast hhalf
      refine ⟨num / d, hfraction.le, ?_, by simp [ExtendedMantissa.ofMantissaAndAccuracy],
        by simpa [ExtendedMantissa.ofMantissaAndAccuracy] using hfraction⟩
      rw [div_lt_iff₀ hpos]
      linarith
    · rw [Nat.compare_eq_eq.2 hhalf]
      have hhalf : 2 * (num : ℚ) = d := by exact_mod_cast hhalf
      refine ⟨0, le_rfl, by norm_num, ?_, by simp [ExtendedMantissa.ofMantissaAndAccuracy]⟩
      simp only [ExtendedMantissa.ofMantissaAndAccuracy, cond_true, add_zero, add_right_inj]
      rw [div_eq_iff hpos.ne']
      linarith
    · rw [Nat.compare_eq_gt.2 hhalf]
      have hhalf : (d : ℚ) < 2 * num := by exact_mod_cast hhalf
      have hbeyond : 1 / 2 < (num : ℚ) / d := by
        rw [lt_div_iff₀ hpos]
        linarith
      have hbelow : (num : ℚ) / d < 1 := (div_lt_one hpos).2 hmod
      refine ⟨num / d - 1 / 2, by linarith, by linarith, ?_, ?_⟩
      · simp only [ExtendedMantissa.ofMantissaAndAccuracy, cond_true]
        ring
      · simp only [ExtendedMantissa.ofMantissaAndAccuracy, true_iff]
        linarith

/-! ## Rounding a mantissa -/

theorem targetExponent_eq (t : ℤ) : Format.binary32.targetExponent t = max (t - 24) (-149) := rfl

/-- the target exponent of a mantissa is that of the grid on which the number is rounded -/
theorem targetExponent_eq_gridExponent {m : ℕ} {e : ℤ} {x : ℚ} (hx : 0 < x) (hm : ⌊x⌋ = m)
    (he : e ≤ Format.binary32.targetExponent (totalExponent m e)) :
    Format.binary32.targetExponent (totalExponent m e) = gridExponent (x * 2 ^ e) := by
  have hpos : 0 < x * 2 ^ e := mul_pos hx (two_zpow_pos e)
  obtain ⟨hle, hlt⟩ := Int.floor_eq_iff.1 hm
  rw [targetExponent_eq, totalExponent] at he ⊢
  rw [gridExponent]
  have habove : Int.log 2 (x * 2 ^ e) < m.log2 + 1 + e := by
    have hdigits : ((m + 1 : ℕ) : ℚ) ≤ (2 ^ (m.log2 + 1) : ℕ) := by exact_mod_cast Nat.lt_log2_self
    have hx : x < 2 ^ ((m.log2 + 1 : ℕ) : ℤ) := by
      rw [zpow_natCast]
      push_cast at hdigits hlt
      linarith
    rw [← Int.lt_zpow_iff_log_lt one_lt_two hpos, Nat.cast_ofNat, zpow_add₀ two_ne_zero]
    exact mul_lt_mul_of_pos_right hx (two_zpow_pos e)
  by_cases hzero : m = 0
  · subst hzero
    simp only [Nat.log2_zero, Nat.cast_zero, zero_add] at he habove ⊢
    omega
  · have hbelow : m.log2 + e ≤ Int.log 2 (x * 2 ^ e) := by
      have hdigits : ((2 ^ m.log2 : ℕ) : ℚ) ≤ m := by exact_mod_cast Nat.log2_self_le hzero
      have hx : 2 ^ (m.log2 : ℤ) ≤ x := by
        rw [zpow_natCast]
        push_cast at hdigits hle
        linarith
      rw [← Int.zpow_le_iff_le_log one_lt_two hpos, Nat.cast_ofNat, zpow_add₀ two_ne_zero]
      exact mul_le_mul_of_nonneg_right hx (two_zpow_pos e).le
    omega

/-! ## Values -/

/-- the sign of a number -/
def signed (s : Sign) (q : ℚ) : ℚ :=
  match s with
  | .negative => -q
  | .positive => q

/-- the number that a value is; zero for the values that are none -/
def unpackedValue : UnpackedFloat → ℚ
  | .finite s m e _ => signed s (m * 2 ^ e)
  | .infinity _ | .notANumber | .zero _ => 0

@[simp]
theorem unpackedValue_zero (s : Sign) : unpackedValue (.zero s) = 0 := rfl

@[simp]
theorem unpackedValue_finite (s : Sign) (m : ℕ) (e : ℤ) (hm : 0 < m) :
    unpackedValue (.finite s m e hm) = signed s (m * 2 ^ e) := rfl

@[simp]
theorem signed_neg (s : Sign) (q : ℚ) : signed (-s) q = -signed s q := by
  cases s
  · exact (neg_neg q).symm
  · rfl

/-- the mantissa has 24 digits, or fewer at the least exponent -/
def IsCanonical : UnpackedFloat → Prop
  | .finite _ m e _ => m < 2 ^ 24 ∧ -149 ≤ e ∧ (2 ^ 23 ≤ m ∨ e = -149)
  | .infinity _ | .notANumber | .zero _ => True

/-- the value is the number, in canonical form -/
structure Holds (u : UnpackedFloat) (q : ℚ) : Prop where
  finite : u.isFinite
  canonical : IsCanonical u
  value : unpackedValue u = q

/-- a finite value is zero or has digits -/
theorem finite_cases {u : UnpackedFloat} (h : u.isFinite) :
    (∃ s, u = .zero s) ∨ ∃ s m e hm, u = .finite s m e hm := by
  cases u with
  | infinity s => exact absurd h Bool.false_ne_true
  | notANumber => exact absurd h Bool.false_ne_true
  | zero s => exact Or.inl ⟨s, rfl⟩
  | finite s m e hm => exact Or.inr ⟨s, m, e, hm, rfl⟩

theorem rounded_signed {q : ℚ} (h : 0 ≤ q) (s : Sign) : rounded (signed s q) = signed s (roundedMagnitude q) := by
  cases s with
  | positive => exact if_pos h
  | negative => rw [signed, rounded_neg, rounded, if_pos h, signed]

theorem holds_zero (s : Sign) : Holds (.zero s) 0 :=
  ⟨rfl, trivial, rfl⟩

/-- a mantissa of at most 24 digits stays where it is -/
theorem shiftToTargetExponent_of_lt {n : ℕ} {g : ℤ} (hn : n < 2 ^ 24) (hg : -149 ≤ g) :
    shiftToTargetExponent Format.binary32 n g .exact = (.ofMantissaAndAccuracy n .exact, g) := by
  have hlog : n.log2 < 24 := by
    by_cases hzero : n = 0
    · simp [hzero]
    · exact (Nat.log2_lt hzero).2 hn
  have hshift : (Format.binary32.targetExponent (totalExponent n g) - g).toNat = 0 := by
    rw [targetExponent_eq, totalExponent]
    omega
  rw [shiftToTargetExponent, shiftToExponent, hshift, Nat.cast_zero, add_zero]
  rfl

/-- a mantissa that was rounded up to 25 digits is shifted by one -/
theorem shiftToTargetExponent_carry {g : ℤ} (hg : -149 ≤ g) :
    shiftToTargetExponent Format.binary32 (2 ^ 24) g .exact = (.ofMantissaAndAccuracy (2 ^ 23) .exact, g + 1) := by
  have htarget : Format.binary32.targetExponent (totalExponent (2 ^ 24) g) = g + 1 := by
    rw [targetExponent_eq, totalExponent, Nat.log2_two_pow]
    omega
  have hshift : (g + 1 - g).toNat = 1 := by omega
  rw [shiftToTargetExponent, htarget, shiftToExponent, hshift]
  rfl

/-- a sign, a mantissa and an exponent put together -/
def assembled (s : Sign) (shifted : ExtendedMantissa × ℤ) : UnpackedFloat :=
  if h : shifted.1.mantissa = 0 then .zero s else .finite s shifted.1.mantissa shifted.2 (Nat.pos_of_ne_zero h)

theorem assembled_holds (s : Sign) {n : ℕ} {g : ℤ} (hn : n < 2 ^ 24) (hg : -149 ≤ g)
    (hdigits : 2 ^ 23 ≤ n ∨ g = -149) :
    Holds (assembled s (.ofMantissaAndAccuracy n .exact, g)) (signed s (n * 2 ^ g)) := by
  have hmantissa : (ExtendedMantissa.ofMantissaAndAccuracy n .exact).mantissa = n := rfl
  by_cases hzero : n = 0
  · rw [assembled, dif_pos (hmantissa.trans hzero), hzero, Nat.cast_zero, zero_mul]
    cases s <;> simpa [signed] using holds_zero _
  · rw [assembled, dif_neg (hmantissa ▸ hzero)]
    exact ⟨rfl, ⟨hn, hg, hdigits⟩, rfl⟩

/-- a number of steps of the grid holds its value, also where it is rounded up to a digit more -/
theorem holds_grid (s : Sign) {n : ℕ} {g : ℤ} (hn : n ≤ 2 ^ 24) (hg : -149 ≤ g) (hdigits : 2 ^ 23 ≤ n ∨ g = -149) :
    Holds (assembled s (shiftToTargetExponent Format.binary32 n g .exact)) (signed s (n * 2 ^ g)) := by
  rcases hn.lt_or_eq with hlt | rfl
  · rw [shiftToTargetExponent_of_lt hlt hg]
    exact assembled_holds s hlt hg hdigits
  · have hvalue : ((2 ^ 24 : ℕ) : ℚ) * 2 ^ g = (2 ^ 23 : ℕ) * 2 ^ (g + 1) := by
      rw [zpow_add₀ two_ne_zero]
      push_cast
      ring
    rw [shiftToTargetExponent_carry hg, hvalue]
    exact assembled_holds s (by norm_num) (by omega) (Or.inl le_rfl)

/-- the nearest number of steps on the grid has 24 digits or is the next power of two, and may have fewer on the least
grid -/
theorem steps_of_grid {q : ℚ} (hq : 0 < q) {n : ℕ} (hn : (n : ℤ) = halfEven (q / 2 ^ gridExponent q)) :
    n ≤ 2 ^ 24 ∧ (2 ^ 23 ≤ n ∨ gridExponent q = -149) := by
  have hstep := two_zpow_pos (gridExponent q)
  constructor
  · have hdigits := (lt_grid q).le
    rw [← div_le_iff₀ hstep] at hdigits
    have hinteger : halfEven (q / 2 ^ gridExponent q) ≤ (2 ^ 24 : ℤ) := halfEven_le (by exact_mod_cast hdigits)
    rw [← hn] at hinteger
    exact_mod_cast hinteger
  · by_cases hleast : gridExponent q = -149
    · exact Or.inr hleast
    · have hbound : -149 ≤ gridExponent q := le_max_right _ _
      have hdigits := grid_le hq (lt_of_le_of_ne hbound (Ne.symm hleast))
      rw [← le_div_iff₀ hstep] at hdigits
      have hinteger : (2 ^ 23 : ℤ) ≤ halfEven (q / 2 ^ gridExponent q) := le_halfEven (by exact_mod_cast hdigits)
      rw [← hn] at hinteger
      exact Or.inl (by exact_mod_cast hinteger)

/-- a described number is shifted to its target exponent `g`, rounded to a number of steps there, and shifted once more if
that has a digit too many -/
theorem roundWithAccuracy_eq (s : Sign) {m : ℕ} {e g : ℤ} {accuracy : Accuracy} {x : ℚ}
    (hx : Describes (.ofMantissaAndAccuracy m accuracy) x)
    (hg : g = Format.binary32.targetExponent (totalExponent m e)) (he : e ≤ g) :
    ∃ n : ℕ, (n : ℤ) = halfEven (x * 2 ^ e / 2 ^ g) ∧
      roundWithAccuracy Format.binary32 s m e accuracy =
        assembled s (shiftToTargetExponent Format.binary32 n g .exact) := by
  have hshift : e + ((g - e).toNat : ℤ) = g := by omega
  have hsteps := hx.shiftRight (g - e).toNat
  have hscale : x / 2 ^ (g - e).toNat = x * 2 ^ e / 2 ^ g := by
    have hpow : (2 : ℚ) ^ g = 2 ^ e * 2 ^ (g - e).toNat := by
      rw [← zpow_natCast, ← zpow_add₀ two_ne_zero, hshift]
    rw [hpow, mul_comm x, mul_div_mul_left _ _ (two_zpow_pos e).ne']
  rw [hscale] at hsteps
  refine ⟨_, hsteps.roundedMantissa_eq, ?_⟩
  rw [roundWithAccuracy, shiftToTargetExponent, ← hg, shiftToExponent]
  dsimp only
  rw [hshift]
  rfl

/-- **A described number is rounded.** -/
theorem roundWithAccuracy_holds (s : Sign) {m : ℕ} {e : ℤ} {accuracy : Accuracy} {x : ℚ}
    (hx : Describes (.ofMantissaAndAccuracy m accuracy) x)
    (he : e ≤ Format.binary32.targetExponent (totalExponent m e)) :
    Holds (roundWithAccuracy Format.binary32 s m e accuracy) (rounded (signed s (x * 2 ^ e))) := by
  have hmantissa : (ExtendedMantissa.ofMantissaAndAccuracy m accuracy).mantissa = m := by
    rcases accuracy with _ | (_ | _ | _) <;> rfl
  have hfloor : ⌊x⌋ = m := hmantissa ▸ hx.floor_eq
  have hnonneg : 0 ≤ x * 2 ^ e := mul_nonneg hx.nonneg (two_zpow_pos e).le
  obtain ⟨g, hg⟩ : ∃ g, g = Format.binary32.targetExponent (totalExponent m e) := ⟨_, rfl⟩
  rw [← hg] at he
  obtain ⟨n, hnearest, hround⟩ := roundWithAccuracy_eq s hx hg he
  have hbound : -149 ≤ g := by
    rw [hg, targetExponent_eq]
    exact le_max_right _ _
  rw [hround, rounded_signed hnonneg]
  rcases hx.nonneg.eq_or_lt with hzero | hpos
  · subst hzero
    obtain rfl : m = 0 := by simpa using hfloor.symm
    obtain rfl : n = 0 := by simpa [halfEven] using hnearest
    have hleast : g = -149 := by
      rw [targetExponent_eq, totalExponent, Nat.log2_zero] at hg
      omega
    have hholds := holds_grid s (Nat.zero_le _) hbound (Or.inr hleast)
    simpa [roundedMagnitude, halfEven] using hholds
  · have hgrid : g = gridExponent (x * 2 ^ e) := hg.trans (targetExponent_eq_gridExponent hpos hfloor (hg ▸ he))
    subst hgrid
    obtain ⟨hhigh, hlow⟩ := steps_of_grid (mul_pos hpos (two_zpow_pos e)) hnearest
    rw [roundedMagnitude, ← hnearest, Int.cast_natCast]
    exact holds_grid s hhigh hbound hlow

theorem log2_shiftLeft {m : ℕ} (hm : m ≠ 0) (k : ℕ) : (m <<< k).log2 = m.log2 + k := by
  induction k with
  | zero => rfl
  | succ k ih =>
    have hshift : m <<< (k + 1) = 2 * m <<< k := by
      rw [Nat.shiftLeft_eq, Nat.shiftLeft_eq, pow_succ]
      ring
    have hne : m <<< k ≠ 0 := by
      rw [Nat.shiftLeft_eq]
      exact mul_ne_zero hm (by positivity)
    rw [hshift, Nat.log2_two_mul hne, ih]
    ring

/-- shifting a mantissa to a lesser exponent does not change the number -/
theorem shiftLeft_value (m : ℕ) {e t : ℤ} (h : t ≤ e) : ((m <<< (e - t).toNat : ℕ) : ℚ) * 2 ^ t = m * 2 ^ e := by
  have hsplit : e = (e - t).toNat + t := by omega
  conv_rhs => rw [hsplit, zpow_add₀ two_ne_zero, zpow_natCast]
  rw [Nat.shiftLeft_eq]
  push_cast
  ring

/-- a number with any exponent is rounded -/
theorem round_holds (s : Sign) {m : ℕ} (hm : 0 < m) (e : ℤ) :
    Holds (round Format.binary32 s m e) (rounded (signed s (m * 2 ^ e))) := by
  obtain ⟨t, ht⟩ : ∃ t, t = min e (Format.binary32.targetExponent (totalExponent m e)) := ⟨_, rfl⟩
  have hshift : (e - Format.binary32.targetExponent (totalExponent m e)).toNat = (e - t).toNat := by omega
  have hexponent : e - ((e - t).toNat : ℤ) = t := by omega
  have htotal : totalExponent (m <<< (e - t).toNat) t = totalExponent m e := by
    rw [totalExponent, totalExponent, log2_shiftLeft hm.ne']
    push_cast
    omega
  have hle : t ≤ Format.binary32.targetExponent (totalExponent (m <<< (e - t).toNat) t) := by
    rw [htotal, ht]
    exact min_le_right _ _
  have hholds := roundWithAccuracy_holds s (describes_exact (m <<< (e - t).toNat)) hle
  rw [shiftLeft_value m (ht ▸ min_le_left _ _)] at hholds
  rw [UnpackedFloat.round, decreaseExponent]
  dsimp only
  rwa [hshift, hexponent]

/-- a signed number with any exponent is rounded -/
theorem normalize_holds (n e : ℤ) (zeroSign : Sign) :
    Holds (normalize Format.binary32 n e zeroSign) (rounded (n * 2 ^ e)) := by
  unfold UnpackedFloat.normalize
  rcases lt_trichotomy n 0 with h | rfl | h
  · have hcast : ((-n).toNat : ℚ) = -n := by exact_mod_cast Int.toNat_of_nonneg (by omega : 0 ≤ -n)
    have hholds := round_holds .negative (by omega : 0 < (-n).toNat) e
    rw [signed, hcast, neg_mul, neg_neg] at hholds
    rwa [compare_lt_iff_lt.2 h]
  · rw [Int.cast_zero, zero_mul, isSingle_zero.rounded_eq]
    exact holds_zero zeroSign
  · have hcast : (n.toNat : ℚ) = n := by exact_mod_cast Int.toNat_of_nonneg h.le
    have hholds := round_holds .positive (by omega : 0 < n.toNat) e
    rw [signed, hcast] at hholds
    rwa [compare_gt_iff_gt.2 h]

/-! ## The operations -/

/-- a value in canonical form is a number of single precision -/
theorem Holds.isSingle {u : UnpackedFloat} {q : ℚ} (h : Holds u q) : IsSingle q := by
  obtain ⟨hfinite, hcanonical, rfl⟩ := h
  obtain ⟨s, rfl⟩ | ⟨s, m, e, hm, rfl⟩ := finite_cases hfinite
  · exact isSingle_zero
  · have hmagnitude : IsSingle ((m : ℚ) * 2 ^ e) := by
      refine ⟨m, e, ?_, hcanonical.2.1, by push_cast; rfl⟩
      rw [Nat.abs_cast]
      exact_mod_cast hcanonical.1.le
    cases s with
    | positive => exact hmagnitude
    | negative => exact hmagnitude.neg

theorem apply_eq_signed (s : Sign) (n : ℕ) : ((s.apply n : ℤ) : ℚ) = signed s n := by
  cases s <;> simp [Sign.apply, signed]

theorem signed_mul (s : Sign) (p q : ℚ) : signed s p * q = signed s (p * q) := by
  cases s <;> simp [signed]

/-- two mantissas at their common exponent -/
theorem decreaseExponent_value (s : Sign) (m : ℕ) {e t : ℤ} (h : t ≤ e) :
    ((s.apply (decreaseExponent m e t).1 : ℤ) : ℚ) * 2 ^ t = signed s (m * 2 ^ e) := by
  rw [apply_eq_signed, signed_mul, decreaseExponent, shiftLeft_value m h]

variable {a b : UnpackedFloat} {p q : ℚ}

theorem Holds.neg (ha : Holds a p) : Holds a.neg (-p) := by
  obtain ⟨hfinite, hcanonical, rfl⟩ := ha
  obtain ⟨s, rfl⟩ | ⟨s, m, e, hm, rfl⟩ := finite_cases hfinite
  · exact ⟨rfl, trivial, by simp [UnpackedFloat.neg]⟩
  · exact ⟨rfl, hcanonical, by simp [UnpackedFloat.neg]⟩

theorem add_holds (ha : Holds a p) (hb : Holds b q) :
    Holds (UnpackedFloat.add Format.binary32 a b) (rounded (p + q)) := by
  have hp := ha.isSingle.rounded_eq
  have hq := hb.isSingle.rounded_eq
  obtain ⟨hfiniteA, -, rfl⟩ := id ha
  obtain ⟨hfiniteB, -, rfl⟩ := id hb
  obtain ⟨s, rfl⟩ | ⟨s, m, e, hm, rfl⟩ := finite_cases hfiniteA
  · rw [unpackedValue_zero, zero_add, hq]
    obtain ⟨s', rfl⟩ | ⟨s', m', e', hm', rfl⟩ := finite_cases hfiniteB
    · simp only [UnpackedFloat.add]
      split_ifs <;> exact holds_zero _
    · exact hb
  · obtain ⟨s', rfl⟩ | ⟨s', m', e', hm', rfl⟩ := finite_cases hfiniteB
    · rw [unpackedValue_zero, add_zero, hp]
      exact ha
    · have hholds := normalize_holds (s.apply (decreaseExponent m e (min e e')).1 +
        s'.apply (decreaseExponent m' e' (min e e')).1) (min e e') .positive
      rw [Int.cast_add, add_mul, decreaseExponent_value s m (min_le_left _ _),
        decreaseExponent_value s' m' (min_le_right _ _)] at hholds
      exact hholds

theorem neg_apply (s : Sign) (n : ℤ) : (-s).apply n = -s.apply n := by
  cases s
  · exact (neg_neg n).symm
  · rfl

/-- subtracting is adding the negative -/
theorem sub_eq_add_of_neg (a b : UnpackedFloat) :
    UnpackedFloat.sub Format.binary32 a b = UnpackedFloat.add Format.binary32 a b.neg := by
  cases a with
  | finite s m e hm =>
    cases b with
    | finite s' m' e' hm' =>
      simp only [UnpackedFloat.sub, UnpackedFloat.add, UnpackedFloat.neg]
      rw [neg_apply, Int.sub_eq_add_neg]
    | infinity s' => rfl
    | notANumber => rfl
    | zero s' => rfl
  | infinity s => cases b <;> rfl
  | notANumber => cases b <;> rfl
  | zero s => cases b <;> rfl

theorem sub_holds (ha : Holds a p) (hb : Holds b q) :
    Holds (UnpackedFloat.sub Format.binary32 a b) (rounded (p - q)) := by
  rw [sub_eq_add_of_neg, sub_eq_add_neg]
  exact add_holds ha hb.neg

theorem signed_mul_signed (s s' : Sign) (p q : ℚ) : signed (s * s') (p * q) = signed s p * signed s' q := by
  cases s <;> cases s'
  · exact (neg_mul_neg p q).symm
  · exact (neg_mul p q).symm
  · exact (mul_neg p q).symm
  · rfl

/-- a product of mantissas is rounded, when it has enough digits or a small enough exponent -/
theorem mul_finite_holds (s s' : Sign) {m m' : ℕ} {e e' : ℤ} (hm : 0 < m) (hm' : 0 < m')
    (h : 2 ^ 23 ≤ m * m' ∨ e + e' ≤ -149) :
    Holds (UnpackedFloat.mul Format.binary32 (.finite s m e hm) (.finite s' m' e' hm'))
      (rounded (signed s (m * 2 ^ e) * signed s' (m' * 2 ^ e'))) := by
  have hexponent : e + e' ≤ Format.binary32.targetExponent (totalExponent (m * m') (e + e')) := by
    rw [targetExponent_eq, totalExponent]
    rcases h with hdigits | hleast
    · have hlog : 23 ≤ (m * m').log2 := (Nat.le_log2 (Nat.mul_pos hm hm').ne').2 hdigits
      omega
    · exact hleast.trans (le_max_right _ _)
  have hholds := roundWithAccuracy_holds (s * s') (describes_exact (m * m')) hexponent
  have hvalue : ((m * m' : ℕ) : ℚ) * 2 ^ (e + e') = m * 2 ^ e * (m' * 2 ^ e') := by
    rw [zpow_add₀ two_ne_zero]
    push_cast
    ring
  rw [hvalue, signed_mul_signed] at hholds
  exact hholds

theorem mul_holds (ha : Holds a p) (hb : Holds b q) :
    Holds (UnpackedFloat.mul Format.binary32 a b) (rounded (p * q)) := by
  obtain ⟨hfiniteA, hcanonicalA, rfl⟩ := ha
  obtain ⟨hfiniteB, hcanonicalB, rfl⟩ := hb
  obtain ⟨s, rfl⟩ | ⟨s, m, e, hm, rfl⟩ := finite_cases hfiniteA
  · rw [unpackedValue_zero, zero_mul, isSingle_zero.rounded_eq]
    obtain ⟨s', rfl⟩ | ⟨s', m', e', hm', rfl⟩ := finite_cases hfiniteB
    · exact holds_zero _
    · exact holds_zero _
  · obtain ⟨s', rfl⟩ | ⟨s', m', e', hm', rfl⟩ := finite_cases hfiniteB
    · rw [unpackedValue_zero, mul_zero, isSingle_zero.rounded_eq]
      exact holds_zero _
    · apply mul_finite_holds s s' hm hm'
      rcases hcanonicalA.2.2 with hdigits | hleast
      · exact Or.inl (hdigits.trans (Nat.le_mul_of_pos_right m hm'))
      · rcases hcanonicalB.2.2 with hdigits' | hleast'
        · exact Or.inl (hdigits'.trans (Nat.le_mul_of_pos_left m' hm))
        · exact Or.inr (by omega)

/-- a quotient has at most one digit less than its operands differ by -/
theorem log2_le_log2_div (m : ℕ) {d : ℕ} (hd : 0 < d) : m.log2 ≤ (m / d).log2 + d.log2 + 1 := by
  by_cases hm : m = 0
  · simp [hm]
  · apply Nat.lt_succ_iff.1
    rw [Nat.log2_lt hm]
    calc m < d * (m / d + 1) := Nat.lt_mul_div_succ m hd
      _ ≤ d * 2 ^ ((m / d).log2 + 1) := Nat.mul_le_mul_left d Nat.lt_log2_self
      _ ≤ 2 ^ (d.log2 + 1) * 2 ^ ((m / d).log2 + 1) := Nat.mul_le_mul_right _ Nat.lt_log2_self.le
      _ = 2 ^ ((m / d).log2 + d.log2 + 1).succ := by rw [← pow_add]; congr 1; omega

theorem signed_div_signed (s s' : Sign) (p q : ℚ) : signed (s / s') (p / q) = signed s p / signed s' q := by
  cases s <;> cases s'
  · exact (neg_div_neg_eq p q).symm
  · exact (neg_div q p).symm
  · exact (div_neg p).symm
  · rfl

/-- a quotient of mantissas is rounded: the dividend is first given as many digits more as the result is to have -/
theorem div_finite_holds (s s' : Sign) {m m' : ℕ} {e e' : ℤ} (hm : 0 < m) (hm' : 0 < m') :
    Holds (UnpackedFloat.div Format.binary32 (.finite s m e hm) (.finite s' m' e' hm'))
      (rounded (signed s (m * 2 ^ e) / signed s' (m' * 2 ^ e'))) := by
  obtain ⟨t, ht⟩ : ∃ t, t = min (e - e') (Format.binary32.targetExponent (totalExponent m e - totalExponent m' e')) :=
    ⟨_, rfl⟩
  have hle : t ≤ e - e' := ht ▸ min_le_left _ _
  have hdigits := log2_le_log2_div (m <<< (e - e' - t).toNat) hm'
  rw [log2_shiftLeft hm.ne'] at hdigits
  have hexponent : t ≤ Format.binary32.targetExponent (totalExponent (m <<< (e - e' - t).toNat / m') t) := by
    have htarget := ht ▸ min_le_right (e - e')
      (Format.binary32.targetExponent (totalExponent m e - totalExponent m' e'))
    rw [targetExponent_eq] at htarget ⊢
    simp only [totalExponent] at htarget ⊢
    omega
  have hholds := roundWithAccuracy_holds (s / s') (describes_quotient (m <<< (e - e' - t).toNat) hm') hexponent
  have hvalue : ((m <<< (e - e' - t).toNat : ℕ) : ℚ) / m' * 2 ^ t = m * 2 ^ e / (m' * 2 ^ e') := by
    rw [div_mul_eq_mul_div, shiftLeft_value m hle, zpow_sub₀ two_ne_zero, ← mul_div_assoc, div_div,
      mul_comm (m' : ℚ)]
  rw [hvalue, signed_div_signed] at hholds
  rw [ht] at hholds
  exact hholds

theorem div_holds (ha : Holds a p) (hb : Holds b q) (hq : q ≠ 0) :
    Holds (UnpackedFloat.div Format.binary32 a b) (rounded (p / q)) := by
  obtain ⟨hfiniteA, -, rfl⟩ := ha
  obtain ⟨hfiniteB, -, rfl⟩ := hb
  obtain ⟨s', rfl⟩ | ⟨s', m', e', hm', rfl⟩ := finite_cases hfiniteB
  · exact absurd rfl hq
  · obtain ⟨s, rfl⟩ | ⟨s, m, e, hm, rfl⟩ := finite_cases hfiniteA
    · rw [unpackedValue_zero, zero_div, isSingle_zero.rounded_eq]
      exact holds_zero _
    · exact div_finite_holds s s' hm hm'

end FormulaLayout.Single
