/-
Single precision in 32 bits.

A number is packed into a sign bit, eight bits of exponent and 23 bits of mantissa. Taking it apart again gives the same
number, except that one with too great an exponent has become infinite (`unpack_pack`; the library has the other way
round). Whatever the bits are, what is taken apart is canonical and has no such exponent (`isCanonical_unpack`,
`inRange_unpack`).
-/
import FormulaLayout.Proofs.Single.Unpacked

namespace FormulaLayout.Single

open Float.Model Float.Model.UnpackedFloat

/-! ## The three fields -/

/-- the digit that is not stored stands in front of the others -/
theorem toNat_leading_append (mantissa : BitVec 23) : (1#1 ++ mantissa).toNat = 2 ^ 23 + mantissa.toNat := by
  rw [BitVec.toNat_append, ← Nat.shiftLeft_add_eq_or_of_lt mantissa.isLt]
  rfl

theorem unpack_packedInfinity (s : Sign) :
    UnpackedFloat.unpack Format.binary32 (packedInfinity Format.binary32 s) = .infinity s := by
  simp [UnpackedFloat.unpack, packedInfinity]

/-- an exponent that is neither the least nor the greatest -/
theorem unpack_normal (s : Sign) {m : ℕ} {e : ℤ} (hm : 0 < m) (hlow : 2 ^ 23 ≤ m) (hhigh : m < 2 ^ 24)
    (he : -149 ≤ e) (hmax : e ≤ 104) :
    UnpackedFloat.unpack Format.binary32
      (packComponents Format.binary32 s (BitVec.ofNat 8 (e + 150).toNat) (BitVec.ofNat 23 m)) = .finite s m e hm := by
  have hexponent : (BitVec.ofNat 8 (e + 150).toNat).toNat = (e + 150).toNat :=
    Nat.mod_eq_of_lt (by omega : (e + 150).toNat < 2 ^ 8)
  have hmantissa : (1#1 ++ BitVec.ofNat 23 m).toNat = m := by
    rw [toNat_leading_append, BitVec.toNat_ofNat]
    omega
  have hones : BitVec.ofNat 8 (e + 150).toNat ≠ -1#8 := by
    intro h
    have hnat := congrArg BitVec.toNat h
    rw [hexponent] at hnat
    change (e + 150).toNat = 255 at hnat
    omega
  have hzeros : BitVec.ofNat 8 (e + 150).toNat ≠ 0#8 := by
    intro h
    have hnat := congrArg BitVec.toNat h
    rw [hexponent] at hnat
    change (e + 150).toNat = 0 at hnat
    omega
  have hbias : ((e + 150).toNat : ℤ) - 150 = e := by omega
  rw [UnpackedFloat.unpack]
  simp only [unpackExponent_packComponents, unpackMantissa_packComponents, unpackSign_packComponents,
    Sign.ofBitVec_toBitVec]
  rw [if_neg hones, if_neg hzeros]
  simp only [hmantissa, hexponent]
  congr 1

/-- the least exponent, where no digit is left out -/
theorem unpack_subnormal (s : Sign) {m : ℕ} (hm : 0 < m) (hhigh : m < 2 ^ 23) :
    UnpackedFloat.unpack Format.binary32 (packComponents Format.binary32 s 0#8 (BitVec.ofNat 23 m)) =
      .finite s m (-149) hm := by
  have hmantissa : (BitVec.ofNat 23 m).toNat = m := Nat.mod_eq_of_lt hhigh
  have hne : BitVec.ofNat 23 m ≠ 0#23 := by
    intro h
    have hnat := congrArg BitVec.toNat h
    rw [hmantissa] at hnat
    change m = 0 at hnat
    omega
  rw [UnpackedFloat.unpack]
  simp only [unpackExponent_packComponents, unpackMantissa_packComponents, unpackSign_packComponents,
    Sign.ofBitVec_toBitVec]
  rw [if_neg (by decide), if_pos trivial, dif_neg hne]
  simp only [hmantissa]
  rfl

/-! ## Packing and taking apart -/

/-- the exponent fits into its field -/
def InRange : UnpackedFloat → Prop
  | .finite _ _ e _ => e ≤ 104
  | .infinity _ | .notANumber | .zero _ => True

/-- the value with a number whose exponent does not fit made infinite -/
def confined : UnpackedFloat → UnpackedFloat
  | .finite s m e hm => if 104 < e then .infinity s else .finite s m e hm
  | .infinity s => .infinity s
  | .notANumber => .notANumber
  | .zero s => .zero s

theorem unpack_pack {u : UnpackedFloat} (h : IsCanonical u) :
    UnpackedFloat.unpack Format.binary32 (UnpackedFloat.pack Format.binary32 u) = confined u := by
  cases u with
  | infinity s => exact unpack_packedInfinity s
  | notANumber => exact unpack_packedNaN
  | zero s => exact unpack_packedZero
  | finite s m e hm =>
    obtain ⟨hhigh, he, hdigits⟩ := h
    have hbiased : (e + Format.binary32.exponentBias + Format.binary32.mantissaBitsWithoutImplicit).toNat =
        (e + 150).toNat := by
      change (e + 127 + 23).toNat = _
      omega
    rw [UnpackedFloat.pack, confined]
    simp only [hbiased]
    by_cases hmax : 104 < e
    · rw [if_pos (by change 256 ≤ _; omega), if_pos hmax]
      exact unpack_packedInfinity s
    · rw [if_neg (by change ¬256 ≤ _; omega), if_neg hmax]
      by_cases hlow : 2 ^ 23 ≤ m
      · have hlog : m.log2 = 23 := (Nat.log2_eq_iff hm.ne').2 ⟨hlow, hhigh⟩
        rw [if_pos (by rw [hlog]; rfl)]
        exact unpack_normal s hm hlow hhigh he (by omega)
      · have hlog : m.log2 < 23 := (Nat.log2_lt hm.ne').2 (by omega)
        obtain rfl : e = -149 := by omega
        rw [if_neg (by change ¬_ = 24; omega)]
        exact unpack_subnormal s hm (by omega)

/-- an exponent that is neither of the two reserved ones -/
theorem toNat_exponent {exponent : BitVec 8} (hones : exponent ≠ -1#8) (hzeros : exponent ≠ 0#8) :
    1 ≤ exponent.toNat ∧ exponent.toNat ≤ 254 := by
  have hlt := exponent.isLt
  have hfirst : exponent.toNat ≠ 0 := by
    intro h
    exact hzeros (BitVec.eq_of_toNat_eq h)
  have hlast : exponent.toNat ≠ 255 := by
    intro h
    exact hones (BitVec.eq_of_toNat_eq h)
  omega

theorem unpack_bounds (bits : BitVec 32) :
    IsCanonical (UnpackedFloat.unpack Format.binary32 bits) ∧ InRange (UnpackedFloat.unpack Format.binary32 bits) := by
  have hmantissa : (@unpackMantissa Format.binary32 bits).toNat < 2 ^ 23 := BitVec.isLt _
  rw [UnpackedFloat.unpack]
  dsimp only
  split_ifs with hones hinfinite hzeros hnone
  · exact ⟨trivial, trivial⟩
  · exact ⟨trivial, trivial⟩
  · exact ⟨trivial, trivial⟩
  · rw [hzeros]
    refine ⟨⟨?_, le_rfl, Or.inr rfl⟩, ?_⟩
    · exact hmantissa.trans (by norm_num)
    · change (-149 : ℤ) ≤ 104
      norm_num
  · obtain ⟨hfirst, hlast⟩ := toNat_exponent hones hzeros
    have hbias : (Format.binary32.exponentBias : ℤ) + 23 = 150 := rfl
    simp only [IsCanonical, InRange, toNat_leading_append, Nat.cast_ofNat, hbias]
    refine ⟨⟨?_, ?_, Or.inl ?_⟩, ?_⟩ <;> omega

theorem isCanonical_unpack (bits : BitVec 32) : IsCanonical (UnpackedFloat.unpack Format.binary32 bits) :=
  (unpack_bounds bits).1

theorem inRange_unpack (bits : BitVec 32) : InRange (UnpackedFloat.unpack Format.binary32 bits) :=
  (unpack_bounds bits).2

end FormulaLayout.Single
