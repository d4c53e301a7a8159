import Mathlib
import Montage.Proofs.Decimal.Ordered

/-!
# Floats of whole numbers are finite

A whole number of 64 bits is far from where the floats end. Rounding keeps the place of the highest
bit or moves it up by one, so bounds on the exponents carry through rounding, packing, the product
with one and the change of the sign, and the float at the end is finite.
-/

namespace Montage.Decimal

open Float.Model (Format UnpackedFloat totalExponent)
open Float.Model.UnpackedFloat (pack unpack packComponents ExtendedMantissa shiftToTargetExponent
  shiftToExponent roundWithAccuracy)

/-! ## Shifts -/

theorem mantissa_shiftRight (em : ExtendedMantissa) (k : Nat) :
    (em >>> k).mantissa = em.mantissa / 2 ^ k := by
  induction k with
  | zero => exact (Nat.div_one _).symm
  | succ k ih =>
    show (em >>> k).mantissa / 2 = _
    rw [ih, Nat.div_div_eq_div_mul, Nat.pow_succ]

theorem mantissa_ofMantissaAndAccuracy (m : Nat) (a : UnpackedFloat.Accuracy) :
    (ExtendedMantissa.ofMantissaAndAccuracy m a).mantissa = m := by
  rcases a with _ | (_ | _ | _) <;> rfl

theorem roundedMantissa_le (em : ExtendedMantissa) : em.roundedMantissa ≤ em.mantissa + 1 := by
  obtain ⟨m, _ | _, _ | _⟩ := em <;>
    simp only [ExtendedMantissa.roundedMantissa, ExtendedMantissa.accuracy,
      UnpackedFloat.Accuracy.roundToNearestEven] <;> omega

theorem log2_le_of_lt {m k : Nat} (h : m < 2 ^ k) : m.log2 ≤ k := by
  by_cases hm : m = 0
  · rw [hm]
    exact Nat.zero_le k
  · exact Nat.le_of_lt ((Nat.log2_lt hm).mpr h)

theorem targetExponent_binary64 (m : Nat) (e : Int) :
    Format.binary64.targetExponent (totalExponent m e) = max (m.log2 + e - 52) (-1074) := by
  have hmin : Format.binary64.minExponent = -1074 := rfl
  have hbits : (Format.binary64.mantissaBits : Int) = 53 := rfl
  rw [Format.targetExponent, totalExponent, hmin, hbits]
  omega

theorem shiftToTargetExponent_bounds (m : Nat) (e : Int) (a : UnpackedFloat.Accuracy) :
    (shiftToTargetExponent .binary64 m e a).1.mantissa < 2 ^ 53 ∧
      (shiftToTargetExponent .binary64 m e a).2 = max e (max (m.log2 + e - 52) (-1074)) := by
  rw [shiftToTargetExponent, shiftToExponent, targetExponent_binary64]
  dsimp only
  rw [mantissa_shiftRight, mantissa_ofMantissaAndAccuracy]
  refine ⟨?_, by omega⟩
  generalize hk : (max ((m.log2 : Int) + e - 52) (-1074) - e).toNat = k
  have hlog : m.log2 + 1 ≤ 53 + k := by omega
  rw [Nat.div_lt_iff_lt_mul (Nat.two_pow_pos k), ← Nat.pow_add]
  exact Nat.lt_of_lt_of_le Nat.lt_log2_self (Nat.pow_le_pow_right (by decide) hlog)

/-! ## Bounded floats -/

/-- A float, taken apart, that is finite, with a mantissa of so many bits at most and an exponent
that is not above the bound. -/
inductive Within (bits : Nat) (bound : Int) : UnpackedFloat → Prop
  | zero (s : UnpackedFloat.Sign) : Within bits bound (.zero s)
  | finite (s : UnpackedFloat.Sign) {m : Nat} {e : Int} (hm : 0 < m) (hbits : m < 2 ^ bits)
    (hbound : e ≤ bound) : Within bits bound (.finite s m e hm)

variable {bits bits' : Nat} {bound bound' : Int} {u v : UnpackedFloat}

theorem Within.isFinite (h : Within bits bound u) : u.isFinite = true := by
  cases h <;> rfl

theorem within_roundWithAccuracy (s : UnpackedFloat.Sign) {m : Nat} {e : Int}
    (a : UnpackedFloat.Accuracy) (hm : m < 2 ^ bits) (he : e + bits < bound)
    (hbound : -1074 < bound) : Within 53 bound (roundWithAccuracy .binary64 s m e a) := by
  have hlog : m.log2 ≤ bits := log2_le_of_lt hm
  obtain ⟨hmantissa, hexponent⟩ := shiftToTargetExponent_bounds m e a
  rw [roundWithAccuracy]
  generalize shiftToTargetExponent .binary64 m e a = first at hmantissa hexponent ⊢
  obtain ⟨em, e₁⟩ := first
  have hrounded := roundedMantissa_le em
  dsimp only at hmantissa hexponent hrounded ⊢
  -- rounding up may take one bit more, and then the exponent grows by one
  have hlog' : em.roundedMantissa.log2 ≤ 53 := by
    rw [← Nat.lt_succ_iff]
    rcases Nat.eq_zero_or_pos em.roundedMantissa with hnone | hsome
    · rw [hnone]
      exact Nat.succ_pos _
    · exact (Nat.log2_lt (Nat.ne_of_gt hsome)).mpr (by omega)
  obtain ⟨hmantissa', hexponent'⟩ := shiftToTargetExponent_bounds em.roundedMantissa e₁ .exact
  split
  · exact .zero s
  · exact .finite s _ hmantissa' (by omega)

theorem within_mul {top : Int} (hu : Within bits bound u) (hv : Within bits' bound' v)
    (htop : bits + bits' + bound + bound' < top) (hlow : -1074 < top) :
    Within 53 top (UnpackedFloat.mul .binary64 u v) := by
  cases hu with
  | zero => cases hv <;> exact .zero _
  | @finite s m e hm hbits hbound =>
    cases hv with
    | zero => exact .zero _
    | @finite s' m' e' hm' hbits' hbound' =>
      have hproduct : m * m' < 2 ^ (bits + bits') := by
        rw [Nat.pow_add]
        exact Nat.mul_lt_mul'' hbits hbits'
      exact within_roundWithAccuracy _ _ hproduct (by omega) hlow

theorem within_unpack_packComponents (s : UnpackedFloat.Sign) {e : BitVec 11} (m : BitVec 52)
    (hbound : -1074 ≤ bound) (he : e.toNat < 2047) (h : (e.toNat : Int) - 1075 ≤ bound) :
    Within 53 bound (unpack .binary64 (packComponents .binary64 s e m)) := by
  have hones : e ≠ -1#11 := by
    rintro rfl
    exact absurd he (by decide)
  have hfields : (Format.binary64.exponentBias + Format.binary64.mantissaBitsWithoutImplicit : Int) =
    1075 := rfl
  rw [unpack]
  simp only [UnpackedFloat.unpackExponent_packComponents,
    UnpackedFloat.unpackMantissa_packComponents, if_neg hones]
  split
  next hzero =>
    split
    next => exact .zero _
    next =>
      refine .finite _ _ (Nat.lt_of_lt_of_le m.isLt (by decide)) ?_
      rw [hfields, hzero]
      show (0 : Int) - 1075 + 1 ≤ bound
      omega
  next =>
    refine .finite _ _ (1#1 ++ m).isLt ?_
    rw [hfields]
    exact h

theorem within_pack (hu : Within bits bound u) (hlow : -1074 ≤ bound) (hhigh : bound ≤ 971) :
    Within 53 bound (Float.Model.pack u).unpack := by
  have hzero : ((0 : BitVec 11).toNat : Int) - 1075 ≤ bound := by
    have hnat : ((0 : BitVec 11).toNat : Int) = 0 := rfl
    omega
  show Within 53 bound (unpack .binary64 (pack .binary64 u))
  cases hu with
  | zero s => exact within_unpack_packComponents s _ hlow (by decide) hzero
  | @finite s m e hm hbits hbound =>
    have hfields : (Format.binary64.exponentBias : Int) = 1023 ∧
      (Format.binary64.mantissaBitsWithoutImplicit : Int) = 52 := ⟨rfl, rfl⟩
    rw [pack, hfields.1, hfields.2]
    dsimp only
    generalize hbiased : (e + 1023 + 52).toNat = biased
    rw [if_neg (by omega)]
    split
    · have htoNat : (BitVec.ofNat 11 biased).toNat = biased := by
        rw [BitVec.toNat_ofNat]
        omega
      refine within_unpack_packComponents s _ hlow ?_ ?_ <;> rw [htoNat] <;> omega
    · exact within_unpack_packComponents s _ hlow (by decide) hzero

theorem within_neg (hu : Within bits bound u) : Within bits bound u.neg := by
  cases hu with
  | zero s => exact .zero _
  | finite s hm hbits hbound => exact .finite _ hm hbits hbound

/-! ## Whole numbers -/

theorem within_round (s : UnpackedFloat.Sign) {n : Nat} (h : n < 2 ^ 64) :
    Within 53 65 (UnpackedFloat.round .binary64 s n 0) := by
  rw [UnpackedFloat.round, UnpackedFloat.decreaseExponent, targetExponent_binary64]
  dsimp only
  generalize (0 - max ((n.log2 : Int) + 0 - 52) (-1074)).toNat = k
  have hshifted : n <<< k < 2 ^ (64 + k) := by
    rw [Nat.shiftLeft_eq, Nat.pow_add]
    exact Nat.mul_lt_mul_of_pos_right h (Nat.two_pow_pos k)
  exact within_roundWithAccuracy s _ hshifted (by omega) (by decide)

theorem within_ofNat {n : Nat} (h : n < 2 ^ 64) :
    Within 53 65 (UnpackedFloat.ofNat .binary64 n) := by
  rw [UnpackedFloat.ofNat, UnpackedFloat.ofInt, UnpackedFloat.normalize]
  split
  · rename_i hneg
    exact absurd (Int.compare_eq_lt.mp hneg) (by omega)
  · exact .zero _
  · exact within_round .positive h

theorem within_ofScientific {n : Nat} (h : n < 2 ^ 64) :
    Within 53 120 (UnpackedFloat.ofScientific .binary64 n 0) := by
  rw [UnpackedFloat.ofScientific]
  split
  next => exact .zero _
  next hn =>
    have hbits : (2 : Int) ^ Format.binary64.exponentBits = 2048 := by decide
    rw [if_neg (by omega), if_neg (by omega), if_pos (Int.le_refl 0)]
    have hshifted : n <<< 53 < 2 ^ 117 := by
      rw [Nat.shiftLeft_eq]
      omega
    have hleft : ∀ hpos, Within 117 (-53) (.finite .positive (n <<< 53) (-53) hpos) :=
      fun hpos => .finite _ hpos hshifted (Int.le_refl _)
    have hright : ∀ hpos, Within 1 0 (.finite .positive 1 0 hpos) :=
      fun hpos => .finite _ hpos (by decide) (Int.le_refl _)
    exact within_mul (hleft _) (hright _) (by decide) (by decide)

theorem within_toModel_ofNat {n : Nat} (h : n < 2 ^ 64) :
    Within 53 120 (Float.ofNat n).toModel.unpack := by
  show Within 53 120 (Float.ofScientific n false 0).toModel.unpack
  unfold Float.ofScientific
  split
  next hsmall =>
    have hfactor : Within 53 65 (Float.Model.ofUInt64 n.toUInt64).unpack :=
      within_pack (within_ofNat n.toUInt64.toNat_lt) (by decide) (by decide)
    have hunpack : (Float.ofBits 0x3ff0000000000000).toModel.unpack =
        .finite .positive (2 ^ 52) (-52) (by decide) := by rfl
    have hone : Within 53 (-52) (Float.ofBits 0x3ff0000000000000).toModel.unpack := by
      rw [hunpack]
      exact .finite _ _ (by decide) (Int.le_refl _)
    exact within_pack (within_mul hfactor hone (by decide) (by decide)) (by decide) (by decide)
  next => exact within_pack (within_ofScientific h) (by decide) (by decide)

theorem isFinite_ofInt {n : Int} (h : n.natAbs < 2 ^ 64) : (Float.ofInt n).isFinite = true := by
  cases n with
  | ofNat n => exact (within_toModel_ofNat h).isFinite
  | negSucc n =>
    exact (within_pack (within_neg (within_toModel_ofNat h)) (by decide) (by decide)).isFinite

end Montage.Decimal
