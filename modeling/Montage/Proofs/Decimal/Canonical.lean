import Mathlib
import Montage.Proofs.Decimal.Finite
import Montage.Decimal.Binary

/-!
# The forms of finite floats

A finite float is a mantissa of 53 bits times a power of two. Its highest bit is set unless the
exponent is the least one, so every value has one form, and the bits of a float hold just this form.
Two finite floats are equal as numbers if they have the same form or are both zero.
-/

namespace Montage.Decimal

open Float.Model (Format UnpackedFloat)
open Float.Model.UnpackedFloat (pack unpack packComponents)

/-! ## Forms -/

/-- `mantissa · 2 ^ exponent` is the form of a positive finite float. -/
structure Canonical (m : Nat) (e : Int) : Prop where
  pos : 0 < m
  lt : m < 2 ^ 53
  low : -1074 ≤ e
  high : e ≤ 971
  normal : 2 ^ 52 ≤ m ∨ e = -1074

/-! ## Bits -/

theorem sign_ofBitVec_toBitVec (s : UnpackedFloat.Sign) :
    UnpackedFloat.Sign.ofBitVec s.toBitVec = s := by
  cases s <;> rfl

theorem unpackSign_packComponents (f : Float.Model.Format) (s : UnpackedFloat.Sign)
    (e : BitVec f.exponentBits) (m : BitVec f.mantissaBitsWithoutImplicit) :
    UnpackedFloat.unpackSign (packComponents f s e m) = s.toBitVec := by
  apply BitVec.eq_of_getLsbD_eq
  intro i hi
  obtain rfl : i = 0 := by omega
  simp [UnpackedFloat.unpackSign, packComponents, BitVec.getLsbD_append, BitVec.getElem_append]

theorem toNat_implicit (m : BitVec 52) : (1#1 ++ m).toNat = 2 ^ 52 + m.toNat := by
  rw [BitVec.toNat_append, ← Nat.shiftLeft_add_eq_or_of_lt m.isLt]
  rfl

theorem log2_add_one_eq {m : Nat} (hpos : 0 < m) (hlt : m < 2 ^ 53) :
    m.log2 + 1 = 53 ↔ 2 ^ 52 ≤ m := by
  have hupper : m.log2 < 53 := (Nat.log2_lt (Nat.ne_of_gt hpos)).mpr hlt
  rw [← Nat.le_log2 (Nat.ne_of_gt hpos)]
  omega

theorem unpack_pack_zero (s : UnpackedFloat.Sign) :
    (Float.Model.pack (.zero s)).unpack = .zero s := by
  cases s <;> rfl

theorem unpack_pack_finite (s : UnpackedFloat.Sign) {m : Nat} {e : Int} (h : Canonical m e) :
    (Float.Model.pack (.finite s m e h.pos)).unpack = .finite s m e h.pos := by
  obtain ⟨hpos, hlt, hlow, hhigh, hnormal⟩ := h
  have hbias : (Format.binary64.exponentBias : Int) = 1023 := rfl
  have hmantissa : (Format.binary64.mantissaBitsWithoutImplicit : Int) = 52 := rfl
  have hbits : Format.binary64.mantissaBits = 53 := rfl
  show unpack .binary64 (pack .binary64 (.finite s m e hpos)) = _
  rw [pack, hbias, hmantissa, hbits]
  dsimp only
  generalize hbiased : (e + 1023 + 52).toNat = biased
  rw [if_neg (by omega)]
  split
  next hlog =>
    have hm : 2 ^ 52 ≤ m := (log2_add_one_eq hpos hlt).mp hlog
    have hexponent : (BitVec.ofNat 11 biased).toNat = biased := by
      rw [BitVec.toNat_ofNat]
      omega
    have hones : BitVec.ofNat 11 biased ≠ -1#11 := fun h => by
      have := congrArg BitVec.toNat h
      rw [hexponent, show (-1#11).toNat = 2047 from rfl] at this
      omega
    have hzero : BitVec.ofNat 11 biased ≠ 0#11 := fun h => by
      have := congrArg BitVec.toNat h
      rw [hexponent, show (0#11).toNat = 0 from rfl] at this
      omega
    have hvalue : (1#1 ++ BitVec.ofNat 52 m).toNat = m := by
      rw [toNat_implicit, BitVec.toNat_ofNat]
      omega
    rw [unpack]
    simp only [UnpackedFloat.unpackExponent_packComponents,
      UnpackedFloat.unpackMantissa_packComponents, unpackSign_packComponents, if_neg hones,
      if_neg hzero, sign_ofBitVec_toBitVec, hexponent, hvalue, hbias, hmantissa]
    congr 1
    omega
  next hlog =>
    have hm : ¬ 2 ^ 52 ≤ m := mt (log2_add_one_eq hpos hlt).mpr hlog
    have hvalue : (BitVec.ofNat 52 m).toNat = m := by
      rw [BitVec.toNat_ofNat]
      omega
    have hzero : BitVec.ofNat 52 m ≠ 0#52 := fun h => by
      have := congrArg BitVec.toNat h
      rw [hvalue] at this
      exact Nat.ne_of_gt hpos this
    rw [unpack]
    simp only [UnpackedFloat.unpackExponent_packComponents,
      UnpackedFloat.unpackMantissa_packComponents, unpackSign_packComponents,
      sign_ofBitVec_toBitVec, hvalue, hbias, hmantissa, if_neg (show (0#11) ≠ -1#11 by decide),
      if_true, dif_neg hzero]
    congr 1
    exact (hnormal.resolve_left hm).symm

theorem canonical_of_unpack {x : Float.Model} {s : UnpackedFloat.Sign} {m : Nat} {e : Int}
    {hm : 0 < m} (h : x.unpack = .finite s m e hm) : Canonical m e := by
  have hbias : (Format.binary64.exponentBias : Int) = 1023 := rfl
  have hmantissa : (Format.binary64.mantissaBitsWithoutImplicit : Int) = 52 := rfl
  rw [Float.Model.unpack, unpack] at h
  simp only [hbias, hmantissa] at h
  have hexponent : (@UnpackedFloat.unpackExponent .binary64 x.toBits.toBitVec).toNat < 2 ^ 11 :=
    BitVec.isLt _
  have hmlt : (@UnpackedFloat.unpackMantissa .binary64 x.toBits.toBitVec).toNat < 2 ^ 52 :=
    BitVec.isLt _
  split at h
  next => split at h <;> cases h
  next hones =>
    have hne : (@UnpackedFloat.unpackExponent .binary64 x.toBits.toBitVec).toNat ≠ 2047 :=
      fun heq => hones (BitVec.eq_of_toNat_eq heq)
    split at h
    next hzero =>
      split at h
      next => cases h
      next =>
        cases h
        refine ⟨hm, Nat.lt_trans hmlt (by decide), ?_, ?_, .inr ?_⟩ <;> rw [hzero] <;> decide
    next hzero =>
      have hpos : (@UnpackedFloat.unpackExponent .binary64 x.toBits.toBitVec).toNat ≠ 0 :=
        fun heq => hzero (BitVec.eq_of_toNat_eq heq)
      cases h
      rw [toNat_implicit]
      refine ⟨by omega, by omega, by omega, by omega, .inl (by omega)⟩

/-! ## Equality -/

theorem beq_iff_compare {x y : Float} :
    (x == y) = true ↔ x.toModel.unpack.compare y.toModel.unpack = some .eq := by
  show UnpackedFloat.beq _ _ = true ↔ _
  rw [UnpackedFloat.beq, beq_iff_eq]

inductive Alike : UnpackedFloat → UnpackedFloat → Prop
  | zero (s t : UnpackedFloat.Sign) : Alike (.zero s) (.zero t)
  | finite (s : UnpackedFloat.Sign) {m : Nat} (e : Int) (hm : 0 < m) :
    Alike (.finite s m e hm) (.finite s m e hm)

theorem Alike.beq {x y : Float} (h : Alike x.toModel.unpack y.toModel.unpack) :
    (x == y) = true := by
  rw [beq_iff_compare]
  generalize x.toModel.unpack = u, y.toModel.unpack = v at h
  cases h with
  | zero s t => cases s <;> cases t <;> rfl
  | finite s e hm =>
    cases s <;> simp [UnpackedFloat.compare]

theorem Alike.refl {u : UnpackedFloat} (h : u.isFinite = true) : Alike u u := by
  cases u with
  | zero s => exact .zero s s
  | finite s m e hm => exact .finite s e hm
  | _ => cases h

theorem Alike.isFinite {u v : UnpackedFloat} (h : Alike u v) : u.isFinite = true := by
  cases h <;> rfl

theorem Alike.trans {u v w : UnpackedFloat} (h : Alike u v) (h' : Alike v w) : Alike u w := by
  cases h with
  | zero s t =>
    cases h'
    exact .zero _ _
  | finite s e hm => exact h'

theorem unpack_neg {x : Float} (h : x.toModel.unpack.isFinite = true) :
    (-x).toModel.unpack = x.toModel.unpack.neg := by
  show (Float.Model.pack x.toModel.unpack.neg).unpack = _
  rcases hx : x.toModel.unpack with _ | _ | s | ⟨s, m, e, hm⟩
  · rw [hx] at h
    cases h
  · rw [hx] at h
    cases h
  · exact unpack_pack_zero (-s)
  · exact unpack_pack_finite (-s) (canonical_of_unpack hx)

theorem Alike.neg {u v : UnpackedFloat} (h : Alike u v) : Alike u.neg v.neg := by
  cases h with
  | zero s t => exact .zero _ _
  | finite s e hm => exact .finite _ e hm

end Montage.Decimal
