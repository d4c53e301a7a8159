import Mathlib
import Montage.Json.Basic

/-!
# Floats that are numbers

Floats are ordered as soon as neither of them is NaN. A whole number is rounded to a float that is
not NaN, because rounding a number, packing the bits and changing the sign all keep it a number, and
so does the product of numbers unless it is zero times infinity.
-/

namespace Montage.Decimal

open Float.Model (UnpackedFloat)
open Float.Model.UnpackedFloat (pack unpack packComponents)

/-! ## Order -/

theorem lt_iff_compare {x y : Float} :
    x < y ↔ x.toModel.unpack.compare y.toModel.unpack = some .lt := by
  show Float.lt x y = true ↔ _
  rw [Float.lt, decide_eq_true_iff]
  show UnpackedFloat.lt _ _ = true ↔ _
  rw [UnpackedFloat.lt, beq_iff_eq]

theorem le_iff_compare {x y : Float} :
    x ≤ y ↔ (x.toModel.unpack.compare y.toModel.unpack).any Ordering.isLE := by
  show Float.le x y = true ↔ _
  rw [Float.le, decide_eq_true_iff]
  rfl

theorem compare_swap (a b : UnpackedFloat) : (a.compare b).map Ordering.swap = b.compare a := by
  rcases a with (_ | _) | _ | (_ | _) | ⟨_ | _, m, e, hm⟩ <;>
    rcases b with (_ | _) | _ | (_ | _) | ⟨_ | _, m', e', hm'⟩ <;>
    try rfl
  -- left are two finite floats of one sign
  all_goals
    simp only [UnpackedFloat.compare, Option.map_some, Ordering.swap_then, Int.compare_swap,
      Nat.compare_swap]

theorem compare_isSome {a b : UnpackedFloat} (ha : a.isNaN = false) (hb : b.isNaN = false) :
    (a.compare b).isSome := by
  rcases a with (_ | _) | _ | (_ | _) | ⟨_ | _, m, e, hm⟩ <;>
    rcases b with (_ | _) | _ | (_ | _) | ⟨_ | _, m', e', hm'⟩ <;>
    first | rfl | exact absurd ha (by decide) | exact absurd hb (by decide)

theorem le_of_not_lt {x y : Float} (hx : x.isNaN = false) (hy : y.isNaN = false) (h : ¬ y < x) :
    x ≤ y := by
  obtain ⟨o, ho⟩ := Option.isSome_iff_exists.mp (compare_isSome hx hy)
  rw [lt_iff_compare, ← compare_swap, ho] at h
  rw [le_iff_compare, ho]
  cases o with
  | lt | eq => rfl
  | gt => exact absurd rfl h

/-! ## Not NaN -/

theorem isNaN_of_isFinite {x : Float} (h : x.isFinite = true) : x.isNaN = false := by
  unfold Float.isNaN Float.Model.isNaN
  unfold Float.isFinite Float.Model.isFinite at h
  revert h
  cases x.toModel.unpack <;> intro h <;> first | rfl | cases h

theorem isNaN_unpack_packComponents (s : UnpackedFloat.Sign) {e : BitVec 11} {m : BitVec 52}
    (h : e = -1#11 → m = 0#52) :
    (unpack .binary64 (packComponents .binary64 s e m)).isNaN = false := by
  rw [unpack]
  simp only [UnpackedFloat.unpackExponent_packComponents,
    UnpackedFloat.unpackMantissa_packComponents]
  split
  next he => rw [if_pos (h he)]; rfl
  next =>
    split
    next =>
      split <;> rfl
    next => rfl

theorem isNaN_pack {u : UnpackedFloat} (h : u.isNaN = false) :
    (Float.Model.pack u).unpack.isNaN = false := by
  show (unpack .binary64 (pack .binary64 u)).isNaN = false
  cases u with
  | notANumber => cases h
  | infinity s => exact isNaN_unpack_packComponents s fun _ => rfl
  | zero s => exact isNaN_unpack_packComponents s fun he => absurd he (by decide)
  | finite s m e hm =>
    rw [pack]
    dsimp only
    split
    next => exact isNaN_unpack_packComponents s fun _ => rfl
    next hlt =>
      split
      next =>
        refine isNaN_unpack_packComponents s fun he => ?_
        have hbits := congrArg BitVec.toNat he
        have hones : (-1#11).toNat = 2047 := by decide
        rw [BitVec.toNat_ofNat, hones] at hbits
        omega
      next => exact isNaN_unpack_packComponents s fun he => absurd he (by decide)

theorem isNaN_neg {x : Float} (h : x.isNaN = false) : (-x).isNaN = false := by
  refine isNaN_pack ?_
  show x.toModel.unpack.neg.isNaN = false
  have h : x.toModel.unpack.isNaN = false := h
  revert h
  cases x.toModel.unpack <;> intro h <;> first | rfl | cases h

theorem isNaN_roundWithAccuracy (f : Float.Model.Format) (s : UnpackedFloat.Sign) (m : Nat) (e : Int)
    (a : UnpackedFloat.Accuracy) : (UnpackedFloat.roundWithAccuracy f s m e a).isNaN = false := by
  unfold UnpackedFloat.roundWithAccuracy
  dsimp only
  split <;> rfl

theorem isNaN_normalize (m e : Int) (s : UnpackedFloat.Sign) :
    (UnpackedFloat.normalize .binary64 m e s).isNaN = false := by
  unfold UnpackedFloat.normalize
  split
  · exact isNaN_roundWithAccuracy ..
  · rfl
  · exact isNaN_roundWithAccuracy ..

theorem isNaN_mul {a b : UnpackedFloat} (ha : a.isNaN = false) (hb : b.isFinite = true)
    (hpos : b.compare (.zero .positive) = some .gt) :
    (UnpackedFloat.mul .binary64 a b).isNaN = false := by
  cases b with
  | notANumber | infinity => cases hb
  | zero => cases hpos
  | finite =>
    cases a with
    | notANumber => cases ha
    | infinity | zero => rfl
    | finite => exact isNaN_roundWithAccuracy ..

theorem isNaN_ofScientific (m : Nat) :
    (UnpackedFloat.ofScientific .binary64 m 0).isNaN = false := by
  unfold UnpackedFloat.ofScientific
  split
  next => rfl
  next =>
    have hbits : (2 : Int) ^ Float.Model.Format.binary64.exponentBits = 2048 := by decide
    rw [if_neg (by omega), if_neg (by omega), if_pos (Int.le_refl 0)]
    exact isNaN_mul rfl rfl rfl

theorem isNaN_ofNat (n : Nat) : (Float.ofNat n).isNaN = false := by
  show (Float.ofScientific n false 0).isNaN = false
  unfold Float.ofScientific
  split
  next =>
    have hn : (Float.Model.ofUInt64 n.toUInt64).unpack.isNaN = false :=
      isNaN_pack (isNaN_normalize ..)
    exact isNaN_pack (isNaN_mul (b := (Float.ofBits 0x3ff0000000000000).toModel.unpack) hn
      (by decide) (by decide))
  next => exact isNaN_pack (isNaN_ofScientific n)

theorem isNaN_ofInt (n : Int) : (Float.ofInt n).isNaN = false := by
  cases n with
  | ofNat n => exact isNaN_ofNat n
  | negSucc n => exact isNaN_neg (isNaN_ofNat n.succ)

end Montage.Decimal

namespace Montage

theorem Number.isNaN_toFloat (n : Number) : n.toFloat.isNaN = false := by
  cases n with
  | int n => exact Decimal.isNaN_ofInt n
  | float x finite => exact Decimal.isNaN_of_isFinite finite

end Montage
