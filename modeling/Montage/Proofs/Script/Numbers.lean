import Mathlib
import Montage.Script.Builtin
import Montage.Proofs.Decimal.Text
import Montage.Proofs.Json.WellFormed

/-!
# Numbers that are written and computed again

The text of a JSON number is a numeral, perhaps behind a minus. The language has no negative
literal: it reads the numeral, makes it a whole number if it is one, and changes the sign. What
comes out is another number at most in its kind, whole or not, and in the sign of zero: it counts
the same.
-/

namespace Montage

open Decimal (Alike Binary Canonical IsNumeral)
open Float.Model (UnpackedFloat)

/-! ## Signs -/

def Number.isMinus : Number → Bool
  | .int n => n < 0
  | .float x _ => Decimal.isMinus x

/-- The float that the text of the number writes behind its minus. -/
def Number.magnitude : Number → Float
  | .int n => .ofNat n.natAbs
  | .float x _ => x.abs

theorem toList_toString (n : Nat) : (toString n).toList = Decimal.natDigits n := Nat.toList_repr

theorem Number.exists_isNumeral (n : Number) :
    ∃ cs, n.text.toList = (if n.isMinus then '-' :: cs else cs) ∧ IsNumeral cs n.magnitude := by
  cases n with
  | int n =>
    refine ⟨_, ?_, Decimal.isNumeral_natDigits n.natAbs⟩
    rw [Number.text, Json.intText, Number.isMinus]
    split
    next h => rw [if_pos (decide_eq_true h), String.toList_append, toList_toString]; rfl
    next h => rw [if_neg (by simpa using h), toList_toString]
  | float x finite =>
    obtain ⟨cs, htext, hcs⟩ := Decimal.exists_isNumeral finite
    refine ⟨cs, ?_, hcs⟩
    rw [Number.text, String.toList_ofList, htext]
    rfl

theorem Number.isFinite_magnitude {n : Number} (h : n.WellFormed) :
    n.magnitude.toModel.unpack.isFinite = true := by
  cases n with
  | int n =>
    obtain ⟨hlow, hhigh⟩ := h
    have hcount : (count64 : Int) = 2 ^ 64 := rfl
    exact (Decimal.within_toModel_ofNat (by omega)).isFinite
  | float x finite =>
    have hfinite : x.toModel.unpack.isFinite = true := finite
    show (Float.Model.pack x.toModel.unpack.abs).unpack.isFinite = true
    rcases hx : x.toModel.unpack with s | _ | s | ⟨s, m, e, hm⟩
    · rw [hx] at hfinite
      cases hfinite
    · rw [hx] at hfinite
      cases hfinite
    · rw [UnpackedFloat.abs, Decimal.unpack_pack_zero]
      rfl
    · rw [UnpackedFloat.abs, Decimal.unpack_pack_finite _ (Decimal.canonical_of_unpack hx)]
      rfl

theorem Number.magnitude_alike {n : Number} (h : n.WellFormed) :
    Alike (if n.isMinus then n.magnitude.toModel.unpack.neg else n.magnitude.toModel.unpack)
      n.toFloat.toModel.unpack := by
  have hmagnitude := isFinite_magnitude h
  cases n with
  | int n =>
    cases n with
    | ofNat n =>
      rw [Number.isMinus, if_neg (by simp)]
      exact .refl hmagnitude
    | negSucc n =>
      rw [Number.isMinus, if_pos (by simp)]
      have hneg := Decimal.unpack_neg hmagnitude
      have hfloat : Number.toFloat (.int (.negSucc n)) =
          -(Number.magnitude (.int (.negSucc n))) := rfl
      rw [hfloat, hneg]
      refine .refl ?_
      generalize (Number.magnitude (.int (.negSucc n))).toModel.unpack = u at hmagnitude ⊢
      cases u <;> first | rfl | cases hmagnitude
  | float x finite =>
    have hfinite : x.toModel.unpack.isFinite = true := finite
    rw [Number.isMinus, Decimal.isMinus]
    show Alike (if _ then (Float.Model.pack x.toModel.unpack.abs).unpack.neg
      else (Float.Model.pack x.toModel.unpack.abs).unpack) x.toModel.unpack
    rcases hx : x.toModel.unpack with s | _ | s | ⟨s, m, e, hm⟩
    · rw [hx] at hfinite
      cases hfinite
    · rw [hx] at hfinite
      cases hfinite
    · rw [UnpackedFloat.abs, Decimal.unpack_pack_zero]
      cases s <;> exact .zero _ _
    · rw [UnpackedFloat.abs, Decimal.unpack_pack_finite _ (Decimal.canonical_of_unpack hx)]
      cases s <;> exact .finite _ e hm

/-! ## Computed numbers -/

namespace Script

theorem floor_eq_of_isWhole {d : Binary} (h : d.isWhole = true) :
    (d.floor : ℚ) = d.coefficient * 2 ^ d.exponent := by
  obtain ⟨c, e⟩ := d
  rw [Binary.isWhole, beq_iff_eq, Binary.ceil] at h
  simp only [Binary.floor] at h ⊢
  by_cases he : 0 ≤ e
  · obtain ⟨n, rfl⟩ := Int.eq_ofNat_of_zero_le he
    rw [if_pos he, Int.toNat_natCast, zpow_natCast, Nat.pow_eq]
    push_cast
    rfl
  · obtain ⟨n, hn⟩ := Int.eq_ofNat_of_zero_le (show 0 ≤ -e by omega)
    obtain rfl : e = -(n : Int) := by omega
    rw [if_neg he, if_neg he, hn, Int.toNat_natCast] at h
    rw [if_neg he, hn, Int.toNat_natCast, zpow_neg, zpow_natCast]
    -- rounding down and rounding up agree, so nothing is left
    have hpos : (0 : Int) < (Nat.pow 2 n : ℕ) := by exact_mod_cast Nat.two_pow_pos n
    have hmul : c / (Nat.pow 2 n : ℕ) * (Nat.pow 2 n : ℕ) = c := by
      have hdown := Int.ediv_mul_le c (ne_of_gt hpos)
      have hup := Int.ediv_mul_le (-c) (ne_of_gt hpos)
      nlinarith
    have hcast : ((c / (Nat.pow 2 n : ℕ) : Int) : ℚ) * 2 ^ n = c := by exact_mod_cast hmul
    rw [← hcast]
    field_simp

theorem unpack_ofNat {m n : Nat} {e : Int} (hm : Canonical m e) (hn : (n : ℚ) = m * 2 ^ e) :
    (Float.ofNat n).toModel.unpack = .finite .positive m e hm.pos := by
  have hpos : 0 < n := by
    have h : (0 : ℚ) < n := by
      rw [hn]
      exact mul_pos (by exact_mod_cast hm.pos) (zpow_pos two_pos e)
    exact_mod_cast h
  have hnearest : Decimal.Nearest m e (n * 10 ^ (0 : Int)) := by
    rw [zpow_zero, mul_one, hn]
    exact Decimal.nearest_self m e
  have hread : Float.ofNat n = .ofModel (.pack (.finite .positive m e hm.pos)) :=
    Decimal.ofScientific_eq hpos hm hnearest
  rw [hread]
  exact Decimal.unpack_pack_finite _ hm

theorem unpack_ofInt {s : UnpackedFloat.Sign} {m : Nat} {e n : Int} (hm : Canonical m e)
    (hn : (n : ℚ) = (s.apply m : ℤ) * 2 ^ e) :
    (Float.ofInt n).toModel.unpack = .finite s m e hm.pos := by
  have hpow : (0 : ℚ) < m * 2 ^ e := mul_pos (by exact_mod_cast hm.pos) (zpow_pos two_pos e)
  cases s with
  | positive =>
    have hvalue : (n : ℚ) = m * 2 ^ e := by exact_mod_cast hn
    have hpos : 0 < n := by
      have h : (0 : ℚ) < n := by rwa [hvalue]
      exact_mod_cast h
    obtain ⟨k, rfl⟩ := Int.eq_ofNat_of_zero_le hpos.le
    exact unpack_ofNat hm (by exact_mod_cast hvalue)
  | negative =>
    have hvalue : (n : ℚ) = -(m * 2 ^ e) := by
      rw [hn, UnpackedFloat.Sign.apply]
      push_cast
      ring
    have hneg : n < 0 := by
      have h : (n : ℚ) < 0 := by rw [hvalue]; linarith
      exact_mod_cast h
    obtain ⟨k, rfl⟩ := Int.eq_negSucc_of_lt_zero hneg
    have hk := unpack_ofNat (n := k + 1) hm (by
      rw [Int.cast_negSucc] at hvalue
      push_cast at hvalue ⊢
      linarith)
    have hfinite : (Float.ofNat (k + 1)).toModel.unpack.isFinite = true := by rw [hk]; rfl
    show (-(Float.ofNat (k + 1))).toModel.unpack = _
    rw [Decimal.unpack_neg hfinite, hk]
    rfl

theorem exists_ofFloat_eq {x : Float} (hx : x.toModel.unpack.isFinite = true) :
    ∃ n, ofFloat x = .number n ∧ Alike n.toFloat.toModel.unpack x.toModel.unpack := by
  have hfinite : x.isFinite = true := hx
  have hself : Json.ofFloat x = .number (.float x hfinite) := by
    rw [Json.ofFloat, Number.ofFloat?, dif_pos hfinite]
    rfl
  rw [ofFloat, Binary.ofFloat?]
  rcases hunpack : x.toModel.unpack with s | _ | s | ⟨s, m, e, hm⟩
  · rw [hunpack] at hx
    cases hx
  · rw [hunpack] at hx
    cases hx
  · refine ⟨.int 0, rfl, ?_⟩
    exact .zero _ _
  · dsimp only
    split
    next hwhole =>
      rw [Bool.and_eq_true] at hwhole
      refine ⟨_, rfl, ?_⟩
      have hfloor := floor_eq_of_isWhole hwhole.1
      show Alike (Float.ofInt _).toModel.unpack _
      rw [unpack_ofInt (Decimal.canonical_of_unpack hunpack) hfloor]
      exact .finite s e hm
    next =>
      refine ⟨_, hself, ?_⟩
      rw [← hunpack]
      exact .refl hx

end Script

end Montage
