import Mathlib
import Montage.Proofs.Decimal.Reading

/-!
# Floats against whole numbers

Finite floats are ordered as their exact values are, and equal if these are. A whole number below
`2 ^ 53` is a float itself, and a greater one is rounded to a float that is not below `2 ^ 53`. So a
number of any kind lies before or behind a whole number below `2 ^ 53` exactly if the floats that are
nearest to the two do.
-/

namespace Montage.Decimal

open Float.Model (Format UnpackedFloat)
open Float.Model.UnpackedFloat (ExtendedMantissa pack unpack roundWithAccuracy
  shiftToTargetExponent shiftToExponent)

/-! ## Exact values -/

def Binary.value (b : Binary) : ℚ := b.coefficient * 2 ^ b.exponent

/-- The exact value of a finite float. -/
def exactValue (x : Float) : ℚ := ((Binary.ofFloat? x).map Binary.value).getD 0

section

variable {x y : Float} {m m' : Nat} {e e' : Int}

theorem exactValue_finite {s : UnpackedFloat.Sign} {hm : 0 < m}
    (h : x.toModel.unpack = .finite s m e hm) : exactValue x = s.apply m * 2 ^ e := by
  rw [exactValue, Binary.ofFloat?, h]
  rfl

theorem exactValue_zero {s : UnpackedFloat.Sign} (h : x.toModel.unpack = .zero s) :
    exactValue x = 0 := by
  rw [exactValue, Binary.ofFloat?, h]
  exact zero_mul _

/-! ## Order -/

theorem Canonical.lt_of_exponent_lt (h : Canonical m e) (h' : Canonical m' e') (he : e < e') :
    (m : ℚ) * 2 ^ e < m' * 2 ^ e' := by
  have hm : (m : ℚ) < 2 ^ 53 := by exact_mod_cast h.lt
  have hm' : (2 : ℚ) ^ 52 ≤ m' := by
    exact_mod_cast h'.normal.resolve_right (by have := h.low; omega)
  calc (m : ℚ) * 2 ^ e < 2 ^ 53 * 2 ^ e := mul_lt_mul_of_pos_right hm (zpow_pos two_pos e)
    _ = 2 ^ 52 * 2 ^ (e + 1) := by rw [zpow_add_one₀ two_ne_zero]; ring
    _ ≤ m' * 2 ^ e' := mul_le_mul hm' (zpow_le_zpow_right₀ one_le_two he) (by positivity)
        (by positivity)

theorem Canonical.compare_eq_lt_iff (h : Canonical m e) (h' : Canonical m' e') :
    (compare e e').then (compare m m') = .lt ↔ (m : ℚ) * 2 ^ e < m' * 2 ^ e' := by
  rcases lt_trichotomy e e' with he | rfl | he
  · rw [Int.compare_eq_lt.mpr he]
    exact iff_of_true rfl (h.lt_of_exponent_lt h' he)
  · rw [Int.compare_eq_eq.mpr rfl]
    show compare m m' = .lt ↔ _
    rw [Nat.compare_eq_lt, mul_lt_mul_iff_left₀ (zpow_pos two_pos e), Nat.cast_lt]
  · rw [Int.compare_eq_gt.mpr he]
    exact iff_of_false nofun (not_lt.mpr (h'.lt_of_exponent_lt h he).le)

theorem form_of_isFinite (hx : x.isFinite = true) :
    (∃ s, x.toModel.unpack = .zero s) ∨
      ∃ m e hm, x.toModel.unpack = .finite .positive m e hm ∨
        x.toModel.unpack = .finite .negative m e hm := by
  have hunpacked : x.toModel.unpack.isFinite = true := hx
  rcases hu : x.toModel.unpack with _ | _ | s | ⟨_ | _, m, e, hm⟩
  · rw [hu] at hunpacked
    cases hunpacked
  · rw [hu] at hunpacked
    cases hunpacked
  · exact .inl ⟨s, rfl⟩
  · exact .inr ⟨m, e, hm, .inr rfl⟩
  · exact .inr ⟨m, e, hm, .inl rfl⟩

theorem exactValue_positive {hm : 0 < m} (h : x.toModel.unpack = .finite .positive m e hm) :
    exactValue x = m * 2 ^ e ∧ 0 < exactValue x := by
  have hvalue : exactValue x = m * 2 ^ e := exactValue_finite h
  have hpos : (0 : ℚ) < m := by exact_mod_cast hm
  exact ⟨hvalue, hvalue ▸ by positivity⟩

theorem exactValue_negative {hm : 0 < m} (h : x.toModel.unpack = .finite .negative m e hm) :
    exactValue x = -(m * 2 ^ e) ∧ exactValue x < 0 := by
  have hvalue : exactValue x = -(m * 2 ^ e) := by
    rw [exactValue_finite h, ← neg_mul]
    exact congrArg (· * _) (Int.cast_neg (m : ℤ))
  have hpos : (0 : ℚ) < m := by exact_mod_cast hm
  exact ⟨hvalue, hvalue ▸ by rw [neg_lt_zero]; positivity⟩

theorem lt_iff_exactValue (hx : x.isFinite = true) (hy : y.isFinite = true) :
    x < y ↔ exactValue x < exactValue y := by
  rw [lt_iff_compare]
  rcases form_of_isFinite hx with ⟨s, hu⟩ | ⟨m, e, hm, hu | hu⟩ <;>
    rcases form_of_isFinite hy with ⟨s', hv⟩ | ⟨m', e', hm', hv | hv⟩ <;>
    rw [hu, hv]
  · rw [exactValue_zero hu, exactValue_zero hv]
    exact iff_of_false nofun (lt_irrefl 0)
  · rw [exactValue_zero hu]
    exact iff_of_true rfl (exactValue_positive hv).2
  · rw [exactValue_zero hu]
    exact iff_of_false nofun (exactValue_negative hv).2.not_gt
  · rw [exactValue_zero hv]
    exact iff_of_false nofun (exactValue_positive hu).2.not_gt
  · rw [(exactValue_positive hu).1, (exactValue_positive hv).1,
      ← (canonical_of_unpack hu).compare_eq_lt_iff (canonical_of_unpack hv)]
    exact Option.some_inj
  · exact iff_of_false nofun
      ((exactValue_negative hv).2.trans (exactValue_positive hu).2).not_gt
  · rw [exactValue_zero hv]
    exact iff_of_true rfl (exactValue_negative hu).2
  · exact iff_of_true rfl ((exactValue_negative hu).2.trans (exactValue_positive hv).2)
  · rw [(exactValue_negative hu).1, (exactValue_negative hv).1, neg_lt_neg_iff,
      ← (canonical_of_unpack hv).compare_eq_lt_iff (canonical_of_unpack hu)]
    simp only [UnpackedFloat.compare, Option.some_inj, Ordering.swap_then, Int.compare_swap,
      Nat.compare_swap]

theorem beq_iff_not_lt (hx : x.isNaN = false) (hy : y.isNaN = false) :
    (x == y) = true ↔ ¬ x < y ∧ ¬ y < x := by
  obtain ⟨o, ho⟩ := Option.isSome_iff_exists.mp (compare_isSome hx hy)
  have ho' : y.toModel.unpack.compare x.toModel.unpack = some o.swap := by
    rw [← compare_swap, ho]
    rfl
  rw [beq_iff_compare, lt_iff_compare, lt_iff_compare, ho, ho']
  cases o <;> decide

theorem beq_iff_exactValue (hx : x.isFinite = true) (hy : y.isFinite = true) :
    (x == y) = true ↔ exactValue x = exactValue y := by
  rw [beq_iff_not_lt (isNaN_of_isFinite hx) (isNaN_of_isFinite hy), lt_iff_exactValue hx hy,
    lt_iff_exactValue hy hx, not_lt, not_lt, and_comm]
  exact le_antisymm_iff.symm

end

/-! ## Whole numbers -/

theorem exactValue_ofNat {n : Nat} (h : n < 2 ^ 53) :
    (Float.ofNat n).isFinite = true ∧ exactValue (.ofNat n) = n := by
  rcases Nat.eq_zero_or_pos n with rfl | hpos
  · have hzero : (Float.ofNat 0).toModel.unpack = .zero .positive := rfl
    exact ⟨rfl, (exactValue_zero hzero).trans Nat.cast_zero.symm⟩
  · obtain ⟨m, e, hm, -, hvalue, -⟩ := exists_ofNat_eq hpos h
    have hnearest : Nearest m e (n * 10 ^ (0 : Int)) := by
      rw [zpow_zero, mul_one, ← hvalue]
      exact nearest_self m e
    have hform : (Float.ofNat n).toModel.unpack = .finite .positive m e hm.pos := by
      show (Float.ofScientific n false 0).toModel.unpack = _
      rw [show Float.ofScientific n false 0 = _ from ofScientific_eq hpos hm hnearest]
      exact unpack_pack_finite _ hm
    refine ⟨?_, (exactValue_positive hform).1.trans hvalue⟩
    show (Float.ofNat n).toModel.unpack.isFinite = true
    rw [hform]
    rfl

theorem le_roundedMantissa (em : ExtendedMantissa) : em.mantissa ≤ em.roundedMantissa := by
  obtain ⟨m, _ | _, _ | _⟩ := em <;>
    simp only [ExtendedMantissa.roundedMantissa, ExtendedMantissa.accuracy,
      UnpackedFloat.Accuracy.roundToNearestEven] <;> omega

theorem le_mantissa_shiftToTargetExponent {m : Nat} {e : Int} {a : UnpackedFloat.Accuracy}
    (hm : 2 ^ 52 ≤ m) (he : -1074 ≤ e) :
    2 ^ 52 ≤ (shiftToTargetExponent .binary64 m e a).1.mantissa := by
  have hpos : m ≠ 0 := by omega
  have hlog : 52 ≤ m.log2 := (Nat.le_log2 hpos).mpr hm
  rw [shiftToTargetExponent, shiftToExponent, targetExponent_binary64]
  dsimp only
  rw [mantissa_shiftRight, mantissa_ofMantissaAndAccuracy]
  have hshift : (max ((m.log2 : Int) + e - 52) (-1074) - e).toNat = m.log2 - 52 := by omega
  rw [hshift, Nat.le_div_iff_mul_le (Nat.two_pow_pos _), ← Nat.pow_add, Nat.add_sub_cancel' hlog]
  exact Nat.log2_self_le hpos

/-- A float, taken apart, that is not below `2 ^ 53`. -/
inductive Large : UnpackedFloat → Prop
  | infinity : Large (.infinity .positive)
  | finite {m : Nat} {e : Int} (h : Canonical m e) (hm : 2 ^ 52 ≤ m) (he : 1 ≤ e) :
    Large (.finite .positive m e h.pos)

theorem unpack_pack_overflow {m : Nat} {e : Int} {hm : 0 < m} (he : 971 < e) :
    (Float.Model.pack (.finite .positive m e hm)).unpack = .infinity .positive := by
  have hbias : (Format.binary64.exponentBias : Int) = 1023 := rfl
  have hmantissa : (Format.binary64.mantissaBitsWithoutImplicit : Int) = 52 := rfl
  show unpack .binary64 (pack .binary64 (.finite .positive m e hm)) = _
  rw [pack, hbias, hmantissa]
  dsimp only
  rw [if_pos (by simp; omega)]
  rfl

theorem large_pack_roundWithAccuracy {m : Nat} {e : Int} (hm : 2 ^ 52 ≤ m) (he : -1074 ≤ e)
    (hlarge : 53 ≤ m.log2 + e) :
    Large (Float.Model.pack (roundWithAccuracy .binary64 .positive m e .exact)).unpack := by
  have hfirst := le_mantissa_shiftToTargetExponent (a := .exact) hm he
  have hexponent := (shiftToTargetExponent_bounds m e .exact).2
  rw [roundWithAccuracy]
  generalize shiftToTargetExponent .binary64 m e .exact = first at hfirst hexponent ⊢
  obtain ⟨em, e₁⟩ := first
  dsimp only at hfirst hexponent ⊢
  have hrounded := hfirst.trans (le_roundedMantissa em)
  have he₁ : 1 ≤ e₁ := by omega
  have hsecond := le_mantissa_shiftToTargetExponent (e := e₁) (a := .exact) hrounded (by omega)
  obtain ⟨hlt, hexponent'⟩ := shiftToTargetExponent_bounds em.roundedMantissa e₁ .exact
  have he₂ : 1 ≤ (shiftToTargetExponent .binary64 em.roundedMantissa e₁ .exact).2 := by omega
  rw [dif_neg (by omega)]
  by_cases htop : (shiftToTargetExponent .binary64 em.roundedMantissa e₁ .exact).2 ≤ 971
  · have hform : Canonical (shiftToTargetExponent .binary64 em.roundedMantissa e₁ .exact).1.mantissa
        (shiftToTargetExponent .binary64 em.roundedMantissa e₁ .exact).2 :=
      ⟨by omega, hlt, by omega, htop, .inl hsecond⟩
    rw [unpack_pack_finite _ hform]
    exact .finite hform hsecond he₂
  · rw [unpack_pack_overflow (by omega)]
    exact .infinity

theorem large_ofNat {n : Nat} (h : 2 ^ 53 ≤ n) : Large (Float.ofNat n).toModel.unpack := by
  have hpos : n ≠ 0 := by omega
  have hbits : (2 : Int) ^ Format.binary64.exponentBits = 2048 := by decide
  show Large (Float.ofScientific n false 0).toModel.unpack
  rw [Float.ofScientific, dif_neg (by omega)]
  show Large (Float.Model.pack (UnpackedFloat.ofScientific .binary64 n 0)).unpack
  rw [UnpackedFloat.ofScientific, dif_neg hpos, if_neg (by omega), if_neg (by omega),
    if_pos (Int.le_refl 0)]
  have hsign : UnpackedFloat.Sign.positive * UnpackedFloat.Sign.positive = .positive := rfl
  have hmantissa : Format.binary64.mantissaBits = 53 := rfl
  have hlog : 106 ≤ (2 ^ 53 * n).log2 := (Nat.le_log2 (by omega)).mpr (by omega)
  rw [UnpackedFloat.mul, hsign, hmantissa, Nat.shiftLeft_eq, Int.toNat_zero, pow_zero, Nat.mul_one,
    Nat.mul_comm]
  exact large_pack_roundWithAccuracy (by omega) (by decide) (by omega)

/-! ## Numbers before and behind whole numbers -/

section

variable {x y : Float}

theorem exactValue_neg (hx : x.isFinite = true) :
    (-x).isFinite = true ∧ exactValue (-x) = -exactValue x := by
  have hneg := unpack_neg hx
  rcases form_of_isFinite hx with ⟨s, hu⟩ | ⟨m, e, hm, hu | hu⟩ <;> rw [hu] at hneg <;>
    refine ⟨(congrArg UnpackedFloat.isFinite hneg).trans rfl, ?_⟩
  · rw [exactValue_zero hneg, exactValue_zero hu, neg_zero]
  · rw [(exactValue_negative hneg).1, (exactValue_positive hu).1]
  · rw [(exactValue_positive hneg).1, (exactValue_negative hu).1, neg_neg]

theorem Large.infinite_or_le (hx : Large x.toModel.unpack) :
    x.toModel.unpack = .infinity .positive ∨ x.isFinite = true ∧ 2 ^ 53 ≤ exactValue x := by
  generalize hu : x.toModel.unpack = u at hx
  cases hx with
  | infinity => exact .inl rfl
  | @finite m e h hm he =>
    refine .inr ⟨(congrArg UnpackedFloat.isFinite hu).trans rfl, ?_⟩
    have hmantissa : (2 : ℚ) ^ 52 ≤ m := by exact_mod_cast hm
    have hexponent : (2 : ℚ) ^ (1 : Int) ≤ 2 ^ e := zpow_le_zpow_right₀ one_le_two he
    rw [(exactValue_positive hu).1]
    calc (2 : ℚ) ^ 53 = (2 : ℚ) ^ 52 * (2 : ℚ) ^ (1 : Int) := by norm_num
      _ ≤ (m : ℚ) * 2 ^ e := mul_le_mul hmantissa hexponent (by positivity) (by positivity)

theorem Large.lt (hx : Large x.toModel.unpack) (hy : y.isFinite = true)
    (hsmall : exactValue y < 2 ^ 53) : y < x ∧ ¬ x < y := by
  rcases hx.infinite_or_le with hu | ⟨hfinite, hle⟩
  · rw [lt_iff_compare, lt_iff_compare, hu]
    rcases form_of_isFinite hy with ⟨s, hv⟩ | ⟨m, e, hm, hv | hv⟩ <;> rw [hv] <;>
      exact ⟨rfl, nofun⟩
  · rw [lt_iff_exactValue hfinite hy, lt_iff_exactValue hy hfinite]
    exact ⟨hsmall.trans_le hle, (hsmall.le.trans hle).not_gt⟩

theorem Large.neg_lt (hx : Large x.toModel.unpack) (hy : y.isFinite = true)
    (hsmall : -2 ^ 53 < exactValue y) : -x < y ∧ ¬ y < -x := by
  rcases hx.infinite_or_le with hu | ⟨hfinite, hle⟩
  · have hneg : (-x).toModel.unpack = .infinity .negative := by
      show (Float.Model.pack x.toModel.unpack.neg).unpack = _
      rw [hu]
      rfl
    rw [lt_iff_compare, lt_iff_compare, hneg]
    rcases form_of_isFinite hy with ⟨s, hv⟩ | ⟨m, e, hm, hv | hv⟩ <;> rw [hv] <;>
      exact ⟨rfl, nofun⟩
  · obtain ⟨hfinite', hvalue⟩ := exactValue_neg hfinite
    have hlt : exactValue (-x) < exactValue y := by
      rw [hvalue]
      linarith
    rw [lt_iff_exactValue hfinite' hy, lt_iff_exactValue hy hfinite']
    exact ⟨hlt, hlt.not_gt⟩

end

end Montage.Decimal

namespace Montage

open Decimal

/-- The number as it is, not rounded. -/
def Number.value : Number → ℚ
  | .int n => n
  | .float x _ => exactValue x

theorem Number.compare_ofNat_iff {n : Nat} (hn : n < 2 ^ 53) (x : Number) :
    (x.toFloat < .ofNat n ↔ x.value < n) ∧ (.ofNat n < x.toFloat ↔ (n : ℚ) < x.value) := by
  obtain ⟨hfinite, hvalue⟩ := exactValue_ofNat hn
  have hn' : (n : ℚ) < 2 ^ 53 := by exact_mod_cast hn
  have hn0 : (0 : ℚ) ≤ n := Nat.cast_nonneg n
  have hexact : ∀ y : Float, y.isFinite = true → exactValue y = x.value →
      (y < .ofNat n ↔ x.value < n) ∧ (.ofNat n < y ↔ (n : ℚ) < x.value) := by
    intro y hy hyvalue
    rw [lt_iff_exactValue hy hfinite, lt_iff_exactValue hfinite hy, hvalue, hyvalue]
    exact ⟨Iff.rfl, Iff.rfl⟩
  cases x with
  | float x finite => exact hexact x finite rfl
  | int k =>
    cases k with
    | ofNat k =>
      have hk : (Number.int (.ofNat k)).value = k := Int.cast_natCast k
      by_cases hsmall : k < 2 ^ 53
      · obtain ⟨hkfinite, hkvalue⟩ := exactValue_ofNat hsmall
        exact hexact _ hkfinite (hkvalue.trans hk.symm)
      · obtain ⟨hlt, hnot⟩ := (large_ofNat (not_lt.mp hsmall)).lt hfinite (hvalue ▸ hn')
        have hle : (2 : ℚ) ^ 53 ≤ k := by exact_mod_cast not_lt.mp hsmall
        rw [hk]
        exact ⟨iff_of_false hnot (hn'.le.trans hle).not_gt,
          iff_of_true hlt (hn'.trans_le hle)⟩
    | negSucc k =>
      have hk : (Number.int (.negSucc k)).value = -(k.succ : ℚ) := by
        show ((Int.negSucc k : Int) : ℚ) = _
        rw [Int.cast_negSucc]
      by_cases hsmall : k.succ < 2 ^ 53
      · obtain ⟨hkfinite, hkvalue⟩ := exactValue_ofNat hsmall
        obtain ⟨hnfinite, hnvalue⟩ := exactValue_neg hkfinite
        exact hexact _ hnfinite ((hnvalue.trans (congrArg Neg.neg hkvalue)).trans hk.symm)
      · obtain ⟨hlt, hnot⟩ := (large_ofNat (not_lt.mp hsmall)).neg_lt hfinite
          (hvalue ▸ by linarith)
        have hle : (2 : ℚ) ^ 53 ≤ k.succ := by exact_mod_cast not_lt.mp hsmall
        rw [hk]
        exact ⟨iff_of_true hlt (by linarith), iff_of_false hnot (by linarith)⟩

end Montage
