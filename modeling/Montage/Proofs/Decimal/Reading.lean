import Mathlib
import Montage.Proofs.Decimal.Rounding

/-!
# Reading a decimal is rounding

A decimal is read through a product or a quotient of floats: of floats that are exact where the
decimal is short, else of an integer of any size and a power of ten. Either way the exact value is
rounded once, so a decimal in the interval of a float is read as that float.
-/

namespace Montage.Decimal

open Float.Model (Format UnpackedFloat totalExponent)
open Float.Model.UnpackedFloat (ExtendedMantissa Accuracy roundWithAccuracy accuracyOfFraction)

variable {m : Nat} {e : Int} {q : ℚ}

/-! ## Products and quotients -/

theorem mul_eq {m₁ m₂ : Nat} {e₁ e₂ : Int} (h₁ : 0 < m₁) (h₂ : 0 < m₂) (hm : Canonical m e)
    (hq : Nearest m e ((m₁ * 2 ^ e₁) * (m₂ * 2 ^ e₂))) (hample : Ample (m₁ * m₂) (e₁ + e₂)) :
    UnpackedFloat.mul .binary64 (.finite .positive m₁ e₁ h₁) (.finite .positive m₂ e₂ h₂) =
      .finite .positive m e hm.pos := by
  refine roundWithAccuracy_eq _ hm hq ?_ hample
  have hvalue : ((m₁ : ℚ) * 2 ^ e₁) * (m₂ * 2 ^ e₂) / 2 ^ (e₁ + e₂) = (m₁ * m₂ : ℕ) := by
    rw [zpow_add₀ two_ne_zero]
    push_cast
    field_simp
  rw [hvalue]
  exact cuts_exact _

theorem div_eq {m₁ m₂ : Nat} {e₁ e₂ : Int} (h₁ : 0 < m₁) (h₂ : 0 < m₂) (hm : Canonical m e)
    (hq : Nearest m e ((m₁ * 2 ^ e₁) / (m₂ * 2 ^ e₂))) :
    UnpackedFloat.div .binary64 (.finite .positive m₁ e₁ h₁) (.finite .positive m₂ e₂ h₂) =
      .finite .positive m e hm.pos := by
  have htarget : Format.binary64.targetExponent (totalExponent m₁ e₁ - totalExponent m₂ e₂) =
      max ((m₁.log2 + e₁) - (m₂.log2 + e₂) - 53) (-1074) := by
    have hmin : Format.binary64.minExponent = -1074 := rfl
    have hbits : (Format.binary64.mantissaBits : Int) = 53 := rfl
    rw [Format.targetExponent, totalExponent, totalExponent, hmin, hbits]
    omega
  rw [UnpackedFloat.div, UnpackedFloat.divCore, htarget]
  dsimp only
  generalize hE : min (e₁ - e₂) (max ((m₁.log2 + e₁) - (m₂.log2 + e₂) - 53) (-1074)) = E
  obtain ⟨k, hk⟩ := Int.eq_ofNat_of_zero_le (show 0 ≤ e₁ - e₂ - E by omega)
  rw [hk, Int.toNat_natCast, Nat.shiftLeft_eq]
  refine roundWithAccuracy_eq _ hm hq ?_ ?_
  · have hvalue : ((m₁ : ℚ) * 2 ^ e₁) / (m₂ * 2 ^ e₂) / 2 ^ E = ((m₁ * 2 ^ k : ℕ) : ℚ) / m₂ := by
      have hexp : e₁ = k + e₂ + E := by omega
      rw [hexp, zpow_add₀ two_ne_zero, zpow_add₀ two_ne_zero, zpow_natCast]
      push_cast
      field_simp
    rw [hvalue]
    exact cuts_ofFraction _ h₂
  · refine or_iff_not_imp_right.mpr fun hlow => ?_
    have hbits : 53 + m₂.log2 ≤ m₁.log2 + k := by omega
    have hupper : m₂ < 2 ^ (m₂.log2 + 1) := Nat.lt_log2_self
    have hlower : 2 ^ m₁.log2 ≤ m₁ := Nat.log2_self_le (Nat.ne_of_gt h₁)
    rw [Nat.le_div_iff_mul_le h₂]
    calc 2 ^ 52 * m₂ ≤ 2 ^ 52 * 2 ^ (m₂.log2 + 1) := Nat.mul_le_mul_left _ hupper.le
      _ = 2 ^ (53 + m₂.log2) := by rw [← Nat.pow_add]; congr 1; omega
      _ ≤ 2 ^ (m₁.log2 + k) := Nat.pow_le_pow_right (by decide) hbits
      _ = 2 ^ m₁.log2 * 2 ^ k := Nat.pow_add ..
      _ ≤ m₁ * 2 ^ k := Nat.mul_le_mul_right _ hlower

/-! ## Exact floats -/

theorem nearest_self (m : Nat) (e : Int) : Nearest m e (m * 2 ^ e) := by
  have hvalue : (m : ℚ) * 2 ^ e / 2 ^ e = m :=
    mul_div_cancel_right₀ _ (zpow_ne_zero e two_ne_zero)
  have hgap : (0 : ℚ) < quartersBelow m e := by
    unfold quartersBelow
    split <;> norm_num
  refine ⟨?_, ?_, .inr ⟨?_, ?_⟩⟩ <;> rw [hvalue] <;> linarith

theorem exists_ofNat_eq {n : Nat} (hpos : 0 < n) (hlt : n < 2 ^ 53) :
    ∃ m e, ∃ hm : Canonical m e, 2 ^ 52 ≤ m ∧ (m : ℚ) * 2 ^ e = n ∧
      UnpackedFloat.ofNat .binary64 n = .finite .positive m e hm.pos := by
  have hlog : n.log2 ≤ 52 := by
    have := (Nat.log2_lt (Nat.ne_of_gt hpos)).mpr hlt
    omega
  obtain ⟨k, hk⟩ := Nat.exists_eq_add_of_le hlog
  have hlow : 2 ^ 52 ≤ n * 2 ^ k := by
    rw [hk, Nat.pow_add]
    exact Nat.mul_le_mul_right _ (Nat.log2_self_le (Nat.ne_of_gt hpos))
  have hhigh : n * 2 ^ k < 2 ^ 53 := by
    have hn : n < 2 ^ (n.log2 + 1) := Nat.lt_log2_self
    calc n * 2 ^ k < 2 ^ (n.log2 + 1) * 2 ^ k := Nat.mul_lt_mul_of_pos_right hn (Nat.two_pow_pos k)
      _ = 2 ^ 53 := by rw [← Nat.pow_add]; congr 1; omega
  have hm : Canonical (n * 2 ^ k) (-k) :=
    ⟨by omega, hhigh, by omega, by omega, .inl hlow⟩
  refine ⟨_, _, hm, hlow, ?_, ?_⟩
  · rw [zpow_neg, zpow_natCast]
    push_cast
    field_simp
  · have hcompare : compare (n : Int) 0 = .gt := Int.compare_eq_gt.mpr (by omega)
    rw [UnpackedFloat.ofNat, UnpackedFloat.ofInt, UnpackedFloat.normalize, hcompare]
    dsimp only
    rw [UnpackedFloat.round, UnpackedFloat.decreaseExponent, targetExponent_binary64]
    have hshift : (0 - max ((n.log2 : Int) + 0 - 52) (-1074)).toNat = k := by omega
    dsimp only
    rw [Int.toNat_natCast, hshift, Nat.shiftLeft_eq, Int.zero_sub]
    refine roundWithAccuracy_eq _ hm (nearest_self _ _) ?_ (.inl hlow)
    rw [mul_div_cancel_right₀ _ (zpow_ne_zero _ two_ne_zero)]
    exact cuts_exact _

theorem exists_powerOfTen_eq {k : Nat} (h : k < Float.exactlyRepresentablePowersOfTen.size) :
    ∃ (m : Nat) (e : Int) (hm : 0 < m), (m : ℚ) * 2 ^ e = 10 ^ k ∧
      Float.exactlyRepresentablePowersOfTen[k].toModel.unpack = .finite .positive m e hm := by
  have hk : k < 23 := h
  have hdvd : 2 ^ (10 ^ k).log2 ∣ 10 ^ k * 2 ^ 52 := by interval_cases k <;> decide
  have hpos : 0 < 10 ^ k * 2 ^ 52 / 2 ^ (10 ^ k).log2 :=
    Nat.div_pos (Nat.le_of_dvd (by positivity) hdvd) (Nat.two_pow_pos _)
  refine ⟨_, (10 ^ k).log2 - 52, hpos, ?_, ?_⟩
  · rw [Nat.cast_div hdvd (by positivity), zpow_sub₀ two_ne_zero]
    push_cast
    field_simp
    norm_num
  · have hentry : Float.exactlyRepresentablePowersOfTen[k]?.map (·.toModel.unpack) =
        some (.finite .positive _ ((10 ^ k).log2 - 52) hpos) := by
      clear h
      interval_cases k <;> rfl
    rw [Array.getElem?_eq_getElem h] at hentry
    exact Option.some.inj hentry

/-! ## Decimals -/

theorem Nearest.bounds (hm : Canonical m e) (hq : Nearest m e q) :
    (2 : ℚ) ^ (-1075 : Int) ≤ q ∧ q < 2 ^ (1024 : Int) := by
  have hpow : (0 : ℚ) < 2 ^ e := zpow_pos two_pos e
  have hq0 : q = q / 2 ^ e * 2 ^ e := (div_mul_cancel₀ q (ne_of_gt hpow)).symm
  have hlow := hq.low
  have hhigh := hq.high
  have hgap : (quartersBelow m e : ℚ) ≤ 2 := by exact_mod_cast quartersBelow_le m e
  have hm1 : (1 : ℚ) ≤ m := by exact_mod_cast hm.pos
  have hm2 : (m : ℚ) + 1 ≤ 2 ^ 53 := by exact_mod_cast hm.lt
  constructor
  · calc (2 : ℚ) ^ (-1075 : Int) = 2 ^ (-1 : Int) * 2 ^ (-1074 : Int) := by
          rw [← zpow_add₀ two_ne_zero]
          norm_num
      _ ≤ q / 2 ^ e * 2 ^ e := by
          refine mul_le_mul (by norm_num; linarith) ?_ (zpow_nonneg (by norm_num) _) (by linarith)
          exact zpow_le_zpow_right₀ one_le_two hm.low
      _ = q := hq0.symm
  · calc q = q / 2 ^ e * 2 ^ e := hq0
      _ < 2 ^ (53 : Int) * 2 ^ e := mul_lt_mul_of_pos_right (by norm_num; linarith) hpow
      _ ≤ 2 ^ (53 : Int) * 2 ^ (971 : Int) :=
          mul_le_mul_of_nonneg_left (zpow_le_zpow_right₀ one_le_two hm.high) (by positivity)
      _ = 2 ^ (1024 : Int) := by
          rw [← zpow_add₀ two_ne_zero]
          norm_num

/-- Decimals that are refused because of their size are in no interval. -/
theorem Nearest.exponent_bounds {d : Nat} {k : Int} (hd : 0 < d) (hm : Canonical m e)
    (hq : Nearest m e (d * 10 ^ k)) : k ≤ 2048 ∧ -(2048 + (d.log2 : Int)) ≤ k := by
  obtain ⟨hlow, hhigh⟩ := hq.bounds hm
  have hd1 : (1 : ℚ) ≤ d := by exact_mod_cast hd
  constructor
  · by_contra hk
    have hten : (2 : ℚ) ^ k ≤ 10 ^ k := by
      obtain ⟨n, rfl⟩ := Int.eq_ofNat_of_zero_le (show 0 ≤ k by omega)
      rw [zpow_natCast, zpow_natCast]
      exact pow_le_pow_left₀ (by norm_num) (by norm_num) n
    have hlarge : (2 : ℚ) ^ (1024 : Int) ≤ 2 ^ k := zpow_le_zpow_right₀ one_le_two (by omega)
    have : (1 : ℚ) * 10 ^ k ≤ d * 10 ^ k :=
      mul_le_mul_of_nonneg_right hd1 (zpow_nonneg (by norm_num) _)
    linarith
  · by_contra hk
    have hten : (10 : ℚ) ^ k ≤ 2 ^ k := by
      obtain ⟨n, hn⟩ := Int.eq_ofNat_of_zero_le (show 0 ≤ -k by omega)
      obtain rfl : k = -(n : Int) := by omega
      rw [zpow_neg, zpow_neg, zpow_natCast, zpow_natCast]
      exact inv_anti₀ (by positivity) (pow_le_pow_left₀ (by norm_num) (by norm_num) n)
    have hbits : (d : ℚ) < 2 ^ ((d.log2 : Int) + 1) := by
      have : d < 2 ^ (d.log2 + 1) := Nat.lt_log2_self
      exact_mod_cast this
    have hsmall : (2 : ℚ) ^ ((d.log2 : Int) + 1) * 2 ^ k ≤ 2 ^ (-1075 : Int) := by
      rw [← zpow_add₀ two_ne_zero]
      exact zpow_le_zpow_right₀ one_le_two (by omega)
    have hproduct : (d : ℚ) * 10 ^ k < 2 ^ ((d.log2 : Int) + 1) * 2 ^ k :=
      mul_lt_mul hbits hten (zpow_pos (by norm_num) _) (by positivity)
    linarith

theorem unpacked_ofScientific_eq {d : Nat} {k : Int} (hd : 0 < d) (hm : Canonical m e)
    (hq : Nearest m e (d * 10 ^ k)) :
    UnpackedFloat.ofScientific .binary64 d k = .finite .positive m e hm.pos := by
  obtain ⟨hhigh, hlow⟩ := hq.exponent_bounds hd hm
  have hrange : (2 : Int) ^ Format.binary64.exponentBits = 2048 := by decide
  have hbits : Format.binary64.mantissaBits = 53 := rfl
  rw [UnpackedFloat.ofScientific, dif_neg (Nat.ne_of_gt hd), hrange, if_neg (by omega),
    if_neg (by omega)]
  simp only [hbits]
  split
  next hk =>
    obtain ⟨n, rfl⟩ := Int.eq_ofNat_of_zero_le hk
    refine mul_eq _ _ hm ?_ ?_
    · have hvalue : ((d <<< 53 : ℕ) : ℚ) * 2 ^ (-((53 : ℕ) : Int)) *
          (((10 ^ ((n : Int)).toNat : ℕ) : ℚ) * 2 ^ (0 : Int)) = d * 10 ^ (n : Int) := by
        rw [Nat.shiftLeft_eq, Int.toNat_natCast, zpow_neg, zpow_natCast, zpow_natCast, zpow_zero]
        push_cast
        field_simp
        norm_num
      rw [hvalue]
      exact hq
    · rw [Nat.shiftLeft_eq]
      refine .inl ?_
      calc 2 ^ 52 ≤ 1 * 2 ^ 53 * 1 := by decide
        _ ≤ d * 2 ^ 53 * 10 ^ ((n : Int)).toNat :=
          Nat.mul_le_mul (Nat.mul_le_mul_right _ hd) (Nat.one_le_pow _ _ (by decide))
  next hk =>
    obtain ⟨n, hn⟩ := Int.eq_ofNat_of_zero_le (show 0 ≤ -k by omega)
    obtain rfl : k = -(n : Int) := by omega
    refine div_eq _ _ hm ?_
    have hvalue :
        (d : ℚ) * 2 ^ (0 : Int) / (((10 ^ (- -(n : Int)).toNat : ℕ) : ℚ) * 2 ^ (0 : Int)) =
        d * 10 ^ (-(n : Int)) := by
      rw [Int.neg_neg, Int.toNat_natCast, zpow_neg, zpow_natCast, zpow_zero]
      push_cast
      field_simp
    rw [hvalue]
    exact hq

theorem exists_toFloat_eq {n : Nat} (hpos : 0 < n) (hlt : n < 2 ^ 53) :
    ∃ (m : Nat) (e : Int) (hm : 0 < m), 2 ^ 52 ≤ m ∧ (m : ℚ) * 2 ^ e = n ∧
      n.toUInt64.toFloat.toModel.unpack = .finite .positive m e hm := by
  obtain ⟨m, e, hm, hlow, hvalue, hn⟩ := exists_ofNat_eq hpos hlt
  refine ⟨m, e, hm.pos, hlow, hvalue, ?_⟩
  have hsize : n.toUInt64.toNat = n := by
    rw [Nat.toUInt64_eq, UInt64.toNat_ofNat']
    omega
  show (Float.Model.pack (UnpackedFloat.ofNat .binary64 n.toUInt64.toNat)).unpack = _
  rw [hsize, hn]
  exact unpack_pack_finite _ hm

/-- A decimal in the interval of a float is read as that float. -/
theorem ofScientific_eq {d : Nat} {k : Int} (hd : 0 < d) (hm : Canonical m e)
    (hq : Nearest m e (d * 10 ^ k)) :
    Float.ofScientific d (decide (k < 0)) k.natAbs =
      .ofModel (.pack (.finite .positive m e hm.pos)) := by
  have hsign : k = if k < 0 then -(k.natAbs : Int) else k.natAbs := by
    split <;> omega
  unfold Float.ofScientific
  split
  next hsmall =>
    obtain ⟨m₁, e₁, hm₁, hlow, hvalue₁, hunpack₁⟩ := exists_toFloat_eq hd hsmall.1
    have hindex : k.natAbs < Float.exactlyRepresentablePowersOfTen.size :=
      Nat.lt_succ_of_le hsmall.2
    obtain ⟨m₂, e₂, hm₂, hvalue₂, hunpack₂⟩ := exists_powerOfTen_eq hindex
    by_cases hk : k < 0
    · rw [if_pos hk] at hsign
      rw [if_pos (decide_eq_true hk)]
      show Float.ofModel (.pack (UnpackedFloat.div .binary64 _ _)) = _
      rw [hunpack₁, hunpack₂, div_eq hm₁ hm₂ hm]
      rw [hvalue₁, hvalue₂]
      rwa [hsign, zpow_neg, zpow_natCast, ← div_eq_mul_inv] at hq
    · rw [if_neg hk] at hsign
      rw [if_neg (by simpa using hk)]
      show Float.ofModel (.pack (UnpackedFloat.mul .binary64 _ _)) = _
      rw [hunpack₁, hunpack₂, mul_eq hm₁ hm₂ hm]
      · rw [hvalue₁, hvalue₂]
        rwa [hsign, zpow_natCast] at hq
      · exact .inl (Nat.le_trans hlow (Nat.le_mul_of_pos_right m₁ hm₂))
  next =>
    have hexponent :
        (if decide (k < 0) = true then Int.negOfNat k.natAbs else Int.ofNat k.natAbs) = k := by
      conv_rhs => rw [hsign]
      simp only [decide_eq_true_eq, Int.negOfNat_eq, Int.ofNat_eq_natCast]
    dsimp only
    rw [hexponent, Float.Model.ofScientific, unpacked_ofScientific_eq hd hm hq]

end Montage.Decimal
