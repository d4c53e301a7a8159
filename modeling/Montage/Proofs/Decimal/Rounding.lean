import Mathlib
import Montage.Proofs.Decimal.Canonical

/-!
# What rounds to a float

Every positive finite float owns an interval of numbers that are nearer to it than to its
neighbours. Rounding keeps a mantissa together with one more bit and the news whether anything comes
behind that: `Cuts` says of which number such a mantissa is the front. This much decides between two
neighbours, so whatever lies in the interval of a float is rounded to that float.
-/

namespace Montage.Decimal

open Float.Model (Format UnpackedFloat)
open Float.Model.UnpackedFloat (ExtendedMantissa Accuracy shiftToTargetExponent shiftToExponent
  roundWithAccuracy accuracyOfFraction)

/-! ## Mantissas that are cut off -/

def halves (em : ExtendedMantissa) : Nat := 2 * em.mantissa + em.roundBit.toNat

/-- The mantissa, the bit behind it and the news of more are those of the number. -/
structure Cuts (em : ExtendedMantissa) (x : ℚ) : Prop where
  le : (halves em : ℚ) ≤ 2 * x
  lt : 2 * x < halves em + 1
  sticky : em.stickyBit = true ↔ (halves em : ℚ) < 2 * x

theorem Cuts.shiftRightOne {em : ExtendedMantissa} {x : ℚ} (h : Cuts em x) :
    Cuts em.shiftRightOne (x / 2) := by
  obtain ⟨m, round, sticky⟩ := em
  obtain ⟨hle, hlt, hsticky⟩ := h
  have hhalves : halves (ExtendedMantissa.shiftRightOne ⟨m, round, sticky⟩) = m := by
    have hbit : (m % 2 != 0).toNat = m % 2 := by
      rcases Nat.mod_two_eq_zero_or_one m with h | h <;> rw [h] <;> rfl
    rw [halves, ExtendedMantissa.shiftRightOne, hbit]
    exact Nat.div_add_mod m 2
  have htwo : 2 * (x / 2) = x := by ring
  constructor <;> rw [hhalves, htwo]
  all_goals
    simp only [halves, ExtendedMantissa.shiftRightOne] at hle hlt hsticky ⊢
    push_cast at hle hlt hsticky
    cases round
    all_goals
      simp only [Bool.toNat_false, Bool.toNat_true, Nat.cast_zero, Nat.cast_one] at hle hlt hsticky
  · linarith
  · linarith
  · linarith
  · linarith
  · rw [Bool.false_or, hsticky]
    constructor <;> intro h <;> linarith
  · rw [Bool.true_or]
    exact ⟨fun _ => by linarith, fun _ => rfl⟩

theorem Cuts.shiftRight {em : ExtendedMantissa} {x : ℚ} (h : Cuts em x) (k : Nat) :
    Cuts (em >>> k) (x / 2 ^ k) := by
  induction k with
  | zero =>
    rw [pow_zero, div_one]
    exact h
  | succ k ih =>
    rw [pow_succ, ← div_div]
    exact ih.shiftRightOne

theorem Cuts.mantissa_le {em : ExtendedMantissa} {x : ℚ} (h : Cuts em x) :
    (em.mantissa : ℚ) ≤ x ∧ x < em.mantissa + 1 := by
  have hbit : (em.roundBit.toNat : ℚ) ≤ 1 := by exact_mod_cast Bool.toNat_le em.roundBit
  have hbit0 : (0 : ℚ) ≤ em.roundBit.toNat := Nat.cast_nonneg _
  obtain ⟨hle, hlt, -⟩ := h
  rw [halves] at hle hlt
  push_cast at hle hlt
  constructor <;> linarith

theorem le_of_cast_lt {a b : Nat} (h : (a : ℚ) < b + 1) : a ≤ b := by
  have hlt : a < b + 1 := by exact_mod_cast h
  exact Nat.lt_succ_iff.mp hlt

theorem Cuts.roundedMantissa {em : ExtendedMantissa} {x : ℚ} (h : Cuts em x) {r : Nat}
    (hlow : 2 * (r : ℚ) - 1 ≤ 2 * x) (hhigh : 2 * x ≤ 2 * r + 1)
    (htie : r % 2 = 0 ∨ (2 * (r : ℚ) - 1 < 2 * x ∧ 2 * x < 2 * r + 1)) :
    em.roundedMantissa = r := by
  obtain ⟨m, round, sticky⟩ := em
  obtain ⟨hle, hlt, hsticky⟩ := h
  simp only [halves] at hle hlt hsticky
  push_cast at hle hlt hsticky
  cases round <;> cases sticky <;>
    simp only [Bool.toNat_false, Bool.toNat_true, Nat.cast_zero, Nat.cast_one, false_iff, true_iff,
      not_lt, Bool.false_eq_true] at hle hlt hsticky <;>
    simp only [ExtendedMantissa.roundedMantissa, ExtendedMantissa.accuracy,
      Accuracy.roundToNearestEven]
  · exact Nat.le_antisymm (le_of_cast_lt (by linarith)) (le_of_cast_lt (by linarith))
  · exact Nat.le_antisymm (le_of_cast_lt (by linarith)) (le_of_cast_lt (by linarith))
  · -- the number lies half way between two whole numbers
    have hm : m ≤ r := le_of_cast_lt (by linarith)
    have hr : r ≤ m + 1 := le_of_cast_lt (by push_cast; linarith)
    have heven : r % 2 = 0 := by
      rcases htie with htie | ⟨hlow', hhigh'⟩
      · exact htie
      · have hm' : m < r := by
          have : (m : ℚ) < r := by linarith
          exact_mod_cast this
        have hr' : r < m + 1 := by
          have : (r : ℚ) < m + 1 := by linarith
          exact_mod_cast this
        omega
    omega
  · have hr : m + 1 ≤ r := by
      have : (m : ℚ) < r := by linarith
      exact_mod_cast this
    exact Nat.le_antisymm hr (le_of_cast_lt (by push_cast; linarith))

theorem cuts_exact (m : Nat) : Cuts (.ofMantissaAndAccuracy m .exact) m := by
  refine ⟨?_, ?_, ?_⟩ <;> simp [halves, ExtendedMantissa.ofMantissaAndAccuracy]

theorem cuts_ofFraction (num : Nat) {den : Nat} (hden : 0 < den) :
    Cuts (.ofMantissaAndAccuracy (num / den) (accuracyOfFraction (num % den) den))
      (num / den : ℚ) := by
  have hpos : (0 : ℚ) < den := by exact_mod_cast hden
  have hrem : ((num % den : ℕ) : ℚ) < den := by exact_mod_cast Nat.mod_lt num hden
  have hvalue : (num / den : ℚ) = (num / den : ℕ) + (num % den : ℕ) / den := by
    field_simp
    exact_mod_cast (Nat.div_add_mod num den).symm
  rw [hvalue]
  generalize num / den = q, num % den = rem at hrem
  rw [accuracyOfFraction]
  split
  next hzero =>
    rw [hzero, Nat.cast_zero, zero_div, add_zero]
    exact cuts_exact q
  next hne =>
    have hrem0 : (0 : ℚ) < (rem : ℚ) / den :=
      div_pos (by exact_mod_cast Nat.pos_of_ne_zero hne) hpos
    have hrem1 : (rem : ℚ) / den < 1 := (div_lt_one hpos).mpr hrem
    have hhalf : ∀ {a b : Nat}, a < b → (a : ℚ) / den < b / den := fun h =>
      div_lt_div_of_pos_right (by exact_mod_cast h) hpos
    have hdouble : ((2 * rem : ℕ) : ℚ) / den = 2 * (rem / den) := by
      push_cast
      ring
    have hone : (den : ℚ) / den = 1 := div_self (ne_of_gt hpos)
    rcases hcompare : compare (2 * rem) den with _ | _ | _
    · have hlt := hhalf (Nat.compare_eq_lt.mp hcompare)
      rw [hdouble, hone] at hlt
      refine ⟨?_, ?_, iff_of_true rfl ?_⟩ <;>
        simp only [halves, ExtendedMantissa.ofMantissaAndAccuracy, Bool.toNat_false] <;>
        push_cast <;> linarith
    · have heq : ((2 * rem : ℕ) : ℚ) / den = 1 := by rw [Nat.compare_eq_eq.mp hcompare, hone]
      rw [hdouble] at heq
      refine ⟨?_, ?_, iff_of_false Bool.false_ne_true ?_⟩ <;>
        simp only [halves, ExtendedMantissa.ofMantissaAndAccuracy, Bool.toNat_true] <;>
        push_cast <;> linarith
    · have hlt := hhalf (Nat.compare_eq_gt.mp hcompare)
      rw [hdouble, hone] at hlt
      refine ⟨?_, ?_, iff_of_true rfl ?_⟩ <;>
        simp only [halves, ExtendedMantissa.ofMantissaAndAccuracy, Bool.toNat_true] <;>
        push_cast <;> linarith

/-! ## Intervals -/

/-- How far below a float its interval reaches, in quarters of the unit: the float below a power of
two is half as far away as the one above, unless both are subnormal. -/
def quartersBelow (m : Nat) (e : Int) : Nat := if m = 2 ^ 52 ∧ -1074 < e then 1 else 2

/-- The number lies in the interval of the float; its ends belong to it if the mantissa is even. -/
structure Nearest (m : Nat) (e : Int) (q : ℚ) : Prop where
  low : 4 * (m : ℚ) - quartersBelow m e ≤ 4 * (q / 2 ^ e)
  high : 4 * (q / 2 ^ e) ≤ 4 * m + 2
  ends : m % 2 = 0 ∨
    (4 * (m : ℚ) - quartersBelow m e < 4 * (q / 2 ^ e) ∧ 4 * (q / 2 ^ e) < 4 * m + 2)

theorem quartersBelow_le (m : Nat) (e : Int) : quartersBelow m e ≤ 2 := by
  unfold quartersBelow
  split <;> omega

/-- A mantissa has enough bits to be cut off to those of a float. -/
def Ample (M : Nat) (E : Int) : Prop := 2 ^ 52 ≤ M ∨ E ≤ -1074

theorem Ample.log2 {M : Nat} {E : Int} (h : Ample M E) : 52 ≤ M.log2 ∨ E ≤ -1074 := by
  refine h.imp_left fun hM => (Nat.le_log2 ?_).mpr hM
  rintro rfl
  exact absurd hM (by decide)

theorem targetExponent_eq {M : Nat} {E b : Int} {x : ℚ} (hle : (M : ℚ) ≤ x) (hlt : x < M + 1)
    (hample : Ample M E) (hb : -1074 ≤ b) (hhigh : x < 2 ^ (53 + b - E))
    (hlow : (2 : ℚ) ^ (52 + b - E) ≤ x ∨ b = -1074) :
    max ((M.log2 : Int) + E - 52) (-1074) = b := by
  have hample' := hample.log2
  have hupper : (M.log2 : Int) + E - 52 ≤ b := by
    rcases Nat.eq_zero_or_pos M with rfl | hM
    · rcases hample with hM | hE
      · exact absurd hM (by decide)
      · rw [Nat.log2_zero]
        omega
    · have hlog : ((2 : ℚ) ^ (M.log2 : Int)) ≤ M := by
        rw [zpow_natCast]
        exact_mod_cast Nat.log2_self_le (Nat.ne_of_gt hM)
      have := (zpow_lt_zpow_iff_right₀ one_lt_two).mp (lt_of_le_of_lt (hlog.trans hle) hhigh)
      omega
  rcases hlow with hlow | rfl
  · by_cases hn : 0 ≤ 52 + b - E
    · obtain ⟨k, hk⟩ := Int.eq_ofNat_of_zero_le hn
      rw [hk, zpow_natCast] at hlow
      have hM : 2 ^ k ≤ M := le_of_cast_lt (by push_cast; exact lt_of_le_of_lt hlow hlt)
      have hlog : k ≤ M.log2 := by
        refine (Nat.le_log2 fun hzero => ?_).mpr hM
        rw [hzero] at hM
        exact absurd hM (Nat.not_le.mpr (Nat.two_pow_pos k))
      omega
    · omega
  · exact max_eq_right hupper

/-! ## Rounding -/

theorem shiftToTargetExponent_small {m : Nat} {e : Int} (hm : m < 2 ^ 53) (he : -1074 ≤ e) :
    shiftToTargetExponent .binary64 m e .exact = (⟨m, false, false⟩, e) := by
  have hlog : m.log2 ≤ 52 := by
    rcases Nat.eq_zero_or_pos m with rfl | hpos
    · exact Nat.zero_le _
    · exact Nat.lt_succ_iff.mp ((Nat.log2_lt (Nat.ne_of_gt hpos)).mpr hm)
  rw [shiftToTargetExponent, shiftToExponent, targetExponent_binary64]
  have hshift : (max ((m.log2 : Int) + e - 52) (-1074) - e).toNat = 0 := by omega
  rw [hshift, Nat.cast_zero, add_zero]
  rfl

theorem shiftToTargetExponent_carry {e : Int} (he : -1074 ≤ e) :
    shiftToTargetExponent .binary64 (2 ^ 53) e .exact = (⟨2 ^ 52, false, false⟩, e + 1) := by
  rw [shiftToTargetExponent, shiftToExponent, targetExponent_binary64, Nat.log2_two_pow]
  have hshift : (max (((53 : ℕ) : Int) + e - 52) (-1074) - e).toNat = 1 := by omega
  rw [hshift]
  rfl

theorem cuts_shiftToTargetExponent {M : Nat} {E b : Int} {a : Accuracy} {q : ℚ}
    (hcuts : Cuts (.ofMantissaAndAccuracy M a) (q / 2 ^ E)) (hample : Ample M E) (hb : -1074 ≤ b)
    (hhigh : q / 2 ^ b < 2 ^ 53) (hlow : 2 ^ 52 ≤ q / 2 ^ b ∨ b = -1074) :
    (shiftToTargetExponent .binary64 M E a).2 = b ∧
      Cuts (shiftToTargetExponent .binary64 M E a).1 (q / 2 ^ b) := by
  have htwo : (2 : ℚ) ≠ 0 := two_ne_zero
  have hscale : q / 2 ^ b * 2 ^ (b - E) = q / 2 ^ E := by
    rw [zpow_sub₀ htwo]
    field_simp
  obtain ⟨hle, hlt⟩ := hcuts.mantissa_le
  rw [mantissa_ofMantissaAndAccuracy] at hle hlt
  have hpow : (0 : ℚ) < 2 ^ (b - E) := zpow_pos two_pos _
  have htarget : max ((M.log2 : Int) + E - 52) (-1074) = b := by
    refine targetExponent_eq hle hlt hample hb ?_ (hlow.imp_left fun hlow => ?_)
    · rw [← hscale, add_sub_assoc, zpow_add₀ htwo]
      exact mul_lt_mul_of_pos_right hhigh hpow
    · rw [← hscale, add_sub_assoc, zpow_add₀ htwo]
      exact mul_le_mul_of_nonneg_right hlow (le_of_lt hpow)
  have hE : E ≤ b := by
    have := hample.log2
    omega
  obtain ⟨k, hk⟩ := Int.eq_ofNat_of_zero_le (show 0 ≤ b - E by omega)
  rw [shiftToTargetExponent, shiftToExponent, targetExponent_binary64, htarget, hk,
    Int.toNat_natCast]
  refine ⟨by omega, ?_⟩
  have hshifted := hcuts.shiftRight k
  rwa [← hscale, hk, zpow_natCast, mul_div_cancel_right₀ _ (pow_ne_zero k htwo)] at hshifted

/-- What lies in the interval of a float is rounded to it. -/
theorem roundWithAccuracy_eq (s : UnpackedFloat.Sign) {m M : Nat} {e E : Int} {a : Accuracy} {q : ℚ}
    (hm : Canonical m e) (hq : Nearest m e q)
    (hcuts : Cuts (.ofMantissaAndAccuracy M a) (q / 2 ^ E)) (hample : Ample M E) :
    roundWithAccuracy .binary64 s M E a = .finite s m e hm.pos := by
  have hlt : (m : ℚ) + 1 ≤ 2 ^ 53 := by exact_mod_cast hm.lt
  have hgap : (quartersBelow m e : ℚ) ≤ 2 := by exact_mod_cast quartersBelow_le m e
  have hhigh := hq.high
  have hends := hq.ends
  rw [roundWithAccuracy]
  by_cases hbinade : 2 ^ 52 ≤ q / 2 ^ e ∨ e = -1074
  · obtain ⟨hexponent, hfirst⟩ :=
      cuts_shiftToTargetExponent hcuts hample hm.low (by linarith) hbinade
    generalize shiftToTargetExponent .binary64 M E a = first at hexponent hfirst ⊢
    have hrounded : first.1.roundedMantissa = m := by
      have hlow := hq.low
      refine hfirst.roundedMantissa (by linarith) (by linarith) (hends.imp_right fun hends => ?_)
      constructor <;> linarith [hends.1, hends.2]
    dsimp only
    rw [hrounded, hexponent, shiftToTargetExponent_small hm.lt hm.low]
    exact dif_neg (Nat.ne_of_gt hm.pos)
  · -- the number lies below a power of two, among floats that are half as far apart
    rw [not_or, not_le] at hbinade
    obtain ⟨hbelow, he⟩ := hbinade
    have hnormal : 2 ^ 52 ≤ m := hm.normal.resolve_right he
    have hlow := hq.low
    have hmax : m < 2 ^ 52 + 1 := by
      have : (m : ℚ) < 2 ^ 52 + 1 := by linarith
      exact_mod_cast this
    obtain rfl : m = 2 ^ 52 := by omega
    have hquarter : quartersBelow (2 ^ 52) e = 1 := if_pos ⟨rfl, by have := hm.low; omega⟩
    have hhalf : q / 2 ^ (e - 1) = 2 * (q / 2 ^ e) := by
      rw [zpow_sub₀ two_ne_zero, zpow_one]
      field_simp
    rw [hquarter] at hlow
    push_cast at hlow
    obtain ⟨hexponent, hfirst⟩ := cuts_shiftToTargetExponent (b := e - 1) hcuts hample
      (by have := hm.low; omega) (by rw [hhalf]; linarith) (.inl (by rw [hhalf]; linarith))
    generalize shiftToTargetExponent .binary64 M E a = first at hexponent hfirst ⊢
    have hrounded : first.1.roundedMantissa = 2 ^ 53 := by
      refine hfirst.roundedMantissa ?_ ?_ (.inl rfl) <;> rw [hhalf] <;> push_cast <;> linarith
    dsimp only
    rw [hrounded, hexponent, shiftToTargetExponent_carry (by have := hm.low; omega),
      Int.sub_add_cancel]
    exact dif_neg (Nat.ne_of_gt hm.pos)

end Montage.Decimal
