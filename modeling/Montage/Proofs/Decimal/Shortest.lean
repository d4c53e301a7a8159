import Mathlib
import Montage.Decimal.Shortest
import Montage.Proofs.Decimal.Rounding

/-!
# The shortest decimal reads back

The search only ever takes a point that it has found in the interval, or the middle of it, so the
decimal that it finds lies in the interval of the float.
-/

namespace Montage.Decimal

/-! ## The search -/

namespace Interval

variable {i : Interval}

theorem nearer_eq (tie : Tie) (i : Interval) (unit : Nat) :
    nearer tie i unit = i.middle / unit ∨ nearer tie i unit = i.middle / unit + 1 := by
  unfold nearer
  dsimp only
  split
  · exact .inl rfl
  · exact .inr rfl
  · split
    · split
      · exact .inl rfl
      · exact .inr rfl
    · exact .inr rfl

theorem holds_search (tie : Tie) (hmiddle : i.holds i.middle = true) (j : Nat) :
    i.holds ((i.search tie j).1 * 10 ^ (i.search tie j).2) = true := by
  induction j with
  | zero =>
    rw [search, Nat.pow_zero, Nat.mul_one]
    exact hmiddle
  | succ j ih =>
    rw [search]
    split
    next hbelow habove =>
      rcases nearer_eq tie i (Nat.pow 10 (j + 1)) with heq | heq <;> rw [heq]
      · exact hbelow
      · exact habove
    next hbelow _ => exact hbelow
    next _ habove => exact habove
    next => exact ih

theorem bounds_of_holds {n : Nat} (h : i.holds n = true) :
    i.low ≤ n ∧ n ≤ i.high ∧ (i.closed = true ∨ (i.low < n ∧ n < i.high)) := by
  rw [holds] at h
  split at h <;> rw [Bool.and_eq_true, decide_eq_true_eq, decide_eq_true_eq] at h
  next hclosed => exact ⟨h.1, h.2, .inl hclosed⟩
  next => exact ⟨h.1.le, h.2.le, .inr h⟩

end Interval

/-! ## The interval of a float -/

/-- The ends of the interval are quarters of the last bit: `factor` of its units are one of them. -/
theorem intervalOf_eq (m : Nat) (e : Int) :
    ∃ factor : Nat, 0 < factor ∧ (factor : ℚ) * 10 ^ (intervalOf m e).2 = 2 ^ (e - 2) ∧
      (intervalOf m e).1 = ⟨(4 * m - quartersBelow m e) * factor, 4 * m * factor,
        (4 * m + 2) * factor, m % 2 == 0⟩ := by
  by_cases he : 2 ≤ e
  · refine ⟨2 ^ (e - 2).toNat, by positivity, ?_, ?_⟩
    · obtain ⟨n, hn⟩ := Int.eq_ofNat_of_zero_le (show 0 ≤ e - 2 by omega)
      rw [intervalOf]
      simp only [if_pos he]
      rw [hn, Int.toNat_natCast, zpow_zero, zpow_natCast, mul_one]
      push_cast
      rfl
    · rw [intervalOf]
      simp only [if_pos he]
      rfl
  · refine ⟨5 ^ (2 - e).toNat, by positivity, ?_, ?_⟩
    · obtain ⟨n, hn⟩ := Int.eq_ofNat_of_zero_le (show 0 ≤ 2 - e by omega)
      have hneg : e - 2 = -(n : Int) := by omega
      rw [intervalOf]
      simp only [if_neg he]
      rw [hn, hneg, Int.toNat_natCast, zpow_neg, zpow_neg, zpow_natCast, zpow_natCast]
      push_cast
      rw [show (10 : ℚ) = 5 * 2 by norm_num, mul_pow]
      field_simp
    · rw [intervalOf]
      simp only [if_neg he]
      rfl

theorem nearest_of_holds {m factor n : Nat} {e unit : Int} (hm : Canonical m e)
    (hfactor : 0 < factor) (hunit : (factor : ℚ) * 10 ^ unit = 2 ^ (e - 2))
    (h : Interval.holds ⟨(4 * m - quartersBelow m e) * factor, 4 * m * factor,
      (4 * m + 2) * factor, m % 2 == 0⟩ n = true) : Nearest m e (n * 10 ^ unit) := by
  have hpos : (0 : ℚ) < factor := by exact_mod_cast hfactor
  have hquarters : quartersBelow m e ≤ 4 * m := by
    have := quartersBelow_le m e
    have := hm.pos
    omega
  have hvalue : 4 * ((n : ℚ) * 10 ^ unit / 2 ^ e) = n / factor := by
    have hten : (10 : ℚ) ^ unit = 2 ^ (e - 2) / factor := by rw [← hunit]; field_simp
    rw [hten, zpow_sub₀ two_ne_zero]
    field_simp
    ring
  have hcast : ((4 * m - quartersBelow m e : ℕ) : ℚ) = 4 * m - quartersBelow m e := by
    push_cast [Nat.cast_sub hquarters]
    rfl
  obtain ⟨hlow, hhigh, hends⟩ := Interval.bounds_of_holds h
  refine ⟨?_, ?_, hends.imp (fun hclosed => ?_) fun hinside => ⟨?_, ?_⟩⟩
  · rw [hvalue, ← hcast, le_div_iff₀ hpos]
    exact_mod_cast hlow
  · rw [hvalue, div_le_iff₀ hpos]
    exact_mod_cast hhigh
  · exact beq_iff_eq.mp hclosed
  · rw [hvalue, ← hcast, lt_div_iff₀ hpos]
    exact_mod_cast hinside.1
  · rw [hvalue, div_lt_iff₀ hpos]
    exact_mod_cast hinside.2

theorem shortest_nearest (tie : Tie) {m : Nat} {e : Int} (hm : Canonical m e) :
    0 < (shortest tie m e).digits ∧
      Nearest m e ((shortest tie m e).digits * 10 ^ (shortest tie m e).exponent) := by
  obtain ⟨factor, hfactor, hunit, hinterval⟩ := intervalOf_eq m e
  have hpos := hm.pos
  have hquarters := quartersBelow_le m e
  have hgap : 0 < quartersBelow m e := by
    unfold quartersBelow
    split <;> decide
  have hlow : 0 < (4 * m - quartersBelow m e) * factor := Nat.mul_pos (by omega) hfactor
  have hbelow : (4 * m - quartersBelow m e) * factor < 4 * m * factor :=
    Nat.mul_lt_mul_of_pos_right (by omega) hfactor
  have habove : 4 * m * factor < (4 * m + 2) * factor :=
    Nat.mul_lt_mul_of_pos_right (by omega) hfactor
  rw [shortest]
  generalize intervalOf m e = interval at hunit hinterval ⊢
  obtain ⟨i, unit⟩ := interval
  dsimp only at hunit hinterval ⊢
  have hmiddle : i.holds i.middle = true := by
    rw [hinterval, Interval.holds]
    split <;> simp [hbelow, habove, hbelow.le, habove.le]
  have hholds := Interval.holds_search tie hmiddle (digitCount i.middle - 1)
  generalize Interval.search tie i _ = found at hholds ⊢
  obtain ⟨digits, place⟩ := found
  rw [hinterval] at hholds
  constructor
  · have hpoint := (Interval.bounds_of_holds hholds).1
    exact Nat.pos_of_mul_pos_right (Nat.lt_of_lt_of_le hlow hpoint)
  · have hnearest := nearest_of_holds hm hfactor hunit hholds
    have hten : (10 : ℚ) ≠ 0 := by norm_num
    rw [zpow_add₀ hten, mul_comm ((10 : ℚ) ^ unit), ← mul_assoc]
    rw [zpow_natCast]
    exact_mod_cast hnearest

end Montage.Decimal
