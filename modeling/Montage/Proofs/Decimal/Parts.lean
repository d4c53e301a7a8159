import Montage.Proofs.Decimal.Text

/-!
# The parts of a number

What the lexer reads as a number has digits, perhaps a point and more digits, and perhaps an
exponent. These parts alone are read as the same number, whatever followed them.
-/

namespace Montage.Decimal

open Montage.Script (scanExponent scanNumber startsNumber)
open Montage.Text (isAsciiDigit natOfDigits?)

/-! ## Exponents -/

theorem signOf_digits {d : Char} (hd : isAsciiDigit d = true) (ds : List Char) :
    signOf (d :: ds) = (false, d :: ds) := by
  unfold signOf
  split
  next heq =>
    cases heq
    cases hd
  next heq =>
    cases heq
    cases hd
  next => rfl

theorem exists_sign (cs : List Char) :
    ∃ sign, cs = sign ++ (signOf cs).2 ∧ ∀ d ds, isAsciiDigit d = true →
      signOf (sign ++ d :: ds) = ((signOf cs).1, d :: ds) := by
  unfold signOf
  split
  next rest => exact ⟨['-'], rfl, fun d ds _ => rfl⟩
  next rest => exact ⟨['+'], rfl, fun d ds _ => rfl⟩
  next rest _ _ => exact ⟨[], rfl, fun d ds hd => signOf_digits hd ds⟩

theorem isExponent_of_scanExponent {cs : List Char} {e : Int} {n : Nat}
    (h : scanExponent cs = some (e, n)) :
    ∃ exponent rest, cs = exponent ++ rest ∧ exponent.length = n ∧ IsExponent exponent e := by
  rcases cs with _ | ⟨c, rest⟩
  · cases h
    exact ⟨[], [], rfl, rfl, isExponent_nil⟩
  rw [scanExponent] at h
  split at h
  next hmark =>
    obtain ⟨sign, hrest, hsign⟩ := exists_sign rest
    dsimp only at h
    generalize (signOf rest).1 = negative at h hsign
    generalize (signOf rest).2 = tail at h hrest
    have hdigits : AreDigits (tail.takeWhile isAsciiDigit) := fun c hc => List.mem_takeWhile_imp hc
    have htail : tail.takeWhile isAsciiDigit ++ tail.dropWhile isAsciiDigit = tail :=
      List.takeWhile_append_dropWhile
    generalize tail.takeWhile isAsciiDigit = ds at h hdigits htail
    split at h
    next => cases h
    next hne =>
      obtain ⟨d, more, rfl⟩ := List.exists_cons_of_ne_nil (mt List.isEmpty_iff.mpr hne)
      obtain ⟨rfl, rfl⟩ := Prod.mk.inj (Option.some.inj h)
      refine ⟨c :: (sign ++ d :: more), tail.dropWhile isAsciiDigit, ?_, ?_, ?_⟩
      · rw [List.cons_append, List.append_assoc, htail, ← hrest]
      · have hlength := congrArg List.length hrest
        rw [List.length_append] at hlength
        simp only [List.length_cons, List.length_append]
        omega
      · intro follow hfollow
        have hrun := (takeWhile_digits hdigits fun c hc => (hfollow c hc).1).1
        have hread := hsign d (more ++ follow) (hdigits d (by simp))
        refine ⟨?_, ?_⟩
        · rw [List.cons_append, List.append_assoc, List.cons_append, scanExponent, if_pos hmark,
            hread]
          dsimp only
          rw [← List.cons_append, hrun, if_neg hne]
          simp only [List.length_cons, List.length_append]
          congr 2
          omega
        · intro c' hc'
          cases hc'
          obtain rfl | rfl := hmark <;> exact ⟨by decide, by decide⟩
  next hmark =>
    obtain ⟨rfl, rfl⟩ := Prod.mk.inj (Option.some.inj h)
    exact ⟨[], c :: rest, rfl, rfl, isExponent_nil⟩

/-! ## Numbers -/

theorem exists_mantissa (cs : List Char) :
    ∃ whole fraction rest, cs = whole ++ (pointed fraction ++ rest) ∧ AreDigits whole ∧
      AreDigits fraction ∧ cs.takeWhile isAsciiDigit = whole ∧
      fractionRun (cs.dropWhile isAsciiDigit) = fraction := by
  have hwhole : AreDigits (cs.takeWhile isAsciiDigit) := fun c hc => List.mem_takeWhile_imp hc
  have hcs : cs.takeWhile isAsciiDigit ++ cs.dropWhile isAsciiDigit = cs :=
    List.takeWhile_append_dropWhile
  generalize cs.dropWhile isAsciiDigit = tail at hcs
  suffices hfraction : ∃ fraction rest, tail = pointed fraction ++ rest ∧ AreDigits fraction ∧
      fractionRun tail = fraction by
    obtain ⟨fraction, rest, rfl, hdigits, hrun⟩ := hfraction
    exact ⟨_, fraction, rest, hcs.symm, hwhole, hdigits, rfl, hrun⟩
  unfold fractionRun
  split
  next rest =>
    refine ⟨_, if (rest.takeWhile isAsciiDigit).isEmpty then '.' :: rest else
      rest.dropWhile isAsciiDigit, ?_, fun c hc => List.mem_takeWhile_imp hc, rfl⟩
    rw [pointed]
    split
    next => rfl
    next => rw [List.cons_append, List.takeWhile_append_dropWhile]
  next => exact ⟨[], tail, rfl, fun c hc => absurd hc List.not_mem_nil, rfl⟩

/-- What is read as a number consists of digits, perhaps a point and more digits, and perhaps an
exponent. -/
theorem exists_parts_of_scanNumber {cs : List Char} {x : Float} {n : Nat}
    (h : scanNumber cs = .ok (x, n)) :
    ∃ fraction exponent rest e,
      cs = cs.takeWhile isAsciiDigit ++ (pointed fraction ++ (exponent ++ rest)) ∧
      fractionRun (cs.dropWhile isAsciiDigit) = fraction ∧ AreDigits fraction ∧
      IsExponent exponent e ∧ x = floatOfParts (cs.takeWhile isAsciiDigit) fraction e ∧
      n = (cs.takeWhile isAsciiDigit ++ (pointed fraction ++ exponent)).length := by
  obtain ⟨whole, fraction, tail, hcs, -, hfraction, htake, hrun⟩ := exists_mantissa cs
  have hdrop : cs.drop (whole.length + (pointed fraction).length) = tail := by
    rw [hcs, ← List.append_assoc, ← List.length_append, List.drop_left]
  rw [scanNumber_def htake rfl hrun, hdrop] at h
  rcases hexponent : scanExponent tail with _ | ⟨e, k⟩ <;> rw [hexponent] at h
  · cases h
  · obtain ⟨rfl, rfl⟩ := Prod.mk.inj (Except.ok.inj h)
    obtain ⟨exponent, rest, rfl, rfl, hread⟩ := isExponent_of_scanExponent hexponent
    rw [htake]
    refine ⟨fraction, exponent, rest, e, hcs, hrun, hfraction, hread, rfl, ?_⟩
    rw [List.length_append, List.length_append, Nat.add_assoc]

theorem scanNumber_alone {c : Char} {cs : List Char} {x : Float} {n : Nat}
    (hstart : startsNumber c cs = true) (h : scanNumber (c :: cs) = .ok (x, n)) :
    ∃ own rest, cs = own ++ rest ∧ own.length + 1 = n ∧ startsNumber c own = true ∧
      scanNumber (c :: own) = .ok (x, n) := by
  obtain ⟨fraction, exponent, rest, e, hcs, hrun, hfraction, hread, rfl, rfl⟩ :=
    exists_parts_of_scanNumber h
  have hwhole : AreDigits ((c :: cs).takeWhile isAsciiDigit) :=
    fun c hc => List.mem_takeWhile_imp hc
  have hends : EndsNumber [] := fun c hc => by cases hc
  have hown := scanNumber_eq hwhole hfraction hread hends
  rw [List.append_nil, Nat.add_assoc, ← List.length_append, ← List.length_append] at hown
  cases hc : isAsciiDigit c with
  | true =>
    rw [List.takeWhile_cons_of_pos hc] at hcs hown ⊢
    refine ⟨_, rest, ?_, rfl, ?_, hown⟩
    · rw [← List.append_assoc (pointed fraction), ← List.append_assoc] at hcs
      exact (List.cons.inj hcs).2
    · rw [startsNumber, hc, Bool.true_or]
  | false =>
    simp only [startsNumber, hc, Bool.false_or, Bool.and_eq_true, beq_iff_eq] at hstart
    obtain ⟨rfl, hdigit⟩ := hstart
    obtain ⟨d, cs, rfl⟩ : ∃ d ds, cs = d :: ds := List.exists_cons_of_ne_nil (by
      rintro rfl
      cases hdigit)
    have hne : isAsciiDigit '.' ≠ true := by decide
    have hd : isAsciiDigit d = true := hdigit
    rw [List.dropWhile_cons_of_neg hne, fractionRun, List.takeWhile_cons_of_pos hd] at hrun
    subst hrun
    rw [List.takeWhile_cons_of_neg hne] at hcs hown ⊢
    refine ⟨_, rest, ?_, rfl, hd, hown⟩
    rw [← List.append_assoc (pointed _), ← List.append_assoc] at hcs
    exact (List.cons.inj hcs).2

theorem exists_before_of_scanNumber_error {cs : List Char} {n : Nat}
    (h : scanNumber cs = .error n) :
    ∃ before rest, cs = before ++ rest ∧ before.length = n ∧
      ∀ c ∈ before, isAsciiDigit c = true ∨ c = '.' := by
  obtain ⟨whole, fraction, tail, hcs, hwhole, hfraction, htake, hrun⟩ := exists_mantissa cs
  rw [scanNumber_def htake rfl hrun] at h
  refine ⟨whole ++ pointed fraction, tail, by rw [hcs, List.append_assoc], ?_, ?_⟩
  · rw [List.length_append]
    split at h
    · cases h
    · exact Except.error.inj h
  · intro c hc
    obtain hc | hc := List.mem_append.mp hc
    · exact .inl (hwhole c hc)
    · rw [pointed] at hc
      split at hc
      · cases hc
      · obtain rfl | hc := List.mem_cons.mp hc
        · exact .inr rfl
        · exact .inl (hfraction c hc)

end Montage.Decimal
