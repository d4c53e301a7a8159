import Mathlib
import Montage.Decimal.Format
import Montage.Script.Lexer
import Montage.Proofs.Decimal.Reading
import Montage.Proofs.Decimal.Shortest

/-!
# The text of a float reads back

The text of a positive float is a run of digits, a point and more digits or neither, and an exponent
or none. However it is written, the digits and the exponent together are the shortest decimal of the
float, so the lexer reads the float back.
-/

namespace Montage.Decimal

open Montage.Text (isAsciiDigit digitValue? natOfDigits?)
open Montage.Script (scanExponent scanNumber)

/-! ## Runs of digits -/

def AreDigits (ds : List Char) : Prop := ∀ c ∈ ds, isAsciiDigit c = true

theorem isAsciiDigit_iff {c : Char} : isAsciiDigit c = true ↔ '0' ≤ c ∧ c ≤ '9' := by
  rw [isAsciiDigit, digitValue?]
  split
  next h => exact iff_of_true rfl h
  next h => exact iff_of_false Bool.false_ne_true h

theorem natOfDigits?_eq {ds : List Char} (h : AreDigits ds) :
    natOfDigits? ds = some (Nat.ofDigitChars 10 ds 0) := by
  rw [natOfDigits?, Nat.ofDigitChars_eq_foldl]
  generalize 0 = n
  induction ds generalizing n with
  | nil => rfl
  | cons c ds ih =>
    have hc := isAsciiDigit_iff.mp (h c (by simp))
    rw [List.foldlM_cons, digitValue?, if_pos hc]
    exact ih (fun d hd => h d (by simp [hd])) _

theorem natOfDigits?_eq_none {ds : List Char} (h : ¬ AreDigits ds) : natOfDigits? ds = none := by
  rw [natOfDigits?]
  generalize 0 = n
  induction ds generalizing n with
  | nil => exact absurd (fun _ hc => absurd hc List.not_mem_nil) h
  | cons c ds ih =>
    rw [List.foldlM_cons]
    cases hc : digitValue? c with
    | none => rfl
    | some v =>
      refine ih (fun hds => h (List.forall_mem_cons.mpr ⟨?_, hds⟩)) _
      rw [isAsciiDigit, hc]
      rfl

theorem ofDigitChars_lt {ds : List Char} (h : AreDigits ds) :
    Nat.ofDigitChars 10 ds 0 < 10 ^ ds.length := by
  suffices hstart : ∀ n, Nat.ofDigitChars 10 ds n < 10 ^ ds.length * (n + 1) by
    simpa using hstart 0
  induction ds with
  | nil => exact fun n => by simp
  | cons c ds ih =>
    obtain ⟨hc, hds⟩ := List.forall_mem_cons.mp h
    have hnine : c.toNat ≤ '9'.toNat := (isAsciiDigit_iff.mp hc).2
    intro n
    rw [Nat.ofDigitChars_cons, List.length_cons, Nat.pow_succ, Nat.mul_assoc]
    refine Nat.lt_of_lt_of_le (ih hds _) (Nat.mul_le_mul_left _ ?_)
    have hvalue : '9'.toNat - '0'.toNat = 9 := rfl
    omega

theorem AreDigits.append {ds es : List Char} (h : AreDigits ds) (h' : AreDigits es) :
    AreDigits (ds ++ es) := fun c hc => (List.mem_append.mp hc).elim (h c) (h' c)

theorem AreDigits.of_subset {ds es : List Char} (h : AreDigits ds) (hsub : ∀ c ∈ es, c ∈ ds) :
    AreDigits es := fun c hc => h c (hsub c hc)

theorem areDigits_zeros (n : Nat) : AreDigits (List.replicate n '0') := fun c hc => by
  rw [(List.mem_replicate.mp hc).2]
  decide

theorem areDigits_natDigits (n : Nat) : AreDigits (natDigits n) := fun c hc => by
  have hdigit : c.isDigit = true := Nat.isDigit_of_mem_toDigits (by decide) (by decide) hc
  rw [Char.isDigit, Bool.and_eq_true, decide_eq_true_eq, decide_eq_true_eq] at hdigit
  exact isAsciiDigit_iff.mpr hdigit

theorem ofDigitChars_natDigits (n : Nat) : Nat.ofDigitChars 10 (natDigits n) 0 = n :=
  Nat.ofDigitChars_ten_toDigits

theorem exists_significant (ds : List Char) :
    ∃ n, ds = significant ds ++ List.replicate n '0' := by
  refine ⟨(ds.reverse.takeWhile (· == '0')).length, ?_⟩
  have hzeros : (ds.reverse.takeWhile (· == '0')).reverse =
      List.replicate (ds.reverse.takeWhile (· == '0')).length '0' := by
    rw [List.eq_replicate_iff]
    refine ⟨List.length_reverse, fun c hc => ?_⟩
    have hzero := List.mem_takeWhile_imp (List.mem_reverse.mp hc)
    exact beq_iff_eq.mp hzero
  rw [significant, ← hzeros, ← List.reverse_append, List.takeWhile_append_dropWhile,
    List.reverse_reverse]

def EndsDigits (cs : List Char) : Prop := ∀ c ∈ cs.head?, isAsciiDigit c = false

theorem takeWhile_append_of_head? {kind : Char → Bool} {cs rest : List Char}
    (h : ∀ c ∈ cs, kind c = true) (hrest : ∀ c ∈ rest.head?, kind c = false) :
    (cs ++ rest).takeWhile kind = cs ∧ (cs ++ rest).dropWhile kind = rest := by
  rw [List.takeWhile_append_of_pos h, List.dropWhile_append_of_pos h]
  cases rest with
  | nil => exact ⟨List.append_nil cs, rfl⟩
  | cons c rest =>
    have hc : ¬ kind c = true := by rw [hrest c rfl]; exact Bool.false_ne_true
    rw [List.takeWhile_cons_of_neg hc, List.dropWhile_cons_of_neg hc, List.append_nil]
    exact ⟨rfl, rfl⟩

theorem takeWhile_digits {ds rest : List Char} (h : AreDigits ds) (hrest : EndsDigits rest) :
    (ds ++ rest).takeWhile isAsciiDigit = ds ∧ (ds ++ rest).dropWhile isAsciiDigit = rest :=
  takeWhile_append_of_head? h hrest

/-! ## Numbers -/

/-- Digits behind a point, or nothing. -/
def pointed (fraction : List Char) : List Char := if fraction.isEmpty then [] else '.' :: fraction

def fractionRun : List Char → List Char
  | '.' :: rest => rest.takeWhile isAsciiDigit
  | _ => []

theorem scanNumber_def {cs whole rest fraction : List Char}
    (hwhole : cs.takeWhile isAsciiDigit = whole)
    (hrest : cs.dropWhile isAsciiDigit = rest) (hfraction : fractionRun rest = fraction) :
    scanNumber cs =
      match scanExponent (cs.drop (whole.length + (pointed fraction).length)) with
      | some (e, n) =>
        .ok (floatOfParts whole fraction e, whole.length + (pointed fraction).length + n)
      | none => .error (whole.length + (pointed fraction).length) := by
  have hlength : (pointed fraction).length =
      if fraction.isEmpty then 0 else fraction.length + 1 := by
    rw [pointed]
    split <;> rfl
  subst hwhole hrest hfraction
  rw [hlength]
  rfl

def EndsNumber (cs : List Char) : Prop :=
  ∀ c ∈ cs.head?, isAsciiDigit c = false ∧ c ≠ '.' ∧ c ≠ 'e' ∧ c ≠ 'E'

/-- `cs` is an exponent of the value `e` in front of what ends a number. -/
def IsExponent (cs : List Char) (e : Int) : Prop :=
  ∀ rest, EndsNumber rest → scanExponent (cs ++ rest) = some (e, cs.length) ∧
    ∀ c ∈ (cs ++ rest).head?, isAsciiDigit c = false ∧ c ≠ '.'

theorem isExponent_nil : IsExponent [] 0 := by
  intro rest hrest
  refine ⟨?_, fun c hc => ⟨(hrest c hc).1, (hrest c hc).2.1⟩⟩
  cases rest with
  | nil => rfl
  | cons c rest =>
    obtain ⟨-, -, he, hE⟩ := hrest c rfl
    rw [List.nil_append, scanExponent, if_neg (by rintro (h | h) <;> contradiction)]
    rfl

theorem isExponent_sign (n : Nat) (negative : Bool) :
    IsExponent ('e' :: (if negative then '-' else '+') :: natDigits n)
      (if negative then -(n : Int) else n) := by
  intro rest hrest
  refine ⟨?_, fun c hc => by cases hc; exact ⟨by decide, by decide⟩⟩
  have hdigits : ((natDigits n ++ rest).takeWhile isAsciiDigit) = natDigits n :=
    (takeWhile_digits (areDigits_natDigits n) fun c hc => (hrest c hc).1).1
  have hempty : (natDigits n).isEmpty = false := List.isEmpty_eq_false_iff.mpr Nat.toDigits_ne_nil
  rw [List.cons_append, List.cons_append, scanExponent, if_pos (.inl rfl)]
  cases negative <;>
    simp only [signOf, Bool.false_eq_true, if_true, if_false, hdigits, hempty,
      natOfDigits?_eq (areDigits_natDigits n), ofDigitChars_natDigits, Option.getD_some,
      List.length_cons] <;>
    congr 2 <;> omega

theorem scanNumber_eq {whole fraction exponent rest : List Char} {e : Int}
    (hwhole : AreDigits whole) (hfraction : AreDigits fraction) (hexponent : IsExponent exponent e)
    (hrest : EndsNumber rest) :
    scanNumber (whole ++ (pointed fraction ++ (exponent ++ rest))) =
      .ok (floatOfParts whole fraction e,
        whole.length + (pointed fraction).length + exponent.length) := by
  obtain ⟨hscan, hnext⟩ := hexponent rest hrest
  generalize htail : exponent ++ rest = tail at hscan hnext
  have htailEnds : EndsDigits tail := fun c hc => (hnext c hc).1
  have hwholeEnds : EndsDigits (pointed fraction ++ tail) := by
    rw [pointed]
    split
    · exact htailEnds
    · intro c hc
      cases hc
      decide
  have hrun : fractionRun (pointed fraction ++ tail) = fraction := by
    rw [pointed]
    split
    next hempty =>
      rw [List.isEmpty_iff.mp hempty, List.nil_append]
      unfold fractionRun
      split
      next => exact absurd rfl (hnext '.' rfl).2
      next => rfl
    next => exact (takeWhile_digits hfraction htailEnds).1
  obtain ⟨htake, hdrop⟩ := takeWhile_digits hwhole hwholeEnds
  rw [scanNumber_def htake hdrop hrun, ← List.append_assoc, ← List.length_append, List.drop_left,
    hscan]

/-! ## Formats -/

/-- The text writes the number: digits, perhaps a point and more digits, perhaps an exponent. -/
inductive Writes : List Char → ℚ → Prop
  | mk {whole fraction exponent : List Char} {e : Int} (hne : whole ≠ []) (hwhole : AreDigits whole)
    (hfraction : AreDigits fraction) (hexponent : IsExponent exponent e) :
    Writes (whole ++ (pointed fraction ++ exponent))
      (Nat.ofDigitChars 10 (whole ++ fraction) 0 * 10 ^ (e - fraction.length))

theorem ofDigitChars_zeros_append (n : Nat) (ds : List Char) :
    Nat.ofDigitChars 10 (List.replicate n '0' ++ ds) 0 = Nat.ofDigitChars 10 ds 0 := by
  rw [Nat.ofDigitChars_append, Nat.ofDigitChars_replicate_zero, Nat.mul_zero]

theorem ofDigitChars_append_zeros (ds : List Char) (n : Nat) :
    Nat.ofDigitChars 10 (ds ++ List.replicate n '0') 0 = Nat.ofDigitChars 10 ds 0 * 10 ^ n := by
  rw [Nat.ofDigitChars_append, Nat.ofDigitChars_replicate_zero, Nat.mul_comm]

theorem ten_zpow_add (n : Nat) (e : Int) : (10 : ℚ) ^ (e + n) = 10 ^ n * 10 ^ e := by
  rw [zpow_add₀ (by norm_num), zpow_natCast, mul_comm]

theorem writes_positionalText {ds : List Char} (hne : ds ≠ []) (hds : AreDigits ds) (e : Int) :
    Writes (Format.data.positionalText ds e)
      (Nat.ofDigitChars 10 ds 0 * 10 ^ (e + 1 - ds.length)) := by
  rw [Format.positionalText]
  -- the point stands in front of the digits, behind them, or among them
  split
  next he =>
    have hfraction : AreDigits (List.replicate (-e - 1).toNat '0' ++ ds) :=
      (areDigits_zeros _).append hds
    have h := Writes.mk (List.cons_ne_nil '0' []) (areDigits_zeros 1) hfraction isExponent_nil
    have hpointed : pointed (List.replicate (-e - 1).toNat '0' ++ ds) =
        '.' :: (List.replicate (-e - 1).toNat '0' ++ ds) := by
      rw [pointed, if_neg (by simp [hne])]
    have hvalue : Nat.ofDigitChars 10 (['0'] ++ (List.replicate (-e - 1).toNat '0' ++ ds)) 0 =
        Nat.ofDigitChars 10 ds 0 :=
      (ofDigitChars_zeros_append 1 _).trans (ofDigitChars_zeros_append _ ds)
    have hexponent : (0 : Int) - (List.replicate (-e - 1).toNat '0' ++ ds).length =
        e + 1 - ds.length := by
      rw [List.length_append, List.length_replicate]
      omega
    rwa [hpointed, hvalue, hexponent, List.append_nil] at h
  next he =>
    dsimp only
    split
    next hlen =>
      generalize hzeros : e.toNat + 1 - ds.length = zeros
      have h := Writes.mk (List.append_ne_nil_of_left_ne_nil hne (List.replicate zeros '0'))
        (hds.append (areDigits_zeros zeros)) (areDigits_zeros 1) isExponent_nil
      have hvalue : Nat.ofDigitChars 10 (ds ++ List.replicate zeros '0' ++ List.replicate 1 '0') 0 =
          Nat.ofDigitChars 10 ds 0 * 10 ^ (zeros + 1) := by
        rw [List.append_assoc, List.replicate_append_replicate, ofDigitChars_append_zeros]
      have hexponent :
          e + 1 - ds.length = (0 - (List.replicate 1 '0').length : Int) + (zeros + 1 : ℕ) := by
        rw [List.length_replicate]
        omega
      rw [hexponent, ten_zpow_add, ← mul_assoc]
      rw [hvalue] at h
      push_cast at h ⊢
      exact h
    next hlen =>
      have h := @Writes.mk (ds.take (e.toNat + 1)) (ds.drop (e.toNat + 1)) _ _
        (by simp [hne]) (hds.of_subset fun c hc => List.mem_of_mem_take hc)
        (hds.of_subset fun c hc => List.mem_of_mem_drop hc) isExponent_nil
      have hpointed : pointed (ds.drop (e.toNat + 1)) = '.' :: ds.drop (e.toNat + 1) := by
        rw [pointed, if_neg (by simp; omega)]
      have hexponent : (0 : Int) - (ds.drop (e.toNat + 1)).length = e + 1 - ds.length := by
        rw [List.length_drop]
        omega
      rwa [hpointed, List.take_append_drop, hexponent, List.append_nil] at h

theorem writes_exponentText {ds : List Char} (hne : ds ≠ []) (hds : AreDigits ds) (e : Int) :
    Writes (Format.data.exponentText ds e)
      (Nat.ofDigitChars 10 ds 0 * 10 ^ (e + 1 - ds.length)) := by
  have hsign : (if e < 0 then ['-'] else Format.data.plus) ++ natDigits e.natAbs =
      (if decide (e < 0) then '-' else '+') :: natDigits e.natAbs := by
    by_cases he : e < 0
    · rw [if_pos he, if_pos (decide_eq_true he)]
      rfl
    · rw [if_neg he, if_neg (by simpa using he)]
      rfl
  have hexponent := isExponent_sign e.natAbs (decide (e < 0))
  have hvalue : (if decide (e < 0) = true then -(e.natAbs : Int) else e.natAbs) = e := by
    simp only [decide_eq_true_eq]
    split <;> omega
  rw [hvalue] at hexponent
  obtain ⟨d, rest, rfl⟩ := List.exists_cons_of_ne_nil hne
  have h := Writes.mk (List.cons_ne_nil d []) (hds.of_subset (by simp))
    (hds.of_subset fun c (hc : c ∈ rest) => List.mem_cons_of_mem d hc) hexponent
  have hlength : e + 1 - (d :: rest).length = e - rest.length := by
    rw [List.length_cons]
    omega
  have htext : Format.data.exponentText (d :: rest) e = [d] ++ (pointed rest ++
      'e' :: (if decide (e < 0) then '-' else '+') :: natDigits e.natAbs) := by
    rw [← hsign]
    rcases rest with _ | ⟨second, rest⟩ <;> simp [Format.exponentText, pointed]
  rw [hlength, htext]
  exact h

theorem writes_scaledText {d : Scaled} (hd : 0 < d.digits) :
    Writes (Format.data.scaledText d) (d.digits * 10 ^ d.exponent) := by
  obtain ⟨n, hall⟩ := exists_significant (natDigits d.digits)
  have hdigits : AreDigits (significant (natDigits d.digits)) :=
    (areDigits_natDigits d.digits).of_subset fun c hc => by
      rw [hall]
      exact List.mem_append_left _ hc
  have hvalue : d.digits = Nat.ofDigitChars 10 (significant (natDigits d.digits)) 0 * 10 ^ n := by
    rw [← ofDigitChars_append_zeros, ← hall, ofDigitChars_natDigits]
  have hlength : (natDigits d.digits).length = (significant (natDigits d.digits)).length + n := by
    conv_lhs => rw [hall]
    rw [List.length_append, List.length_replicate]
  have hne : significant (natDigits d.digits) ≠ [] := by
    intro hnil
    rw [hnil] at hvalue
    simp at hvalue
    omega
  have hlpos : 0 < (significant (natDigits d.digits)).length := List.length_pos_of_ne_nil hne
  have hscaled : (d.digits : ℚ) * 10 ^ d.exponent =
      Nat.ofDigitChars 10 (significant (natDigits d.digits)) 0 *
        10 ^ (d.exponent + ((natDigits d.digits).length - 1 : ℕ) + 1 -
          (significant (natDigits d.digits)).length) := by
    have hexponent : d.exponent + ((natDigits d.digits).length - 1 : ℕ) + 1 -
        (significant (natDigits d.digits)).length = d.exponent + n := by omega
    rw [hexponent, ten_zpow_add, ← mul_assoc]
    congr 1
    exact_mod_cast hvalue
  rw [Format.scaledText, if_neg (Nat.ne_of_gt hd), hscaled]
  split
  · exact writes_positionalText hne hdigits _
  · exact writes_exponentText hne hdigits _

/-! ## Numerals -/

/-- The lexer takes the text as a number, the float `x`. -/
structure IsNumeral (cs : List Char) (x : Float) : Prop where
  starts : ∃ c rest, cs = c :: rest ∧ isAsciiDigit c = true
  scans : ∀ rest, EndsNumber rest → scanNumber (cs ++ rest) = .ok (x, cs.length)

theorem isNumeral_parts {whole fraction exponent : List Char} {e : Int} (hne : whole ≠ [])
    (hwhole : AreDigits whole) (hfraction : AreDigits fraction)
    (hexponent : IsExponent exponent e) :
    IsNumeral (whole ++ (pointed fraction ++ exponent)) (floatOfParts whole fraction e) := by
  constructor
  · obtain ⟨c, cs, rfl⟩ := List.exists_cons_of_ne_nil hne
    exact ⟨c, _, rfl, hwhole c (by simp)⟩
  · intro rest hrest
    rw [List.append_assoc, List.append_assoc, scanNumber_eq hwhole hfraction hexponent hrest,
      List.length_append, List.length_append, Nat.add_assoc]

theorem isNumeral_natDigits (n : Nat) : IsNumeral (natDigits n) (.ofNat n) := by
  have hne : natDigits n ≠ [] := Nat.toDigits_ne_nil
  have h := isNumeral_parts hne (areDigits_natDigits n) (areDigits_zeros 0) isExponent_nil
  have hvalue : floatOfParts (natDigits n) [] 0 = .ofNat n := by
    rw [floatOfParts, List.append_nil, natOfDigits?_eq (areDigits_natDigits n),
      ofDigitChars_natDigits]
    rfl
  rwa [List.replicate_zero, hvalue, pointed, if_pos List.isEmpty_nil, List.append_nil,
    List.append_nil] at h

theorem Writes.isNumeral {cs : List Char} {v : ℚ} (h : Writes cs v) {m : Nat} {e : Int}
    (hm : Canonical m e) (hv : Nearest m e v) :
    IsNumeral cs (.ofModel (.pack (.finite .positive m e hm.pos))) := by
  obtain ⟨hne, hwhole, hfraction, hexponent⟩ := h
  rename_i whole fraction exponent k
  have hpos : 0 < Nat.ofDigitChars 10 (whole ++ fraction) 0 := by
    have hbounds := (hv.bounds hm).1
    rw [Nat.pos_iff_ne_zero]
    intro hzero
    rw [hzero, Nat.cast_zero, zero_mul] at hbounds
    exact absurd (zpow_pos two_pos (-1075)) (not_lt.mpr hbounds)
  have hvalue : floatOfParts whole fraction k =
      .ofModel (.pack (.finite .positive m e hm.pos)) := by
    rw [floatOfParts, natOfDigits?_eq (hwhole.append hfraction), Option.getD_some,
      ofScientific_eq hpos hm hv]
  rw [← hvalue]
  exact isNumeral_parts hne hwhole hfraction hexponent

theorem isNumeral_zero :
    IsNumeral (Format.data.scaledText ⟨0, 0⟩) (.ofModel (.pack (.zero .positive))) := by
  have h := isNumeral_parts (List.cons_ne_nil '0' []) (areDigits_zeros 1) (areDigits_zeros 1)
    isExponent_nil
  exact h

def isMinus (x : Float) : Bool :=
  match x.toModel.unpack with
  | .zero .negative | .finite .negative _ _ _ => true
  | _ => false

/-- The text of a finite float reads back: behind the minus it is a numeral of the float without its
sign. -/
theorem exists_isNumeral {x : Float} (hx : x.isFinite = true) :
    ∃ cs, Format.data.text x = (if isMinus x then '-' :: cs else cs) ∧ IsNumeral cs x.abs := by
  have hfinite : x.toModel.unpack.isFinite = true := hx
  have habs : x.abs = .ofModel (.pack x.toModel.unpack.abs) := rfl
  rw [Format.text, isMinus, habs]
  rcases hunpack : x.toModel.unpack with s | _ | s | ⟨s, m, e, hm⟩
  · rw [hunpack] at hfinite
    cases hfinite
  · rw [hunpack] at hfinite
    cases hfinite
  · refine ⟨_, ?_, isNumeral_zero⟩
    cases s <;> rfl
  · have hcanonical := canonical_of_unpack hunpack
    obtain ⟨hpos, hnearest⟩ := shortest_nearest .even hcanonical
    refine ⟨_, ?_, (writes_scaledText hpos).isNumeral hcanonical hnearest⟩
    cases s <;> rfl

end Montage.Decimal
