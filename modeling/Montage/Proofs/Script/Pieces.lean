import Montage.Proofs.Decimal.Parts
import Montage.Proofs.Script.Texts

/-!
# The characters of a piece

How a source is cut at its front depends on what follows: a number goes on while there are digits, a
sign is as long as it can be, and `?.` is none before a digit. But a piece that has been cut off is
cut off the same way when nothing follows it, so a token is found in its own characters alone.
-/

namespace Montage.Script

open Montage.Text (octets octets_eq_length)

/-! ## Comments -/

theorem commentEnd?_alone {cs : List Char} {n : Nat} (h : commentEnd? cs = some n) :
    ∃ own rest, cs = own ++ rest ∧ own.length = n ∧ commentEnd? own = some n := by
  induction cs using commentEnd?.induct generalizing n with
  | case1 rest =>
    cases h
    exact ⟨['*', '/'], rest, rfl, rfl, rfl⟩
  | case2 c cs hopen ih =>
    rw [commentEnd?, Option.map_eq_some_iff] at h
    · obtain ⟨m, hm, rfl⟩ := h
      obtain ⟨own, rest, rfl, rfl, hown⟩ := ih hm
      refine ⟨c :: own, rest, rfl, rfl, ?_⟩
      -- a `*/` at the front of the part would be one at the front of the whole
      have hopen' : ∀ tail, c = '*' → own = '/' :: tail → False := by
        rintro tail hc rfl
        exact hopen (tail ++ rest) hc rfl
      rw [commentEnd?, hown]
      · rfl
      · exact hopen'
    · exact hopen
  | case3 => cases h

/-! ## Signs -/

theorem scanSign?_nil (c : Char) : scanSign? c [] = (scanSign?.single? c).map (·, 0) := by
  simp only [scanSign?]

theorem scanSign?_alone {c : Char} {cs : List Char} {s : Sign} {n : Nat}
    (h : scanSign? c cs = some (s, n)) :
    ∃ own rest, cs = own ++ rest ∧ own.length = n ∧ scanSign? c own = some (s, n) := by
  revert h
  fun_cases scanSign? c cs <;> intro h
  case case13 =>
    obtain ⟨sign, hsign, heq⟩ := Option.map_eq_some_iff.mp h
    cases heq
    refine ⟨[], cs, rfl, rfl, ?_⟩
    rw [scanSign?_nil, hsign]
    rfl
  -- the characters of a longer sign are given, and what follows them is not looked at again
  all_goals
    cases h
    first
      | exact ⟨[], _, rfl, rfl, rfl⟩
      | exact ⟨[_], _, rfl, rfl, rfl⟩
      | exact ⟨[_, _], _, rfl, rfl, rfl⟩

/-! ## Pieces -/

structure BeginsToken (c : Char) (rest : List Char) : Prop where
  blank : ¬ isGap c = true
  line : ¬ (c = '/' ∧ rest.head? = some '/')
  block : ¬ (c = '/' ∧ rest.head? = some '*')

section
variable {pos : Nat} {c : Char} {cs : List Char}

theorem scan_blank (h : isGap c = true) : scan pos c cs = .ok ⟨none, 0⟩ := if_pos h

theorem scan_line : scan pos '/' ('/' :: cs) =
    .ok ⟨none, ('/' :: cs.takeWhile (· ≠ '\n')).length⟩ := by
  rw [scan, if_neg (by decide), if_pos ⟨rfl, rfl⟩, List.takeWhile_cons_of_pos (by decide)]

theorem scan_block : scan pos '/' ('*' :: cs) =
    match commentEnd? cs with
    | some n => .ok ⟨none, n + 1⟩
    | none => .error ⟨pos, .openComment⟩ := by
  rw [scan, if_neg (by decide), if_neg (by simp)]
  exact if_pos ⟨rfl, rfl⟩

theorem scan_number (h : BeginsToken c cs) (hnumber : startsNumber c cs = true) :
    scan pos c cs =
      match scanNumber (c :: cs) with
      | .ok (x, n) => .ok ⟨some (.number x), n - 1⟩
      | .error n => .error ⟨pos + n, .exponentDigits⟩ := by
  rw [scan, if_neg h.blank, if_neg h.line, if_neg h.block]
  exact if_pos hnumber

theorem scan_text (h : BeginsToken c cs) (hnumber : ¬ startsNumber c cs = true)
    (hquote : c = '"' ∨ c = '\'') :
    scan pos c cs = (scanText c pos (pos + 1) 0 [] cs).map fun (s, n) => ⟨some (.text s), n⟩ := by
  rw [scan, if_neg h.blank, if_neg h.line, if_neg h.block, if_neg hnumber, if_pos hquote]
  cases scanText c pos (pos + 1) 0 [] cs <;> rfl

theorem scan_name (h : BeginsToken c cs) (hnumber : ¬ startsNumber c cs = true)
    (hquote : ¬ (c = '"' ∨ c = '\'')) (hname : startsName c = true) :
    scan pos c cs = .ok ⟨some (lettersKind (String.ofList (c :: cs.takeWhile continuesName))),
      (cs.takeWhile continuesName).length⟩ := by
  rw [scan, if_neg h.blank, if_neg h.line, if_neg h.block, if_neg hnumber, if_neg hquote,
    if_pos hname]

theorem scan_sign (h : BeginsToken c cs) (hnumber : ¬ startsNumber c cs = true)
    (hquote : ¬ (c = '"' ∨ c = '\'')) (hname : ¬ startsName c = true) :
    scan pos c cs =
      match scanSign? c cs with
      | some (s, n) => .ok ⟨some (.sign s), n⟩
      | none => .error ⟨pos, .character c⟩ := by
  rw [scan, if_neg h.blank, if_neg h.line, if_neg h.block, if_neg hnumber, if_neg hquote]
  exact if_neg hname

theorem scan_cases {motive : Char → List Char → Prop}
    (blank : ∀ c cs, isGap c = true → motive c cs)
    (line : ∀ cs, motive '/' ('/' :: cs))
    (block : ∀ cs, motive '/' ('*' :: cs))
    (number : ∀ c cs, BeginsToken c cs → startsNumber c cs = true → motive c cs)
    (text : ∀ c cs, BeginsToken c cs → ¬ startsNumber c cs = true → c = '"' ∨ c = '\'' →
      motive c cs)
    (name : ∀ c cs, BeginsToken c cs → ¬ startsNumber c cs = true → ¬ (c = '"' ∨ c = '\'') →
      startsName c = true → motive c cs)
    (sign : ∀ c cs, BeginsToken c cs → ¬ startsNumber c cs = true → ¬ (c = '"' ∨ c = '\'') →
      ¬ startsName c = true → motive c cs)
    (c : Char) (cs : List Char) : motive c cs := by
  by_cases hblank : isGap c = true
  · exact blank c cs hblank
  by_cases hline : c = '/' ∧ cs.head? = some '/'
  · obtain ⟨rfl, hhead⟩ := hline
    obtain ⟨cs, rfl⟩ := List.head?_eq_some_iff.mp hhead
    exact line cs
  by_cases hblock : c = '/' ∧ cs.head? = some '*'
  · obtain ⟨rfl, hhead⟩ := hblock
    obtain ⟨cs, rfl⟩ := List.head?_eq_some_iff.mp hhead
    exact block cs
  have h : BeginsToken c cs := ⟨hblank, hline, hblock⟩
  by_cases hnumber : startsNumber c cs = true
  · exact number c cs h hnumber
  by_cases hquote : c = '"' ∨ c = '\''
  · exact text c cs h hnumber hquote
  by_cases hname : startsName c = true
  · exact name c cs h hnumber hquote hname
  · exact sign c cs h hnumber hquote hname

end

/-! ## Pieces alone -/

section
variable {pos : Nat} {c : Char} {own rest : List Char}

theorem BeginsToken.alone (h : BeginsToken c (own ++ rest)) : BeginsToken c own := by
  have hhead : ∀ d, own.head? = some d → (own ++ rest).head? = some d := by
    intro d hd
    rw [List.head?_append, hd]
    rfl
  exact ⟨h.blank, fun hc => h.line ⟨hc.1, hhead _ hc.2⟩, fun hc => h.block ⟨hc.1, hhead _ hc.2⟩⟩

theorem not_startsNumber_alone (h : ¬ startsNumber c (own ++ rest) = true) :
    ¬ startsNumber c own = true := by
  intro hown
  apply h
  cases own with
  | nil =>
    simp only [startsNumber, List.head?_nil, Option.map_none, Option.getD_none, Bool.and_false,
      Bool.or_false] at hown
    rw [startsNumber, hown, Bool.true_or]
  | cons d own => exact hown

end

/-- A piece is cut off the same way when nothing follows it. -/
theorem scan_alone {pos : Nat} {c : Char} {cs : List Char} {piece : Piece}
    (h : scan pos c cs = .ok piece) :
    ∃ own rest, cs = own ++ rest ∧ own.length = piece.more ∧
      ∀ pos, scan pos c own = .ok piece := by
  induction c, cs using scan_cases with
  | blank c cs hblank =>
    rw [scan_blank hblank] at h
    cases h
    exact ⟨[], cs, rfl, rfl, fun pos => scan_blank hblank⟩
  | line cs =>
    rw [scan_line] at h
    cases h
    refine ⟨'/' :: cs.takeWhile (· ≠ '\n'), cs.dropWhile (· ≠ '\n'), ?_, rfl, fun pos => ?_⟩
    · rw [List.cons_append, List.takeWhile_append_dropWhile]
    · rw [scan_line, List.takeWhile_idem]
  | block cs =>
    rw [scan_block] at h
    split at h
    next n hend =>
      cases h
      obtain ⟨own, rest, rfl, rfl, hown⟩ := commentEnd?_alone hend
      refine ⟨'*' :: own, rest, rfl, rfl, fun pos => ?_⟩
      rw [scan_block, hown]
    next => cases h
  | number c cs hbegins hnumber =>
    rw [scan_number hbegins hnumber] at h
    split at h
    next x n hscan =>
      cases h
      obtain ⟨own, rest, rfl, rfl, hstart, hown⟩ := Decimal.scanNumber_alone hnumber hscan
      refine ⟨own, rest, rfl, rfl, fun pos => ?_⟩
      rw [scan_number hbegins.alone hstart, hown]
    next => cases h
  | text c cs hbegins hnumber hquote =>
    rw [scan_text hbegins hnumber hquote] at h
    rcases hscan : scanText c pos (pos + 1) 0 [] cs with e | ⟨s, n⟩ <;> rw [hscan] at h
    · cases h
    · cases h
      obtain ⟨own, rest, rfl, rfl, hown⟩ := scanText_alone hscan
      refine ⟨own, rest, rfl, (Nat.zero_add _).symm, fun pos => ?_⟩
      rw [scan_text hbegins.alone (not_startsNumber_alone hnumber) hquote, hown]
      rfl
  | name c cs hbegins hnumber hquote hname =>
    rw [scan_name hbegins hnumber hquote hname] at h
    cases h
    have hcs : cs.takeWhile continuesName ++ cs.dropWhile continuesName = cs :=
      List.takeWhile_append_dropWhile
    rw [← hcs] at hbegins hnumber
    refine ⟨cs.takeWhile continuesName, cs.dropWhile continuesName, hcs.symm, rfl, fun pos => ?_⟩
    rw [scan_name hbegins.alone (not_startsNumber_alone hnumber) hquote hname, List.takeWhile_idem]
  | sign c cs hbegins hnumber hquote hname =>
    rw [scan_sign hbegins hnumber hquote hname] at h
    split at h
    next s n hscan =>
      cases h
      obtain ⟨own, rest, rfl, rfl, hown⟩ := scanSign?_alone hscan
      refine ⟨own, rest, rfl, rfl, fun pos => ?_⟩
      rw [scan_sign hbegins.alone (not_startsNumber_alone hnumber) hquote hname, hown]
    next => cases h

theorem offset_of_scan_error {pos : Nat} {c : Char} {cs : List Char} {e : SyntaxError}
    (h : scan pos c cs = .error e) :
    ∃ before rest, c :: cs = before ++ rest ∧ e.offset = pos + octets before := by
  induction c, cs using scan_cases with
  | blank c cs hblank =>
    rw [scan_blank hblank] at h
    cases h
  | line cs =>
    rw [scan_line] at h
    cases h
  | block cs =>
    rw [scan_block] at h
    split at h
    next => cases h
    next =>
      cases h
      exact ⟨[], _, rfl, rfl⟩
  | number c cs hbegins hnumber =>
    rw [scan_number hbegins hnumber] at h
    split at h
    next => cases h
    next n hscan =>
      cases h
      obtain ⟨before, rest, hcs, rfl, hchars⟩ := Decimal.exists_before_of_scanNumber_error hscan
      refine ⟨before, rest, hcs, ?_⟩
      rw [octets_eq_length]
      intro d hd
      refine Char.utf8Size_eq_one_iff.mpr ?_
      obtain hdigit | rfl := hchars d hd
      · exact Char.le_trans (Decimal.isAsciiDigit_iff.mp hdigit).2 (by decide : '9' ≤ '\x7f')
      · decide
  | text c cs hbegins hnumber hquote =>
    rw [scan_text hbegins hnumber hquote] at h
    rcases hscan : scanText c pos (pos + 1) 0 [] cs with e' | _ <;> rw [hscan] at h
    · cases h
      obtain hstart | ⟨before, rest, rfl, hoffset⟩ := offset_of_scanText_error hscan
      · exact ⟨[], _, rfl, hstart⟩
      · refine ⟨c :: before, rest, rfl, ?_⟩
        have hone : c.utf8Size = 1 := by
          obtain rfl | rfl := hquote <;> rfl
        rw [hoffset, octets, hone, Nat.add_assoc]
    · cases h
  | name c cs hbegins hnumber hquote hname =>
    rw [scan_name hbegins hnumber hquote hname] at h
    cases h
  | sign c cs hbegins hnumber hquote hname =>
    rw [scan_sign hbegins hnumber hquote hname] at h
    split at h
    next => cases h
    next =>
      cases h
      exact ⟨[], _, rfl, rfl⟩

end Montage.Script
