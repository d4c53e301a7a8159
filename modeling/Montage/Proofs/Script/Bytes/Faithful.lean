import Montage.Proofs.Script.Bytes.Signs
import Montage.Proofs.Script.Bytes.Tokens

/-!
# Lexing is faithful

The lexer splits every source it accepts into its tokens and the blanks and comments between them.
Of a source it refuses, it says at which character. And it may be carried out by byte index: such a
walk reads no byte that the source does not have, cuts no character, and ends behind the last byte
with the same tokens, or with the same error.
-/

namespace Montage.Script

open Montage.Text (isAsciiDigit octets octets_pos)

namespace ByteWalk

section
variable {source : String} {i : Nat} {c : Char} {cs : List Char}

/-! ## Pieces -/

theorem lead_eq_iff {d : Char} (hd : d ≤ '\x7f') : lead c = d ↔ c = d := by
  rw [← beq_iff_eq, (bytewise_char hd).lead c, beq_iff_eq]

theorem beginsNumber_eq (h : At source i (c :: cs)) :
    beginsNumber source i (lead c) = .ok (startsNumber c cs) := by
  rw [beginsNumber, bytewise_isAsciiDigit.lead c, startsNumber, getD_map_head?]
  by_cases hdot : c = '.'
  · subst hdot
    rw [lead_ascii (by decide), byteIs_eq (h.next rfl) bytewise_isAsciiDigit]
    rfl
  · have hlead : lead c ≠ '.' := fun hc => hdot ((lead_eq_iff (by decide)).mp hc)
    rw [if_neg hlead, beq_false_of_ne hdot, Bool.false_and, Bool.or_false]
    cases isAsciiDigit c <;> rfl

theorem bytewise_isGap : Bytewise isGap :=
  ((((bytewise_char (by decide)).or (bytewise_char (by decide))).or (bytewise_char (by decide))).or
    (bytewise_char (by decide))).or (bytewise_char (by decide))

theorem le_of_startsNumber (h : startsNumber c cs = true) : c ≤ '\x7f' := by
  rw [startsNumber, Bool.or_eq_true, Bool.and_eq_true, beq_iff_eq] at h
  obtain hdigit | ⟨rfl, -⟩ := h
  · exact le_of_isAsciiDigit hdigit
  · decide

/-- What the walk finds where the lexer finds a piece or an error. -/
def outcome (i : Nat) (c : Char) (cs : List Char) :
    Except SyntaxError Piece → Walk (Option Token.Kind × Nat)
  | .ok piece => .ok (piece.kind, i + octets (c :: cs.take piece.more))
  | .error e => .error (.refused e)

theorem step_gap {stop : Nat} (h : At source i (c :: cs))
    (hgap : gap? source i (lead c) = .ok (some stop)) : step source i = .ok (none, stop) := by
  rw [step, byteAt_eq h, ok_bind, hgap]
  rfl

theorem step_token (h : At source i (c :: cs)) (hbegins : BeginsToken c cs) :
    step source i = (token source i (lead c)).map fun (kind, stop) => (some kind, stop) := by
  have hgap : gap? source i (lead c) = .ok none := by
    rw [gap?, bytewise_isGap.lead, if_neg hbegins.blank]
    split
    next hslash =>
      obtain rfl := (lead_eq_iff (by decide)).mp hslash
      exact comment?_none h hbegins
    next => rfl
  rw [step, byteAt_eq h, ok_bind, hgap, ok_bind]
  cases token source i (lead c) <;> rfl

/-- At each byte where a character begins the walk finds what the lexer finds there. -/
theorem step_eq (h : At source i (c :: cs)) : step source i = outcome i c cs (scan i c cs) := by
  induction c, cs using scan_cases with
  | blank c cs hblank =>
    have hone : c.utf8Size = 1 := by
      simp only [isGap, Bool.or_eq_true, beq_iff_eq] at hblank
      obtain (((rfl | rfl) | rfl) | rfl) | rfl := hblank <;> rfl
    have hgap : gap? source i (lead c) = .ok (some (i + 1)) := by
      rw [gap?, bytewise_isGap.lead, if_pos hblank]
      rfl
    rw [step_gap h hgap, scan_blank hblank, outcome, List.take_zero, octets, hone]
    rfl
  | line cs =>
    have hgap := comment?_line h
    rw [step_gap h hgap, scan_line, outcome, List.length_cons, List.take_succ_cons,
      take_length_takeWhile]
  | block cs =>
    have hgap : gap? source i (lead '/') = _ := comment?_block h
    rw [scan_block]
    cases hend : commentEnd? cs with
    | some n =>
      rw [hend] at hgap
      exact step_gap h hgap
    | none =>
      rw [hend] at hgap
      rw [step, byteAt_eq h, ok_bind, hgap]
      rfl
  | number c cs hbegins hnumber =>
    rw [step_token h hbegins, token, beginsNumber_eq h, ok_bind, if_pos hnumber,
      lead_ascii (le_of_startsNumber hnumber), number_eq h hnumber, scan_number hbegins hnumber]
    rcases hscan : scanNumber (c :: cs) with n | ⟨x, n⟩
    · rfl
    · obtain ⟨own, rest, -, rfl, -⟩ := Decimal.scanNumber_alone hnumber hscan
      rfl
  | text c cs hbegins hnumber hquote =>
    have hone : c.utf8Size = 1 := by obtain rfl | rfl := hquote <;> rfl
    have hquote' : lead c = '"' ∨ lead c = '\'' := by
      rwa [lead_eq_iff (by decide), lead_eq_iff (by decide)]
    rw [step_token h hbegins, token, beginsNumber_eq h, ok_bind, if_neg hnumber, if_pos hquote',
      quoted_eq h hone, scan_text hbegins hnumber hquote]
    cases scanText c i (i + 1) 0 [] cs <;> rfl
  | name c cs hbegins hnumber hquote hname =>
    have hone : c.utf8Size = 1 := Char.utf8Size_eq_one_iff.mpr (le_of_startsName hname)
    have hquote' : ¬ (lead c = '"' ∨ lead c = '\'') := by
      rwa [lead_eq_iff (by decide), lead_eq_iff (by decide)]
    rw [step_token h hbegins, token, beginsNumber_eq h, ok_bind, if_neg hnumber, if_neg hquote',
      bytewise_startsName.lead, if_pos hname, name_eq h hone,
      scan_name hbegins hnumber hquote hname, outcome, take_length_takeWhile]
    rfl
  | sign c cs hbegins hnumber hquote hname =>
    have hquote' : ¬ (lead c = '"' ∨ lead c = '\'') := by
      rwa [lead_eq_iff (by decide), lead_eq_iff (by decide)]
    rw [step_token h hbegins, token, beginsNumber_eq h, ok_bind, if_neg hnumber, if_neg hquote',
      bytewise_startsName.lead, if_neg hname, sign_eq h, scan_sign hbegins hnumber hquote hname]
    rcases scanSign? c cs with _ | ⟨s, n⟩ <;> rfl

theorem walkFrom_eq (h : At source i cs) :
    walkFrom source i =
      match lexFrom i cs with
      | .ok tokens => .ok (tokens, source.utf8ByteSize)
      | .error e => .error (.refused e) := by
  induction i, cs using lexFrom_induction with
  | finish i =>
    have hsize := h.size
    rw [octets, Nat.add_zero] at hsize
    rw [walkFrom, if_neg (by omega), lexFrom_nil, hsize]
    rfl
  | failed i c cs e hscan =>
    rw [walkFrom, if_pos h.lt, step_eq h, hscan, lexFrom_error hscan]
    rfl
  | piece i c own rest kind hscan _ ih =>
    have hstep : step source i = .ok (kind, i + octets (c :: own)) := by
      rw [step_eq h, hscan, outcome, List.take_left]
    have hless : i < i + octets (c :: own) :=
      Nat.lt_add_of_pos_right (octets_pos (List.cons_ne_nil c own))
    rw [walkFrom, if_pos h.lt, hstep, ok_bind, lexFrom_piece own rest hscan]
    dsimp only
    rw [if_pos hless, ih (At.behind (c :: own) h)]
    cases lexFrom (i + octets (c :: own)) rest <;> rfl

end

end ByteWalk

/-- The tokens of a source split it, and an error is at the beginning of a character or at the end.
A walk over the bytes has no fault: it ends behind the last byte with these tokens, or with this
error. -/
theorem lex_faithful (source : String) :
    match lex source with
    | .ok tokens => Splits source tokens ∧ walk source = .ok (tokens, source.utf8ByteSize)
    | .error e => String.Pos.Raw.IsValid source ⟨e.offset⟩ ∧
      walk source = .error (.refused e) := by
  have hat : ByteWalk.At source 0 source.toList := ⟨[], rfl, rfl⟩
  have hwalk : walk source = _ := ByteWalk.walkFrom_eq hat
  split
  next tokens hlex =>
    refine ⟨splits_of_lex hlex, ?_⟩
    rw [hwalk, show lexFrom 0 source.toList = .ok tokens from hlex]
  next e hlex =>
    refine ⟨isValid_of_lex_error hlex, ?_⟩
    rw [hwalk, show lexFrom 0 source.toList = .error e from hlex]

theorem lex_faithful_comment :
    Splits "a?.b /* é */ + 'ü'" [⟨.name "a", 0, 1⟩, ⟨.sign .optionalDot, 1, 3⟩, ⟨.name "b", 3, 4⟩,
        ⟨.sign .plus, 14, 15⟩, ⟨.text "ü", 16, 20⟩] ∧
      ∃ tokens, walk "a?.b /* é */ + 'ü'" = .ok (tokens, 20) := by
  have hlex : lex "a?.b /* é */ + 'ü'" = .ok [⟨.name "a", 0, 1⟩, ⟨.sign .optionalDot, 1, 3⟩,
      ⟨.name "b", 3, 4⟩, ⟨.sign .plus, 14, 15⟩, ⟨.text "ü", 16, 20⟩] := by cbv
  have h := lex_faithful "a?.b /* é */ + 'ü'"
  rw [hlex] at h
  exact ⟨h.1, _, h.2⟩

end Montage.Script
