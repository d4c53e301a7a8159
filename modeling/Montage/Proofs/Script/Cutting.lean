import Montage.Proofs.Decimal.Text
import Montage.Proofs.Except
import Montage.Proofs.Script.Grammar.Basic
import Montage.Script.Lexer

/-!
# Cutting a source into tokens

The lexer goes through a source from its front, one piece after another. So the tokens of two runs
of characters next to each other are those of the one and then those of the other, where the first
is looked at with the second behind it: a word goes on as far as it can, and is cut as a whole only
where no name goes on.
-/

namespace Montage.Script

/-! ## Pieces -/

section
variable {pos more : Nat} {c : Char} {rest : List Char}

theorem lexFrom_token {kind : Token.Kind} (h : scan pos c rest = .ok ⟨some kind, more⟩) :
    ∃ t stop, t.kind = kind ∧ lexFrom pos (c :: rest) =
      (lexFrom stop (rest.drop more)).map (t :: ·) := by
  let stop := pos + c.utf8Size + Text.octets (rest.take more)
  refine ⟨⟨kind, pos, stop⟩, stop, rfl, ?_⟩
  rw [lexFrom, h, ok_bind]
  dsimp only
  cases lexFrom _ (rest.drop more) <;> rfl

theorem lexFrom_gap (h : scan pos c rest = .ok ⟨none, more⟩) :
    ∃ stop, lexFrom pos (c :: rest) = lexFrom stop (rest.drop more) := by
  refine ⟨pos + c.utf8Size + Text.octets (rest.take more), ?_⟩
  rw [lexFrom, h, ok_bind]
  dsimp only
  cases lexFrom _ (rest.drop more) <;> rfl

theorem lexFrom_error {e : SyntaxError} (h : scan pos c rest = .error e) :
    lexFrom pos (c :: rest) = .error e := by
  rw [lexFrom, h]
  rfl

end

/-! ## Runs of characters -/

/-- In front of `rest` the characters are cut into tokens of these kinds. -/
def CutsBefore (rest cs : List Char) (ks : Kinds) : Prop :=
  ∀ pos, ∃ ts stop, ts.map Token.kind = ks ∧
    lexFrom pos (cs ++ rest) = (lexFrom stop rest).map (ts ++ ·)

section
variable {c : Char} {cs cs' rest : List Char} {ks ks' : Kinds}

theorem cutsBefore_nil : CutsBefore rest [] [] := by
  intro pos
  refine ⟨[], pos, rfl, ?_⟩
  rw [List.nil_append]
  cases lexFrom pos rest <;> rfl

theorem cutsBefore_token {kind : Token.Kind}
    (h : ∀ pos, scan pos c (cs ++ rest) = .ok ⟨some kind, cs.length⟩) :
    CutsBefore rest (c :: cs) [kind] := by
  intro pos
  obtain ⟨t, stop, hkind, hlex⟩ := lexFrom_token (h pos)
  refine ⟨[t], stop, by rw [List.map_singleton, hkind], ?_⟩
  rw [List.cons_append, hlex, List.drop_left]
  rfl

theorem cutsBefore_sign {s : Sign} (h : ∀ pos rest, scan pos c rest = .ok ⟨some (.sign s), 0⟩) :
    CutsBefore rest [c] [.sign s] := cutsBefore_token fun pos => h pos _

theorem cutsBefore_gap (h : ∀ pos, scan pos c (cs ++ rest) = .ok ⟨none, cs.length⟩) :
    CutsBefore rest (c :: cs) [] := by
  intro pos
  obtain ⟨stop, hlex⟩ := lexFrom_gap (h pos)
  refine ⟨[], stop, rfl, ?_⟩
  rw [List.cons_append, hlex, List.drop_left]
  cases lexFrom stop rest <;> rfl

theorem CutsBefore.append (h : CutsBefore (cs' ++ rest) cs ks) (h' : CutsBefore rest cs' ks') :
    CutsBefore rest (cs ++ cs') (ks ++ ks') := by
  intro pos
  obtain ⟨ts, mid, hkinds, hlex⟩ := h pos
  obtain ⟨ts', stop, hkinds', hlex'⟩ := h' mid
  refine ⟨ts ++ ts', stop, by rw [List.map_append, hkinds, hkinds'], ?_⟩
  rw [List.append_assoc, hlex, hlex']
  cases lexFrom stop rest <;> simp [Except.map]

theorem CutsBefore.fails (h : CutsBefore (cs' ++ rest) cs ks)
    (hfail : ∀ pos, ∃ e, lexFrom pos (cs' ++ rest) = .error e) (pos : Nat) :
    ∃ e, lexFrom pos (cs ++ cs' ++ rest) = .error e := by
  obtain ⟨ts, stop, -, hlex⟩ := h pos
  obtain ⟨e, he⟩ := hfail stop
  refine ⟨e, ?_⟩
  rw [List.append_assoc, hlex, he]
  rfl

end

/-! ## Words -/

/-- The text of a name: it begins with a letter, `_` or `$` and goes on with these or digits. -/
def IsWord (w : String) : Prop :=
  ∃ c cs, w.toList = c :: cs ∧ startsName c = true ∧ ∀ d ∈ cs, continuesName d = true

theorem isWord_asName (r : Word) : IsWord r.asName := by
  cases r with
  | trueWord => exact ⟨'t', ['r', 'u', 'e'], rfl, rfl, by simp [continuesName, startsName]⟩
  | falseWord => exact ⟨'f', ['a', 'l', 's', 'e'], rfl, rfl, by simp [continuesName, startsName]⟩
  | nullWord => exact ⟨'n', ['u', 'l', 'l'], rfl, rfl, by simp [continuesName, startsName]⟩
  | letWord => exact ⟨'l', ['e', 't'], rfl, rfl, by simp [continuesName, startsName]⟩
  | returnWord =>
    exact ⟨'r', ['e', 't', 'u', 'r', 'n'], rfl, rfl, by simp [continuesName, startsName]⟩

theorem lettersKind_asName (r : Word) : lettersKind r.asName = .word r := by
  cases r <;> rfl

section
variable {c d : Char}

theorem ne_of_startsName (hc : startsName c = true) (hd : startsName d = false) : c ≠ d := by
  rintro rfl
  rw [hc] at hd
  cases hd

theorem isGap_of_startsName (hc : startsName c = true) : isGap c = false := by
  have hne : ∀ d : Char, startsName d = false → c ≠ d := fun _ => ne_of_startsName hc
  simp [isGap, hne ' ' (by decide), hne '\t' (by decide), hne '\n' (by decide),
    hne '\x0c' (by decide), hne '\r' (by decide)]

theorem isAsciiDigit_of_startsName (hc : startsName c = true) : Text.isAsciiDigit c = false := by
  have hletter : 'A' ≤ c ∨ c = '$' := by
    simp only [startsName, Char.isAlpha, Char.isUpper, Char.isLower, Bool.or_eq_true,
      Bool.and_eq_true, decide_eq_true_eq, beq_iff_eq] at hc
    obtain ((⟨hupper, -⟩ | ⟨hlower, -⟩) | rfl) | rfl := hc
    · exact .inl hupper
    · exact .inl (Char.le_trans (by decide) hlower)
    · exact .inl (by decide)
    · exact .inr rfl
  rw [Bool.eq_false_iff]
  intro hdigit
  obtain ⟨hlow, hhigh⟩ := Decimal.isAsciiDigit_iff.mp hdigit
  obtain hletter | rfl := hletter
  · exact absurd (Char.le_trans hletter hhigh) (by decide)
  · exact absurd hlow (by decide)

end

/-- No name goes on here and no number begins. -/
def Apart (rest : List Char) : Prop :=
  ∀ c tail, rest = c :: tail → continuesName c = false ∧ startsNumber c tail = false

theorem apart_cons {c : Char} {tail : List Char} (hname : continuesName c = false)
    (hnumber : startsNumber c tail = false) : Apart (c :: tail) := by
  rintro _ _ ⟨⟩
  exact ⟨hname, hnumber⟩

theorem cutsBefore_word {w : String} {rest : List Char} (hw : IsWord w) (hrest : Apart rest) :
    CutsBefore rest w.toList [lettersKind w] := by
  obtain ⟨c, cs, hchars, hc, hcs⟩ := hw
  have htail : (cs ++ rest).takeWhile continuesName = cs := by
    rw [List.takeWhile_append_of_pos hcs]
    cases rest with
    | nil => rw [List.takeWhile_nil, List.append_nil]
    | cons d rest => simp [(hrest d rest rfl).1]
  have hword : lettersKind w = lettersKind (String.ofList (c :: cs)) := by
    rw [← hchars, String.ofList_toList]
  have hdot : c ≠ '.' := ne_of_startsName hc (by decide)
  have hslash : c ≠ '/' := ne_of_startsName hc (by decide)
  have hquote : c ≠ '"' := ne_of_startsName hc (by decide)
  have hquote' : c ≠ '\'' := ne_of_startsName hc (by decide)
  have hnumber : startsNumber c (cs ++ rest) = false := by
    simp [startsNumber, isAsciiDigit_of_startsName hc, hdot]
  rw [hchars, hword]
  refine cutsBefore_token fun pos => ?_
  simp [scan, isGap_of_startsName hc, hnumber, hslash, hquote, hquote', hc, htail]

end Montage.Script
