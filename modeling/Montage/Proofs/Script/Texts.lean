import Mathlib.Data.List.Basic
import Montage.Script.Lexer

/-!
# Reading a text

The lexer goes through a text from its opening quote, one character or escape after another. A text
that it reads ends with the closing quote, and what follows is not looked at. An error is at the
opening quote or where one of the characters of the text begins.
-/

namespace Montage.Script

open Montage.Text (octets)

section
variable {quote : Char} {start pos count : Nat} {taken : List Char}

theorem scanCode_append {cs : List Char} {n : Nat} (value : Nat) (rest : List Char)
    (h : cs.length = n) :
    scanCode n value (cs ++ rest) = scanCode n value cs := by
  induction cs generalizing n value with
  | nil =>
    cases h
    cases rest <;> rfl
  | cons c cs ih =>
    cases h
    rw [List.cons_append, List.length_cons, scanCode, scanCode]
    cases hexDigit? c with
    | none => rfl
    | some d => exact ih _ rfl

theorem scanText_quote (rest : List Char) :
    scanText quote start pos count taken (quote :: rest) =
      .ok (String.ofList taken.reverse, count + 1) := by
  rw [scanText.eq_def]
  exact if_pos rfl

theorem scanText_line (hquote : '\n' ≠ quote) (rest : List Char) :
    scanText quote start pos count taken ('\n' :: rest) = .error ⟨pos, .lineBreakInText⟩ := by
  rw [scanText.eq_def]
  exact (if_neg hquote).trans (if_pos rfl)

theorem scanText_plain {c : Char} (hquote : c ≠ quote) (hline : c ≠ '\n') (hescape : c ≠ '\\')
    (rest : List Char) :
    scanText quote start pos count taken (c :: rest) =
      scanText quote start (pos + c.utf8Size) (count + 1) (c :: taken) rest := by
  rw [scanText.eq_def]
  exact (if_neg hquote).trans ((if_neg hline).trans (if_neg hescape))

theorem scanText_open (hquote : '\\' ≠ quote) :
    scanText quote start pos count taken ['\\'] = .error ⟨start, .openText⟩ := by
  rw [scanText, if_neg hquote, if_neg (by decide), if_pos rfl]

theorem scanText_escape {c x : Char} (hquote : '\\' ≠ quote) (hc : c ≠ 'u')
    (hx : escaped? c = some x) (rest : List Char) :
    scanText quote start pos count taken ('\\' :: c :: rest) =
      scanText quote start (pos + 2) (count + 2) (x :: taken) rest := by
  rw [scanText, if_neg hquote, if_neg (by decide), if_pos rfl]
  simp only [if_neg hc, hx]

theorem scanText_noEscape {c : Char} (hquote : '\\' ≠ quote) (hc : c ≠ 'u')
    (hx : escaped? c = none) (rest : List Char) :
    scanText quote start pos count taken ('\\' :: c :: rest) = .error ⟨pos + 1, .escape c⟩ := by
  rw [scanText, if_neg hquote, if_neg (by decide), if_pos rfl]
  simp only [if_neg hc, hx]

theorem scanText_code {a b c d x : Char} {code : Nat} (hquote : '\\' ≠ quote)
    (hcode : scanCode 4 0 [a, b, c, d] = .ok code) (hx : codeChar? code = some x)
    (rest : List Char) :
    scanText quote start pos count taken ('\\' :: 'u' :: a :: b :: c :: d :: rest) =
      scanText quote start (pos + 6) (count + 6) (x :: taken) rest := by
  have hfour : [a, b, c, d].length = 4 := rfl
  have hcode' : scanCode 4 0 (a :: b :: c :: d :: rest) = .ok code :=
    (scanCode_append 0 rest hfour).trans hcode
  rw [scanText, if_neg hquote, if_neg (by decide), if_pos rfl]
  simp only [if_true, hcode', hx]

theorem scanText_noCode {rest : List Char} {cause : SyntaxError.Cause} (hquote : '\\' ≠ quote)
    (hcode : scanCode 4 0 rest = .error cause) :
    scanText quote start pos count taken ('\\' :: 'u' :: rest) = .error ⟨pos + 1, cause⟩ := by
  rw [scanText, if_neg hquote, if_neg (by decide), if_pos rfl]
  simp only [if_true, hcode]

theorem scanText_noChar {rest : List Char} {code : Nat} (hquote : '\\' ≠ quote)
    (hcode : scanCode 4 0 rest = .ok code) (hx : codeChar? code = none) :
    scanText quote start pos count taken ('\\' :: 'u' :: rest) = .error ⟨pos + 1, .codePoint⟩ := by
  rw [scanText, if_neg hquote, if_neg (by decide), if_pos rfl]
  simp only [if_true, hcode, hx]

theorem utf8Size_hexDigit {c : Char} {d : Nat} (h : hexDigit? c = some d) : c.utf8Size = 1 := by
  have hlast : ∀ last : Char, last ≤ '\x7f' → c ≤ last → c.utf8Size = 1 := fun last hlast hc =>
    Char.utf8Size_eq_one_iff.mpr (Char.le_trans hc hlast)
  rw [hexDigit?] at h
  split at h
  next hc => exact hlast '9' (by decide) hc.2
  next =>
    split at h
    next hc => exact hlast 'f' (by decide) hc.2
    next =>
      split at h
      next hc => exact hlast 'F' (by decide) hc.2
      next => cases h

theorem exists_digits_of_scanCode {rest : List Char} {n value code : Nat}
    (h : scanCode n value rest = .ok code) :
    ∃ digits tail, rest = digits ++ tail ∧ digits.length = n ∧ ∀ c ∈ digits, c.utf8Size = 1 := by
  induction n generalizing value rest with
  | zero => exact ⟨[], rest, rfl, rfl, fun c hc => absurd hc List.not_mem_nil⟩
  | succ n ih =>
    cases rest with
    | nil => cases h
    | cons c rest =>
      rw [scanCode] at h
      split at h
      next d hd =>
        obtain ⟨digits, tail, rfl, rfl, hone⟩ := ih h
        exact ⟨c :: digits, tail, rfl, rfl, List.forall_mem_cons.mpr ⟨utf8Size_hexDigit hd, hone⟩⟩
      next => cases h

theorem exists_four_of_scanCode {rest : List Char} {code : Nat} (h : scanCode 4 0 rest = .ok code) :
    ∃ a b c d tail, rest = a :: b :: c :: d :: tail ∧ scanCode 4 0 [a, b, c, d] = .ok code ∧
      ∀ x ∈ [a, b, c, d], x.utf8Size = 1 := by
  obtain ⟨digits, tail, rfl, hlength, hone⟩ := exists_digits_of_scanCode h
  rw [scanCode_append 0 tail hlength] at h
  obtain ⟨a, b, c, d, rfl⟩ := List.length_eq_four.mp hlength
  exact ⟨a, b, c, d, tail, rfl, h, hone⟩

theorem octets_escape {c x : Char} (h : escaped? c = some x) : octets ['\\', c] = 2 := by
  unfold escaped? at h
  split at h <;> first | rfl | cases h

theorem octets_code {a b c d : Char} (h : ∀ y ∈ [a, b, c, d], y.utf8Size = 1) :
    octets ['\\', 'u', a, b, c, d] = 6 := by
  simp only [List.forall_mem_cons] at h
  obtain ⟨ha, hb, hc, hd, -⟩ := h
  simp only [octets, ha, hb, hc, hd]
  rfl

/-- How the lexer goes through a text, one character or escape after another. -/
theorem scanText_induction (quote : Char) {motive : Nat → Nat → List Char → List Char → Prop}
    (finish : ∀ pos count taken, motive pos count taken [])
    (closing : ∀ pos count taken rest, motive pos count taken (quote :: rest))
    (line : ∀ pos count taken rest, '\n' ≠ quote → motive pos count taken ('\n' :: rest))
    (plain : ∀ pos count taken c rest, c ≠ quote → c ≠ '\n' → c ≠ '\\' →
      motive (pos + c.utf8Size) (count + 1) (c :: taken) rest → motive pos count taken (c :: rest))
    (unfinished : ∀ pos count taken, '\\' ≠ quote → motive pos count taken ['\\'])
    (escape : ∀ pos count taken c x rest, '\\' ≠ quote → c ≠ 'u' → escaped? c = some x →
      motive (pos + 2) (count + 2) (x :: taken) rest → motive pos count taken ('\\' :: c :: rest))
    (noEscape : ∀ pos count taken c rest, '\\' ≠ quote → c ≠ 'u' → escaped? c = none →
      motive pos count taken ('\\' :: c :: rest))
    (code : ∀ pos count taken a b c d x code rest, '\\' ≠ quote →
      scanCode 4 0 [a, b, c, d] = .ok code → (∀ y ∈ [a, b, c, d], y.utf8Size = 1) →
      codeChar? code = some x → motive (pos + 6) (count + 6) (x :: taken) rest →
      motive pos count taken ('\\' :: 'u' :: a :: b :: c :: d :: rest))
    (noCode : ∀ pos count taken cause rest, '\\' ≠ quote → scanCode 4 0 rest = .error cause →
      motive pos count taken ('\\' :: 'u' :: rest))
    (noChar : ∀ pos count taken code rest, '\\' ≠ quote → scanCode 4 0 rest = .ok code →
      codeChar? code = none → motive pos count taken ('\\' :: 'u' :: rest))
    (pos count : Nat) (taken cs : List Char) : motive pos count taken cs := by
  induction pos, count, taken, cs using scanText.induct quote with
  | case1 pos count taken => exact finish pos count taken
  | case2 pos count taken rest => exact closing pos count taken rest
  | case3 pos count taken rest hquote => exact line pos count taken rest hquote
  | case4 pos count taken hquote => exact unfinished pos count taken hquote
  | case5 pos count taken rest cause hcode hquote => exact noCode _ _ _ _ _ hquote hcode
  | case6 pos count taken n x a b c d rest hx hquote _ hcode ih =>
    obtain ⟨_, _, _, _, _, heq, hfour, hone⟩ := exists_four_of_scanCode hcode
    cases heq
    exact code _ _ _ _ _ _ _ _ _ _ hquote hfour hone hx ih
  | case7 pos count taken rest n hcode hshort hquote =>
    cases hx : codeChar? n with
    | none => exact noChar _ _ _ _ _ hquote hcode hx
    | some x =>
      obtain ⟨a, b, c, d, tail, rfl, -⟩ := exists_four_of_scanCode hcode
      exact absurd rfl (hshort x a b c d tail hx)
  | case8 pos count taken c rest hc x hx hquote _ ih => exact escape _ _ _ _ _ _ hquote hc hx ih
  | case9 pos count taken c rest hc hx hquote => exact noEscape _ _ _ _ _ hquote hc hx
  | case10 pos count taken c rest hquote hline hescape ih =>
    exact plain _ _ _ _ _ hquote hline hescape ih

theorem scanText_alone {cs : List Char} {s : String} {n : Nat}
    (h : scanText quote start pos count taken cs = .ok (s, n)) :
    ∃ own rest, cs = own ++ rest ∧ count + own.length = n ∧
      ∀ start pos, scanText quote start pos count taken own = .ok (s, n) := by
  induction pos, count, taken, cs using scanText_induction quote with
  | finish => cases h
  | closing pos count taken rest =>
    rw [scanText_quote] at h
    obtain ⟨rfl, rfl⟩ := Prod.mk.inj (Except.ok.inj h)
    exact ⟨[quote], rest, rfl, rfl, fun start pos => scanText_quote []⟩
  | line pos count taken rest hquote =>
    rw [scanText_line hquote] at h
    cases h
  | plain pos count taken c cs hquote hline hescape ih =>
    rw [scanText_plain hquote hline hescape] at h
    obtain ⟨own, rest, rfl, rfl, hown⟩ := ih h
    refine ⟨c :: own, rest, rfl, ?_, fun start pos => ?_⟩
    · rw [List.length_cons]
      omega
    · rw [scanText_plain hquote hline hescape, hown]
  | unfinished pos count taken hquote =>
    rw [scanText_open hquote] at h
    cases h
  | escape pos count taken c x cs hquote hc hx ih =>
    rw [scanText_escape hquote hc hx] at h
    obtain ⟨own, rest, rfl, rfl, hown⟩ := ih h
    refine ⟨'\\' :: c :: own, rest, rfl, ?_, fun start pos => ?_⟩
    · simp only [List.length_cons]
      omega
    · rw [scanText_escape hquote hc hx, hown]
  | noEscape pos count taken c rest hquote hc hx =>
    rw [scanText_noEscape hquote hc hx] at h
    cases h
  | code pos count taken a b c d x code cs hquote hcode _ hx ih =>
    rw [scanText_code hquote hcode hx] at h
    obtain ⟨own, rest, rfl, rfl, hown⟩ := ih h
    refine ⟨'\\' :: 'u' :: a :: b :: c :: d :: own, rest, rfl, ?_, fun start pos => ?_⟩
    · simp only [List.length_cons]
      omega
    · rw [scanText_code hquote hcode hx, hown]
  | noCode pos count taken cause rest hquote hcode =>
    rw [scanText_noCode hquote hcode] at h
    cases h
  | noChar pos count taken code rest hquote hcode hx =>
    rw [scanText_noChar hquote hcode hx] at h
    cases h

theorem offset_of_scanText_error {cs : List Char} {e : SyntaxError}
    (h : scanText quote start pos count taken cs = .error e) :
    e.offset = start ∨ ∃ before rest, cs = before ++ rest ∧ e.offset = pos + octets before := by
  -- one character and what is read behind it, or an escape and what is read behind it
  have hbehind : ∀ (front : List Char) {cs : List Char} {pos : Nat},
      (e.offset = start ∨ ∃ before rest, cs = before ++ rest ∧
        e.offset = pos + octets front + octets before) →
      e.offset = start ∨ ∃ before rest, front ++ cs = before ++ rest ∧
        e.offset = pos + octets before := by
    rintro front cs pos (hstart | ⟨before, rest, rfl, hoffset⟩)
    · exact .inl hstart
    · refine .inr ⟨front ++ before, rest, (List.append_assoc _ _ _).symm, ?_⟩
      rw [Text.octets_append, ← Nat.add_assoc, hoffset]
  induction pos, count, taken, cs using scanText_induction quote with
  | finish =>
    cases h
    exact .inl rfl
  | closing pos count taken rest =>
    rw [scanText_quote] at h
    cases h
  | line pos count taken rest hquote =>
    rw [scanText_line hquote] at h
    cases h
    exact .inr ⟨[], _, rfl, rfl⟩
  | plain pos count taken c cs hquote hline hescape ih =>
    rw [scanText_plain hquote hline hescape] at h
    exact hbehind [c] (ih h)
  | unfinished pos count taken hquote =>
    rw [scanText_open hquote] at h
    cases h
    exact .inl rfl
  | escape pos count taken c x cs hquote hc hx ih =>
    rw [scanText_escape hquote hc hx] at h
    exact hbehind ['\\', c] (octets_escape hx ▸ ih h)
  | noEscape pos count taken c rest hquote hc hx =>
    rw [scanText_noEscape hquote hc hx] at h
    cases h
    exact .inr ⟨['\\'], _, rfl, rfl⟩
  | code pos count taken a b c d x code cs hquote hcode hone hx ih =>
    rw [scanText_code hquote hcode hx] at h
    exact hbehind ['\\', 'u', a, b, c, d] (octets_code hone ▸ ih h)
  | noCode pos count taken cause rest hquote hcode =>
    rw [scanText_noCode hquote hcode] at h
    cases h
    exact .inr ⟨['\\'], _, rfl, rfl⟩
  | noChar pos count taken code rest hquote hcode hx =>
    rw [scanText_noChar hquote hcode hx] at h
    cases h
    exact .inr ⟨['\\'], _, rfl, rfl⟩

end

end Montage.Script
