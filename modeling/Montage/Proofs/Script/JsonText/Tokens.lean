import Montage.Proofs.Script.Cutting
import Montage.Proofs.Script.Numbers
import Montage.Proofs.Script.Texts

/-!
# The tokens of a JSON text

JSON text is made of tokens of the language: brackets, commas, colons, texts, the words `true`,
`false` and `null`, and numbers, a negative one behind a minus. Only two escapes inside a text are
none of the language, `\b` and `\f`, so the text of a value is cut into tokens exactly if no text
and no key in it has a backspace or a form feed.
-/

namespace Montage

/-! ## Characters -/

def quotedChars (s : String) : List Char := '"' :: (s.toList.flatMap Json.escapedChar ++ ['"'])

mutual

/-- The characters of the text of a value. -/
def Json.chars : Json → List Char
  | .array items => '[' :: (itemChars [] items ++ [']'])
  | .object fields => '\x7b' :: (fieldChars [] fields ++ ['\x7d'])
  | .null => ['n', 'u', 'l', 'l']
  | .bool true => ['t', 'r', 'u', 'e']
  | .bool false => ['f', 'a', 'l', 's', 'e']
  | .number n => n.text.toList
  | .string s => quotedChars s

/-- The characters of elements; `gap` stands before the first one, a comma before the others. -/
def itemChars (gap : List Char) : List Json → List Char
  | [] => []
  | v :: rest => gap ++ (v.chars ++ itemChars [','] rest)

def fieldChars (gap : List Char) : Fields → List Char
  | [] => []
  | (k, v) :: rest =>
    gap ++ (quotedChars k ++ ':' :: (v.chars ++ fieldChars [','] rest))

end

namespace Json

mutual

theorem toList_writeCompact : ∀ (v : Json) (out : String),
    (writeCompact out v).toList = out.toList ++ v.chars
  | .array items, out => by
    rw [writeCompact, String.toList_append, toList_compactItems, String.toList_append, chars]
    simp
  | .object fields, out => by
    rw [writeCompact, String.toList_append, toList_compactFields, String.toList_append, chars]
    simp
  | .null, out | .bool true, out | .bool false, out | .number n, out => by
    simp only [writeCompact, String.toList_append]
    rfl
  | .string s, out => by
    simp only [writeCompact, String.toList_append, scalarText, quotedText, String.toList_ofList]
    rfl

theorem toList_compactItems : ∀ (items : List Json) (out gap : String),
    (compactItems out gap items).toList = out.toList ++ itemChars gap.toList items
  | [], out, gap => by rw [compactItems, itemChars, List.append_nil]
  | v :: rest, out, gap => by
    rw [compactItems, toList_compactItems, toList_writeCompact, String.toList_append, itemChars]
    simp

theorem toList_compactFields : ∀ (fields : Fields) (out gap : String),
    (compactFields out gap fields).toList = out.toList ++ fieldChars gap.toList fields
  | [], out, gap => by rw [compactFields, fieldChars, List.append_nil]
  | (k, v) :: rest, out, gap => by
    rw [compactFields, toList_compactFields, toList_writeCompact]
    simp [fieldChars, quotedText, quotedChars]

end

theorem toList_compact (v : Json) : v.compact.toList = v.chars := by
  rw [compact, toList_writeCompact]
  rfl

end Json

/-! ## Tokens -/

namespace Script

mutual

/-- The tokens of the text of a value. -/
def tokens : Json → Kinds
  | .array items => .sign .openBracket :: (itemTokens [] items ++ [.sign .closeBracket])
  | .object fields => .sign .openBrace :: (fieldTokens [] fields ++ [.sign .closeBrace])
  | .null => [.word .nullWord]
  | .bool true => [.word .trueWord]
  | .bool false => [.word .falseWord]
  | .number n =>
    if n.isMinus then [.sign .minus, .number n.magnitude] else [.number n.magnitude]
  | .string s => [.text s]

def itemTokens (gap : Kinds) : List Json → Kinds
  | [] => []
  | v :: rest => gap ++ (tokens v ++ itemTokens [.sign .comma] rest)

def fieldTokens (gap : Kinds) : Fields → Kinds
  | [] => []
  | (k, v) :: rest =>
    gap ++ (.text k :: .sign .colon :: (tokens v ++ fieldTokens [.sign .comma] rest))

end

/-- The text has no character whose escape in JSON is none of the language. -/
def ReadableText (s : String) : Prop := '\x08' ∉ s.toList ∧ '\x0c' ∉ s.toList

mutual

/-- No text and no key in the value has a backspace or a form feed. -/
def Readable : Json → Prop
  | .null | .bool _ | .number _ => True
  | .string s => ReadableText s
  | .array items => ItemsReadable items
  | .object fields => FieldsReadable fields

def ItemsReadable : List Json → Prop
  | [] => True
  | v :: rest => Readable v ∧ ItemsReadable rest

def FieldsReadable : Fields → Prop
  | [] => True
  | (k, v) :: rest => ReadableText k ∧ Readable v ∧ FieldsReadable rest

end

/-! ## Cutting -/

/-- Neither a name nor a number goes on here. -/
def Ends (cs : List Char) : Prop := ∀ c ∈ cs.head?, continuesName c = false ∧ c ≠ '.'

/-- In front of where they end, the characters are cut into tokens of these kinds if the condition
holds; if it does not, the lexer fails. -/
def LexesAs (P : Prop) (cs : List Char) (ks : Kinds) : Prop :=
  ∀ pos rest, Ends rest →
    (P → ∃ ts stop, ts.map Token.kind = ks ∧
      lexFrom pos (cs ++ rest) = (lexFrom stop rest).map (ts ++ ·)) ∧
    (¬ P → ∃ e, lexFrom pos (cs ++ rest) = .error e)

section
variable {P Q : Prop} {c : Char} {cs cs' : List Char} {ks ks' : Kinds}

theorem lexesAs_nil : LexesAs True [] [] :=
  fun pos _ _ => ⟨fun _ => cutsBefore_nil pos, fun h => absurd trivial h⟩

theorem lexesAs_token {kind : Token.Kind}
    (hread : P → ∀ pos rest, Ends rest → scan pos c (cs ++ rest) = .ok ⟨some kind, cs.length⟩)
    (hfail : ¬ P → ∀ pos rest, ∃ e, scan pos c (cs ++ rest) = .error e) :
    LexesAs P (c :: cs) [kind] := by
  intro pos rest hrest
  refine ⟨fun hP => cutsBefore_token (fun pos => hread hP pos rest hrest) pos, fun hP => ?_⟩
  obtain ⟨e, he⟩ := hfail hP pos rest
  exact ⟨e, lexFrom_error he⟩

theorem LexesAs.behind (h : LexesAs P cs' ks')
    (hfront : ∀ rest, CutsBefore (cs' ++ rest) cs ks) : LexesAs P (cs ++ cs') (ks ++ ks') := by
  intro pos rest hrest
  refine ⟨fun hP => (hfront rest).append (fun pos => (h pos rest hrest).1 hP) pos, fun hP => ?_⟩
  exact (hfront rest).fails (fun pos => (h pos rest hrest).2 hP) pos

theorem LexesAs.append (h : LexesAs P cs ks) (h' : LexesAs Q cs' ks')
    (hends : ∀ rest, Ends rest → Ends (cs' ++ rest)) :
    LexesAs (P ∧ Q) (cs ++ cs') (ks ++ ks') := by
  intro pos rest hrest
  have hfront (hP : P) : CutsBefore (cs' ++ rest) cs ks :=
    fun pos => (h pos _ (hends rest hrest)).1 hP
  constructor
  · rintro ⟨hP, hQ⟩
    exact (hfront hP).append (fun pos => (h' pos rest hrest).1 hQ) pos
  · intro hnot
    by_cases hP : P
    · exact (hfront hP).fails (fun pos => (h' pos rest hrest).2 fun hQ => hnot ⟨hP, hQ⟩) pos
    · rw [List.append_assoc]
      exact (h pos _ (hends rest hrest)).2 hP

theorem LexesAs.cons {s : Sign} (h : LexesAs P cs ks)
    (hscan : ∀ pos rest, scan pos c rest = .ok ⟨some (.sign s), 0⟩) :
    LexesAs P (c :: cs) (.sign s :: ks) := by
  have hsign : ∀ rest, CutsBefore (cs ++ rest) [c] [.sign s] := fun _ => cutsBefore_sign hscan
  exact h.behind hsign

theorem LexesAs.gap (h : LexesAs P cs ks) (hscan : ∀ pos rest, scan pos c rest = .ok ⟨none, 0⟩) :
    LexesAs P (c :: cs) ks := by
  have hgap : ∀ rest, CutsBefore (cs ++ rest) [c] [] :=
    fun rest => cutsBefore_gap fun pos => hscan pos (cs ++ rest)
  exact h.behind hgap

theorem LexesAs.of_iff (h : LexesAs P cs ks) (hPQ : P ↔ Q) : LexesAs Q cs ks :=
  (propext hPQ) ▸ h

end

/-! ## Texts -/

theorem hexDigit?_digitChar : ∀ n < 16, hexDigit? (Nat.digitChar n) = some n := by decide

theorem codeChar?_toNat (c : Char) : codeChar? c.toNat = some c := by
  have h : c.toNat.isValidChar := c.valid
  rw [codeChar?, dif_pos h]
  exact congrArg some (Char.ext (UInt32.toNat_inj.mp rfl))

section
variable {start pos count : Nat} {taken rest : List Char}

theorem scanText_char {c : Char} (hb : c ≠ '\x08') (hf : c ≠ '\x0c') :
    ∃ pos', scanText '"' start pos count taken (Json.escapedChar c ++ rest) =
      scanText '"' start pos' (count + (Json.escapedChar c).length) (c :: taken) rest := by
  unfold Json.escapedChar
  split
  case h_3 => exact absurd rfl hb
  case h_6 => exact absurd rfl hf
  case h_8 hquote hslash _ _ hline _ _ =>
    split
    next hcontrol =>
      have hhigh := hexDigit?_digitChar (c.toNat / 16) (by omega)
      have hlow := hexDigit?_digitChar (c.toNat % 16) (by omega)
      refine ⟨pos + 6, scanText_code (by decide) ?_ (codeChar?_toNat c) rest⟩
      simp only [scanCode, show hexDigit? '0' = some 0 by decide, hhigh, hlow]
      congr 1
      omega
    next => exact ⟨_, scanText_plain hquote hline hslash rest⟩
  all_goals exact ⟨_, scanText_escape (by decide) (by decide) rfl rest⟩

/-- A text whose escapes are all known is read up to its quote; any other is refused. -/
theorem scanText_escapes (s : List Char) :
    ('\x08' ∉ s ∧ '\x0c' ∉ s →
      scanText '"' start pos count taken (s.flatMap Json.escapedChar ++ '"' :: rest) =
        .ok (String.ofList (taken.reverse ++ s),
          count + (s.flatMap Json.escapedChar).length + 1)) ∧
    (¬ ('\x08' ∉ s ∧ '\x0c' ∉ s) →
      ∃ e, scanText '"' start pos count taken (s.flatMap Json.escapedChar ++ '"' :: rest) =
        .error e) := by
  induction s generalizing pos count taken with
  | nil => exact ⟨fun _ => by simpa using scanText_quote rest, fun h => absurd (by simp) h⟩
  | cons c s ih =>
    rw [List.flatMap_cons, List.append_assoc]
    by_cases hc : c = '\x08' ∨ c = '\x0c'
    · refine ⟨fun h => ?_, fun _ => ?_⟩
      · obtain rfl | rfl := hc <;> simp at h
      · obtain rfl | rfl := hc <;> exact ⟨_, scanText_noEscape (by decide) (by decide) rfl _⟩
    · obtain ⟨hb, hf⟩ := not_or.mp hc
      obtain ⟨pos', hchar⟩ := scanText_char hb hf
      obtain ⟨hread, hfail⟩ := @ih pos' (count + (Json.escapedChar c).length) (c :: taken)
      rw [hchar]
      constructor
      · rintro ⟨hb', hf'⟩
        rw [hread ⟨fun h => hb' (.tail _ h), fun h => hf' (.tail _ h)⟩]
        simp [Nat.add_assoc]
      · intro h
        refine hfail fun ⟨hb', hf'⟩ => h ⟨?_, ?_⟩
        · simp [Ne.symm hb, hb']
        · simp [Ne.symm hf, hf']

end

theorem lexesAs_text (s : String) : LexesAs (ReadableText s) (quotedChars s) [.text s] := by
  have hscan (pos : Nat) (rest : List Char) : scan pos '"' rest =
      (scanText '"' pos (pos + 1) 0 [] rest).bind fun p => .ok ⟨some (.text p.1), p.2⟩ := by
    simp [scan, isGap, startsNumber, Text.isAsciiDigit]
    rfl
  have htext (pos : Nat) (rest : List Char) :=
    @scanText_escapes pos (pos + 1) 0 [] rest s.toList
  refine lexesAs_token (fun hs pos rest _ => ?_) (fun hs pos rest => ?_)
  · rw [hscan, List.append_assoc, List.singleton_append, (htext pos rest).1 hs]
    simp [Except.bind]
  · obtain ⟨e, he⟩ := (htext pos rest).2 hs
    refine ⟨e, ?_⟩
    rw [hscan, List.append_assoc, List.singleton_append, he]
    rfl

/-! ## Words -/

theorem Ends.apart {cs : List Char} (h : Ends cs) : Apart cs := by
  rintro c tail rfl
  obtain ⟨hname, hdot⟩ := h c rfl
  have hdigit : Text.isAsciiDigit c = false := (Bool.or_eq_false_iff.mp hname).2
  exact ⟨hname, by simp [startsNumber, hdigit, hdot]⟩

theorem lexesAs_word (r : Word) : LexesAs True r.asName.toList [.word r] := by
  refine fun pos rest hrest => ⟨fun _ => ?_, fun h => absurd trivial h⟩
  have hcuts := cutsBefore_word (isWord_asName r) hrest.apart
  rw [lettersKind_asName] at hcuts
  exact hcuts pos

/-! ## Numbers -/

theorem scan_digit {c : Char} {rest : List Char} {x : Float} {n : Nat}
    (hc : Text.isAsciiDigit c = true) (hscan : scanNumber (c :: rest) = .ok (x, n)) (pos : Nat) :
    scan pos c rest = .ok ⟨some (.number x), n - 1⟩ := by
  have hgap : isGap c = false := by
    rw [Bool.eq_false_iff]
    intro h
    simp only [isGap, Bool.or_eq_true, beq_iff_eq] at h
    obtain (((rfl | rfl) | rfl) | rfl) | rfl := h <;> exact absurd hc (by decide)
  have hslash : c ≠ '/' := by
    rintro rfl
    exact absurd hc (by decide)
  simp [scan, hgap, hslash, startsNumber, hc, hscan]

theorem Ends.endsNumber {cs : List Char} (h : Ends cs) : Decimal.EndsNumber cs := by
  intro c hc
  obtain ⟨hname, hdot⟩ := h c hc
  rw [continuesName, Bool.or_eq_false_iff] at hname
  refine ⟨hname.2, hdot, ?_, ?_⟩
  · rintro rfl
    exact absurd hname.1 (by decide)
  · rintro rfl
    exact absurd hname.1 (by decide)

theorem lexesAs_number {cs : List Char} {x : Float} (h : Decimal.IsNumeral cs x) :
    LexesAs True cs [.number x] := by
  obtain ⟨c, cs, rfl, hc⟩ := h.starts
  refine lexesAs_token (fun _ pos rest hrest => ?_) (fun h => absurd trivial h)
  have hscan := h.scans rest hrest.endsNumber
  exact scan_digit hc hscan pos

/-! ## Values -/

theorem ends_cons {c : Char} {cs : List Char} (hname : continuesName c = false) (hdot : c ≠ '.') :
    Ends (c :: cs) := by
  intro d hd
  obtain rfl : c = d := Option.some.inj hd
  exact ⟨hname, hdot⟩

theorem ends_nil : Ends [] := nofun

/-- What may stand in front of an element, and its tokens. -/
inductive Gap : List Char → Kinds → Prop
  | none : Gap [] []
  | comma : Gap [','] [.sign .comma]

theorem Gap.lexesAs {P : Prop} {gap cs : List Char} {gks ks : Kinds} (hgap : Gap gap gks)
    (h : LexesAs P cs ks) : LexesAs P (gap ++ cs) (gks ++ ks) := by
  cases hgap with
  | none => exact h
  | comma => exact h.cons fun _ _ => rfl

theorem ends_items (items : List Json) {rest : List Char} (hrest : Ends rest) :
    Ends (itemChars [','] items ++ rest) := by
  cases items with
  | nil => rwa [itemChars]
  | cons v items =>
    rw [itemChars]
    exact ends_cons rfl (by decide)

theorem ends_fields (fields : Fields) {rest : List Char} (hrest : Ends rest) :
    Ends (fieldChars [','] fields ++ rest) := by
  cases fields with
  | nil => rwa [fieldChars]
  | cons field fields =>
    rw [fieldChars]
    exact ends_cons rfl (by decide)

mutual

/-- The text of a value is cut into its tokens if it is readable, and refused if it is not. -/
theorem lexesAs_chars : ∀ v : Json, LexesAs (Readable v) v.chars (tokens v)
  | .null => by
    rw [Json.chars, tokens, Readable]
    exact lexesAs_word .nullWord
  | .bool true => by
    rw [Json.chars, tokens, Readable]
    exact lexesAs_word .trueWord
  | .bool false => by
    rw [Json.chars, tokens, Readable]
    exact lexesAs_word .falseWord
  | .string s => by
    rw [Json.chars, tokens, Readable]
    exact lexesAs_text s
  | .number n => by
    obtain ⟨cs, htext, hcs⟩ := n.exists_isNumeral
    rw [Json.chars, tokens, Readable, htext]
    split
    next => exact (lexesAs_number hcs).cons fun _ _ => rfl
    next => exact lexesAs_number hcs
  | .array items => by
    rw [Json.chars, tokens, Readable]
    have hclose : LexesAs True [']'] [.sign .closeBracket] := lexesAs_nil.cons fun _ _ => rfl
    have hitems := (lexesAs_items .none items).append hclose fun _ _ => ends_cons rfl (by decide)
    exact (hitems.cons fun _ _ => rfl).of_iff (and_iff_left trivial)
  | .object fields => by
    rw [Json.chars, tokens, Readable]
    have hclose : LexesAs True ['\x7d'] [.sign .closeBrace] := lexesAs_nil.cons fun _ _ => rfl
    have hfields := (lexesAs_fields .none fields).append hclose fun _ _ => ends_cons rfl (by decide)
    exact (hfields.cons fun _ _ => rfl).of_iff (and_iff_left trivial)

theorem lexesAs_items {gap : List Char} {ks : Kinds} (hgap : Gap gap ks) : ∀ items : List Json,
    LexesAs (ItemsReadable items) (itemChars gap items) (itemTokens ks items)
  | [] => by
    rw [itemChars, itemTokens, ItemsReadable]
    exact lexesAs_nil
  | v :: items => by
    rw [itemChars, itemTokens, ItemsReadable]
    exact hgap.lexesAs ((lexesAs_chars v).append (lexesAs_items .comma items)
      fun _ => ends_items items)

theorem lexesAs_fields {gap : List Char} {ks : Kinds} (hgap : Gap gap ks) : ∀ fields : Fields,
    LexesAs (FieldsReadable fields) (fieldChars gap fields) (fieldTokens ks fields)
  | [] => by
    rw [fieldChars, fieldTokens, FieldsReadable]
    exact lexesAs_nil
  | (k, v) :: fields => by
    rw [fieldChars, fieldTokens, FieldsReadable]
    have hrest := (lexesAs_chars v).append (lexesAs_fields .comma fields)
      fun _ => ends_fields fields
    have hmember := hrest.cons (s := .colon) (c := ':') fun _ _ => rfl
    exact hgap.lexesAs ((lexesAs_text k).append hmember fun _ _ => ends_cons rfl (by decide))

end

end Script

end Montage
