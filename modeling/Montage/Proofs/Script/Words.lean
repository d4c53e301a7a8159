import Mathlib.Data.List.Forall2
import Montage.Proofs.Script.Cutting
import Montage.Proofs.Script.Grammar.Complete

/-!
# Words as names

Behind a dot and in front of the colon of a member any word may stand, also a reserved one. But a
reserved word is not kept as it is written: `undefined` is read as `null` and `const` as `let`, so
the name that is read is the word exactly if it is neither of the two.
-/

namespace Montage.Script

/-! ## Words -/

def nameRead (w : String) : String :=
  if w = "undefined" then "null" else if w = "const" then "let" else w

theorem nameRead_eq_self_iff (w : String) : nameRead w = w ↔ w ≠ "undefined" ∧ w ≠ "const" := by
  unfold nameRead
  split
  next h => simp [h]
  next h =>
    split
    next h' => simp [h']
    next h' => simp [h, h']

theorem lettersKind_cases (w : String) :
    lettersKind w = .name (nameRead w) ∨
      ∃ r : Word, lettersKind w = .word r ∧ r.asName = nameRead w := by
  unfold lettersKind Word.ofLetters? nameRead
  grind [Word.asName]

theorem propertyName_lettersKind (w : String) : PropertyName (lettersKind w) (nameRead w) := by
  obtain h | ⟨r, h, hname⟩ := lettersKind_cases w
  · rw [h]
    exact .name _
  · rw [h, ← hname]
    exact .word r

theorem objectKey_lettersKind (w : String) : ObjectKey (lettersKind w) (nameRead w) := by
  obtain h | ⟨r, h, hname⟩ := lettersKind_cases w
  · rw [h]
    exact .name _
  · rw [h, ← hname]
    exact .word r

/-! ## Dots -/

section
variable {c : Char} {rest : List Char}

theorem scan_dot (hc : startsName c = true) (pos : Nat) :
    scan pos '.' (c :: rest) = .ok ⟨some (.sign .dot), 0⟩ := by
  have hdot : c ≠ '.' := ne_of_startsName hc (by decide)
  have hpoint : Text.isAsciiDigit '.' = false := rfl
  have hnumber : startsNumber '.' (c :: rest) = false := by
    simp [startsNumber, hpoint, isAsciiDigit_of_startsName hc]
  have hsign : scanSign? '.' (c :: rest) = some (.dot, 0) := by
    unfold scanSign?
    split <;> simp_all [scanSign?.single?]
  rw [scan, hnumber, hsign]
  rfl

theorem scan_optionalDot (hc : startsName c = true) (pos : Nat) :
    scan pos '?' ('.' :: c :: rest) = .ok ⟨some (.sign .optionalDot), 1⟩ := by
  have hsign : scanSign? '?' ('.' :: c :: rest) = some (.optionalDot, 1) := by
    simp [scanSign?, isAsciiDigit_of_startsName hc]
  rw [scan, hsign]
  rfl

end

/-! ## Sources of parts -/

/-- The text is read as a part of an expression with this tree, wherever no name goes on behind it
and no number begins there. A text that ends inside a comment up to the end of its line is none:
what stands behind it would belong to the comment. -/
def SourceOf (p : Part) (text : String) (tree : p.Tree) : Prop :=
  ∃ ks, Derives p ks tree ∧ ∀ rest, Apart rest → CutsBefore rest text.toList ks

section
variable {a e w : String} {base value : Expr}

theorem SourceOf.mono {p q : Part} {text : String} {t : p.Tree} {u : q.Tree}
    (h : SourceOf p text t) (hderives : ∀ ks, Derives p ks t → Derives q ks u) :
    SourceOf q text u := by
  obtain ⟨ks, hks, hcuts⟩ := h
  exact ⟨ks, hderives ks hks, hcuts⟩

theorem SourceOf.expression (h : SourceOf .chain a base) : SourceOf .expression a base :=
  h.mono fun _ hks => Derives.expression (.chain hks)

theorem sourceOf_name (hw : IsWord w) (hname : lettersKind w = .name w) :
    SourceOf .chain w (.name w) :=
  ⟨[.name w], .primary (.name w), fun _ hrest => hname ▸ cutsBefore_word hw hrest⟩

def dotText (isOptional : Bool) : String := if isOptional then "?." else "."

def dotKind (isOptional : Bool) : Token.Kind := .sign (if isOptional then .optionalDot else .dot)

theorem dot_dotKind (isOptional : Bool) : Dot (dotKind isOptional) isOptional := by
  cases isOptional
  · exact .plain
  · exact .optional

theorem cutsBefore_dot (hw : IsWord w) (isOptional : Bool) (rest : List Char) :
    Apart ((dotText isOptional).toList ++ w.toList ++ rest) ∧
      CutsBefore (w.toList ++ rest) (dotText isOptional).toList [dotKind isOptional] := by
  obtain ⟨c, cs, hchars, hc, -⟩ := hw
  have hpoint : Text.isAsciiDigit '.' = false := rfl
  rw [hchars]
  cases isOptional
  · have hnumber : startsNumber '.' (c :: (cs ++ rest)) = false := by
      simp [startsNumber, hpoint, isAsciiDigit_of_startsName hc]
    exact ⟨apart_cons (by decide) hnumber, cutsBefore_token fun pos => scan_dot hc pos⟩
  · exact ⟨apart_cons (by decide) rfl, cutsBefore_token fun pos => scan_optionalDot hc pos⟩

theorem SourceOf.member (ha : SourceOf .chain a base) (hw : IsWord w) (isOptional : Bool) :
    SourceOf .chain (a ++ dotText isOptional ++ w) (.member base (nameRead w) isOptional) := by
  obtain ⟨ks, hks, hcuts⟩ := ha
  refine ⟨ks ++ [dotKind isOptional, lettersKind w],
    .member hks (dot_dotKind isOptional) (propertyName_lettersKind w), fun rest hrest => ?_⟩
  obtain ⟨hapart, hdot⟩ := cutsBefore_dot hw isOptional rest
  rw [String.toList_append, String.toList_append, List.append_assoc]
  exact (hcuts _ hapart).append (hdot.append (cutsBefore_word hw hrest))

theorem SourceOf.field (he : SourceOf .expression e value) (hw : IsWord w) :
    SourceOf (.element .entry) (w ++ ": " ++ e) (.field (nameRead w) value) := by
  obtain ⟨ks, hks, hcuts⟩ := he
  refine ⟨lettersKind w :: .sign .colon :: ks, .field (objectKey_lettersKind w) hks,
    fun rest hrest => ?_⟩
  have hcolon : CutsBefore (' ' :: (e.toList ++ rest)) [':'] [.sign .colon] :=
    cutsBefore_sign fun _ _ => rfl
  have hgap : CutsBefore (e.toList ++ rest) [' '] [] := cutsBefore_gap fun _ => rfl
  have hvalue := hcolon.append (hgap.append (hcuts rest hrest))
  rw [String.toList_append, String.toList_append, List.append_assoc]
  exact (cutsBefore_word hw (apart_cons (by decide) rfl)).append hvalue

theorem sourceOf_entries {texts : List String} {entries : List Entry}
    (h : List.Forall₂ (SourceOf (.element .entry)) texts entries) :
    SourceOf (.elements .entry) (", ".intercalate texts) entries := by
  induction h with
  | nil => exact ⟨[], .empty, fun rest _ => cutsBefore_nil⟩
  | @cons text entry texts entries hentry hentries ih =>
    cases texts with
    | nil =>
      cases hentries
      exact hentry.mono fun _ => .last
    | cons next texts =>
      obtain ⟨ks, hks, hcuts⟩ := hentry
      obtain ⟨more, hmore, hcuts'⟩ := ih
      refine ⟨ks ++ .sign .comma :: more, .more hks hmore, fun rest hrest => ?_⟩
      rw [String.intercalate_cons_cons, String.toList_append, String.toList_append,
        List.append_assoc]
      generalize ", ".intercalate (next :: texts) = behind at hcuts'
      have hcomma : CutsBefore (' ' :: (behind.toList ++ rest)) [','] [.sign .comma] :=
        cutsBefore_sign fun _ _ => rfl
      have hgap : CutsBefore (behind.toList ++ rest) [' '] [] := cutsBefore_gap fun _ => rfl
      have hbehind := hcomma.append (hgap.append (hcuts' rest hrest))
      exact (hcuts _ (apart_cons (by decide) rfl)).append hbehind

theorem SourceOf.object {entries : List Entry} (h : SourceOf (.elements .entry) a entries) :
    SourceOf .chain ("\x7b" ++ a ++ "\x7d") (.object entries) := by
  obtain ⟨ks, hks, hcuts⟩ := h
  refine ⟨_, .primary (.object hks), fun rest hrest => ?_⟩
  have hopen : CutsBefore (a.toList ++ ['\x7d'] ++ rest) ['\x7b'] [.sign .openBrace] :=
    cutsBefore_sign fun _ _ => rfl
  have hclose : CutsBefore rest ['\x7d'] [.sign .closeBrace] := cutsBefore_sign fun _ _ => rfl
  have hbehind := (hcuts (['\x7d'] ++ rest) (apart_cons (by decide) rfl)).append hclose
  rw [String.toList_append, String.toList_append, List.append_assoc]
  exact hopen.append hbehind

/-- The source of a function without parameters whose body is a text in parentheses. -/
def bodySource (text : String) : String := "() => (" ++ text ++ ")"

theorem cutsBefore_body (rest : List Char) :
    CutsBefore rest ['(', ')', ' ', '=', '>', ' ', '(']
      [.sign .openParen, .sign .closeParen, .sign .arrow, .sign .openParen] := by
  have harrow : CutsBefore (' ' :: '(' :: rest) ['=', '>'] [.sign .arrow] :=
    cutsBefore_token fun _ => rfl
  have hopen : CutsBefore rest ['('] [.sign .openParen] := cutsBefore_sign fun _ _ => rfl
  have hgap : CutsBefore ('(' :: rest) [' '] [] := cutsBefore_gap fun _ => rfl
  have hbehind := harrow.append (hgap.append hopen)
  have hparens : ∀ rest, CutsBefore rest ['(', ')'] [.sign .openParen, .sign .closeParen] :=
    fun _ => (cutsBefore_sign fun _ _ => rfl).append (cutsBefore_sign fun _ _ => rfl)
  have hgap' : CutsBefore ('=' :: '>' :: ' ' :: '(' :: rest) [' '] [] :=
    cutsBefore_gap fun _ => rfl
  exact (hparens _).append (hgap'.append hbehind)

theorem parse_bodySource (h : SourceOf .expression e value) :
    parse (bodySource e) = .ok ⟨[], [], value⟩ := by
  obtain ⟨ks, hks, hcuts⟩ := h
  have hclose : CutsBefore [] [')'] [.sign .closeParen] := cutsBefore_sign fun _ _ => rfl
  have hbody := (hcuts [')'] (apart_cons (by decide) rfl)).append hclose
  have hsource := (cutsBefore_body (e.toList ++ [')'] ++ [])).append hbody
  obtain ⟨ts, stop, hkinds, hlex⟩ := hsource 0
  have hlex' : lex (bodySource e) = .ok ts := by
    rw [lex, bodySource, String.toList_append, String.toList_append, List.append_assoc]
    rw [List.append_nil] at hlex
    refine hlex.trans ?_
    rw [lexFrom]
    simp [Except.map]
  have hpreset : IsPreset (ts.map Token.kind) ⟨[], [], value⟩ := by
    have hbegin : ¬ OpensBlock (.sign .openParen :: (ks ++ [.sign .closeParen])) := by
      intro h
      cases h
    have hfunction := IsFunction.arrow (.params .none) (by decide)
      (Derives.expression (.chain (.primary (.parenthesized hks)))) hbegin
    exact ⟨_, [], by rw [hkinds, List.append_nil]; rfl, hfunction, .inl rfl⟩
  rw [parse, hlex', ok_bind]
  exact parseTokens_complete hpreset

/-- **A word is read as the name it is, unless it is `undefined` or `const`**: behind either dot as
the name of a member, and in front of a colon as a key of an object, whatever members stand before
and behind it. `undefined` is read as the name `null`, and `const` as `let`. -/
theorem parse_word {before after : List String} {front back : List Entry} (hw : IsWord w)
    (ha : SourceOf .chain a base) (he : SourceOf .expression e value)
    (hbefore : List.Forall₂ (SourceOf (.element .entry)) before front)
    (hafter : List.Forall₂ (SourceOf (.element .entry)) after back) :
    parse (bodySource (a ++ "." ++ w)) = .ok ⟨[], [], .member base (nameRead w) false⟩ ∧
      parse (bodySource (a ++ "?." ++ w)) = .ok ⟨[], [], .member base (nameRead w) true⟩ ∧
      parse (bodySource
          ("\x7b" ++ ", ".intercalate (before ++ (w ++ ": " ++ e) :: after) ++ "\x7d")) =
        .ok ⟨[], [], .object (front ++ .field (nameRead w) value :: back)⟩ ∧
      (nameRead w = w ↔ w ≠ "undefined" ∧ w ≠ "const") := by
  have hentries : List.Forall₂ (SourceOf (.element .entry))
      (before ++ (w ++ ": " ++ e) :: after) (front ++ .field (nameRead w) value :: back) :=
    List.rel_append hbefore (.cons (he.field hw) hafter)
  refine ⟨?_, ?_, ?_, nameRead_eq_self_iff w⟩
  · exact parse_bodySource (ha.member hw false).expression
  · exact parse_bodySource (ha.member hw true).expression
  · exact parse_bodySource (sourceOf_entries hentries).object.expression

/-- Of three reserved words only `return` is read as it is written. -/
theorem parse_word_undefined :
    (IsWord "undefined" ∧ SourceOf .chain "a" (.name "a") ∧
      SourceOf .expression "a.const" (.member (.name "a") "let" false)) ∧
    parse "() => (a.undefined)" = .ok ⟨[], [], .member (.name "a") "null" false⟩ ∧
    parse "() => (a?.undefined)" = .ok ⟨[], [], .member (.name "a") "null" true⟩ ∧
    parse "() => (\x7breturn: a, undefined: a.const\x7d)" =
      .ok ⟨[], [], .object [.field "return" (.name "a"),
        .field "null" (.member (.name "a") "let" false)]⟩ := by
  have hword : IsWord "undefined" :=
    ⟨'u', ['n', 'd', 'e', 'f', 'i', 'n', 'e', 'd'], rfl, rfl, by simp [continuesName, startsName]⟩
  have hconst : IsWord "const" :=
    ⟨'c', ['o', 'n', 's', 't'], rfl, rfl, by simp [continuesName, startsName]⟩
  have ha : SourceOf .chain "a" (.name "a") := sourceOf_name ⟨'a', [], rfl, rfl, by simp⟩ rfl
  have he : SourceOf .expression "a.const" (.member (.name "a") "let" false) :=
    (ha.member hconst false).expression
  have hbefore : SourceOf (.element .entry) "return: a" (.field "return" (.name "a")) :=
    ha.expression.field (isWord_asName .returnWord)
  obtain ⟨hdot, hoptional, hobject, -⟩ :=
    parse_word hword ha he (.cons hbefore .nil) .nil
  exact ⟨⟨hword, ha, he⟩, hdot, hoptional, hobject⟩

end

end Montage.Script
