import Montage.Proofs.Script.Cutting
import Montage.Proofs.Script.Pieces

/-!
# Tokens split a source

The lexer loses nothing of a source: the tokens stand in it one behind another, each where its
characters stand, and between two of them there are only blanks and comments. Either kind of stretch
means the same when it is taken out of the source: a token is found in its own characters alone, and
in what lies between tokens none is found.
-/

namespace Montage.Script

open Montage.Text (octets octets_append octets_pos)

/-! ## One piece after another -/

/-- The token of a piece from byte `start` up to byte `stop`, unless it is a gap. -/
def Piece.tokens (kind : Option Token.Kind) (start stop : Nat) : List Token :=
  (kind.map (⟨·, start, stop⟩)).toList

theorem lexFrom_nil (pos : Nat) : lexFrom pos [] = .ok [] := by rw [lexFrom]

theorem lexFrom_piece {pos : Nat} {c : Char} (own rest : List Char) {kind : Option Token.Kind}
    (h : scan pos c (own ++ rest) = .ok ⟨kind, own.length⟩) :
    lexFrom pos (c :: (own ++ rest)) = (lexFrom (pos + octets (c :: own)) rest).map
      (Piece.tokens kind pos (pos + octets (c :: own)) ++ ·) := by
  rw [lexFrom, h, ok_bind]
  dsimp only
  rw [List.take_left, List.drop_left, octets, ← Nat.add_assoc]
  cases lexFrom _ rest <;> cases kind <;> rfl

/-- The lexer takes one piece, which it would also take alone, and goes on behind it. -/
theorem lexFrom_induction {motive : Nat → List Char → Prop}
    (finish : ∀ pos, motive pos [])
    (failed : ∀ pos c cs e, scan pos c cs = .error e → motive pos (c :: cs))
    (piece : ∀ pos c own rest kind, scan pos c (own ++ rest) = .ok ⟨kind, own.length⟩ →
      (∀ pos, scan pos c own = .ok ⟨kind, own.length⟩) → motive (pos + octets (c :: own)) rest →
      motive pos (c :: (own ++ rest)))
    (pos : Nat) (cs : List Char) : motive pos cs := by
  induction hn : cs.length using Nat.strongRecOn generalizing pos cs with
  | _ n ih =>
    cases cs with
    | nil => exact finish pos
    | cons c cs =>
      cases hscan : scan pos c cs with
      | error e => exact failed pos c cs e hscan
      | ok found =>
        obtain ⟨own, rest, rfl, hmore, halone⟩ := scan_alone hscan
        obtain ⟨kind, more⟩ := found
        cases hmore
        have hless : rest.length < n := by
          rw [← hn, List.length_cons, List.length_append]
          omega
        exact piece pos c own rest kind hscan halone (ih _ hless _ _ rfl)

/-! ## Blanks and comments -/

/-- Blanks and comments. A comment behind `//` ends in front of the first line break or at the end,
one behind `/*` with the first `*/`. -/
inductive Filler : List Char → Prop
  | empty : Filler []
  | blank {c : Char} {rest : List Char} (hblank : isGap c = true) (hrest : Filler rest) :
    Filler (c :: rest)
  | line {own rest : List Char} (hown : ∀ c ∈ own, c ≠ '\n') (hends : ∀ c ∈ rest.head?, c = '\n')
    (hrest : Filler rest) : Filler ('/' :: '/' :: (own ++ rest))
  | block {own rest : List Char} (hown : commentEnd? own = some own.length) (hrest : Filler rest) :
    Filler ('/' :: '*' :: (own ++ rest))

theorem commentEnd?_append {own : List Char} (rest : List Char)
    (h : commentEnd? own = some own.length) : commentEnd? (own ++ rest) = some own.length := by
  generalize own.length = n at h
  induction own using commentEnd?.induct generalizing n with
  | case1 own =>
    cases h
    rfl
  | case2 c own hopen ih =>
    rw [commentEnd?, Option.map_eq_some_iff] at h
    · obtain ⟨m, hm, rfl⟩ := h
      rw [List.cons_append, commentEnd?, ih m hm]
      · rfl
      · -- the end of a comment that is open has two characters of its own
        rintro tail hc htail
        rcases own with _ | ⟨d, own⟩
        · cases hm
        · cases htail
          exact hopen own hc rfl
    · exact hopen
  | case3 => cases h

theorem Filler.lexFrom {cs : List Char} (h : Filler cs) (pos : Nat) : lexFrom pos cs = .ok [] := by
  induction h generalizing pos with
  | empty => rw [Script.lexFrom]
  | @blank c rest hblank _ ih =>
    exact (lexFrom_piece [] rest (scan_blank hblank)).trans (by rw [ih]; rfl)
  | @line own rest hown hends _ ih =>
    have hrun : (own ++ rest).takeWhile (· ≠ '\n') = own :=
      (Decimal.takeWhile_append_of_head? (fun c hc => decide_eq_true (hown c hc))
        fun c hc => decide_eq_false (not_not.mpr (hends c hc))).1
    have hscan : scan pos '/' ('/' :: (own ++ rest)) = .ok ⟨none, ('/' :: own).length⟩ := by
      rw [scan_line, hrun]
    exact (lexFrom_piece ('/' :: own) rest hscan).trans (by rw [ih]; rfl)
  | @block own rest hown _ ih =>
    have hscan : scan pos '/' ('*' :: (own ++ rest)) = .ok ⟨none, ('*' :: own).length⟩ := by
      rw [scan_block, commentEnd?_append rest hown]
      rfl
    exact (lexFrom_piece ('*' :: own) rest hscan).trans (by rw [ih]; rfl)

/-! ## Rows of tokens -/

/-- The tokens stand in the characters, which begin at byte `pos`: each has characters of its own,
and what lies in front of it and behind the last one is filler. -/
inductive Row : Nat → List Char → List Token → Prop
  | last {pos : Nat} {cs : List Char} (hfiller : Filler cs) : Row pos cs []
  | token {pos : Nat} {front own rest : List Char} {c : Char} {kind : Token.Kind}
    {tokens : List Token} (hfiller : Filler front)
    (hscan : ∀ pos, scan pos c own = .ok ⟨some kind, own.length⟩)
    (hrest : Row (pos + octets front + octets (c :: own)) rest tokens) :
    Row pos (front ++ (c :: (own ++ rest)))
      (⟨kind, pos + octets front, pos + octets front + octets (c :: own)⟩ :: tokens)

theorem filler_of_scan {pos : Nat} {c : Char} {own rest front : List Char}
    (h : scan pos c (own ++ rest) = .ok ⟨none, own.length⟩)
    (hhead : ∀ d ∈ front.head?, d ∈ rest.head?) (hfront : Filler front) :
    Filler (c :: (own ++ front)) := by
  generalize hcs : own ++ rest = cs at h
  induction c, cs using scan_cases with
  | blank c cs hblank =>
    rw [scan_blank hblank] at h
    obtain rfl : own = [] := List.eq_nil_of_length_eq_zero (Piece.mk.inj (Except.ok.inj h)).2.symm
    exact .blank hblank hfront
  | line cs =>
    rw [scan_line] at h
    have hlength := (Piece.mk.inj (Except.ok.inj h)).2
    have hsplit : cs.takeWhile (· ≠ '\n') ++ cs.dropWhile (· ≠ '\n') = cs :=
      List.takeWhile_append_dropWhile
    rw [← hsplit, ← List.cons_append] at hcs
    obtain ⟨rfl, rfl⟩ := List.append_inj hcs hlength.symm
    refine .line (fun d hd => ?_) (fun d hd => ?_) hfront
    · have hrun := List.mem_takeWhile_imp hd
      exact of_decide_eq_true hrun
    · have hstop := List.head?_dropWhile_not (fun d => decide (d ≠ '\n')) cs
      rw [hhead d hd] at hstop
      exact not_not.mp (of_decide_eq_false hstop)
  | block cs =>
    rw [scan_block] at h
    split at h
    next n hend =>
      obtain ⟨part, tail, rfl, rfl, hpart⟩ := commentEnd?_alone hend
      have hlength := (Piece.mk.inj (Except.ok.inj h)).2
      rw [← List.cons_append] at hcs
      obtain ⟨rfl, rfl⟩ := List.append_inj hcs hlength.symm
      exact .block hpart hfront
    next => cases h
  | number c cs hbegins hnumber =>
    rw [scan_number hbegins hnumber] at h
    split at h <;> cases h
  | text c cs hbegins hnumber hquote =>
    rw [scan_text hbegins hnumber hquote] at h
    rcases hscan : scanText c pos (pos + 1) 0 [] cs with e | ⟨s, n⟩ <;> rw [hscan] at h <;> cases h
  | name c cs hbegins hnumber hquote hname =>
    rw [scan_name hbegins hnumber hquote hname] at h
    cases h
  | sign c cs hbegins hnumber hquote hname =>
    rw [scan_sign hbegins hnumber hquote hname] at h
    split at h <;> cases h

theorem Row.append {pos : Nat} {cs : List Char} {tokens : List Token} (own : List Char)
    (hown : ∀ rest, (∀ c ∈ rest.head?, c ∈ cs.head?) → Filler rest → Filler (own ++ rest))
    (h : Row (pos + octets own) cs tokens) : Row pos (own ++ cs) tokens := by
  cases h with
  | last hfiller => exact .last (hown cs (fun c hc => hc) hfiller)
  | @token _ front tokenOwn rest c kind tokens hfiller hscan hrest =>
    have hfront : Filler (own ++ front) := by
      refine hown front (fun d hd => ?_) hfiller
      rw [List.head?_append, hd]
      rfl
    rw [Nat.add_assoc pos, ← octets_append] at hrest ⊢
    rw [← List.append_assoc]
    exact .token hfront hscan hrest

theorem row_of_lexFrom {pos : Nat} {cs : List Char} {tokens : List Token}
    (h : lexFrom pos cs = .ok tokens) : Row pos cs tokens := by
  induction pos, cs using lexFrom_induction generalizing tokens with
  | finish pos =>
    rw [lexFrom_nil] at h
    cases h
    exact .last .empty
  | failed pos c cs e hscan =>
    rw [lexFrom_error hscan] at h
    cases h
  | piece pos c own rest kind hscan halone ih =>
    rw [lexFrom_piece own rest hscan] at h
    rcases hrest : lexFrom (pos + octets (c :: own)) rest with e | tokens' <;> rw [hrest] at h
    · cases h
    · cases h
      cases kind with
      | some kind => exact Row.token .empty halone (ih hrest)
      | none =>
        exact (ih hrest).append (c :: own) fun front hhead => filler_of_scan hscan hhead

/-! ## Where tokens and gaps stand -/

/-- The text stands in the source from byte `start` up to byte `stop`. -/
def Spans (source text : String) (start stop : Nat) : Prop :=
  ∃ before after, source = before ++ text ++ after ∧ before.utf8ByteSize = start ∧
    (before ++ text).utf8ByteSize = stop

theorem Spans.isValid {source text : String} {start stop : Nat} (h : Spans source text start stop) :
    String.Pos.Raw.IsValid source ⟨start⟩ ∧ String.Pos.Raw.IsValid source ⟨stop⟩ := by
  obtain ⟨before, after, rfl, rfl, rfl⟩ := h
  exact ⟨String.Pos.Raw.isValid_iff_exists_append.mpr
      ⟨before, text ++ after, String.append_assoc, rfl⟩,
    String.Pos.Raw.isValid_iff_exists_append.mpr ⟨before ++ text, after, rfl, rfl⟩⟩

theorem spans_ofList (before own after : List Char) :
    Spans (String.ofList (before ++ (own ++ after))) (String.ofList own) (octets before)
      (octets before + octets own) := by
  refine ⟨String.ofList before, String.ofList after, ?_, Text.utf8ByteSize_ofList before, ?_⟩
  · rw [← String.ofList_append, ← String.ofList_append, List.append_assoc]
  · rw [← String.ofList_append, Text.utf8ByteSize_ofList, octets_append]

/-- The gaps that tokens leave from byte `pos` up to byte `stop`: in front of each token, and behind
the last one. -/
def gaps (stop : Nat) : Nat → List Token → List (Nat × Nat)
  | pos, [] => [(pos, stop)]
  | pos, t :: tokens => (pos, t.start) :: gaps stop t.stop tokens

/-- The tokens split the source: they stand one behind another, the characters of each one make that
token when nothing else is there, and what lies between them makes none, as it is blanks and
comments. -/
structure Splits (source : String) (tokens : List Token) : Prop where
  nonempty : ∀ t ∈ tokens, t.start < t.stop
  increasing : tokens.Pairwise fun t u => t.stop ≤ u.start
  boundaries : ∀ t ∈ tokens, String.Pos.Raw.IsValid source ⟨t.start⟩ ∧
    String.Pos.Raw.IsValid source ⟨t.stop⟩
  alone : ∀ t ∈ tokens, ∃ text, Spans source text t.start t.stop ∧
    lex text = .ok [⟨t.kind, 0, text.utf8ByteSize⟩]
  gaps : ∀ gap ∈ gaps source.utf8ByteSize 0 tokens, ∃ text, Spans source text gap.1 gap.2 ∧
    Filler text.toList ∧ lex text = .ok []

section
variable {pos : Nat} {cs : List Char} {tokens : List Token}

theorem Row.ordered (h : Row pos cs tokens) :
    (∀ t ∈ tokens, pos ≤ t.start ∧ t.start < t.stop) ∧
      tokens.Pairwise fun t u => t.stop ≤ u.start := by
  induction h with
  | last => exact ⟨fun t ht => absurd ht List.not_mem_nil, .nil⟩
  | @token pos front own rest c kind tokens _ _ _ ih =>
    obtain ⟨hwithin, hpairs⟩ := ih
    have hpos := octets_pos (List.cons_ne_nil c own)
    refine ⟨List.forall_mem_cons.mpr ⟨⟨by simp only; omega, by simp only; omega⟩, fun t ht => ?_⟩,
      .cons (fun t ht => (hwithin t ht).1) hpairs⟩
    obtain ⟨hstart, hstop⟩ := hwithin t ht
    exact ⟨by omega, hstop⟩

theorem Row.alone (before : List Char) (h : Row pos cs tokens) (hpos : pos = octets before) :
    ∀ t ∈ tokens, ∃ text, Spans (String.ofList (before ++ cs)) text t.start t.stop ∧
      lex text = .ok [⟨t.kind, 0, text.utf8ByteSize⟩] := by
  induction h generalizing before with
  | last => exact fun t ht => absurd ht List.not_mem_nil
  | @token pos front own rest c kind tokens _ hscan _ ih =>
    subst hpos
    refine List.forall_mem_cons.mpr ⟨⟨String.ofList (c :: own), ?_, ?_⟩, fun t ht => ?_⟩
    · have h := spans_ofList (before ++ front) (c :: own) rest
      rwa [octets_append, List.append_assoc] at h
    · rw [lex, String.toList_ofList, Text.utf8ByteSize_ofList]
      have hown : scan 0 c (own ++ []) = .ok ⟨some kind, own.length⟩ := by
        rw [List.append_nil, hscan]
      have hpiece := lexFrom_piece own [] hown
      rw [List.append_nil, lexFrom, Nat.zero_add] at hpiece
      exact hpiece
    · have h := ih (before ++ (front ++ (c :: own))) (by
        rw [octets_append, octets_append, Nat.add_assoc]) t ht
      rwa [List.append_assoc, List.append_assoc] at h

theorem Filler.exists_spans {front : List Char} (h : Filler front) (before rest : List Char) :
    ∃ text, Spans (String.ofList (before ++ (front ++ rest))) text (octets before)
      (octets before + octets front) ∧ Filler text.toList ∧ lex text = .ok [] := by
  refine ⟨String.ofList front, spans_ofList before front rest, ?_, ?_⟩
  · rwa [String.toList_ofList]
  · rw [lex, String.toList_ofList]
    exact h.lexFrom 0

theorem Row.gaps (before : List Char) (h : Row pos cs tokens) (hpos : pos = octets before) :
    ∀ gap ∈ gaps (octets (before ++ cs)) pos tokens, ∃ text,
      Spans (String.ofList (before ++ cs)) text gap.1 gap.2 ∧ Filler text.toList ∧
        lex text = .ok [] := by
  induction h generalizing before with
  | @last pos cs hfiller =>
    subst hpos
    refine List.forall_mem_singleton.mpr ?_
    have h := hfiller.exists_spans before []
    rwa [List.append_nil, ← octets_append] at h
  | @token pos front own rest c kind tokens hfiller hscan _ ih =>
    subst hpos
    refine List.forall_mem_cons.mpr ⟨hfiller.exists_spans before _, fun gap hgap => ?_⟩
    have h := ih (before ++ (front ++ (c :: own))) (by
      rw [octets_append, octets_append, Nat.add_assoc]) gap
    rw [List.append_assoc, List.append_assoc] at h
    exact h hgap

end

theorem offset_of_lexFrom_error {pos : Nat} {cs : List Char} {e : SyntaxError}
    (h : lexFrom pos cs = .error e) :
    ∃ before rest, cs = before ++ rest ∧ e.offset = pos + octets before := by
  induction pos, cs using lexFrom_induction with
  | finish pos =>
    rw [lexFrom_nil] at h
    cases h
  | failed pos c cs e' hscan =>
    rw [lexFrom_error hscan] at h
    cases h
    exact offset_of_scan_error hscan
  | piece pos c own rest kind hscan halone ih =>
    rw [lexFrom_piece own rest hscan] at h
    rcases hrest : lexFrom (pos + octets (c :: own)) rest with e' | tokens <;> rw [hrest] at h
    · cases h
      obtain ⟨before, after, rfl, hoffset⟩ := ih hrest
      refine ⟨c :: own ++ before, after, by simp, ?_⟩
      rw [octets_append, hoffset, Nat.add_assoc]
    · cases h

theorem isValid_of_lex_error {source : String} {e : SyntaxError} (h : lex source = .error e) :
    String.Pos.Raw.IsValid source ⟨e.offset⟩ := by
  obtain ⟨before, rest, hsource, hoffset⟩ := offset_of_lexFrom_error h
  refine String.Pos.Raw.isValid_iff_exists_append.mpr
    ⟨String.ofList before, String.ofList rest, ?_, ?_⟩
  · rw [← String.ofList_append, ← hsource, String.ofList_toList]
  · rw [hoffset, Nat.zero_add, String.rawEndPos, Text.utf8ByteSize_ofList]

theorem splits_of_lex {source : String} {tokens : List Token} (h : lex source = .ok tokens) :
    Splits source tokens := by
  have hrow : Row (octets []) source.toList tokens := row_of_lexFrom h
  have hsource : String.ofList ([] ++ source.toList) = source := String.ofList_toList
  obtain ⟨hwithin, hpairs⟩ := hrow.ordered
  have halone := hrow.alone [] rfl
  have hgaps := hrow.gaps [] rfl
  rw [← Text.utf8ByteSize_ofList] at hgaps
  rw [hsource] at halone hgaps
  refine ⟨fun t ht => (hwithin t ht).2, hpairs, fun t ht => ?_, halone, hgaps⟩
  obtain ⟨text, hspans, -⟩ := halone t ht
  exact hspans.isValid

end Montage.Script
