import Montage.Reference.Token

/-!
# Tokens that stand in a text

A token stands in a text where it is written there, key and range in their brackets. No other token
starts inside one: the only brackets in a token are its own, and none but the first has `data:` in
front of it. So the places of tokens in a text do not depend on where reading starts, and the pieces
that a text is cut into from left to right have all of them.
-/

namespace Montage.Reference

open Montage.Text (octets octets_append)

/-! ## Brackets -/

/-- What may stand in the brackets of a token. -/
structure FitsBrackets (cs : List Char) : Prop where
  ne_nil : cs ≠ []
  noBracket : ∀ c ∈ cs, isBracket c = false

theorem bracketed?_eq_some_iff {cs inside rest : List Char} :
    bracketed? cs = some (inside, rest) ↔
      FitsBrackets inside ∧ cs = '[' :: (inside ++ ']' :: rest) := by
  constructor
  · intro h
    have heq := eq_append_of_bracketed? h
    rw [bracketed?.eq_def] at h
    split at h
    · split at h
      · rename_i c inside' rest' htake _
        cases h
        refine ⟨⟨List.cons_ne_nil _ _, fun c hc => ?_⟩, by simpa using heq⟩
        rw [← htake] at hc
        simpa using List.all_eq_true.mp List.all_takeWhile c hc
      · cases h
    · cases h
  · rintro ⟨⟨hne, hfree⟩, rfl⟩
    have hpos : ∀ c ∈ inside, (!isBracket c) = true := by simpa using hfree
    have hclosing : (!isBracket ']') = false := rfl
    have htake : (inside ++ ']' :: rest).takeWhile (!isBracket ·) = inside := by
      rw [List.takeWhile_append_of_pos hpos, List.takeWhile_cons_of_neg (by simp [hclosing]),
        List.append_nil]
    have hdrop : (inside ++ ']' :: rest).dropWhile (!isBracket ·) = ']' :: rest := by
      rw [List.dropWhile_append_of_pos hpos, List.dropWhile_cons_of_neg (by simp [hclosing])]
    obtain ⟨c, inside, rfl⟩ := List.exists_cons_of_ne_nil hne
    simp only [bracketed?, htake, hdrop]

/-! ## Tokens at the start -/

/-- A key, and a range if there is one, that may stand in the brackets. -/
structure Token.WellFormed (t : Token) : Prop where
  key : FitsBrackets t.keyText
  range : ∀ cs ∈ t.rangeText, FitsBrackets cs

def Token.rangePart (t : Token) : List Char :=
  match t.rangeText with
  | some cs => '[' :: (cs ++ [']'])
  | none => []

theorem Token.written_eq (t : Token) :
    t.written =
      'd' :: 'a' :: 't' :: 'a' :: ':' :: '[' :: (t.keyText ++ ']' :: t.rangePart) := by
  rw [written, rangePart]
  cases t.rangeText <;> simp

theorem token?_eq_some_iff_brackets {cs rest : List Char} {t : Token} :
    token? cs = some (t, rest) ↔
      ∃ body afterKey, cs = 'd' :: 'a' :: 't' :: 'a' :: ':' :: body ∧
        bracketed? body = some (t.keyText, afterKey) ∧
          match t.rangeText with
          | some range => bracketed? afterKey = some (range, rest)
          | none => bracketed? afterKey = none ∧ rest = afterKey := by
  obtain ⟨key, range⟩ := t
  constructor
  · intro h
    rw [token?.eq_def] at h
    split at h
    · rename_i body
      split at h
      · rename_i key' afterKey hkey
        split at h
        · rename_i hrange
          cases h
          exact ⟨body, afterKey, rfl, hkey, hrange⟩
        · rename_i hnone
          cases h
          exact ⟨body, _, rfl, hkey, hnone, rfl⟩
      · cases h
    · cases h
  · rintro ⟨body, afterKey, rfl, hkey, hrange⟩
    cases range with
    | some range =>
      dsimp only at hkey hrange
      simp [token?, hkey, hrange]
    | none =>
      obtain ⟨hnone, rfl⟩ := hrange
      dsimp only at hkey
      simp [token?, hkey, hnone]

/-- A token is read at the start of what is written of it, unless it has no range and what follows
can be read as one. -/
theorem token?_eq_some_iff {cs rest : List Char} {t : Token} :
    token? cs = some (t, rest) ↔
      t.WellFormed ∧ cs = t.written ++ rest ∧ (t.rangeText = none → bracketed? rest = none) := by
  rw [token?_eq_some_iff_brackets, Token.written_eq]
  obtain ⟨key, range⟩ := t
  cases range with
  | none =>
    constructor
    · rintro ⟨body, afterKey, rfl, hkey, hnone, rfl⟩
      obtain ⟨hfits, rfl⟩ := bracketed?_eq_some_iff.mp hkey
      exact ⟨⟨hfits, nofun⟩, by simp [Token.rangePart], fun _ => hnone⟩
    · rintro ⟨hwell, rfl, hnone⟩
      refine ⟨_, rest, rfl, bracketed?_eq_some_iff.mpr ⟨hwell.key, ?_⟩, hnone rfl, rfl⟩
      simp [Token.rangePart]
  | some range =>
    constructor
    · rintro ⟨body, afterKey, rfl, hkey, hrange⟩
      obtain ⟨hfits, rfl⟩ := bracketed?_eq_some_iff.mp hkey
      obtain ⟨hfitsRange, rfl⟩ := bracketed?_eq_some_iff.mp hrange
      exact ⟨⟨hfits, by simpa using hfitsRange⟩, by simp [Token.rangePart], nofun⟩
    · rintro ⟨hwell, rfl, -⟩
      have hrange := hwell.range range rfl
      refine ⟨_, '[' :: (range ++ ']' :: rest), rfl, bracketed?_eq_some_iff.mpr ⟨hwell.key, ?_⟩,
        bracketed?_eq_some_iff.mpr ⟨hrange, rfl⟩⟩
      simp [Token.rangePart]

/-! ## No token inside another one -/

theorem exists_of_token? {cs rest : List Char} {t : Token} (h : token? cs = some (t, rest)) :
    ∃ more, cs = 'd' :: 'a' :: 't' :: 'a' :: ':' :: '[' :: more := by
  obtain ⟨-, rfl, -⟩ := token?_eq_some_iff.mp h
  exact ⟨_, by rw [Token.written_eq]; rfl⟩

theorem token?_closing {inside : List Char} (hinside : ∀ c ∈ inside, isBracket c = false)
    (rest : List Char) : token? (inside ++ ']' :: rest) = none := by
  rw [Option.eq_none_iff_forall_ne_some]
  rintro ⟨t, after⟩ h
  obtain ⟨more, hmore⟩ := exists_of_token? h
  have hopening : isBracket '[' = true := rfl
  -- the opening bracket would stand among the first six characters inside, or behind the closing one
  match inside with
  | [] | [_] | [_, _] | [_, _, _] | [_, _, _, _] | [_, _, _, _, _] => simp at hmore
  | _ :: _ :: _ :: _ :: _ :: c :: _ =>
    simp only [List.cons_append, List.cons.injEq] at hmore
    obtain ⟨-, -, -, -, -, rfl, -⟩ := hmore
    have hfree := hinside '[' (by simp)
    rw [hopening] at hfree
    cases hfree

theorem suffix_closing {inside more s : List Char} (h : s <:+ inside ++ ']' :: more) :
    (∃ inside', inside' <:+ inside ∧ s = inside' ++ ']' :: more) ∨ s <:+ more := by
  induction inside with
  | nil =>
    rcases List.suffix_cons_iff.mp h with rfl | h
    · exact .inl ⟨[], List.suffix_rfl, rfl⟩
    · exact .inr h
  | cons c rest ih =>
    rcases List.suffix_cons_iff.mp h with rfl | h
    · exact .inl ⟨c :: rest, List.suffix_rfl, rfl⟩
    · rcases ih h with ⟨inside', hsuffix, rfl⟩ | h
      · exact .inl ⟨inside', hsuffix.trans (List.suffix_cons c rest), rfl⟩
      · exact .inr h

theorem token?_of_suffix_closing {inside more s : List Char}
    (hinside : ∀ c ∈ inside, isBracket c = false) (h : s <:+ inside ++ ']' :: more) (rest : List Char) :
    token? (s ++ rest) = none ∨ s <:+ more := by
  rcases suffix_closing h with ⟨inside', hsuffix, rfl⟩ | h
  · refine .inl ?_
    rw [List.append_assoc, List.cons_append]
    exact token?_closing (fun c hc => hinside c (hsuffix.subset hc)) _
  · exact .inr h

theorem token?_of_head_ne {c : Char} {cs : List Char} (hc : c ≠ 'd') : token? (c :: cs) = none := by
  rw [Option.eq_none_iff_forall_ne_some]
  rintro ⟨t, after⟩ h
  obtain ⟨more, hmore⟩ := exists_of_token? h
  exact hc (List.cons.inj hmore).1

theorem token?_of_suffix_cons {c : Char} {cs s : List Char} (hc : c ≠ 'd') (h : s <:+ c :: cs)
    (rest : List Char) : token? (s ++ rest) = none ∨ s <:+ cs := by
  rcases List.suffix_cons_iff.mp h with rfl | h
  · exact .inl (token?_of_head_ne hc)
  · exact .inr h

/-- **No other token starts inside a token**, whatever follows it. -/
theorem token?_inside {t : Token} (ht : t.WellFormed) {s : List Char} (hs : s <:+ t.written)
    (hne : s ≠ t.written) (hnil : s ≠ []) (rest : List Char) : token? (s ++ rest) = none := by
  refine Classical.byContradiction fun hsome => ?_
  have hword : s <:+ 'a' :: 't' :: 'a' :: ':' :: '[' :: (t.keyText ++ ']' :: t.rangePart) := by
    rw [Token.written_eq] at hs hne
    exact (List.suffix_cons_iff.mp hs).resolve_left hne
  have hopening : s <:+ t.keyText ++ ']' :: t.rangePart := by
    have h₁ := (token?_of_suffix_cons (by decide) hword rest).resolve_left hsome
    have h₂ := (token?_of_suffix_cons (by decide) h₁ rest).resolve_left hsome
    have h₃ := (token?_of_suffix_cons (by decide) h₂ rest).resolve_left hsome
    have h₄ := (token?_of_suffix_cons (by decide) h₃ rest).resolve_left hsome
    exact (token?_of_suffix_cons (by decide) h₄ rest).resolve_left hsome
  have hrange : s <:+ t.rangePart :=
    (token?_of_suffix_closing ht.key.noBracket hopening rest).resolve_left hsome
  rw [Token.rangePart] at hrange
  cases hrangeText : t.rangeText with
  | none =>
    rw [hrangeText] at hrange
    exact hnil (List.suffix_nil.mp hrange)
  | some cs =>
    rw [hrangeText] at hrange
    have hinside := (token?_of_suffix_cons (by decide) hrange rest).resolve_left hsome
    have hend := token?_of_suffix_closing (ht.range cs hrangeText).noBracket hinside rest
    exact hnil (List.suffix_nil.mp (hend.resolve_left hsome))

/-! ## Occurrences -/

/-- A token stands in a text, between what is before it and what is behind it. -/
structure Occurs (text before : List Char) (t : Token) (behind : List Char) : Prop where
  text_eq : text = before ++ t.written ++ behind
  wellFormed : t.WellFormed

/-- A token stands in a text, and no other one that stands there covers it. -/
structure OccursMaximally (text before : List Char) (t : Token) (behind : List Char) : Prop
    extends Occurs text before t behind where
  maximal : ∀ before' t' behind', Occurs text before' t' behind' →
    before'.length ≤ before.length → behind'.length ≤ behind.length →
      before' = before ∧ t' = t ∧ behind' = behind

theorem token?_written {t : Token} (ht : t.WellFormed) : token? t.written = some (t, []) :=
  token?_eq_some_iff.mpr ⟨ht, (List.append_nil _).symm, fun _ => rfl⟩

theorem Token.written_ne_nil (t : Token) : t.written ≠ [] := by
  rw [written_eq]
  exact List.cons_ne_nil _ _

theorem split_of_token? {cs rest before behind : List Char} {t u : Token}
    (ht : token? cs = some (t, rest)) (hu : token? (u.written ++ behind) = some (u, behind))
    (hcs : cs = before ++ (u.written ++ behind)) :
    (before = [] ∧ u = t ∧ behind = rest) ∨
      ∃ between, before = t.written ++ between ∧ rest = between ++ (u.written ++ behind) := by
  obtain ⟨hwell, rfl, -⟩ := token?_eq_some_iff.mp ht
  rcases List.append_eq_append_iff.mp hcs with ⟨between, rfl, rfl⟩ | ⟨s, hwritten, hs⟩
  · exact .inr ⟨between, rfl, rfl⟩
  by_cases hnil : s = []
  · subst hnil
    exact .inr ⟨[], by simpa using hwritten.symm, by simpa using hs.symm⟩
  by_cases hbefore : before = []
  · subst hbefore
    rw [hcs, List.nil_append, hu] at ht
    cases ht
    exact .inl ⟨rfl, rfl, rfl⟩
  · have hsuffix : s <:+ t.written := ⟨before, hwritten.symm⟩
    have hne : s ≠ t.written := fun heq => hbefore (List.self_eq_append_left.mp (heq.trans hwritten))
    have hnone := token?_inside hwell hsuffix hne hnil rest
    rw [← hs, hu] at hnone
    cases hnone

/-- Where a token is written one is read, the same or one that ends later. -/
theorem exists_token? {t : Token} (ht : t.WellFormed) (rest : List Char) :
    ∃ t' rest', token? (t.written ++ rest) = some (t', rest') ∧ rest'.length ≤ rest.length := by
  cases hrange : t.rangeText with
  | some range =>
    refine ⟨t, rest, token?_eq_some_iff.mpr ⟨ht, rfl, fun h => ?_⟩, Nat.le_refl _⟩
    rw [hrange] at h
    cases h
  | none =>
    cases hbrackets : bracketed? rest with
    | none => exact ⟨t, rest, token?_eq_some_iff.mpr ⟨ht, rfl, fun _ => hbrackets⟩, Nat.le_refl _⟩
    | some found =>
      obtain ⟨range, rest'⟩ := found
      obtain ⟨hfits, rfl⟩ := bracketed?_eq_some_iff.mp hbrackets
      refine ⟨⟨t.keyText, some range⟩, rest', token?_eq_some_iff.mpr ⟨⟨ht.key, ?_⟩, ?_, nofun⟩, ?_⟩
      · rintro cs ⟨⟩
        exact hfits
      · simp [Token.written_eq, Token.rangePart, hrange]
      · simp only [List.length_cons, List.length_append]
        omega

theorem occursMaximally_iff {text before behind : List Char} {t : Token} :
    OccursMaximally text before t behind ↔
      text = before ++ t.written ++ behind ∧ token? (t.written ++ behind) = some (t, behind) := by
  constructor
  · intro h
    refine ⟨h.text_eq, token?_eq_some_iff.mpr ⟨h.wellFormed, rfl, fun hrange => ?_⟩⟩
    obtain ⟨t', behind', htoken, hle⟩ := exists_token? h.wellFormed behind
    obtain ⟨hwell, heq, hnone⟩ := token?_eq_some_iff.mp htoken
    have htext : text = before ++ t'.written ++ behind' := by
      rw [h.text_eq, List.append_assoc, heq, List.append_assoc]
    obtain ⟨-, rfl, rfl⟩ := h.maximal before t' behind' ⟨htext, hwell⟩ (Nat.le_refl _) hle
    exact hnone hrange
  · rintro ⟨rfl, htoken⟩
    have hwell := (token?_eq_some_iff.mp htoken).1
    refine ⟨⟨rfl, hwell⟩, fun before' t' behind' ⟨heq, hwell'⟩ hbefore hbehind => ?_⟩
    obtain ⟨longest, behind'', htoken', hle⟩ := exists_token? hwell' behind'
    rw [List.append_assoc, List.append_assoc] at heq
    obtain ⟨gap, rfl⟩ : before' <+: before :=
      List.prefix_of_prefix_length_le (List.prefix_append _ _) (heq ▸ List.prefix_append _ _) hbefore
    rw [List.append_assoc, List.append_cancel_left_eq] at heq
    rcases split_of_token? htoken' htoken heq.symm with ⟨rfl, rfl, rfl⟩ | ⟨between, -, rfl⟩
    · rw [List.nil_append] at heq
      obtain ⟨hwritten, rfl⟩ := List.append_inj' heq (Nat.le_antisymm hle hbehind)
      have hread := token?_written hwell
      rw [hwritten, token?_written hwell'] at hread
      cases hread
      exact ⟨(List.append_nil _).symm, rfl, rfl⟩
    · have hpos := List.length_pos_iff.mpr t.written_ne_nil
      simp only [List.length_append] at hle
      omega

/-! ## Pieces -/

def Piece.token? : Piece → Option Token
  | .char _ => none
  | .token t => some t

theorem token_locate (ps : List Piece) :
    ∀ start, (locate start ps).map (·.token) = ps.filterMap Piece.token? := by
  induction ps with
  | nil => exact fun _ => rfl
  | cons p rest ih =>
    cases p with
    | char c => exact fun start => ih _
    | token t => exact fun start => congrArg (t :: ·) (ih _)

theorem tokens_scan (s : String) :
    (scan s).map (·.token) = (pieces s.toList).filterMap Piece.token? :=
  token_locate _ 0

theorem pieces_of_token? {cs rest : List Char} {t : Token} (h : token? cs = some (t, rest)) :
    pieces cs = .token t :: pieces rest := by
  rw [pieces]
  split
  · rename_i htoken
    cases h.symm.trans htoken
    rfl
  · rename_i hnone
    cases h.symm.trans hnone

theorem pieces_nil : pieces [] = [] := by
  rw [pieces]
  rfl

theorem pieces_of_soleToken? {s : String} {t : Token} (h : soleToken? s = some t) :
    pieces s.toList = [.token t] := by
  unfold soleToken? at h
  split at h
  · rename_i htoken
    cases h
    rw [pieces_of_token? htoken, pieces_nil]
  · cases h

theorem mem_locate_pieces {cs : List Char} {start first stop : Nat} {u : Token} :
    ⟨u, first, stop⟩ ∈ locate start (pieces cs) ↔
      ∃ before behind, OccursMaximally cs before u behind ∧
        first = start + octets before ∧ stop = start + octets (before ++ u.written) := by
  simp only [occursMaximally_iff]
  fun_induction pieces cs generalizing start with
  | case1 cs t rest h ih =>
    obtain ⟨hwell, rfl, -⟩ := token?_eq_some_iff.mp h
    rw [locate, List.mem_cons, ih]
    constructor
    · rintro (heq | ⟨before, behind, ⟨rfl, hu⟩, rfl, rfl⟩)
      · cases heq
        exact ⟨[], rest, ⟨rfl, h⟩, rfl, rfl⟩
      · refine ⟨t.written ++ before, behind, ⟨by simp, hu⟩, ?_, ?_⟩ <;>
          simp [octets_append, Nat.add_assoc]
    · rintro ⟨before, behind, ⟨hcs, hu⟩, rfl, rfl⟩
      rw [List.append_assoc] at hcs
      rcases split_of_token? h hu hcs with ⟨rfl, rfl, rfl⟩ | ⟨between, rfl, rfl⟩
      · exact .inl rfl
      · refine .inr ⟨between, behind, ⟨by simp, hu⟩, ?_, ?_⟩ <;>
          simp [octets_append, Nat.add_assoc]
  | case2 =>
    rw [locate]
    refine ⟨fun h => absurd h List.not_mem_nil, ?_⟩
    rintro ⟨before, behind, ⟨hcs, -⟩, -⟩
    exact absurd hcs.symm (by simp [u.written_ne_nil])
  | case3 c rest h ih =>
    rw [locate, ih]
    constructor
    · rintro ⟨before, behind, ⟨rfl, hu⟩, rfl, rfl⟩
      exact ⟨c :: before, behind, ⟨rfl, hu⟩, by simp [octets, Nat.add_assoc],
        by simp [octets, Nat.add_assoc]⟩
    · rintro ⟨before, behind, ⟨hcs, hu⟩, rfl, rfl⟩
      cases before with
      | nil =>
        rw [hcs, List.nil_append, hu] at h
        cases h
      | cons c' before =>
        rw [List.cons_append, List.cons_append, List.cons.injEq] at hcs
        obtain ⟨rfl, rfl⟩ := hcs
        exact ⟨before, behind, ⟨rfl, hu⟩, by simp [octets, Nat.add_assoc],
          by simp [octets, Nat.add_assoc]⟩

theorem locate_pairwise (ps : List Piece) :
    ∀ start, (locate start ps).Pairwise (fun a b => a.stop ≤ b.start) ∧
      ∀ l ∈ locate start ps, start ≤ l.start := by
  induction ps with
  | nil => exact fun start => ⟨.nil, nofun⟩
  | cons p rest ih =>
    intro start
    cases p with
    | char c =>
      obtain ⟨hpairs, hstarts⟩ := ih (start + c.utf8Size)
      exact ⟨hpairs, fun l hl => Nat.le_trans (Nat.le_add_right _ _) (hstarts l hl)⟩
    | token t =>
      obtain ⟨hpairs, hstarts⟩ := ih (start + octets t.written)
      refine ⟨.cons hstarts hpairs, fun l hl => ?_⟩
      rcases List.mem_cons.mp hl with rfl | hl
      · exact Nat.le_refl _
      · exact Nat.le_trans (Nat.le_add_right _ _) (hstarts l hl)

/-! ## Texts -/

theorem soleToken?_eq_some_iff {s : String} {t : Token} :
    soleToken? s = some t ↔ OccursMaximally s.toList [] t [] := by
  rw [occursMaximally_iff, List.nil_append, List.append_nil, soleToken?]
  constructor
  · intro h
    split at h
    · rename_i u htoken
      cases h
      obtain ⟨-, heq, -⟩ := token?_eq_some_iff.mp htoken
      rw [List.append_nil] at heq
      exact ⟨heq, heq ▸ htoken⟩
    · cases h
  · rintro ⟨heq, htoken⟩
    rw [heq, htoken]

theorem containsToken_iff {cs : List Char} :
    containsToken cs = true ↔ ∃ before t behind, OccursMaximally cs before t behind := by
  simp only [occursMaximally_iff]
  induction cs with
  | nil =>
    refine ⟨nofun, ?_⟩
    rintro ⟨before, t, behind, hcs, -⟩
    exact absurd hcs.symm (by simp [t.written_ne_nil])
  | cons c rest ih =>
    rw [containsToken, Bool.or_eq_true, Option.isSome_iff_exists, ih]
    constructor
    · rintro (⟨⟨t, behind⟩, htoken⟩ | ⟨before, t, behind, rfl, htoken⟩)
      · have heq := (token?_eq_some_iff.mp htoken).2.1
        exact ⟨[], t, behind, heq, heq ▸ htoken⟩
      · exact ⟨c :: before, t, behind, rfl, htoken⟩
    · rintro ⟨before, t, behind, hcs, htoken⟩
      cases before with
      | nil => exact .inl ⟨(t, behind), by rw [hcs, List.nil_append, htoken]⟩
      | cons c' before =>
        rw [List.cons_append, List.cons_append, List.cons.injEq] at hcs
        exact .inr ⟨before, t, behind, hcs.2, htoken⟩

theorem mem_scan_iff {s : String} {t : Token} {start stop : Nat} :
    ⟨t, start, stop⟩ ∈ scan s ↔
      ∃ before behind, OccursMaximally s.toList before t behind ∧
        start = (String.ofList before).utf8ByteSize ∧
        stop = (String.ofList (before ++ t.written)).utf8ByteSize := by
  simp only [scan, mem_locate_pieces, Text.utf8ByteSize_ofList, Nat.zero_add]

theorem extract_toByteArray (before inner behind : String) :
    (before ++ inner ++ behind).toByteArray.extract before.utf8ByteSize
      (before ++ inner).utf8ByteSize = inner.toByteArray := by
  rw [String.toByteArray_append, ByteArray.extract_append]
  simp [ByteArray.extract_append_eq_right]

theorem Token.isTrimmed_key (t : Token) : Text.IsTrimmed t.keyText t.key.toList := by
  rw [Token.key, String.toList_ofList]
  exact Text.isTrimmed_trimmed _

theorem Token.isTrimmed_range (t : Token) :
    Option.Rel (fun cs range => Text.IsTrimmed cs range.toList) t.rangeText t.range := by
  rw [Token.range]
  cases t.rangeText with
  | none => exact .none
  | some cs =>
    refine .some ?_
    rw [String.toList_ofList]
    exact Text.isTrimmed_trimmed cs

theorem scan_ne_nil_iff {s : String} :
    scan s ≠ [] ↔ ∃ before t behind, OccursMaximally s.toList before t behind := by
  constructor
  · intro hne
    obtain ⟨⟨t, start, stop⟩, hl⟩ := List.exists_mem_of_ne_nil _ hne
    obtain ⟨before, behind, h, -⟩ := mem_scan_iff.mp hl
    exact ⟨before, t, behind, h⟩
  · rintro ⟨before, t, behind, h⟩
    exact List.ne_nil_of_mem (mem_scan_iff.mpr ⟨before, behind, h, rfl, rfl⟩)

/-- **The tokens found in a text are exactly those that stand in it and that no other one covers**,
one behind the other, each with the octets that it takes up there, its key and its range trimmed. One
of them makes up the whole text exactly if it is found as its sole token, and there are none exactly
if no token starts anywhere. -/
theorem scan_occurrences (s : String) :
    (∀ t start stop, ⟨t, start, stop⟩ ∈ scan s ↔
        ∃ before behind, OccursMaximally s.toList before t behind ∧
          start = (String.ofList before).utf8ByteSize ∧
          stop = (String.ofList (before ++ t.written)).utf8ByteSize) ∧
      (scan s).Pairwise (fun a b => a.stop ≤ b.start) ∧
      (∀ l ∈ scan s, l.start < l.stop ∧
        s.toByteArray.extract l.start l.stop = (String.ofList l.token.written).toByteArray ∧
        Text.IsTrimmed l.token.keyText l.token.key.toList ∧
        Option.Rel (fun cs range => Text.IsTrimmed cs range.toList) l.token.rangeText
          l.token.range) ∧
      (∀ t, soleToken? s = some t ↔ OccursMaximally s.toList [] t []) ∧
      (containsToken s.toList = true ↔ scan s ≠ []) := by
  refine ⟨fun _ _ _ => mem_scan_iff, (locate_pairwise _ 0).1,
    fun ⟨t, start, stop⟩ hl => ⟨?_, ?_, t.isTrimmed_key, t.isTrimmed_range⟩,
    fun _ => soleToken?_eq_some_iff, containsToken_iff.trans scan_ne_nil_iff.symm⟩
  · obtain ⟨before, behind, -, rfl, rfl⟩ := mem_scan_iff.mp hl
    have hpos := Char.utf8Size_pos 'd'
    simp only [Text.utf8ByteSize_ofList, octets_append, Token.written_eq, octets]
    omega
  · obtain ⟨before, behind, hoccurs, rfl, rfl⟩ := mem_scan_iff.mp hl
    have htext : s = String.ofList before ++ String.ofList t.written ++ String.ofList behind := by
      rw [← String.ofList_append, ← String.ofList_append, ← hoccurs.text_eq, String.ofList_toList]
    rw [String.ofList_append, htext]
    exact extract_toByteArray _ _ _

end Montage.Reference
