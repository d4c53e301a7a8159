import Mathlib
import Montage.Proofs.Script.Cursor.Expressions

/-!
# The parser ends inside of its tokens

With the expressions followed, the rest of a function is followed the same way. So the parser with a
cursor ends on the tokens of every source, with what the parser yields that is handed the tokens
left, and its record is proper.
-/

namespace Montage.Script

namespace Cursor

variable {stop : Nat} {all ts : List Token} {i : Nat}

theorem inside_wholeFunction (i : Nat) : Frame.Inside ⟨.expression, i⟩ wholeFunction := by
  rcases Nat.eq_zero_or_pos i with rfl | hi
  · exact Frame.inside_of_tighter (Nat.lt_succ_self _) 0
  · exact Frame.inside_of_lt hi

theorem follows_bindings {fuel : Nat} (done : List (String × Expr)) (h : Stands all i ts)
    (hfuel : 13 * ts.length < fuel) :
    Follows all (fun p => (done ++ p.tree, p.rest)) (bindings (marksOf stop all) fuel done) i
      (Script.bindings stop ts) := by
  induction fuel generalizing done i ts with
  | zero => exact absurd hfuel (Nat.not_lt_zero _)
  | succ fuel ih =>
    rw [bindings, Script.bindings]
    refine (reaches_index i).follows ?_
    refine follows_consume h (fun word j hword hj => ?_) (fun hword => ?_)
    · have := word.shorter
      rw [hword]
      refine (follows_expectName .binding hj).andThen fun name k hk => ?_
      have := name.shorter
      refine (follows_expect _ hk).andThen fun assign l hl => ?_
      have := assign.shorter
      have hinside := inside_wholeFunction l
      refine (follows_expression hl hinside (by omega)).andThen fun value m hm => ?_
      have := value.shorter
      have := (skipSemicolon value.rest).notLonger
      obtain ⟨_, n, hn, hsemicolon⟩ := reaches_skipSemicolon stop hm
      refine hsemicolon.follows ?_
      have hturn : i < n := h.lt hn (by omega)
      refine (reaches_turned hturn).follows (Follows.yield ?_)
      have hmore := ih (done ++ [(name.tree, value.tree)]) hn (by omega)
      simp only [List.append_assoc, List.singleton_append] at hmore
      exact hmore
    · rw [hword]
      refine ⟨i, h, ?_⟩
      change Reaches all (pure done) i (done ++ []) i
      rw [List.append_nil]
      exact reaches_pure done i

theorem follows_block {fuel : Nat} (h : Stands all i ts) (hfuel : 13 * ts.length < fuel) :
    Follows all id (block (marksOf stop all) fuel) i (Script.block stop ts) := by
  refine (follows_expect _ h).andThen fun brace j hj => ?_
  have := brace.shorter
  refine (follows_bindings [] hj (by omega)).bind fun lets k hk => ?_
  have := lets.notLonger
  replace hk : Stands all k lets.rest := hk
  refine (follows_expect _ hk).andThen fun word l hl => ?_
  have := word.shorter
  have hinside := inside_wholeFunction l
  refine (follows_expression hl hinside (by omega)).andThen fun result m hm => ?_
  obtain ⟨_, n, hn, hsemicolon⟩ := reaches_skipSemicolon stop hm
  refine hsemicolon.follows ?_
  exact (follows_expect _ hn).andThen fun close o ho => follows_pure (v := id) ho

theorem startsBlock_eq (ts : List Token) :
    Script.startsBlock ts =
      decide (next? ts = some (.sign .openBrace) ∧
        (next? ts.tail = some (.word .letWord) ∨ next? ts.tail = some (.word .returnWord))) := by
  unfold Script.startsBlock
  split
  next => rfl
  next => rfl
  next hlet hreturn =>
    refine (decide_eq_false ?_).symm
    rintro ⟨hbrace, hword⟩
    rcases ts with _ | ⟨⟨_, _, _⟩, _ | ⟨⟨_, _, _⟩, _⟩⟩
    · cases hbrace
    · rcases hword with hword | hword <;> cases hword
    · cases hbrace
      rcases hword with hword | hword <;> cases hword
      · exact hlet _ _ _ _ _ rfl
      · exact hreturn _ _ _ _ _ rfl

theorem sees_startsBlock (stop : Nat) (h : Stands all i ts) :
    Sees (startsBlock (marksOf stop all)) i (Script.startsBlock ts) := by
  have hnext := sees_peekAhead stop h 1
  rw [List.drop_one] at hnext
  rw [startsBlock_eq]
  exact (sees_peek h).bind (hnext.bind (sees_pure _ i))

theorem follows_function {fuel : Nat} (h : Stands all i ts) (hfuel : 13 * ts.length < fuel) :
    Follows all id (function (marksOf stop all) fuel) i (functionHead stop ts) := by
  generalize hr : functionHead stop ts = r
  rw [function]
  refine (reaches_peek h).follows ?_
  unfold functionHead at hr
  split at hr <;> subst hr
  next start last tail =>
    obtain ⟨j, hj, hbump⟩ := reaches_bump stop h
    rw [if_pos (by rfl)]
    refine hbump.follows ?_
    rw [List.length_cons] at hfuel
    replace hj : Stands all j tail := hj
    refine (follows_expect _ hj).andThen fun paren k hk => ?_
    have := paren.shorter
    refine (follows_parameterList hk (by omega)).andThen fun names l hl => ?_
    have := names.shorter
    refine (reaches_peek hl).follows ?_
    change Follows all id (if next? names.rest = some (.sign .openBrace) then _ else _) l _
    split
    next => exact (follows_block hl (by omega)).bind fun body m hm => follows_pure (v := id) hm
    next => exact follows_refuse hl.1
  next hfunction =>
    have hname : (mark stop ts).kind ≠ some (.name "function") := next?_ne hfunction
    rw [if_neg hname]
    refine (follows_arrowParams? h (by omega)).bind fun names j hj => ?_
    cases names with
    | none => exact follows_refuse hj.1
    | some names =>
      have := names.shorter
      replace hj : Stands all j names.rest := hj
      have hstarts := (sees_startsBlock stop hj).reaches all
      change Follows all id (startsBlock (marksOf stop all) >>= _) j
        (if Script.startsBlock names.rest then _ else _)
      split
      next hblock =>
        rw [hblock] at hstarts
        refine hstarts.ifTrue ?_
        exact (follows_block hj (by omega)).bind fun body k hk => follows_pure (v := id) hk
      next hblock =>
        rw [Bool.not_eq_true] at hblock
        rw [hblock] at hstarts
        refine hstarts.ifFalse ?_
        have hinside := inside_wholeFunction j
        refine (follows_expression hj hinside (by omega)).andThen fun result k hk => ?_
        exact follows_pure (v := id) hk

theorem follows_preset {fuel : Nat} (stop : Nat) (h : Stands all i ts)
    (hfuel : 13 * ts.length < fuel) :
    Follows all (fun f => (f, [])) (preset (marksOf stop all) fuel) i (parseTokens stop ts) := by
  refine (follows_function h hfuel).bind fun ⟨f, rest⟩ j hj => ?_
  replace hj : Stands all j rest := hj
  obtain ⟨_, k, hk, hsemicolon⟩ := reaches_skipSemicolon stop hj
  refine hsemicolon.follows ?_
  dsimp only [id]
  generalize (skipSemicolon rest).rest = left at hk
  cases left with
  | nil =>
    obtain ⟨l, hl, hend⟩ := reaches_expect_end stop hk
    exact ⟨l, hl, hend.bind (reaches_pure f l)⟩
  | cons t rest => exact (refuses_expect_end hk).bind

/-! ## Sources -/

/-- **The parser ends inside of its tokens.** On the tokens of any source the parser with a cursor
ends, with the function or the error that `parse` yields. Its calls are nested at most 13 deep for
each token, the end of the source among them. The cursor never leaves the tokens; every turn of a
loop takes a token if another turn follows; and every expression that begins inside of another one
begins behind the start of that one, or is of a tighter sort. Looking ahead for an arrow function
ends wherever the cursor stands, and changes nothing. -/
theorem preset_ends {source : String} {ts : List Token} (hlex : lex source = .ok ts) :
    (∀ fuel ≥ 13 * (marksOf source.utf8ByteSize ts).length, ∃ s,
      (preset (marksOf source.utf8ByteSize ts) fuel).exec ⟨0, []⟩ =
        some ((parse source).mapError .refused, s) ∧
      s.index < (marksOf source.utf8ByteSize ts).length ∧
      ∀ e ∈ s.events, e.Advances (marksOf source.utf8ByteSize ts).length) ∧
    ∀ fuel ≥ (marksOf source.utf8ByteSize ts).length,
      ∀ i < (marksOf source.utf8ByteSize ts).length, ∀ events,
        (looksLikeArrow (marksOf source.utf8ByteSize ts) fuel).exec ⟨i, events⟩ =
          some (.ok (Script.looksLikeArrow (ts.drop (i + 1))), ⟨i, events⟩) := by
  rw [length_marksOf]
  refine ⟨fun fuel hfuel => ?_, fun fuel hfuel i hi events => ?_⟩
  · have hparse : parse source = parseTokens source.utf8ByteSize ts := by
      rw [parse, hlex]
      rfl
    have hnothing : Sound ts [] := by simp [Sound]
    have hfollows := follows_preset source.utf8ByteSize (Stands.start ts)
      (show 13 * ts.length < fuel by omega)
    rw [hparse]
    cases hresult : parseTokens source.utf8ByteSize ts with
    | ok f =>
      rw [hresult] at hfollows
      obtain ⟨j, hj, hreaches⟩ := hfollows
      obtain ⟨events, hevents, hexec⟩ := hreaches [] hnothing
      exact ⟨_, hexec, Nat.lt_succ_of_le hj.1, hevents⟩
    | error e =>
      rw [hresult] at hfollows
      obtain ⟨s, hs, hindex, hexec⟩ := hfollows [] hnothing
      exact ⟨s, hexec, Nat.lt_succ_of_le hindex, hs⟩
  · have hstands : Stands ts i (ts.drop i) := ⟨Nat.le_of_lt_succ hi, rfl⟩
    have hlength : (ts.drop i).length < fuel := by
      rw [List.length_drop]
      omega
    rw [← List.tail_drop]
    exact sees_looksLikeArrow _ hstands hlength events

/-- In a list that is not closed the parser comes to the end of the source, where the cursor does
not move on, and refuses it. -/
theorem preset_ends_openList :
    lex "x => [x," = .ok [⟨.name "x", 0, 1⟩, ⟨.sign .arrow, 2, 4⟩, ⟨.sign .openBracket, 5, 6⟩,
      ⟨.name "x", 6, 7⟩, ⟨.sign .comma, 7, 8⟩] ∧
    ∃ s, (preset [⟨some (.name "x"), 0⟩, ⟨some (.sign .arrow), 2⟩, ⟨some (.sign .openBracket), 5⟩,
        ⟨some (.name "x"), 6⟩, ⟨some (.sign .comma), 7⟩, ⟨none, 8⟩] 78).exec ⟨0, []⟩ =
        some (.error (.refused ⟨8, .unexpected none⟩), s) ∧
      s.index < 6 ∧ ∀ e ∈ s.events, e.Advances 6 := by
  have hlex : lex "x => [x," = .ok [⟨.name "x", 0, 1⟩, ⟨.sign .arrow, 2, 4⟩,
      ⟨.sign .openBracket, 5, 6⟩, ⟨.name "x", 6, 7⟩, ⟨.sign .comma, 7, 8⟩] := by cbv
  have hparse : parse "x => [x," = .error ⟨8, .unexpected none⟩ := by cbv
  obtain ⟨s, hexec, hindex, hevents⟩ := (preset_ends hlex).1 78 (by decide)
  rw [hparse] at hexec
  exact ⟨hlex, s, hexec, hindex, hevents⟩

end Cursor

end Montage.Script
