import Montage.Proofs.Script.Cursor.Header
import Montage.Proofs.Script.Grammar.Sound

/-!
# Following an expression

The productions of an expression are followed call by call. Where an expression begins inside of
another one, either tokens have been taken since the other one began, or none has and the sort of
expression is a tighter one. So between two tokens the calls go down at most from the elements of a
list to a primary expression, by way of the seven levels of operands, and these are 13 calls. With
13 units of fuel for each token left, and a few more by the sort of what is read, no call is short.
-/

namespace Montage.Script

namespace Cursor

variable {stop : Nat} {all : List Token}

theorem Frame.inside_of_lt {outer : Frame} {level : Level} {i : Nat} (h : outer.start < i) :
    Frame.Inside ⟨level, i⟩ outer := .inl h

theorem Frame.inside_of_tighter {outer level : Level} (h : level.looseness < outer.looseness)
    (i : Nat) : Frame.Inside ⟨level, i⟩ ⟨outer, i⟩ := .inr ⟨rfl, h⟩

theorem nextUnary?_eq (ts : List Token) :
    nextUnary? ts =
      match take? (.sign .minus) ts with
      | some minus => some (minus.map fun _ => .neg)
      | none => (take? (.sign .bang) ts).map fun bang => bang.map fun _ => .not := by
  rcases ts with _ | ⟨⟨k, _, _⟩, ts⟩
  · rfl
  · cases k with
    | sign s => cases s <;> rfl
    | _ => rfl

theorem next?_ne {k : Token.Kind} {ts : List Token}
    (h : ∀ start last rest, ts = ⟨k, start, last⟩ :: rest → False) : next? ts ≠ some k := by
  intro hnext
  rcases ts with _ | ⟨⟨_, start, last⟩, rest⟩
  · cases hnext
  · cases hnext
    exact h start last rest rfl

mutual

theorem follows_expression {fuel i : Nat} {outer : Frame} {ts : List Token} (h : Stands all i ts)
    (houter : Frame.Inside ⟨.expression, i⟩ outer) (hfuel : 13 * ts.length + 10 < fuel) :
    Follows all ofParsed (expression (marksOf stop all) fuel outer) i (expr stop ts) := by
  obtain ⟨left, hleft⟩ := Nat.exists_eq_add_one.mpr (Nat.zero_lt_of_lt hfuel)
  rw [hleft, expression, expr]
  refine (reaches_descend houter).follows ?_
  refine (follows_arrowParams? h (by omega)).bind fun header j hj => ?_
  cases header with
  | some names =>
    have := names.shorter
    replace hj : Stands all j names.rest := hj
    have hinside : Frame.Inside ⟨.expression, j⟩ ⟨.expression, i⟩ :=
      Frame.inside_of_lt (h.lt hj names.shorter)
    exact (follows_expression hj hinside (by omega)).andThen fun body k hk => follows_pure hk
  | none =>
    obtain rfl := h.unique hj
    have hternary : Frame.Inside ⟨.ternary, i⟩ ⟨.expression, i⟩ :=
      Frame.inside_of_tighter (Nat.lt_succ_self _) i
    have hoperand : Frame.Inside ⟨.operand levels, i⟩ ⟨.ternary, i⟩ :=
      Frame.inside_of_tighter (Nat.lt_succ_self _) i
    obtain ⟨left, rfl⟩ := Nat.exists_eq_add_one.mpr (show 0 < left by omega)
    change Follows all ofParsed (ternary (marksOf stop all) (left + 1) ⟨.expression, i⟩) i _
    rw [ternary]
    refine (reaches_descend hternary).follows ?_
    have hlevels : levels = 6 := rfl
    refine (follows_operand h hoperand (by omega)).andThen fun condition j hj => ?_
    have := condition.shorter
    refine follows_consume hj (fun question k hquestion hk => ?_) (fun hquestion => ?_)
    · have := question.shorter
      rw [hquestion]
      have hyes : Frame.Inside ⟨.expression, k⟩ ⟨.ternary, i⟩ :=
        Frame.inside_of_lt (h.lt hk (by omega))
      refine (follows_expression hk hyes (by omega)).andThen fun yes l hl => ?_
      have := yes.shorter
      refine (follows_expect _ hl).andThen fun colon m hm => ?_
      have := colon.shorter
      have hno : Frame.Inside ⟨.expression, m⟩ ⟨.ternary, i⟩ :=
        Frame.inside_of_lt (h.lt hm (by omega))
      exact (follows_expression hm hno (by omega)).andThen fun no n hn => follows_pure hn
    · rw [hquestion]
      exact follows_pure hj
termination_by fuel

theorem follows_operand {fuel level i : Nat} {outer : Frame} {ts : List Token} (h : Stands all i ts)
    (houter : Frame.Inside ⟨.operand level, i⟩ outer) (hfuel : 13 * ts.length + level + 2 < fuel) :
    Follows all ofParsed (operand (marksOf stop all) fuel outer level) i
      (Script.operand stop level ts) := by
  obtain ⟨left, hleft⟩ := Nat.exists_eq_add_one.mpr (Nat.zero_lt_of_lt hfuel)
  rw [hleft]
  cases level with
  | zero =>
    rw [operand, Script.operand, nextUnary?_eq]
    refine (reaches_descend houter).follows ?_
    refine follows_consume h (fun minus j hminus hj => ?_) (fun hminus => ?_)
    · have := minus.shorter
      rw [hminus]
      have hinside : Frame.Inside ⟨.operand 0, j⟩ ⟨.operand 0, i⟩ :=
        Frame.inside_of_lt (h.lt hj minus.shorter)
      exact (follows_operand hj hinside (by omega)).andThen fun e k hk => follows_pure hk
    rw [hminus]
    refine follows_consume h (fun bang j hbang hj => ?_) (fun hbang => ?_)
    · have := bang.shorter
      rw [hbang]
      have hinside : Frame.Inside ⟨.operand 0, j⟩ ⟨.operand 0, i⟩ :=
        Frame.inside_of_lt (h.lt hj bang.shorter)
      exact (follows_operand hj hinside (by omega)).andThen fun e k hk => follows_pure hk
    · obtain ⟨left, rfl⟩ := Nat.exists_eq_add_one.mpr (show 0 < left by omega)
      rw [hbang, chain]
      have hchain : Frame.Inside ⟨.chain, i⟩ ⟨.operand 0, i⟩ :=
        Frame.inside_of_tighter (Nat.lt_succ_self _) i
      have hprimary : Frame.Inside ⟨.primary, i⟩ ⟨.chain, i⟩ :=
        Frame.inside_of_tighter (Nat.lt_succ_self _) i
      refine (reaches_descend hchain).follows ?_
      refine (follows_primary h hprimary (by omega)).andThen fun e j hj => ?_
      have := e.shorter
      exact (follows_links hj (h.le hj (Nat.le_of_lt e.shorter)) (by omega)).yield
  | succ level =>
    rw [operand, Script.operand]
    refine (reaches_descend houter).follows ?_
    have hinside : Frame.Inside ⟨.operand level, i⟩ ⟨.operand (level + 1), i⟩ :=
      Frame.inside_of_tighter (Nat.lt_succ_self _) i
    refine (follows_operand h hinside (by omega)).andThen fun first j hj => ?_
    have := first.shorter
    exact (follows_operators hj (h.le hj (Nat.le_of_lt first.shorter)) (by omega)).yield
termination_by fuel

theorem follows_operators {fuel level i : Nat} {here : Frame} {first : Expr} {ts : List Token}
    (h : Stands all i ts) (hhere : here.start ≤ i) (hfuel : 13 * ts.length + level < fuel) :
    Follows all ofContinued (operators (marksOf stop all) fuel here level first) i
      (Script.operators stop level first ts) := by
  obtain ⟨left, hleft⟩ := Nat.exists_eq_add_one.mpr (Nat.zero_lt_of_lt hfuel)
  rw [hleft, operators, Script.operators]
  refine (reaches_index i).follows ?_
  obtain ⟨j, hj, hoperator⟩ := follows_operator? stop level h
  refine hoperator.follows ?_
  generalize nextOperator? level ts = next at hj
  cases next with
  | some op =>
    have := op.shorter
    replace hj : Stands all j op.rest := hj
    have hinside : Frame.Inside ⟨.operand level, j⟩ here :=
      Frame.inside_of_lt (Nat.lt_of_le_of_lt hhere (h.lt hj op.shorter))
    refine (follows_operand hj hinside (by omega)).andThen fun right k hk => ?_
    have := right.shorter
    have hturn : i < k := h.lt hk (by omega)
    refine (reaches_turned hturn).follows ?_
    exact (follows_operators hk (by omega) (by omega)).yield
  | none => exact follows_pure (v := ofContinued) hj
termination_by fuel

theorem follows_links {fuel i : Nat} {here : Frame} {e : Expr} {ts : List Token}
    (h : Stands all i ts) (hhere : here.start ≤ i) (hfuel : 13 * ts.length < fuel) :
    Follows all ofContinued (links (marksOf stop all) fuel here e) i (postfixes stop e ts) := by
  obtain ⟨left, hleft⟩ := Nat.exists_eq_add_one.mpr (Nat.zero_lt_of_lt hfuel)
  rw [hleft, links]
  refine (reaches_index i).follows ?_
  generalize hr : postfixes stop e ts = r
  rw [postfixes.eq_def] at hr
  split at hr <;> subst hr
  next start last tail =>
    rw [List.length_cons] at hfuel
    obtain ⟨j, hj, hdot⟩ := reaches_consume_cons stop h
    refine hdot.ifTrue ?_
    refine (follows_propertyName hj).andThen fun name k hk => ?_
    have := name.shorter
    have hturn : i < k := h.lt hk (by rw [List.length_cons]; omega)
    refine (reaches_turned hturn).follows ?_
    exact (follows_links hk (by omega) (by omega)).yield
  next start last tail =>
    rw [List.length_cons] at hfuel
    obtain ⟨j, hj, hdot⟩ := reaches_consume_cons stop h
    refine (reaches_consume_other h (by simp)).ifFalse (hdot.ifTrue ?_)
    refine (follows_propertyName hj).andThen fun name k hk => ?_
    have := name.shorter
    have hturn : i < k := h.lt hk (by rw [List.length_cons]; omega)
    refine (reaches_turned hturn).follows ?_
    exact (follows_links hk (by omega) (by omega)).yield
  next start last tail =>
    rw [List.length_cons] at hfuel
    obtain ⟨j, hj, hbracket⟩ := reaches_consume_cons stop h
    refine (reaches_consume_other h (by simp)).ifFalse ?_
    refine (reaches_consume_other h (by simp)).ifFalse (hbracket.ifTrue ?_)
    have hinside : Frame.Inside ⟨.expression, j⟩ here :=
      Frame.inside_of_lt (Nat.lt_of_le_of_lt hhere (h.lt hj (Nat.lt_succ_self _)))
    refine (follows_expression hj hinside (by omega)).andThen fun index k hk => ?_
    have := index.shorter
    refine (follows_expect _ hk).andThen fun close l hl => ?_
    have := close.shorter
    have hturn : i < l := h.lt hl (by rw [List.length_cons]; omega)
    refine (reaches_turned hturn).follows ?_
    exact (follows_links hl (by omega) (by omega)).yield
  next start last tail =>
    rw [List.length_cons] at hfuel
    obtain ⟨j, hj, hbump⟩ := reaches_bump stop h
    replace hj : Stands all j tail := hj
    refine (reaches_consume_other h (by simp)).ifFalse ?_
    refine (reaches_consume_other h (by simp)).ifFalse ?_
    refine (reaches_consume_other h (by simp)).ifFalse ?_
    refine (reaches_peek h).follows ?_
    rw [if_pos (by rfl)]
    refine hbump.follows ?_
    have hlt : here.start < j := Nat.lt_of_le_of_lt hhere (h.lt hj (Nat.lt_succ_self _))
    refine (follows_elements .argument [] hj hlt (by omega)).bind fun args k hk => ?_
    have := args.shorter
    replace hk : Stands all k args.rest := hk
    -- what is called must be a name, which shows only behind the arguments
    cases e with
    | name function =>
      have hturn : i < k := h.lt hk (by rw [List.length_cons]; exact Nat.lt_succ_of_lt this)
      refine (reaches_turned hturn).follows ?_
      exact (follows_links hk (by omega) (by omega)).yield
    | _ => exact follows_refuse hk.1
  next hdot hoptionalDot hbracket hparen =>
    refine (reaches_consume_other h (next?_ne hdot)).ifFalse ?_
    refine (reaches_consume_other h (next?_ne hoptionalDot)).ifFalse ?_
    refine (reaches_consume_other h (next?_ne hbracket)).ifFalse ?_
    refine (reaches_peek h).follows ?_
    rw [if_neg (show (mark stop ts).kind ≠ _ from next?_ne hparen)]
    exact follows_pure h
termination_by fuel

theorem follows_primary {fuel i : Nat} {outer : Frame} {ts : List Token} (h : Stands all i ts)
    (houter : Frame.Inside ⟨.primary, i⟩ outer) (hfuel : 13 * ts.length < fuel) :
    Follows all ofParsed (primary (marksOf stop all) fuel outer) i (Script.primary stop ts) := by
  obtain ⟨left, hleft⟩ := Nat.exists_eq_add_one.mpr (Nat.zero_lt_of_lt hfuel)
  rw [hleft, primary, Script.primary.eq_def]
  obtain ⟨j, hj, hbump⟩ := reaches_bump stop h
  refine (reaches_descend houter).follows (hbump.follows ?_)
  rcases ts with _ | ⟨⟨k, start, last⟩, tail⟩
  · exact follows_refuse hj.1
  rw [List.length_cons] at hfuel
  replace hj : Stands all j tail := hj
  have hlt : i < j := h.lt hj (Nat.lt_succ_self _)
  cases k with
  | number x => exact follows_pure hj
  | text s => exact follows_pure hj
  | name s => exact follows_pure hj
  | word w =>
    cases w with
    | trueWord => exact follows_pure hj
    | falseWord => exact follows_pure hj
    | nullWord => exact follows_pure hj
    | _ => exact follows_refuse hj.1
  | sign s =>
    cases s with
    | openParen =>
      refine (follows_expression hj (Frame.inside_of_lt hlt) (by omega)).andThen fun e k hk => ?_
      exact (follows_expect _ hk).andThen fun close l hl => follows_pure hl
    | openBracket =>
      exact (follows_elements .item [] hj hlt (by omega)).bind fun items k hk =>
        follows_pure hk
    | openBrace =>
      exact (follows_elements .entry [] hj hlt (by omega)).bind fun entries k hk =>
        follows_pure hk
    | _ => exact follows_refuse hj.1
termination_by fuel

theorem follows_element {fuel i : Nat} {here : Frame} {e : Element} {ts : List Token}
    (h : Stands all i ts) (hhere : here.start < i) (hfuel : 13 * ts.length + 11 < fuel) :
    Follows all ofParsed (element (marksOf stop all) fuel here e) i (e.parse stop ts) := by
  obtain ⟨left, hleft⟩ := Nat.exists_eq_add_one.mpr (Nat.zero_lt_of_lt hfuel)
  rw [hleft]
  have hinside : Frame.Inside ⟨.expression, i⟩ here := Frame.inside_of_lt hhere
  cases e with
  | argument =>
    rw [element]
    exact follows_expression h hinside (by omega)
  | item =>
    rw [element, Element.parse, listItem]
    refine follows_consume h (fun dots j hdots hj => ?_) (fun hdots => ?_)
    · have := dots.shorter
      have hinside : Frame.Inside ⟨.expression, j⟩ here :=
        Frame.inside_of_lt (Nat.lt_trans hhere (h.lt hj dots.shorter))
      rw [hdots]
      exact (follows_expression hj hinside (by omega)).andThen fun e k hk => follows_pure hk
    · rw [hdots]
      exact (follows_expression h hinside (by omega)).andThen fun e k hk => follows_pure hk
  | entry =>
    rw [element, Element.parse, objectEntry]
    refine follows_consume h (fun dots j hdots hj => ?_) (fun hdots => ?_)
    · have := dots.shorter
      have hinside : Frame.Inside ⟨.expression, j⟩ here :=
        Frame.inside_of_lt (Nat.lt_trans hhere (h.lt hj dots.shorter))
      rw [hdots]
      exact (follows_expression hj hinside (by omega)).andThen fun e k hk => follows_pure hk
    · rw [hdots]
      refine (follows_objectKey h).andThen fun ⟨⟨x, alone⟩, rest, hshorter⟩ j hj => ?_
      refine (reaches_peek hj).follows ?_
      change Follows all ofParsed
        (if alone && endsMember rest then pure (Entry.field x (.name x))
        else do
          expect (marksOf stop all) (some (.sign .colon))
          return Entry.field x (← expression (marksOf stop all) left here)) j
        (if alone && endsMember rest then _ else _)
      split
      next => exact follows_pure hj
      next =>
        refine (follows_expect _ hj).andThen fun colon k hk => ?_
        have hshorter : colon.rest.length < ts.length := Nat.lt_trans colon.shorter hshorter
        have hinside : Frame.Inside ⟨.expression, k⟩ here :=
          Frame.inside_of_lt (Nat.lt_trans hhere (h.lt hk hshorter))
        exact (follows_expression hk hinside (by omega)).andThen fun e l hl => follows_pure hl
termination_by fuel

theorem follows_elements {fuel i : Nat} {here : Frame} (e : Element) (done : List e.Tree)
    {ts : List Token} (h : Stands all i ts) (hhere : here.start < i)
    (hfuel : 13 * ts.length + 12 < fuel) :
    Follows all (fun p => (done ++ p.tree, p.rest)) (elements (marksOf stop all) fuel here e done) i
      (e.parseAll stop ts) := by
  obtain ⟨left, hleft⟩ := Nat.exists_eq_add_one.mpr (Nat.zero_lt_of_lt hfuel)
  rw [hleft, elements, Element.parseAll_eq]
  refine (reaches_index i).follows ?_
  refine follows_consume h (fun close j hclose hj => ?_) (fun hclose => ?_)
  · rw [hclose]
    refine ⟨j, hj, ?_⟩
    change Reaches all (pure done) j (done ++ []) j
    rw [List.append_nil]
    exact reaches_pure done j
  rw [hclose]
  refine (follows_element h hhere (by omega)).andThen fun first j hj => ?_
  have := first.shorter
  refine follows_consume hj (fun comma k hcomma hk => ?_) (fun hcomma => ?_)
  · have := comma.shorter
    rw [hcomma]
    have hturn : i < k := h.lt hk (by omega)
    refine (reaches_turned hturn).follows (Follows.yield ?_)
    have hmore := follows_elements e (done ++ [first.tree]) hk (Nat.lt_trans hhere hturn)
      (show 13 * comma.rest.length + 12 < left by omega)
    simp only [List.append_assoc, List.singleton_append] at hmore
    exact hmore
  · rw [hcomma]
    exact (follows_expect _ hj).andThen fun close k hk => follows_pure hk
termination_by fuel

end

end Cursor

end Montage.Script
