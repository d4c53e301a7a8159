import Montage.Proofs.Script.Cursor.Steps

/-!
# Following the parameters of a function

Parameters are read with a cursor as they are from the tokens left. Whether an arrow function begins
at a parenthesis is found out by looking ahead: the loop ends, and it changes nothing.
-/

namespace Montage.Script

namespace Cursor

variable {stop : Nat} {all ts : List Token} {i : Nat}

/-! ## Looking ahead -/

theorem Stands.drop (h : Stands all i ts) (n : Nat) :
    Stands all (Nat.min (i + n) ((marksOf stop all).length - 1)) (ts.drop n) := by
  rw [length_marksOf, Nat.add_sub_cancel]
  refine ⟨Nat.min_le_right _ _, ?_⟩
  obtain ⟨-, rfl⟩ := h
  rw [List.drop_drop]
  rcases Nat.le_total (i + n) all.length with hle | hle
  · rw [Nat.min_eq_min, Nat.min_eq_left hle]
  · rw [Nat.min_eq_min, Nat.min_eq_right hle, List.drop_of_length_le hle, List.drop_length]

theorem sees_peekAhead (stop : Nat) (h : Stands all i ts) (n : Nat) :
    Sees (peekAhead (marksOf stop all) n) i (next? (ts.drop n)) :=
  (sees_index i).bind ((sees_markAt (h.drop n).mark i).bind (sees_pure _ i))

theorem looksLikeParams_eq (ts : List Token) :
    Script.looksLikeParams ts =
      match next? ts, next? ts.tail with
      | some (.name _), some (.sign .comma) => Script.looksLikeParams ts.tail.tail
      | some (.name _), some (.sign .closeParen) =>
        decide (next? ts.tail.tail = some (.sign .arrow))
      | _, _ => false := by
  rcases ts with _ | ⟨⟨k, _, _⟩, _ | ⟨⟨k', _, _⟩, ts⟩⟩
  · rfl
  · cases k <;> rfl
  · cases k with
    | name x =>
      cases k' with
      | sign s =>
        cases s with
        | closeParen =>
          rcases ts with _ | ⟨⟨k, _, _⟩, ts⟩
          · rfl
          · cases k with
            | sign s => cases s <;> rfl
            | _ => rfl
        | _ => rfl
      | _ => rfl
    | _ => rfl

theorem sees_looksLikeParams (stop : Nat) (h : Stands all i ts) {fuel n : Nat}
    (hfuel : ts.length - n < fuel) :
    Sees (looksLikeParams (marksOf stop all) fuel n) i (Script.looksLikeParams (ts.drop n)) := by
  induction fuel generalizing n with
  | zero => exact absurd hfuel (Nat.not_lt_zero _)
  | succ fuel ih =>
    rw [looksLikeParams, looksLikeParams_eq, List.tail_drop, List.tail_drop]
    refine (sees_peekAhead stop h n).bind ?_
    cases hname : next? (ts.drop n) with
    | none => exact sees_pure _ i
    | some k =>
      cases k with
      | name x =>
        refine (sees_peekAhead stop h (n + 1)).bind ?_
        have hlt : n < ts.length := by
          refine Nat.lt_of_not_le fun hle => ?_
          rw [List.drop_of_length_le hle] at hname
          cases hname
        cases next? (ts.drop (n + 1)) with
        | none => exact sees_pure _ i
        | some k =>
          cases k with
          | sign s =>
            cases s with
            | comma => exact ih (by omega)
            | closeParen => exact (sees_peekAhead stop h (n + 2)).bind (sees_pure _ i)
            | _ => exact sees_pure _ i
          | _ => exact sees_pure _ i
      | _ => exact sees_pure _ i

theorem looksLikeArrow_eq (ts : List Token) :
    Script.looksLikeArrow ts =
      match next? ts with
      | some (.sign .closeParen) => decide (next? ts.tail = some (.sign .arrow))
      | _ => Script.looksLikeParams ts := by
  rcases ts with _ | ⟨⟨k, _, _⟩, ts⟩
  · rfl
  · cases k with
    | sign s =>
      cases s with
      | closeParen =>
        rcases ts with _ | ⟨⟨k, _, _⟩, ts⟩
        · rfl
        · cases k with
          | sign s => cases s <;> rfl
          | _ => rfl
      | _ => rfl
    | _ => rfl

theorem sees_looksLikeArrow (stop : Nat) (h : Stands all i ts) {fuel : Nat}
    (hfuel : ts.length < fuel) :
    Sees (looksLikeArrow (marksOf stop all) fuel) i (Script.looksLikeArrow ts.tail) := by
  have hparams : Sees (looksLikeParams (marksOf stop all) fuel 1) i
      (Script.looksLikeParams (ts.drop 1)) := sees_looksLikeParams stop h (by omega)
  rw [List.drop_one] at hparams
  rw [looksLikeArrow, looksLikeArrow_eq]
  refine (sees_peekAhead stop h 1).bind ?_
  rw [List.drop_one]
  cases next? ts.tail with
  | none => exact hparams
  | some k =>
    cases k with
    | sign s =>
      cases s with
      | closeParen =>
        have harrow := sees_peekAhead stop h 2
        rw [← List.tail_drop, List.drop_one] at harrow
        exact harrow.bind (sees_pure _ i)
      | _ => exact hparams
    | _ => exact hparams

/-! ## Taking parameters -/

theorem follows_parameters {fuel : Nat} (seen : List String) (h : Stands all i ts)
    (hfuel : ts.length < fuel) :
    Follows all ofParsed (parameters (marksOf stop all) fuel seen) i
      (paramsFrom stop seen ts) := by
  induction fuel generalizing seen i ts with
  | zero => exact absurd hfuel (Nat.not_lt_zero _)
  | succ fuel ih =>
    rw [parameters, paramsFrom]
    refine (reaches_index i).follows ((reaches_peek h).follows ?_)
    refine (follows_expectName .parameter h).andThen fun name j hj => ?_
    split
    next => exact follows_refuse hj.1
    next =>
      refine follows_consume hj (fun comma k hcomma hk => ?_) (fun hcomma => ?_)
      · have := name.shorter
        have := comma.shorter
        rw [hcomma]
        have hturn : i < k := h.lt hk (by omega)
        exact (reaches_turned hturn).follows (ih _ hk (by omega)).yield
      · rw [hcomma]
        exact (follows_expect _ hj).andThen fun close k hk => follows_pure hk

theorem follows_parameterList {fuel : Nat} (h : Stands all i ts) (hfuel : ts.length < fuel) :
    Follows all ofParsed (parameterList (marksOf stop all) fuel) i (params stop ts) := by
  refine follows_consume h (fun close j hclose hj => ?_) (fun hclose => ?_)
  · rw [params, hclose]
    exact follows_pure hj
  · rw [params, hclose]
    exact follows_parameters [] h hfuel

theorem arrowParams?_name {x : String} {start last : Nat} (hnext : next? ts ≠ some (.sign .arrow)) :
    Script.arrowParams? stop (⟨.name x, start, last⟩ :: ts) = .ok none := by
  rcases ts with _ | ⟨⟨k, _, _⟩, ts⟩
  · rfl
  · cases k with
    | sign s =>
      cases s with
      | arrow => exact absurd rfl hnext
      | _ => rfl
    | _ => rfl

theorem follows_arrowParams? {fuel : Nat} (h : Stands all i ts) (hfuel : ts.length < fuel) :
    Follows all ofOption (arrowParams? (marksOf stop all) fuel) i
      (Script.arrowParams? stop ts) := by
  refine (reaches_peek h).follows ?_
  rcases ts with _ | ⟨⟨k, start, last⟩, ts⟩
  · exact ⟨i, h, reaches_pure _ i⟩
  obtain ⟨j, hj, hbump⟩ := reaches_bump stop h
  cases k with
  | name x =>
    have hahead : Sees (peekAhead (marksOf stop all) 1) i (next? ts) := sees_peekAhead stop h 1
    refine (hahead.reaches all).follows ?_
    by_cases hnext : next? ts = some (.sign .arrow)
    · rcases ts with _ | ⟨⟨k, start', last'⟩, ts⟩
      · cases hnext
      · cases hnext
        obtain ⟨k, hk, hbump'⟩ := reaches_bump stop hj
        refine ⟨k, hk, ?_⟩
        rw [if_pos (by rfl)]
        exact hbump.bind (hbump'.bind (reaches_pure _ k))
    · rw [if_neg hnext, arrowParams?_name hnext]
      exact ⟨i, h, reaches_pure _ i⟩
  | sign s =>
    cases s with
    | openParen =>
      have hlooks := (sees_looksLikeArrow stop h hfuel).reaches all
      rw [Script.arrowParams?]
      cases harrow : Script.looksLikeArrow ts with
      | true =>
        rw [List.tail_cons, harrow] at hlooks
        refine hlooks.ifTrue (hbump.follows ?_)
        refine (follows_parameterList hj (Nat.lt_of_succ_lt hfuel)).andThen fun names k hk => ?_
        exact (follows_expect _ hk).andThen fun arrow l hl => follows_pure hl
      | false =>
        rw [List.tail_cons, harrow] at hlooks
        exact hlooks.ifFalse ⟨i, h, reaches_pure _ i⟩
    | _ => exact ⟨i, h, reaches_pure _ i⟩
  | _ => exact ⟨i, h, reaches_pure _ i⟩

end Cursor

end Montage.Script
