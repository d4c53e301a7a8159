import Montage.Proofs.Script.Cursor.Basic
import Montage.Proofs.Script.Grammar.Tokens

/-!
# Following a parser with a cursor

The parser with a cursor and the one that is handed the tokens left are followed side by side. Where
the first is at an index, the second has the tokens from that index on; both yield the same tree or
the same error, and the record that the first keeps stays proper. This module has the rules by which
such statements are put together, and the productions of a few tokens.
-/

namespace Montage.Script

namespace Cursor

variable {α β ρ σ : Type} {stop : Nat} {all ts : List Token} {i j k : Nat} {a : α} {b : β}
  {e : SyntaxError} {x : Move α} {f : α → Move β}

/-! ## Places -/

/-- The token with which a list begins, or the end of the source. -/
def mark (stop : Nat) (ts : List Token) : Mark := ⟨next? ts, offset stop ts⟩

/-- What is left of the tokens at an index. -/
def Stands (all : List Token) (i : Nat) (ts : List Token) : Prop :=
  i ≤ all.length ∧ all.drop i = ts

theorem Stands.start (all : List Token) : Stands all 0 all := ⟨Nat.zero_le _, rfl⟩

theorem Stands.length (h : Stands all i ts) : i + ts.length = all.length := by
  obtain ⟨hi, rfl⟩ := h
  rw [List.length_drop]
  omega

theorem Stands.tail {t : Token} (h : Stands all i (t :: ts)) : Stands all (i + 1) ts := by
  have hlength := h.length
  refine ⟨by rw [List.length_cons] at hlength; omega, ?_⟩
  rw [← List.drop_drop, h.2, List.drop_one, List.tail_cons]

theorem Stands.lt {us : List Token} (h : Stands all i ts) (h' : Stands all j us)
    (hshorter : us.length < ts.length) : i < j := by
  have := h.length
  have := h'.length
  omega

theorem Stands.le {us : List Token} (h : Stands all i ts) (h' : Stands all j us)
    (hnotLonger : us.length ≤ ts.length) : i ≤ j := by
  have := h.length
  have := h'.length
  omega

theorem Stands.unique (h : Stands all i ts) (h' : Stands all j ts) : i = j := by
  have := h.length
  have := h'.length
  omega

theorem length_marksOf (stop : Nat) (all : List Token) :
    (marksOf stop all).length = all.length + 1 := by
  rw [marksOf, List.length_append, List.length_map, List.length_singleton]

theorem Stands.mark (h : Stands all i ts) : (marksOf stop all)[i]? = some (mark stop ts) := by
  obtain ⟨hi, rfl⟩ := h
  rw [marksOf, ← Nat.add_zero i, ← List.getElem?_drop, Nat.add_zero,
    List.drop_append_of_le_length (by simpa using hi), ← List.map_drop]
  cases all.drop i <;> rfl

/-! ## Computations in a row -/

/-- The computation ends with a result and leaves everything as it is. -/
def Sees (x : Move α) (i : Nat) (a : α) : Prop :=
  ∀ events, x.exec ⟨i, events⟩ = some (.ok a, ⟨i, events⟩)

def Sound (all : List Token) (events : List Event) : Prop :=
  ∀ e ∈ events, e.Advances (all.length + 1)

/-- The computation goes from index `i` to index `j` with a result. -/
def Reaches (all : List Token) (x : Move α) (i : Nat) (a : α) (j : Nat) : Prop :=
  ∀ events, Sound all events →
    ∃ events', Sound all events' ∧ x.exec ⟨i, events⟩ = some (.ok a, ⟨j, events'⟩)

/-- The computation refuses the tokens from index `i` on, with the cursor still among them. -/
def Refuses (all : List Token) (x : Move α) (i : Nat) (e : SyntaxError) : Prop :=
  ∀ events, Sound all events →
    ∃ s, Sound all s.events ∧ s.index ≤ all.length ∧
      x.exec ⟨i, events⟩ = some (.error (.refused e), s)

def ofParsed (p : Parsed α ts) : α × List Token := (p.tree, p.rest)

def ofContinued (p : Continued α ts) : α × List Token := (p.tree, p.rest)

def ofOption (p : Option (Parsed α ts)) : Option α × List Token :=
  (p.map Parsed.tree, (p.map Parsed.rest).getD ts)

/-- From index `i` the computation does what the production does with the tokens from there on. Of
what the production yields, `view` is the tree and the tokens left. -/
def Follows (all : List Token) (view : ρ → α × List Token) (x : Move α) (i : Nat) :
    Parsing ρ → Prop
  | .ok p => ∃ j, Stands all j (view p).2 ∧ Reaches all x i (view p).1 j
  | .error e => Refuses all x i e

theorem exec_bind (x : Move α) (f : α → Move β) (s : State) :
    (x >>= f).exec s = (x.exec s).bind fun
      | (.ok a, s') => (f a).exec s'
      | (.error e, s') => some (.error e, s') := by
  simp only [Move.exec, ExceptT.run_bind, StateT.run_bind]
  change Option.bind _ _ = _
  congr 1
  funext ⟨outcome, s'⟩
  cases outcome <;> rfl

theorem sees_pure (a : α) (i : Nat) : Sees (pure a) i a := fun _ => rfl

theorem Sees.bind (hx : Sees x i a) (hf : Sees (f a) i b) : Sees (x >>= f) i b := by
  intro events
  rw [exec_bind, hx]
  exact hf events

theorem Sees.reaches (h : Sees x i a) (all : List Token) : Reaches all x i a i :=
  fun events hevents => ⟨events, hevents, h events⟩

theorem reaches_pure (a : α) (i : Nat) : Reaches all (pure a) i a i :=
  (sees_pure a i).reaches all

theorem Reaches.bind (hx : Reaches all x i a j) (hf : Reaches all (f a) j b k) :
    Reaches all (x >>= f) i b k := by
  intro events hevents
  obtain ⟨events', hevents', hexec⟩ := hx events hevents
  obtain ⟨events'', hevents'', hexec'⟩ := hf events' hevents'
  exact ⟨events'', hevents'', by rw [exec_bind, hexec]; exact hexec'⟩

theorem Reaches.refuses (hx : Reaches all x i a j) (hf : Refuses all (f a) j e) :
    Refuses all (x >>= f) i e := by
  intro events hevents
  obtain ⟨events', hevents', hexec⟩ := hx events hevents
  obtain ⟨s, hs, hindex, hexec'⟩ := hf events' hevents'
  exact ⟨s, hs, hindex, by rw [exec_bind, hexec]; exact hexec'⟩

theorem Refuses.bind (hx : Refuses all x i e) : Refuses all (x >>= f) i e := by
  intro events hevents
  obtain ⟨s, hs, hindex, hexec⟩ := hx events hevents
  exact ⟨s, hs, hindex, by rw [exec_bind, hexec]; rfl⟩

section

variable {v : ρ → α × List Token} {w : σ → β × List Token}

theorem Reaches.follows (hx : Reaches all x i a j) {r : Parsing σ} (hf : Follows all w (f a) j r) :
    Follows all w (x >>= f) i r := by
  cases r with
  | ok p =>
    obtain ⟨k, hk, hf⟩ := hf
    exact ⟨k, hk, hx.bind hf⟩
  | error => exact hx.refuses hf

theorem Follows.bind {r : Parsing ρ} {g : ρ → Parsing σ} (hx : Follows all v x i r)
    (hf : ∀ p j, Stands all j (v p).2 → Follows all w (f (v p).1) j (g p)) :
    Follows all w (x >>= f) i (r >>= g) := by
  cases r with
  | ok p =>
    obtain ⟨j, hj, hx⟩ := hx
    exact hx.follows (hf p j hj)
  | error => exact Refuses.bind hx

theorem Follows.andThen {us : List Token} {r : Parsing (Parsed α us)}
    {g : Parsed α us → Parsing σ} (hx : Follows all ofParsed x i r)
    (hf : ∀ p j, Stands all j p.rest → Follows all w (f p.tree) j (g p)) :
    Follows all w (x >>= f) i (r >>= g) :=
  hx.bind hf

theorem Follows.yield {y : Move β} {r : Parsing ρ} {g : ρ → σ} (hy : Follows all (w ∘ g) y i r) :
    Follows all w y i (r >>= fun p => pure (g p)) := by
  cases r with
  | ok => exact hy
  | error => exact hy

theorem follows_pure {p : ρ} (hi : Stands all i (v p).2) :
    Follows all v (pure (v p).1) i (pure p) :=
  ⟨i, hi, reaches_pure _ i⟩

end

/-! ## Single steps -/

theorem sees_index (i : Nat) : Sees index i i := fun _ => rfl

theorem reaches_index (i : Nat) : Reaches all index i i i := (sees_index i).reaches all

theorem sees_markAt {marks : List Mark} {m : Mark} (h : marks[i]? = some m) (j : Nat) :
    Sees (markAt marks i) j m := by
  rw [markAt, h]
  exact sees_pure m j

theorem sees_peek (h : Stands all i ts) : Sees (peek (marksOf stop all)) i (mark stop ts) :=
  (sees_index i).bind (sees_markAt h.mark i)

theorem reaches_peek (h : Stands all i ts) :
    Reaches all (peek (marksOf stop all)) i (mark stop ts) i :=
  (sees_peek h).reaches all

theorem Sound.cons {event : Event} {events : List Event}
    (hevent : event.Advances (all.length + 1)) (hevents : Sound all events) :
    Sound all (event :: events) := by
  rintro _ (_ | ⟨_, hmem⟩)
  · exact hevent
  · exact hevents _ hmem

theorem reaches_moveTo (hj : j ≤ all.length) (i : Nat) : Reaches all (moveTo j) i () j :=
  have hmoved : Event.Advances (all.length + 1) (.moved j) := Nat.lt_succ_of_le hj
  fun _ hevents => ⟨_, hevents.cons hmoved, rfl⟩

theorem reaches_note (event : Event) (hevent : event.Advances (all.length + 1)) (i : Nat) :
    Reaches all (note event) i () i :=
  fun _ hevents => ⟨_, hevents.cons hevent, rfl⟩

theorem reaches_turned (h : i < j) : Reaches all (turned i) j () j :=
  (reaches_index j).bind (reaches_note (.turned i j) h j)

theorem reaches_descend {outer : Frame} {level : Level} (h : Frame.Inside ⟨level, i⟩ outer) :
    Reaches all (descend outer level) i ⟨level, i⟩ i := by
  have hnote : Reaches all (note (.descended outer ⟨level, i⟩)) i () i :=
    reaches_note (.descended outer ⟨level, i⟩) h i
  exact (reaches_index i).bind (hnote.bind (reaches_pure _ i))

theorem refuses_refuse {m : Mark} {cause : SyntaxError.Cause} (hi : i ≤ all.length) :
    Refuses all (refuse m cause : Move α) i ⟨m.start, cause⟩ :=
  fun events hevents => ⟨⟨i, events⟩, hevents, hi, rfl⟩

theorem reaches_bump (stop : Nat) (h : Stands all i ts) :
    ∃ j, Stands all j ts.tail ∧ Reaches all (bump (marksOf stop all)) i (mark stop ts) j := by
  have hlength := h.length
  cases ts with
  | nil =>
    have hlast : ¬ i + 1 < (marksOf stop all).length := by
      rw [length_marksOf, ← hlength]
      exact Nat.lt_irrefl _
    refine ⟨i, h, (reaches_peek h).bind ((reaches_index i).bind ?_)⟩
    rw [if_neg hlast]
    exact reaches_pure _ i
  | cons t ts =>
    have hinside : i + 1 < (marksOf stop all).length := by
      rw [length_marksOf]
      exact Nat.lt_succ_of_le h.tail.1
    refine ⟨i + 1, h.tail, (reaches_peek h).bind ((reaches_index i).bind ?_)⟩
    rw [if_pos hinside]
    exact (reaches_moveTo h.tail.1 i).bind (reaches_pure _ (i + 1))

theorem reaches_consume_cons (stop : Nat) {t : Token} (h : Stands all i (t :: ts)) :
    ∃ j, Stands all j ts ∧ Reaches all (consume (marksOf stop all) t.kind) i true j := by
  obtain ⟨j, hj, hbump⟩ := reaches_bump stop h
  refine ⟨j, hj, (reaches_peek h).bind ?_⟩
  rw [if_pos (show (mark stop (t :: ts)).kind = some t.kind from rfl)]
  exact hbump.bind (reaches_pure _ j)

theorem reaches_consume_other {wanted : Token.Kind} (h : Stands all i ts)
    (hkind : next? ts ≠ some wanted) :
    Reaches all (consume (marksOf stop all) wanted) i false i := by
  refine (reaches_peek h).bind ?_
  rw [if_neg (show (mark stop ts).kind ≠ some wanted from hkind)]
  exact reaches_pure _ i

section

variable {w : σ → β × List Token} {c : Move Bool} {yes no : Move β} {r : Parsing σ}

theorem Reaches.ifTrue (hc : Reaches all c i true j) (hyes : Follows all w yes j r) :
    Follows all w (c >>= fun taken => if taken then yes else no) i r :=
  hc.follows (by rwa [if_pos rfl])

theorem Reaches.ifFalse (hc : Reaches all c i false j) (hno : Follows all w no j r) :
    Follows all w (c >>= fun taken => if taken then yes else no) i r :=
  hc.follows (by rwa [if_neg Bool.false_ne_true])

theorem follows_consume {wanted : Token.Kind} (h : Stands all i ts)
    (hyes : ∀ p j, take? wanted ts = some p → Stands all j p.rest → Follows all w yes j r)
    (hno : take? wanted ts = none → Follows all w no i r) :
    Follows all w
      (consume (marksOf stop all) wanted >>= fun taken => if taken then yes else no) i r := by
  by_cases hkind : next? ts = some wanted
  · cases ts with
    | nil => cases hkind
    | cons t ts =>
      cases hkind
      obtain ⟨j, hj, hconsume⟩ := reaches_consume_cons stop h
      exact hconsume.ifTrue (hyes _ j (take?_self ..) hj)
  · exact (reaches_consume_other h hkind).ifFalse (hno (take?_eq_none hkind))

theorem follows_refuse {us : List Token} {cause : SyntaxError.Cause} (hi : i ≤ all.length) :
    Follows all w (refuse (mark stop us) cause) i (failAt stop us cause) :=
  refuses_refuse hi

end

/-! ## Productions of a few tokens -/

theorem follows_expect (wanted : Token.Kind) (h : Stands all i ts) :
    Follows all ofParsed (expect (marksOf stop all) (some wanted)) i
      (Script.expect stop wanted ts) := by
  refine (reaches_peek h).follows ?_
  by_cases hkind : next? ts = some wanted
  · cases ts with
    | nil => cases hkind
    | cons t ts =>
      cases hkind
      obtain ⟨j, hj, hbump⟩ := reaches_bump stop h
      rw [if_pos (show (mark stop (t :: ts)).kind = some t.kind from rfl), Script.expect,
        take?_self]
      exact ⟨j, hj, hbump.bind (reaches_pure _ j)⟩
  · rw [if_neg (show (mark stop ts).kind ≠ some wanted from hkind), Script.expect,
      take?_eq_none hkind]
    exact follows_refuse h.1

theorem reaches_expect_end (stop : Nat) (h : Stands all i []) :
    ∃ j, Stands all j [] ∧ Reaches all (expect (marksOf stop all) none) i () j := by
  obtain ⟨j, hj, hbump⟩ := reaches_bump stop h
  exact ⟨j, hj, (reaches_peek h).bind (hbump.bind (reaches_pure () j))⟩

theorem refuses_expect_end {t : Token} (h : Stands all i (t :: ts)) :
    Refuses all (expect (marksOf stop all) none) i ⟨t.start, .expected none (some t.kind)⟩ :=
  (reaches_peek h).refuses (refuses_refuse h.1)

theorem reaches_skipSemicolon (stop : Nat) (h : Stands all i ts) :
    ∃ b j, Stands all j (skipSemicolon ts).rest ∧
      Reaches all (consume (marksOf stop all) (.sign .semicolon)) i b j := by
  by_cases hkind : next? ts = some (.sign .semicolon)
  · cases ts with
    | nil => cases hkind
    | cons t ts =>
      obtain ⟨kind, start, last⟩ := t
      cases hkind
      obtain ⟨j, hj, hconsume⟩ := reaches_consume_cons stop h
      rw [skipSemicolon, take?_self]
      exact ⟨true, j, hj, hconsume⟩
  · rw [skipSemicolon, take?_eq_none hkind]
    exact ⟨false, i, h, reaches_consume_other h hkind⟩

theorem follows_expectName (role : NameRole) (h : Stands all i ts) :
    Follows all ofParsed (expectName (marksOf stop all) role) i
      (Script.expectName stop role ts) := by
  obtain ⟨j, hj, hbump⟩ := reaches_bump stop h
  refine hbump.follows ?_
  cases ts with
  | nil => exact follows_refuse hj.1
  | cons t ts =>
    obtain ⟨kind, start, last⟩ := t
    cases kind with
    | name s => exact follows_pure hj
    | _ => exact follows_refuse hj.1

theorem follows_propertyName (h : Stands all i ts) :
    Follows all ofParsed (propertyName (marksOf stop all)) i (Script.propertyName stop ts) := by
  obtain ⟨j, hj, hbump⟩ := reaches_bump stop h
  refine hbump.follows ?_
  cases ts with
  | nil => exact follows_refuse hj.1
  | cons t ts =>
    obtain ⟨kind, start, last⟩ := t
    cases kind with
    | name s => exact follows_pure hj
    | word w => exact follows_pure hj
    | _ => exact follows_refuse hj.1

theorem follows_objectKey (h : Stands all i ts) :
    Follows all ofParsed (objectKey (marksOf stop all)) i (Script.objectKey stop ts) := by
  obtain ⟨j, hj, hbump⟩ := reaches_bump stop h
  refine hbump.follows ?_
  cases ts with
  | nil => exact follows_refuse hj.1
  | cons t ts =>
    obtain ⟨kind, start, last⟩ := t
    cases kind with
    | sign s => exact follows_refuse hj.1
    | _ => exact follows_pure hj

theorem follows_operator? (stop level : Nat) (h : Stands all i ts) :
    Follows all ofOption (operator? (marksOf stop all) level) i
      (pure (nextOperator? level ts)) := by
  obtain ⟨j, hj, hbump⟩ := reaches_bump stop h
  refine (reaches_peek h).follows ?_
  cases ts with
  | nil => exact ⟨i, h, reaches_pure _ i⟩
  | cons t ts =>
    obtain ⟨kind, start, last⟩ := t
    cases kind with
    | sign s =>
      dsimp only [mark, next?_cons, nextOperator?]
      cases operatorAt? level s with
      | some op => exact ⟨j, hj, hbump.bind (reaches_pure _ j)⟩
      | none => exact ⟨i, h, reaches_pure _ i⟩
    | _ => exact ⟨i, h, reaches_pure _ i⟩

end Cursor

end Montage.Script
