import Montage.Script.Parser
import Montage.Proofs.Except
import Montage.Proofs.Script.Grammar.Basic

/-!
# Productions of a few tokens

A production takes tokens from the front of a list. `Spells ts ks rest` says which: of the kinds
`ks`, and `rest` is left. For the productions that do not call themselves on expressions this module
says what they take and when they go through.
-/

namespace Montage.Script

/-- The tokens `ts` begin with tokens of the kinds `ks`, and behind these come the tokens `rest`. -/
inductive Spells : List Token → Kinds → List Token → Prop
  | nil (ts : List Token) : Spells ts [] ts
  | cons {t : Token} {ts rest : List Token} {k : Token.Kind} {ks : Kinds} (hkind : t.kind = k)
    (h : Spells ts ks rest) : Spells (t :: ts) (k :: ks) rest

variable {α β : Type} {ts mid rest : List Token} {k : Token.Kind} {ks ls : Kinds} {xs : List String}
  {stop : Nat}

/-! ## Kinds in front of a list -/

theorem spells_nil : Spells ts [] rest ↔ ts = rest := by
  constructor
  · rintro ⟨⟩
    rfl
  · rintro rfl
    exact .nil ts

theorem spells_cons :
    Spells ts (k :: ks) rest ↔
      ∃ start stop mid, ts = ⟨k, start, stop⟩ :: mid ∧ Spells mid ks rest := by
  constructor
  · rintro (_ | @⟨⟨_, start, stop⟩, mid, _, _, _, rfl, h⟩)
    exact ⟨start, stop, mid, rfl, h⟩
  · rintro ⟨start, stop, mid, rfl, h⟩
    exact .cons rfl h

theorem spells_cons_cons {t : Token} :
    Spells (t :: ts) (k :: ks) rest ↔ t.kind = k ∧ Spells ts ks rest := by
  constructor
  · rintro (_ | ⟨hkind, h⟩)
    exact ⟨hkind, h⟩
  · exact fun ⟨hkind, h⟩ => .cons hkind h

theorem Spells.append (h : Spells ts ks mid) (h' : Spells mid ls rest) :
    Spells ts (ks ++ ls) rest := by
  induction h with
  | nil => exact h'
  | cons hkind _ ih => exact .cons hkind (ih h')

theorem spells_append :
    Spells ts (ks ++ ls) rest ↔ ∃ mid, Spells ts ks mid ∧ Spells mid ls rest := by
  refine ⟨fun h => ?_, fun ⟨mid, h, h'⟩ => h.append h'⟩
  induction ks generalizing ts with
  | nil => exact ⟨ts, .nil ts, h⟩
  | cons k ks ih =>
    obtain ⟨start, stop, mid, rfl, htail⟩ := spells_cons.mp h
    obtain ⟨mid', hks, hls⟩ := ih htail
    exact ⟨mid', .cons rfl hks, hls⟩

theorem spells_end : Spells ts ks [] ↔ ts.map Token.kind = ks := by
  induction ts generalizing ks with
  | nil =>
    constructor
    · rintro ⟨⟩
      rfl
    · rintro rfl
      exact .nil []
  | cons t ts ih =>
    constructor
    · rintro (_ | ⟨rfl, h⟩)
      exact congrArg _ (ih.mp h)
    · rintro rfl
      exact .cons rfl (ih.mpr rfl)

/-! ## Single tokens -/

@[simp] theorem next?_cons (t : Token) : next? (t :: ts) = some t.kind := rfl

theorem Spells.next? (h : Spells ts (k :: ks) rest) : next? ts = some k := by
  obtain ⟨_, _, _, rfl, _⟩ := spells_cons.mp h
  rfl

/-- A production goes through with this tree, and these tokens are left. -/
def Yields (x : Parsing (Parsed α ts)) (tree : α) (rest : List Token) : Prop :=
  ∃ h, x = .ok ⟨tree, rest, h⟩

def YieldsTail (x : Parsing (Continued α ts)) (tree : α) (rest : List Token) : Prop :=
  ∃ h, x = .ok ⟨tree, rest, h⟩

theorem Yields.bind {us : List Token} {x : Parsing (Parsed β us)}
    {f : Parsed β us → Parsing (Parsed α ts)} {b : β} {a : α} (hx : Yields x b mid)
    (hf : ∀ h, Yields (f ⟨b, mid, h⟩) a rest) : Yields (x >>= f) a rest := by
  obtain ⟨h, rfl⟩ := hx
  exact hf h

theorem Yields.bindTail {us : List Token} {x : Parsing (Parsed β us)}
    {f : Parsed β us → Parsing (Continued α ts)} {b : β} {a : α} (hx : Yields x b mid)
    (hf : ∀ h, YieldsTail (f ⟨b, mid, h⟩) a rest) : YieldsTail (x >>= f) a rest := by
  obtain ⟨h, rfl⟩ := hx
  exact hf h

theorem YieldsTail.bind {us : List Token} {x : Parsing (Continued β us)}
    {f : Continued β us → Parsing (Parsed α ts)} {b : β} {a : α} (hx : YieldsTail x b mid)
    (hf : ∀ h, Yields (f ⟨b, mid, h⟩) a rest) : Yields (x >>= f) a rest := by
  obtain ⟨h, rfl⟩ := hx
  exact hf h

theorem YieldsTail.bindTail {us : List Token} {x : Parsing (Continued β us)}
    {f : Continued β us → Parsing (Continued α ts)} {b : β} {a : α} (hx : YieldsTail x b mid)
    (hf : ∀ h, YieldsTail (f ⟨b, mid, h⟩) a rest) : YieldsTail (x >>= f) a rest := by
  obtain ⟨h, rfl⟩ := hx
  exact hf h

theorem Yields.bind_eq {us : List Token} {x : Parsing (Parsed β us)}
    {f : Parsed β us → Parsing α} {b : β} {r : Parsing α} (hx : Yields x b mid)
    (hf : ∀ h, f ⟨b, mid, h⟩ = r) : x >>= f = r := by
  obtain ⟨h, rfl⟩ := hx
  exact hf h

theorem YieldsTail.bind_eq {us : List Token} {x : Parsing (Continued β us)}
    {f : Continued β us → Parsing α} {b : β} {r : Parsing α} (hx : YieldsTail x b mid)
    (hf : ∀ h, f ⟨b, mid, h⟩ = r) : x >>= f = r := by
  obtain ⟨h, rfl⟩ := hx
  exact hf h

theorem take?_self (start stop : Nat) :
    take? k (⟨k, start, stop⟩ :: ts) = some ⟨(), ts, Nat.lt_succ_self _⟩ := if_pos rfl

theorem take?_eq_none (h : next? ts ≠ some k) : take? k ts = none := by
  rcases ts with _ | ⟨t, ts⟩
  · rfl
  · exact if_neg fun heq => h (congrArg some heq)

theorem spells_of_take? {p : Parsed Unit ts} (h : take? k ts = some p) : Spells ts [k] p.rest := by
  rcases ts with _ | ⟨t, ts⟩
  · cases h
  · by_cases hkind : t.kind = k
    · obtain rfl := Option.some.inj ((if_pos hkind).symm.trans h)
      exact .cons hkind (.nil ts)
    · cases (if_neg hkind).symm.trans h

theorem expect_self (start stop' : Nat) :
    Yields (expect stop k (⟨k, start, stop'⟩ :: ts)) () ts := by
  rw [expect, take?_self]
  exact ⟨_, rfl⟩

theorem spells_of_expect {p : Parsed Unit ts} (h : expect stop k ts = .ok p) :
    Spells ts [k] p.rest := by
  unfold expect at h
  split at h
  next q hq =>
    cases h
    exact spells_of_take? hq
  next => cases h

theorem expectName_self (role : NameRole) (x : String) (start stop' : Nat) :
    Yields (expectName stop role (⟨.name x, start, stop'⟩ :: ts)) x ts := ⟨_, rfl⟩

theorem spells_of_expectName {role : NameRole} {p : Parsed String ts}
    (h : expectName stop role ts = .ok p) : Spells ts [.name p.tree] p.rest := by
  unfold expectName at h
  split at h
  · cases h
    exact .cons rfl (.nil _)
  · cases h

theorem spells_of_skipSemicolon (ts : List Token) :
    ∃ ss, Semicolon ss ∧ Spells ts ss (skipSemicolon ts).rest := by
  unfold skipSemicolon
  split
  next p hp => exact ⟨_, .inr rfl, spells_of_take? hp⟩
  next => exact ⟨[], .inl rfl, .nil ts⟩

theorem skipSemicolon_rest (hs : Semicolon ks) (h : Spells ts ks rest)
    (hnext : next? rest ≠ some (.sign .semicolon)) : (skipSemicolon ts).rest = rest := by
  rcases hs with rfl | rfl
  · obtain rfl := spells_nil.mp h
    rw [skipSemicolon, take?_eq_none hnext]
    rfl
  · obtain ⟨start, stop, mid, rfl, htail⟩ := spells_cons.mp h
    obtain rfl := spells_nil.mp htail
    rw [skipSemicolon, take?_self]
    rfl

/-! ## Parameters -/

theorem paramsFrom_sound {seen : List String} (hseen : seen.Nodup) {ts : List Token}
    {p : Parsed (List String) ts} (h : paramsFrom stop seen ts = .ok p) :
    ∃ ks xs, Spells ts (ks ++ [.sign .closeParen]) p.rest ∧ Names ks xs ∧ p.tree = seen ++ xs ∧
      (seen ++ xs).Nodup := by
  rw [paramsFrom] at h
  obtain ⟨name, hname, h⟩ := eq_ok_of_bind h
  have hname := spells_of_expectName hname
  split at h
  · cases h
  next hnew =>
    have hdistinct : (seen ++ [name.tree]).Nodup :=
      (List.nodup_cons.mpr ⟨hnew, hseen⟩).perm (List.perm_append_singleton _ _).symm
    split at h
    next comma hcomma =>
      obtain ⟨more, hmore, h⟩ := eq_ok_of_bind h
      cases h
      have := name.shorter
      have := comma.shorter
      obtain ⟨ks, xs, hks, hnames, htree, hnodup⟩ := paramsFrom_sound hdistinct hmore
      rw [List.append_assoc] at htree hnodup
      have hnext := hname.append ((spells_of_take? hcomma).append hks)
      exact ⟨.name name.tree :: .sign .comma :: ks, _, hnext, .more _ hnames, htree, hnodup⟩
    next =>
      obtain ⟨close, hclose, h⟩ := eq_ok_of_bind h
      cases h
      exact ⟨[.name name.tree], _, hname.append (spells_of_expect hclose), .one _, rfl, hdistinct⟩
termination_by ts.length

theorem params_sound {p : Parsed (List String) ts} (h : params stop ts = .ok p) :
    ∃ ks, Spells ts (ks ++ [.sign .closeParen]) p.rest ∧ Params ks p.tree := by
  unfold params at h
  split at h
  next close hclose =>
    cases h
    exact ⟨[], spells_of_take? hclose, .none⟩
  next =>
    obtain ⟨ks, xs, hks, hnames, htree, hnodup⟩ := paramsFrom_sound List.nodup_nil h
    rw [htree]
    exact ⟨ks, hks, .some hnames hnodup⟩

theorem arrowParams?_sound {p : Parsed (List String) ts} (h : arrowParams? stop ts = .ok (some p)) :
    ∃ hs, Spells ts hs p.rest ∧ Header hs p.tree := by
  unfold arrowParams? at h
  split at h
  next s _ _ _ _ _ =>
    cases h
    exact ⟨_, .cons rfl (.cons rfl (.nil _)), .name s⟩
  next rest =>
    split at h
    next =>
      obtain ⟨names, hnames, h⟩ := eq_ok_of_bind h
      obtain ⟨arrow, harrow, h⟩ := eq_ok_of_bind h
      cases h
      obtain ⟨ks, hks, hparams⟩ := params_sound hnames
      have hheader := hks.append (spells_of_expect harrow)
      rw [List.append_assoc] at hheader
      exact ⟨_, .cons rfl hheader, .params hparams⟩
    next => cases h
  next => cases h

theorem paramsFrom_complete (h : Names ks xs) {seen : List String}
    (hdistinct : (seen ++ xs).Nodup) {ts : List Token}
    (hks : Spells ts (ks ++ [.sign .closeParen]) rest) :
    Yields (paramsFrom stop seen ts) (seen ++ xs) rest := by
  induction h generalizing seen ts with
  | one x =>
    obtain ⟨_, _, mid, rfl, hclose⟩ := spells_cons.mp hks
    obtain ⟨_, _, _, rfl, hrest⟩ := spells_cons.mp hclose
    obtain rfl := spells_nil.mp hrest
    have hnew : x ∉ seen := by grind
    rw [paramsFrom]
    refine (expectName_self ..).bind fun _ => ?_
    rw [if_neg hnew, take?_eq_none (by simp)]
    exact (expect_self ..).bind fun _ => ⟨_, rfl⟩
  | @more x ks xs h ih =>
    obtain ⟨_, _, mid, rfl, hcomma⟩ := spells_cons.mp hks
    obtain ⟨_, _, mid', rfl, hrest⟩ := spells_cons.mp hcomma
    have hnew : x ∉ seen := by grind
    rw [List.append_cons] at hdistinct ⊢
    rw [paramsFrom]
    refine (expectName_self ..).bind fun _ => ?_
    rw [if_neg hnew, take?_self]
    exact (ih hdistinct hrest).bind fun _ => ⟨_, rfl⟩

theorem params_complete (h : Params ks xs) (hks : Spells ts (ks ++ [.sign .closeParen]) rest) :
    Yields (params stop ts) xs rest := by
  cases h with
  | none =>
    obtain ⟨_, _, _, rfl, hrest⟩ := spells_cons.mp hks
    obtain rfl := spells_nil.mp hrest
    rw [params, take?_self]
    exact ⟨_, rfl⟩
  | some h hdistinct =>
    have hfirst : next? ts ≠ some (.sign .closeParen) := by
      cases h <;> simp [hks.next?]
    rw [params, take?_eq_none hfirst]
    have hdistinct : ([] ++ xs).Nodup := hdistinct
    exact paramsFrom_complete h hdistinct hks

theorem looksLikeParams_of_names (h : Names ks xs)
    (hks : Spells ts (ks ++ [.sign .closeParen, .sign .arrow]) rest) : looksLikeParams ts := by
  induction h generalizing ts with
  | one x =>
    obtain ⟨_, _, mid, rfl, hclose⟩ := spells_cons.mp hks
    obtain ⟨_, _, _, rfl, harrow⟩ := spells_cons.mp hclose
    obtain ⟨_, _, _, rfl, _⟩ := spells_cons.mp harrow
    rw [looksLikeParams]
  | more x h ih =>
    obtain ⟨_, _, mid, rfl, hcomma⟩ := spells_cons.mp hks
    obtain ⟨_, _, _, rfl, hmore⟩ := spells_cons.mp hcomma
    rw [looksLikeParams]
    exact ih hmore

theorem looksLikeArrow_of_params (h : Params ks xs)
    (hks : Spells ts (ks ++ [.sign .closeParen, .sign .arrow]) rest) : looksLikeArrow ts := by
  cases h with
  | none =>
    obtain ⟨_, _, mid, rfl, harrow⟩ := spells_cons.mp hks
    obtain ⟨_, _, _, rfl, _⟩ := spells_cons.mp harrow
    rfl
  | some h =>
    unfold looksLikeArrow
    split
    next => rfl
    next => exact looksLikeParams_of_names h hks

theorem arrowParams?_complete (h : Header ks xs) (hks : Spells ts ks rest) :
    ∃ hlt, arrowParams? stop ts = .ok (some ⟨xs, rest, hlt⟩) := by
  cases h with
  | name x =>
    obtain ⟨_, _, mid, rfl, harrow⟩ := spells_cons.mp hks
    obtain ⟨_, _, _, rfl, hrest⟩ := spells_cons.mp harrow
    obtain rfl := spells_nil.mp hrest
    exact ⟨_, rfl⟩
  | @params ks _ h =>
    obtain ⟨_, _, mid, rfl, htail⟩ := spells_cons.mp hks
    have hlooks := looksLikeArrow_of_params h htail
    rw [List.append_cons] at htail
    obtain ⟨behind, hparams, harrow⟩ := spells_append.mp htail
    obtain ⟨start, stop', tail, rfl, hrest⟩ := spells_cons.mp harrow
    obtain rfl := spells_nil.mp hrest
    obtain ⟨hlt, hparams⟩ : Yields (params stop mid) xs _ := params_complete h hparams
    obtain ⟨hlt', harrow⟩ :
        Yields (expect stop (.sign .arrow) (⟨.sign .arrow, start, stop'⟩ :: tail)) () tail :=
      expect_self ..
    simp only [arrowParams?, hlooks, if_true, hparams, ok_bind, harrow]
    exact ⟨Nat.lt_succ_of_lt (Nat.lt_trans hlt' hlt), rfl⟩

/-! ## Operators -/

theorem operatorAt?_eq_some {level : Nat} {s : Sign} {op : BinaryOp} :
    operatorAt? level s = some op ↔ Infix level (.sign s) op := by
  constructor
  · unfold operatorAt?
    split <;> rintro ⟨⟩ <;> constructor
  · rintro ⟨⟩ <;> rfl

theorem Infix.exists_sign {level : Nat} {op : BinaryOp} (h : Infix level k op) :
    ∃ s, k = .sign s := by
  cases h <;> exact ⟨_, rfl⟩

theorem nextOperator?_sound {level : Nat} {p : Parsed BinaryOp ts}
    (h : nextOperator? level ts = some p) :
    ∃ k, Infix level k p.tree ∧ Spells ts [k] p.rest := by
  unfold nextOperator? at h
  split at h
  next s _ _ rest =>
    obtain ⟨op, hop, rfl⟩ := Option.map_eq_some_iff.mp h
    exact ⟨_, operatorAt?_eq_some.mp hop, .cons rfl (.nil rest)⟩
  next => cases h

theorem nextOperator?_complete {level : Nat} {op : BinaryOp} (h : Infix level k op)
    (start stop : Nat) :
    nextOperator? level (⟨k, start, stop⟩ :: ts) = some ⟨op, ts, Nat.lt_succ_self _⟩ := by
  obtain ⟨s, rfl⟩ := h.exists_sign
  exact congrArg (Option.map _) (operatorAt?_eq_some.mpr h)

theorem nextOperator?_eq_none {level : Nat}
    (h : ∀ k op, next? ts = some k → ¬ Infix level k op) : nextOperator? level ts = none := by
  rcases hop : nextOperator? level ts with _ | op
  · rfl
  · obtain ⟨k, hinfix, hk⟩ := nextOperator?_sound hop
    exact absurd hinfix (h k _ hk.next?)

theorem nextUnary?_sound {p : Parsed UnaryOp ts} (h : nextUnary? ts = some p) :
    ∃ k, Prefix k p.tree ∧ Spells ts [k] p.rest := by
  unfold nextUnary? at h
  split at h
  next =>
    cases h
    exact ⟨_, .minus, .cons rfl (.nil _)⟩
  next =>
    cases h
    exact ⟨_, .bang, .cons rfl (.nil _)⟩
  next => cases h

theorem nextUnary?_complete {op : UnaryOp} (h : Prefix k op) (start stop : Nat) :
    nextUnary? (⟨k, start, stop⟩ :: ts) = some ⟨op, ts, Nat.lt_succ_self _⟩ := by
  cases h <;> rfl

theorem nextUnary?_eq_none (h : ∀ k op, next? ts = some k → ¬ Prefix k op) :
    nextUnary? ts = none := by
  rcases hop : nextUnary? ts with _ | op
  · rfl
  · obtain ⟨k, hprefix, hk⟩ := nextUnary?_sound hop
    exact absurd hprefix (h k _ hk.next?)

/-! ## Names of members -/

theorem propertyName_sound {p : Parsed String ts} (h : propertyName stop ts = .ok p) :
    ∃ k, PropertyName k p.tree ∧ Spells ts [k] p.rest := by
  unfold propertyName at h
  split at h
  next s _ _ rest =>
    cases h
    exact ⟨_, .name s, .cons rfl (.nil rest)⟩
  next w _ _ rest =>
    cases h
    exact ⟨_, .word w, .cons rfl (.nil rest)⟩
  next => cases h

theorem propertyName_complete {x : String} (h : PropertyName k x) (start stop' : Nat) :
    Yields (propertyName stop (⟨k, start, stop'⟩ :: ts)) x ts := by
  cases h <;> exact ⟨_, rfl⟩

theorem objectKey_sound {p : Parsed (String × Bool) ts} (h : objectKey stop ts = .ok p) :
    ∃ k, ObjectKey k p.tree.1 ∧ Spells ts [k] p.rest ∧ (p.tree.2 → k = .name p.tree.1) := by
  unfold objectKey at h
  split at h
  next s _ _ rest =>
    cases h
    exact ⟨_, .name s, .cons rfl (.nil rest), fun _ => rfl⟩
  next s _ _ rest =>
    cases h
    exact ⟨_, .text s, .cons rfl (.nil rest), nofun⟩
  next x _ _ rest =>
    cases h
    exact ⟨_, .number x, .cons rfl (.nil rest), nofun⟩
  next w _ _ rest =>
    cases h
    exact ⟨_, .word w, .cons rfl (.nil rest), nofun⟩
  next => cases h

theorem objectKey_complete {key : String} (h : ObjectKey k key) (start stop' : Nat) :
    ∃ alone, Yields (objectKey stop (⟨k, start, stop'⟩ :: ts)) (key, alone) ts := by
  cases h <;> exact ⟨_, _, rfl⟩

end Montage.Script
