import Montage.Proofs.Except
import Montage.Proofs.Script.Simulation

/-!
# Binding keeps the meaning

A bound function does what its source means: the same result, the same error, the same requests in
the same order.

The binder hands out slots in the order in which it meets declarations, so the slots of all that an
expression can see lie below the next free slot, and running the expression writes only from there
on. A frame may therefore keep what it likes at and above that slot, in particular what callbacks
have left behind: `Represents` speaks about the slots below it only, and `KeepsBelow` says that they
stay as they are. `Simulates` relates a run on such a frame to an evaluation by name, and every
construct of the language keeps it.
-/

namespace Montage.Script

open Montage.Stateful

/-! ## Successful binding -/

section
variable {α β : Type} {lo hi : Nat} {a b : α}

theorem bind_binds {x : Binding α} {f : α → Binding β} {b : β}
    (h : (x >>= f).run lo = .ok (b, hi)) :
    ∃ a mid, x.run lo = .ok (a, mid) ∧ (f a).run mid = .ok (b, hi) := by
  rw [StateT.run_bind] at h
  obtain ⟨⟨a, mid⟩, hx, hf⟩ := eq_ok_of_bind h
  exact ⟨a, mid, hx, hf⟩

theorem not_throw_binds {e : BindError} : (throw e : Binding α).run lo ≠ .ok (a, hi) := nofun

end

/-! ## Declarations -/

theorem declare_binds {frame : Scope} {x : String} {lo hi : Nat} {r : Nat × Scope}
    (h : (declare frame x).run lo = .ok (r, hi)) : r = (lo, (x, lo) :: frame) ∧ hi = lo + 1 := by
  unfold declare at h
  split at h
  · exact absurd h not_throw_binds
  · cases h
    exact ⟨rfl, rfl⟩

theorem declareAll_count {names : List String} :
    ∀ {inner : Scope} {lo hi : Nat} {r : List Nat × Scope},
      (declareAll inner names).run lo = .ok (r, hi) → hi = lo + names.length := by
  induction names with
  | nil =>
    intro inner lo hi r h
    cases h
    rfl
  | cons x names ih =>
    intro inner lo hi r h
    obtain ⟨_, mid, hx, h⟩ := bind_binds h
    obtain ⟨_, hi', hrest, h⟩ := bind_binds h
    cases h
    rw [ih hrest, (declare_binds hx).2, List.length_cons]
    omega

theorem writeSlots_nil (slots : List Nat) : Run.writeSlots slots [] = pure () := by
  cases slots <;> rfl

/-- Writing values into the slots of declared names brings the names into the environment. Slots
that get no value have to be `null` already. -/
theorem exec_writeSlots {scope : Scope} (requests : List Fetcher.Request) (names : List String) :
    ∀ (vs : List Json) {inner inner' : Scope} {lo hi : Nat} {slots : List Nat} {frame : List Json}
      {env : Environment},
      (declareAll inner names).run lo = .ok ((slots, inner'), hi) →
      Represents (inner ++ scope) lo frame env → hi ≤ frame.length →
      (∀ n, lo + vs.length ≤ n → n < hi → frame[n]? = some .null) →
      ∃ frame', exec (Run.writeSlots slots vs) ⟨frame, requests⟩ = (.ok (), ⟨frame', requests⟩) ∧
        KeepsBelow lo frame frame' ∧ Represents (inner' ++ scope) hi frame' (env.extend names vs) := by
  induction names with
  | nil =>
    intro vs inner inner' lo hi slots frame env h hrep _ _
    cases h
    refine ⟨frame, ?_, .refl lo frame, hrep⟩
    rw [Run.writeSlots]
    · rfl
    · nofun
  | cons x names ih =>
    intro vs inner inner' lo hi slots frame env h hrep hlen hnull
    obtain ⟨_, mid, hx, h⟩ := bind_binds h
    obtain ⟨rfl, rfl⟩ := declare_binds hx
    obtain ⟨⟨rest, _⟩, _, hrest, h⟩ := bind_binds h
    cases h
    have hcount := declareAll_count hrest
    cases vs with
    | nil =>
      have hlo : frame[lo]? = some .null := hnull lo (Nat.le_refl _) (by omega)
      obtain ⟨frame', hexec, hkeep, hrep'⟩ := ih [] hrest (hrep.cons hlo x) hlen
        fun n hn hhi => hnull n (by simp at hn ⊢; omega) hhi
      rw [writeSlots_nil] at hexec ⊢
      exact ⟨frame', hexec, (KeepsBelow.refl lo frame).trans hkeep (by omega), hrep'⟩
    | cons v vs =>
      have hset := KeepsBelow.set lo frame v
      have hlo : (frame.set lo v)[lo]? = some v := List.getElem?_set_self (by omega)
      obtain ⟨frame', hexec, hkeep, hrep'⟩ := ih vs hrest
        ((hrep.keep hset (Nat.le_refl lo)).cons hlo x) (by rw [hset.length_eq]; exact hlen)
        fun n hn hhi => by
          rw [List.getElem?_set_ne (by omega)]
          exact hnull n (by simp only [List.length_cons]; omega) hhi
      refine ⟨frame', ?_, hset.trans hkeep (by omega), hrep'⟩
      rw [Run.writeSlots, exec_bind_ok (exec_writeSlot v (by omega)), hexec]

/-! ## What binding carries over -/

/-- On every frame that represents the environment below slot `lo`, the run does what the evaluation
by name does, writing only from slot `lo` up to slot `hi`. -/
structure Carries {α : Type} (scope : Scope) (lo hi : Nat) (x : Run α) (y : Environment → Asking α) :
    Prop where
  le : lo ≤ hi
  simulates : ∀ {frame env}, Represents scope lo frame env → Simulates Eq lo hi frame x (y env)

namespace Carries

variable {α β : Type} {scope : Scope} {lo mid hi : Nat} {x : Run α} {y : Environment → Asking α}

theorem pure (h : lo ≤ hi) (a : α) : Carries scope lo hi (Pure.pure a) fun _ => Pure.pure a :=
  ⟨h, fun _ => simulates_pure rfl⟩

theorem throw (h : lo ≤ hi) (e : EvalError) :
    Carries (α := α) scope lo hi (MonadExcept.throw e) fun _ => MonadExcept.throw (.failed e) :=
  ⟨h, fun _ => simulates_throw e⟩

theorem lift (h : lo ≤ hi) (c : Computed α) :
    Carries scope lo hi (Run.lift c) fun _ => Asking.lift c :=
  ⟨h, fun _ => simulates_lift c⟩

theorem bind [Inhabited α] {f : α → Run β} {g : Environment → α → Asking β}
    (hx : Carries scope lo mid x y) (hf : ∀ a, Carries scope mid hi (f a) fun env => g env a) :
    Carries scope lo hi (x >>= f) fun env => y env >>= g env := by
  have hmid : mid ≤ hi := (hf default).le
  refine ⟨Nat.le_trans hx.le hmid, fun hrep => ?_⟩
  exact (hx.simulates hrep).andThen hx.le hmid fun a frame' hkeep =>
    (hf a).simulates (hrep.keep hkeep hx.le)

theorem map [Inhabited α] (hx : Carries scope lo hi x y) (f : α → β) :
    Carries scope lo hi (do return f (← x)) fun env => do return f (← y env) :=
  hx.bind fun a => .pure (Nat.le_refl hi) (f a)

theorem widen {lo' hi' : Nat} (hx : Carries scope lo' hi' x y) (hlo : lo ≤ lo') (hhi : hi' ≤ hi) :
    Carries scope lo hi x y := by
  have hle := hx.le
  refine ⟨by omega, fun hrep hlen requests => ?_⟩
  obtain ⟨hout, hreq, hkeep⟩ :=
    hx.simulates (hrep.keep (.refl lo _) hlo) (by omega) requests
  exact ⟨hout, hreq, (KeepsBelow.refl lo _).trans hkeep hlo⟩

end Carries

/-! ## Calls -/

theorem call_binds {scope : Scope} {function : String} {args : List Expr} {lo hi : Nat} {c : Code}
    (h : (bindExpr scope (.call function args)).run lo = .ok (c, hi)) :
    ∃ b cs, Builtin.ofName? function = some b ∧ b.takes args.length = true ∧ c = .call b cs ∧
      (if b.takesCallback then bindCallbackArgs scope b args else bindArgs scope args).run lo =
        .ok (cs, hi) := by
  rw [bindExpr] at h
  rcases hb : Builtin.ofName? function with _ | b
  · rw [hb] at h
    cases h
  rw [hb] at h
  simp only at h
  split at h
  · cases h
  · rename_i htakes
    rw [Bool.not_eq_true, Bool.not_eq_false'] at htakes
    refine ⟨b, ?_⟩
    split at h
    all_goals
      rename_i hcallback
      obtain ⟨cs, _, hargs, h⟩ := bind_binds h
      cases h
      refine ⟨cs, rfl, htakes, rfl, ?_⟩
    · rw [if_pos hcallback, hargs]
    · rw [if_neg hcallback, hargs]

/-- What binding makes of the arguments of `map` and `filter`: the slots of the callback's parameters
come behind those of the list, and those of its body behind them. -/
theorem callbackArgs_bind {scope : Scope} {b : Builtin} {args : List Expr} {lo hi : Nat}
    {cs : List Code} (hb : b.takesCallback = true) (ht : b.takes args.length = true)
    (h : (bindCallbackArgs scope b args).run lo = .ok (cs, hi)) :
    ∃ list params body codeList slots codeBody inner mid mid', args = [list, .arrow params body] ∧
      cs = [codeList, .arrow slots codeBody] ∧ (params.length = 1 ∨ params.length = 2) ∧
      (bindExpr scope list).run lo = .ok (codeList, mid) ∧
      (declareAll [] params).run mid = .ok ((slots, inner), mid') ∧
      (bindExpr (inner ++ scope) body).run mid' = .ok (codeBody, hi) := by
  have hlen : 2 ≤ args.length ∧ args.length ≤ 2 := by
    simp only [Builtin.takes, Bool.and_eq_true, decide_eq_true_eq] at ht
    cases b <;> simp_all [Builtin.takesCallback, Builtin.arity]
  obtain ⟨list, callback, rfl⟩ : ∃ list callback, args = [list, callback] := by
    rcases args with _ | ⟨list, _ | ⟨callback, _ | ⟨e, rest⟩⟩⟩
    case cons.cons.nil => exact ⟨list, callback, rfl⟩
    all_goals simp at hlen
  obtain ⟨codeList, mid, hlist, h⟩ := bind_binds h
  obtain ⟨codeCallback, _, hcallback, h⟩ := bind_binds h
  cases h
  cases callback with
  | arrow params body =>
    rw [bindCallback] at hcallback
    split at hcallback
    · cases hcallback
    · rename_i hparams
      obtain ⟨⟨slots, inner⟩, mid', hdeclare, hcallback⟩ := bind_binds hcallback
      obtain ⟨codeBody, _, hbody, hcallback⟩ := bind_binds hcallback
      cases hcallback
      refine ⟨list, params, body, codeList, slots, codeBody, inner, mid, mid', rfl, rfl, ?_, hlist,
        hdeclare, hbody⟩
      rcases params with _ | ⟨x, params⟩
      · exact absurd rfl hparams
      · simp only [List.isEmpty_cons, Bool.false_or, decide_eq_true_eq, List.length_cons]
          at hparams ⊢
        omega
  | _ => cases hcallback

/-! ## Expressions -/

theorem inOptionalChain_eq : ∀ {e : Expr} {scope : Scope} {lo hi : Nat} {c : Code},
    (bindExpr scope e).run lo = .ok (c, hi) → c.inOptionalChain = e.inOptionalChain
  | .member base name isOptional, scope, lo, hi, c, h => by
    obtain ⟨cb, _, hb, h⟩ := bind_binds h
    cases h
    simp only [Code.inOptionalChain, Expr.inOptionalChain, inOptionalChain_eq hb]
  | .index base index, scope, lo, hi, c, h => by
    obtain ⟨cb, _, hb, h⟩ := bind_binds h
    obtain ⟨ci, _, hi, h⟩ := bind_binds h
    cases h
    simp only [Code.inOptionalChain, Expr.inOptionalChain, inOptionalChain_eq hb]
  | .literal v, scope, lo, hi, c, h => by cases h; rfl
  | .name x, scope, lo, hi, c, h => by
    rw [bindExpr] at h
    split at h
    · cases h; rfl
    · cases h
  | .array items, scope, lo, hi, c, h => by
    obtain ⟨_, _, _, h⟩ := bind_binds h
    cases h; rfl
  | .object entries, scope, lo, hi, c, h => by
    obtain ⟨_, _, _, h⟩ := bind_binds h
    cases h; rfl
  | .unary op e, scope, lo, hi, c, h => by
    obtain ⟨_, _, _, h⟩ := bind_binds h
    cases h; rfl
  | .binary op left right, scope, lo, hi, c, h => by
    obtain ⟨_, _, _, h⟩ := bind_binds h
    obtain ⟨_, _, _, h⟩ := bind_binds h
    cases h; rfl
  | .ternary condition yes no, scope, lo, hi, c, h => by
    obtain ⟨_, _, _, h⟩ := bind_binds h
    obtain ⟨_, _, _, h⟩ := bind_binds h
    obtain ⟨_, _, _, h⟩ := bind_binds h
    cases h; rfl
  | .call function args, scope, lo, hi, c, h => by
    obtain ⟨b, cs, _, _, rfl, _⟩ := call_binds h
    rfl
  | .arrow _ _, scope, lo, hi, c, h => by cases h

theorem name_carries {scope : Scope} {x : String} {n lo : Nat} (hx : Fields.get? scope x = some n)
    (fetch : Fetcher) :
    Carries scope lo lo (eval fetch (.slot n)) fun env => evaluate fetch env (.name x) := by
  refine ⟨Nat.le_refl lo, fun {frame env} hrep => ?_⟩
  obtain ⟨v, hv, hread⟩ := simulates_readSlot hrep hx
  rw [eval, evaluate, hv]
  exact hread

/-- The callback's slots are written before every element, so the environment of each element is
represented whatever the elements before it have left. -/
theorem callback_carries {fetch : Fetcher} {scope inner : Scope} {b : Builtin} {params : List String}
    {slots : List Nat} {body : Expr} {codeBody : Code} {mid mid' hi : Nat} (items : List Json)
    (hparams : params.length ≤ 2)
    (hdeclare : (declareAll [] params).run mid = .ok ((slots, inner), mid'))
    (hbody : Carries (inner ++ scope) mid' hi (eval fetch codeBody) fun env =>
      evaluate fetch env body) :
    Carries scope mid hi
      (items.foldlM (fun (p : List Json × Nat) item => do
        Run.writeSlots slots [item, .ofNat p.2]
        let result ← eval fetch codeBody
        return (collect b p.1 item result, p.2 + 1)) ([], 0) >>= fun p => pure (Json.array p.1.reverse))
      fun env => do
        return .array (← Asking.each b (fun item i =>
          evaluate fetch (env.extend params [item, .ofNat i]) body) 0 items) := by
  have hmid := declareAll_count hdeclare
  have hle := hbody.le
  refine ⟨by omega, fun {frame env} hrep => ?_⟩
  have hcallback : ∀ frame', KeepsBelow mid frame frame' → ∀ item i,
      Simulates Eq mid hi frame'
        (do
          Run.writeSlots slots [item, .ofNat i]
          eval fetch codeBody)
        (evaluate fetch (env.extend params [item, .ofNat i]) body) := by
    intro frame' hkeep item i hlen requests
    have hnull : ∀ n, mid + [item, Json.ofNat i].length ≤ n → n < mid' →
        frame'[n]? = some .null := by
      intro n hn hn'
      simp only [List.length_cons, List.length_nil] at hn
      omega
    obtain ⟨frame'', hwrite, hkeep', hrep'⟩ := exec_writeSlots requests params _ hdeclare
      (hrep.keep hkeep (Nat.le_refl mid)) (by omega) hnull
    rw [exec_bind_ok hwrite]
    obtain ⟨hout, hreq, hkeep''⟩ :=
      hbody.simulates hrep' (by rw [hkeep'.length_eq]; exact hlen) requests
    exact ⟨hout, hreq, hkeep'.trans hkeep'' (by omega)⟩
  have heach := simulates_each b items frame [] 0 hcallback
  simp only [bind_assoc, List.reverse_nil, List.nil_append] at heach
  refine heach.bind (Nat.le_refl mid) (Nat.le_refl hi) fun p results _ hp _ => ?_
  exact simulates_pure (by rw [hp])

mutual

theorem bindExpr_carries (fetch : Fetcher) :
    ∀ {e : Expr} {scope : Scope} {lo hi : Nat} {c : Code},
      (bindExpr scope e).run lo = .ok (c, hi) →
      Carries scope lo hi (eval fetch c) fun env => evaluate fetch env e
  | .literal v, _, lo, _, _, h => by
    cases h
    exact .pure (Nat.le_refl lo) v
  | .name x, scope, lo, hi, c, h => by
    rw [bindExpr] at h
    rcases hx : Fields.get? scope x with _ | n
    · rw [hx] at h
      cases h
    · rw [hx] at h
      cases h
      exact name_carries hx fetch
  | .array items, _, _, _, _, h => by
    obtain ⟨cs, _, hitems, h⟩ := bind_binds h
    cases h
    exact (bindItems_carries fetch hitems).map Json.array
  | .object entries, _, _, _, _, h => by
    obtain ⟨cs, _, hentries, h⟩ := bind_binds h
    cases h
    exact (bindEntries_carries fetch hentries []).map Json.object
  | .member base name isOptional, _, _, hi, _, h => by
    obtain ⟨cb, _, hbase, h⟩ := bind_binds h
    cases h
    refine (bindExpr_carries fetch hbase).bind fun v => ?_
    cases v
    case null =>
      rw [inOptionalChain_eq hbase]
      dsimp only
      split
      · exact .pure (Nat.le_refl hi) _
      · exact .throw (Nat.le_refl hi) _
    all_goals exact .pure (Nat.le_refl hi) _
  | .index base index, _, _, hi, _, h => by
    obtain ⟨cb, _, hbase, h⟩ := bind_binds h
    obtain ⟨ci, _, hindex, h⟩ := bind_binds h
    cases h
    refine (bindExpr_carries fetch hbase).bind fun v => ?_
    refine (bindExpr_carries fetch hindex).bind fun i => ?_
    cases v
    case null =>
      rw [inOptionalChain_eq hbase]
      dsimp only
      split
      · exact .pure (Nat.le_refl hi) _
      · exact .throw (Nat.le_refl hi) _
    all_goals exact .pure (Nat.le_refl hi) _
  | .unary op e, _, _, hi, _, h => by
    obtain ⟨ce, _, he, h⟩ := bind_binds h
    cases h
    exact (bindExpr_carries fetch he).bind fun v => .lift (Nat.le_refl hi) _
  | .binary op left right, _, _, hi, _, h => by
    obtain ⟨cl, mid, hleft, h⟩ := bind_binds h
    obtain ⟨cr, _, hright, h⟩ := bind_binds h
    cases h
    have hl := bindExpr_carries fetch hleft
    have hr := bindExpr_carries fetch hright
    cases op
    case and =>
      refine hl.bind fun v => ?_
      split
      · exact hr
      · exact .pure hr.le v
    case or =>
      refine hl.bind fun v => ?_
      split
      · exact .pure hr.le v
      · exact hr
    all_goals exact hl.bind fun v => hr.bind fun w => .lift (Nat.le_refl hi) _
  | .ternary condition yes no, _, _, hi, _, h => by
    obtain ⟨cc, _, hcondition, h⟩ := bind_binds h
    obtain ⟨cy, mid, hyes, h⟩ := bind_binds h
    obtain ⟨cn, _, hno, h⟩ := bind_binds h
    cases h
    have hy := bindExpr_carries fetch hyes
    have hn := bindExpr_carries fetch hno
    refine (bindExpr_carries fetch hcondition).bind fun v => ?_
    -- one of the two runs, on a frame that has the slots of both
    split
    · exact hy.widen (Nat.le_refl _) hn.le
    · exact hn.widen hy.le (Nat.le_refl hi)
  | .call function args, _, _, hi, _, h => by
    obtain ⟨b, cs, hb, htakes, rfl, hargs⟩ := call_binds h
    simp only [evaluate, hb]
    rw [eval]
    split at hargs
    · rename_i hcallback
      simp only [hcallback, if_true]
      exact callbackArgs_carries fetch hcallback htakes hargs
    · rename_i hcallback
      simp only [hcallback, Bool.false_eq_true, if_false]
      refine (bindArgs_carries fetch hargs).bind fun vs => ?_
      split
      · exact ⟨Nat.le_refl hi, fun _ => simulates_fetchCall fetch vs⟩
      · exact .lift (Nat.le_refl hi) _
  | .arrow params body, _, _, _, _, h => by cases h

theorem bindArgs_carries (fetch : Fetcher) :
    ∀ {es : List Expr} {scope : Scope} {lo hi : Nat} {cs : List Code},
      (bindArgs scope es).run lo = .ok (cs, hi) →
      Carries scope lo hi (evalArgs fetch cs) fun env => evaluateArgs fetch env es
  | [], _, lo, _, _, h => by
    cases h
    exact .pure (Nat.le_refl lo) []
  | e :: es, _, _, _, _, h => by
    obtain ⟨c, _, he, h⟩ := bind_binds h
    obtain ⟨cs, _, hes, h⟩ := bind_binds h
    cases h
    exact (bindExpr_carries fetch he).bind fun v => (bindArgs_carries fetch hes).map (v :: ·)

theorem callbackArgs_carries (fetch : Fetcher) :
    ∀ {args : List Expr} {scope : Scope} {b : Builtin} {lo hi : Nat} {cs : List Code},
      b.takesCallback = true → b.takes args.length = true →
      (bindCallbackArgs scope b args).run lo = .ok (cs, hi) →
      Carries scope lo hi (evalCallback fetch b cs) fun env => evaluateCallback fetch env b args
  | list :: callback :: rest, _, b, _, _, _, hb, htakes, h => by
    obtain ⟨_, _, _, _, _, _, _, mid, _, heq, rfl, hparams, hlist, hdeclare, hbody⟩ :=
      callbackArgs_bind hb htakes h
    cases callback with
    | arrow params body =>
      cases heq
      refine (bindExpr_carries fetch hlist).bind fun v => ?_
      refine Carries.bind (.lift (Nat.le_refl mid) (listArg b v)) fun items => ?_
      exact callback_carries items (by omega) hdeclare (bindExpr_carries fetch hbody)
    | _ => cases heq
  | [], _, _, _, _, _, hb, htakes, h => by
    obtain ⟨_, _, _, _, _, _, _, _, _, heq, _⟩ := callbackArgs_bind hb htakes h
    cases heq
  | [list], _, _, _, _, _, hb, htakes, h => by
    obtain ⟨_, _, _, _, _, _, _, _, _, heq, _⟩ := callbackArgs_bind hb htakes h
    cases heq

theorem bindItems_carries (fetch : Fetcher) :
    ∀ {items : List Item} {scope : Scope} {lo hi : Nat} {cs : List CodeItem},
      (bindItems scope items).run lo = .ok (cs, hi) →
      Carries scope lo hi (evalItems fetch cs) fun env => evaluateItems fetch env items
  | [], _, lo, _, _, h => by
    cases h
    exact .pure (Nat.le_refl lo) []
  | .one e :: items, _, _, _, _, h => by
    obtain ⟨c, _, he, h⟩ := bind_binds h
    obtain ⟨cs, _, hitems, h⟩ := bind_binds h
    cases h
    exact (bindExpr_carries fetch he).bind fun v => (bindItems_carries fetch hitems).map (v :: ·)
  | .spread e :: items, _, _, _, _, h => by
    obtain ⟨c, mid, he, h⟩ := bind_binds h
    obtain ⟨cs, _, hitems, h⟩ := bind_binds h
    cases h
    refine (bindExpr_carries fetch he).bind fun v => ?_
    refine Carries.bind (.lift (Nat.le_refl mid) (spreadItems v)) fun vs => ?_
    exact (bindItems_carries fetch hitems).map (vs ++ ·)

theorem bindEntries_carries (fetch : Fetcher) :
    ∀ {entries : List Entry} {scope : Scope} {lo hi : Nat} {cs : List CodeEntry},
      (bindEntries scope entries).run lo = .ok (cs, hi) → ∀ fields,
      Carries scope lo hi (evalEntries fetch fields cs) fun env =>
        evaluateEntries fetch env fields entries
  | [], _, lo, _, _, h, fields => by
    cases h
    exact .pure (Nat.le_refl lo) fields
  | .field key e :: entries, _, _, _, _, h, fields => by
    obtain ⟨c, _, he, h⟩ := bind_binds h
    obtain ⟨cs, _, hentries, h⟩ := bind_binds h
    cases h
    exact (bindExpr_carries fetch he).bind fun v =>
      bindEntries_carries fetch hentries (Fields.insert fields key v)
  | .spread e :: entries, _, _, _, _, h, fields => by
    obtain ⟨c, _, he, h⟩ := bind_binds h
    obtain ⟨cs, _, hentries, h⟩ := bind_binds h
    cases h
    exact (bindExpr_carries fetch he).bind fun v =>
      bindEntries_carries fetch hentries (Fields.overlay fields (spreadFields v))

end

/-! ## Functions -/

theorem bindBindings_le {bindings : List (String × Expr)} :
    ∀ {scope : Scope} {lo hi : Nat} {r : List (Nat × Code) × Scope},
      (bindBindings scope bindings).run lo = .ok (r, hi) → lo ≤ hi := by
  induction bindings with
  | nil =>
    intro scope lo hi r h
    cases h
    exact Nat.le_refl lo
  | cons binding bindings ih =>
    intro scope lo hi r h
    obtain ⟨c, mid, he, h⟩ := bind_binds h
    obtain ⟨_, _, hname, h⟩ := bind_binds h
    obtain ⟨rfl, rfl⟩ := declare_binds hname
    obtain ⟨_, _, hrest, h⟩ := bind_binds h
    cases h
    have hc := (bindExpr_carries .absent he).le
    have hle := ih hrest
    omega

theorem bindings_simulates (fetch : Fetcher) (bindings : List (String × Expr)) :
    ∀ {scope scope' : Scope} {lo hi top : Nat} {cs : List (Nat × Code)} {frame : List Json}
      {env : Environment} {x : Run Json} {y : Environment → Asking Json},
      (bindBindings scope bindings).run lo = .ok ((cs, scope'), hi) →
      Represents scope lo frame env → Carries scope' hi top x y →
      Simulates Eq lo top frame (evalBindings fetch cs >>= fun _ => x)
        (evaluateBindings fetch env bindings >>= y) := by
  induction bindings with
  | nil =>
    intro scope scope' lo hi top cs frame env x y h hrep hx
    cases h
    exact hx.simulates hrep
  | cons binding bindings ih =>
    obtain ⟨name, e⟩ := binding
    intro scope scope' lo hi top cs frame env x y h hrep hx
    obtain ⟨c, mid, he, h⟩ := bind_binds h
    obtain ⟨_, _, hname, h⟩ := bind_binds h
    obtain ⟨rfl, rfl⟩ := declare_binds hname
    obtain ⟨⟨rest, _⟩, _, hrest, h⟩ := bind_binds h
    cases h
    have hc := bindExpr_carries fetch he
    have hle := bindBindings_le hrest
    have htop := hx.le
    rw [evalBindings, evaluateBindings, bind_assoc, bind_assoc]
    refine (hc.simulates hrep).andThen hc.le (by omega) fun v frame' hkeep hlen requests => ?_
    have hset := KeepsBelow.set mid frame' v
    have hmid : (frame'.set mid v)[mid]? = some v := List.getElem?_set_self (by omega)
    have hrep' := ((hrep.keep hkeep hc.le).keep hset (Nat.le_refl mid)).cons hmid name
    rw [bind_assoc, exec_bind_ok (exec_writeSlot v (by omega))]
    obtain ⟨hout, hreq, hkeep'⟩ :=
      ih hrest hrep' hx (by rw [hset.length_eq]; exact hlen) requests
    exact ⟨hout, hreq, hset.trans hkeep' (by omega)⟩

theorem bind_binds_all {f : Function} {p : Program} (h : bind f = .ok p) :
    ∃ mid mid' scope scope', (declareAll [] f.params).run 0 = .ok ((p.paramSlots, scope), mid) ∧
      (bindBindings scope f.bindings).run mid = .ok ((p.bindings, scope'), mid') ∧
      (bindExpr scope' f.result).run mid' = .ok (p.result, p.frameSize) := by
  unfold bind at h
  split at h
  · cases h
  · obtain ⟨⟨_, _⟩, hrun, hp⟩ := eq_ok_of_bind h
    cases hp
    obtain ⟨⟨slots, scope⟩, mid, hparams, hrun⟩ := bind_binds hrun
    obtain ⟨⟨bindings, scope'⟩, mid', hbindings, hrun⟩ := bind_binds hrun
    obtain ⟨result, _, hresult, hrun⟩ := bind_binds hrun
    cases hrun
    exact ⟨mid, mid', scope, scope', hparams, hbindings, hresult⟩

theorem run_sameOutcome {f : Function} {p : Program} (h : bind f = .ok p) (fetch : Fetcher)
    (args : List Json) : SameOutcome Eq (p.call fetch args) (f.meaning fetch args).1 ∧
      p.requests fetch args = (f.meaning fetch args).2 := by
  obtain ⟨mid, mid', scope, scope', hparams, hbindings, hresult⟩ := bind_binds_all h
  have hx := bindExpr_carries fetch hresult
  have hle := bindBindings_le hbindings
  have hsize := hx.le
  have hstart : Represents ([] ++ []) 0 p.start.frame [] := nofun
  have hlen : p.start.frame.length = p.frameSize := List.length_replicate
  obtain ⟨frame, hwrite, hkeep, hrep⟩ := exec_writeSlots [] f.params args
    hparams hstart (by omega) fun n _ hn => by
      rw [Program.start, List.getElem?_replicate, if_pos (by omega)]
  rw [List.append_nil] at hrep
  obtain ⟨hout, hreq, _⟩ := bindings_simulates fetch f.bindings hbindings hrep hx
    (Nat.le_of_eq (by rw [hkeep.length_eq, hlen])) []
  have hbody : p.run fetch args =
      exec (evalBindings fetch p.bindings >>= fun _ => eval fetch p.result) ⟨frame, []⟩ :=
    exec_bind_ok hwrite
  have hmeaning : f.meaning fetch args =
      exec (evaluateBindings fetch (Environment.extend [] f.params args) f.bindings >>= fun env =>
        evaluate fetch env f.result) [] := rfl
  rw [hmeaning, Program.call, Program.requests, hbody]
  exact ⟨hout, hreq⟩

/-- **A bound function does what its source means**, whatever the arguments and the data source: the
result or the error of its run is that of evaluating the source by name, which is never stuck, and
the requests are the same in the same order. -/
theorem meaning_eq_run {f : Function} {p : Program} (h : bind f = .ok p) (fetch : Fetcher)
    (args : List Json) :
    f.meaning fetch args = ((p.call fetch args).mapError .failed, p.requests fetch args) := by
  obtain ⟨hout, hreq⟩ := run_sameOutcome h fetch args
  exact Prod.ext hout.eq_mapError hreq.symm

/-- `xs => { let ys = map(xs, x => map(xs, (y, i) => [x, y, i])); return filter(ys, (xs, i) => i &&
fetch("u", xs)) }`: the callback of `filter` hides the parameter, and asks for all but the first. -/
def nestedCallbacks : Function where
  params := ["xs"]
  bindings := [("ys", .call "map" [.name "xs", .arrow ["x"] (.call "map" [.name "xs",
    .arrow ["y", "i"] (.array [.one (.name "x"), .one (.name "y"), .one (.name "i")])])])]
  result := .call "filter" [.name "ys", .arrow ["xs", "i"] (.binary .and (.name "i")
    (.call "fetch" [.literal (.string "u"), .name "xs"]))]

theorem meaning_nestedCallbacks :
    ∃ p, bind nestedCallbacks = .ok p ∧ p.frameSize = 7 ∧
      nestedCallbacks.meaning (.canned [("u", .bool true)]) [.array [.bool true, .null]] =
        ((p.call (.canned [("u", .bool true)]) [.array [.bool true, .null]]).mapError .failed,
          p.requests (.canned [("u", .bool true)]) [.array [.bool true, .null]]) :=
  ⟨_, rfl, rfl, meaning_eq_run rfl _ _⟩

end Montage.Script
