import Montage.Proofs.Json.Fields
import Montage.Proofs.Script.Binding

/-!
# The functions that the binder accepts

A function is closed when each of its names is declared where it is read, each call has arguments
that the function takes, and arrow functions stand only where `map` and `filter` take a callback.
This is said here of the places in the source, without the scopes that the binder carries around:
`Occurs` tells which expressions stand in an expression and inside which callback parameters. The
binder accepts exactly the closed functions.
-/

namespace Montage.Script

/-! ## Occurrences -/

def Item.expr : Item → Expr
  | .one e | .spread e => e

def Entry.expr : Entry → Expr
  | .field _ e | .spread e => e

def callsBack (function : String) : Bool :=
  (Builtin.ofName? function).any Builtin.takesCallback

namespace Expr

/-- The expressions directly inside an expression, the callback of a call apart. -/
def operands : Expr → List Expr
  | .literal _ | .name _ | .arrow _ _ => []
  | .array items => items.map Item.expr
  | .object entries => entries.map Entry.expr
  | .member base _ _ => [base]
  | .index base key => [base, key]
  | .unary _ e => [e]
  | .binary _ left right => [left, right]
  | .ternary condition yes no => [condition, yes, no]
  | .call function args => if callsBack function then args.eraseIdx 1 else args

/-- The callback of a call of `map` or `filter`, its second argument. -/
def callback? : Expr → Option Expr
  | .call function args => if callsBack function then args[1]? else none
  | _ => none

/-- An expression occurs in another one, inside callbacks that have these parameters together. -/
inductive Occurs : Expr → List String → Expr → Prop
  | self (e : Expr) : Occurs e [] e
  | operand {e o e' : Expr} {params : List String} (ho : o ∈ e.operands) (h : Occurs o params e') :
    Occurs e params e'
  | callback {e body e' : Expr} {own params : List String}
    (hcallback : e.callback? = some (.arrow own body)) (h : Occurs body params e') :
    Occurs e (params ++ own) e'

/-- What an expression has to be like where these names can be seen. -/
def Permitted (names : List String) : Expr → Prop
  | .name x => x ∈ names
  | .call function args => ∃ b, Builtin.ofName? function = some b ∧ b.takes args.length = true ∧
    (b.takesCallback = true → ∃ params body, args[1]? = some (.arrow params body) ∧
      (params.length = 1 ∨ params.length = 2) ∧ params.Nodup)
  | .arrow _ _ => False
  | _ => True

/-- All that occurs in an expression is as it has to be where these names are declared around it. -/
def Closed (names : List String) (e : Expr) : Prop :=
  ∀ ⦃params e'⦄, e.Occurs params e' → e'.Permitted (params ++ names)

theorem closed_iff {names : List String} {e : Expr} :
    e.Closed names ↔ e.Permitted names ∧ (∀ o ∈ e.operands, o.Closed names) ∧
      ∀ own body, e.callback? = some (.arrow own body) → body.Closed (own ++ names) := by
  constructor
  · intro h
    refine ⟨h (.self e), fun o ho params e' h' => h (.operand ho h'), ?_⟩
    intro own body hcallback params e' h'
    rw [← List.append_assoc]
    exact h (.callback hcallback h')
  · rintro ⟨hself, hoperands, hcallback⟩ params e' h
    cases h with
    | self => exact hself
    | operand ho h' => exact hoperands _ ho h'
    | callback hc h' =>
      rw [List.append_assoc]
      exact hcallback _ _ hc h'

theorem closed_iff_operands {names : List String} {e : Expr} (h : e.Permitted names)
    (hcallback : e.callback? = none) : e.Closed names ↔ ∀ o ∈ e.operands, o.Closed names := by
  rw [closed_iff, hcallback]
  exact ⟨fun hc => hc.2.1, fun hc => ⟨h, hc, nofun⟩⟩

theorem Closed.of_operands {names : List String} {e : Expr} (h : e.Permitted names)
    (hcallback : e.callback? = none) (hoperands : ∀ o ∈ e.operands, o.Closed names) :
    e.Closed names :=
  (closed_iff_operands h hcallback).mpr hoperands

end Expr

/-- A preset function that refers to nothing but what it declares: at most two parameters, no name
declared twice, and every binding and the result closed under the declarations before it. -/
structure Function.Closed (f : Function) : Prop where
  paramCount : f.params.length ≤ 2
  distinct : (f.params ++ f.bindings.map Prod.fst).Nodup
  bindings : ∀ before x e after, f.bindings = before ++ (x, e) :: after →
    e.Closed (f.params ++ before.map Prod.fst)
  result : f.result.Closed (f.params ++ f.bindings.map Prod.fst)

/-! ## Success -/

/-- Binding succeeds under a condition, whatever slot is the next one. -/
def Succeeds {α : Type} (x : Binding α) (P : Prop) : Prop :=
  ∀ lo, (∃ a hi, x.run lo = .ok (a, hi)) ↔ P

namespace Succeeds

variable {α β : Type} {x : Binding α} {P Q : Prop}

theorem pure (a : α) : Succeeds (Pure.pure a : Binding α) True :=
  fun lo => ⟨fun _ => trivial, fun _ => ⟨a, lo, rfl⟩⟩

theorem throw (e : BindError) : Succeeds (MonadExcept.throw e : Binding α) False :=
  fun _ => ⟨fun ⟨_, _, h⟩ => (nomatch h), False.elim⟩

theorem bind {f : α → Binding β} {R : α → Prop} (hx : Succeeds x P)
    (hR : ∀ {lo a hi}, x.run lo = .ok (a, hi) → R a) (hf : ∀ a, R a → Succeeds (f a) Q) :
    Succeeds (x >>= f) (P ∧ Q) := by
  intro lo
  constructor
  · rintro ⟨b, hi, h⟩
    obtain ⟨a, mid, ha, hb⟩ := bind_binds h
    exact ⟨(hx lo).mp ⟨a, mid, ha⟩, (hf a (hR ha) mid).mp ⟨b, hi, hb⟩⟩
  · rintro ⟨hP, hQ⟩
    obtain ⟨a, mid, ha⟩ := (hx lo).mpr hP
    obtain ⟨b, hi, hb⟩ := (hf a (hR ha) mid).mpr hQ
    refine ⟨b, hi, ?_⟩
    rw [StateT.run_bind, ha]
    exact hb

theorem andThen {f : α → Binding β} (hx : Succeeds x P) (hf : ∀ a, Succeeds (f a) Q) :
    Succeeds (x >>= f) (P ∧ Q) :=
  hx.bind (R := fun _ => True) (fun _ => trivial) fun a _ => hf a

theorem map (hx : Succeeds x P) (f : α → β) : Succeeds (do return f (← x)) P := by
  have h := hx.andThen fun a => Succeeds.pure (f a)
  rwa [and_true] at h

theorem of_iff (hx : Succeeds x P) (h : P ↔ Q) : Succeeds x Q :=
  fun lo => (hx lo).trans h

end Succeeds

theorem Succeeds.closed {α : Type} {x : Binding α} {names : List String} {e : Expr}
    (h : e.Permitted names) (hcallback : e.callback? = none)
    (hx : Succeeds x (∀ o ∈ e.operands, o.Closed names)) : Succeeds x (e.Closed names) :=
  hx.of_iff (Expr.closed_iff_operands h hcallback).symm

/-! ## Declarations -/

def Scope.Shows (scope : Scope) (names : List String) : Prop :=
  ∀ x, x ∈ Fields.keys scope ↔ x ∈ names

theorem Scope.Shows.append {inner outer : Scope} {own names : List String}
    (hinner : inner.Shows own) (houter : outer.Shows names) :
    Scope.Shows (inner ++ outer) (own ++ names) := by
  intro x
  rw [Fields.keys_append, List.mem_append, List.mem_append, hinner x, houter x]

theorem Scope.Shows.cons {scope : Scope} {names : List String} (h : scope.Shows names) (x : String)
    (slot : Nat) : Scope.Shows ((x, slot) :: scope) (names ++ [x]) := by
  intro y
  rw [Fields.keys_cons, List.mem_cons, List.mem_append, List.mem_singleton, h y]
  exact or_comm

theorem declare_succeeds {scope : Scope} {names : List String} (h : scope.Shows names)
    (x : String) :
    Succeeds (declare scope x) (x ∉ names) := by
  have hkey : Fields.hasKey scope x = true ↔ x ∈ names := by
    rw [Fields.hasKey_eq_isSome, Fields.isSome_get?_iff, h x]
  unfold declare
  split
  · rename_i hx
    exact (Succeeds.throw _).of_iff ⟨False.elim, fun hnot => hnot (hkey.mp hx)⟩
  · rename_i hx
    exact fun lo => ⟨fun _ hmem => hx (hkey.mpr hmem), fun _ => ⟨_, _, rfl⟩⟩

theorem declareAll_succeeds {declared : List String} :
    ∀ {scope : Scope} {names : List String}, scope.Shows names →
      Succeeds (declareAll scope declared) (declared.Nodup ∧ ∀ x ∈ declared, x ∉ names) ∧
      ∀ {lo r hi}, (declareAll scope declared).run lo = .ok (r, hi) →
        r.2.Shows (names ++ declared) := by
  induction declared with
  | nil =>
    intro scope names h
    refine ⟨(Succeeds.pure _).of_iff (by simp), fun hr => ?_⟩
    cases hr
    rwa [List.append_nil]
  | cons x declared ih =>
    intro scope names h
    have hnext : ∀ {lo r hi}, (declare scope x).run lo = .ok (r, hi) →
        r.2.Shows (names ++ [x]) := fun hx => by
      rw [(declare_binds hx).1]
      exact h.cons x _
    refine ⟨?_, fun hr => ?_⟩
    · refine ((declare_succeeds h x).bind hnext fun r hr => (ih hr).1.map _).of_iff ?_
      simp only [List.nodup_cons, List.mem_append, List.mem_cons, List.not_mem_nil, or_false]
      grind
    · obtain ⟨_, _, hx, hr⟩ := bind_binds hr
      obtain ⟨_, _, hrest, hr⟩ := bind_binds hr
      cases hr
      have hshows := (ih (hnext hx)).2 hrest
      rwa [List.append_assoc] at hshows

/-! ## Expressions -/

/-- An arrow function with parameters that a callback may have and a closed body. -/
def Expr.ClosedCallback (names : List String) (e : Expr) : Prop :=
  ∃ params body, e = .arrow params body ∧ (params.length = 1 ∨ params.length = 2) ∧ params.Nodup ∧
    body.Closed (params ++ names)

theorem takesCallback_two {b : Builtin} {n : Nat} (hb : b.takesCallback = true)
    (ht : b.takes n = true) : 2 = n := by
  have harity : b.arity = (2, some 2) := by cases b <;> first | rfl | cases hb
  rw [Builtin.takes, harity, Bool.and_eq_true, decide_eq_true_eq] at ht
  exact Nat.le_antisymm ht.1 (by simpa using ht.2)

theorem closed_call_iff {names : List String} {function : String} {b : Builtin} {args : List Expr}
    (hb : Builtin.ofName? function = some b) (ht : b.takes args.length = true) :
    (Expr.call function args).Closed names ↔
      if b.takesCallback then
        (∀ o ∈ args.eraseIdx 1, o.Closed names) ∧ ∀ e, args[1]? = some e → e.ClosedCallback names
      else ∀ o ∈ args, o.Closed names := by
  have hcalls : callsBack function = b.takesCallback := by rw [callsBack, hb, Option.any_some]
  split
  · rename_i hcb
    have hlen : 1 < args.length := takesCallback_two hcb ht ▸ Nat.one_lt_two
    simp only [Expr.closed_iff (e := .call function args), Expr.Permitted, Expr.operands,
      Expr.callback?, hcalls, hcb, if_true, hb, Option.some.injEq, exists_eq_left', ht, true_and,
      true_implies, List.getElem?_eq_getElem hlen]
    constructor
    · rintro ⟨⟨params, body, harrow, hcount, hnodup⟩, hargs, hbody⟩
      refine ⟨hargs, fun e he => ?_⟩
      exact ⟨params, body, he ▸ harrow, hcount, hnodup, hbody params body harrow⟩
    · rintro ⟨hargs, hcallback⟩
      obtain ⟨params, body, harrow, hcount, hnodup, hclosed⟩ := hcallback _ rfl
      refine ⟨⟨params, body, harrow, hcount, hnodup⟩, hargs, fun own body' harrow' => ?_⟩
      rw [harrow] at harrow'
      cases harrow'
      exact hclosed
  · rename_i hcb
    have hpermitted : (Expr.call function args).Permitted names :=
      ⟨b, hb, ht, fun h => absurd h hcb⟩
    rw [Expr.closed_iff_operands hpermitted, Expr.operands, hcalls, if_neg hcb]
    rw [Expr.callback?, hcalls, if_neg hcb]

mutual

theorem bindExpr_succeeds {scope : Scope} {names : List String} (h : scope.Shows names) :
    ∀ e : Expr, Succeeds (bindExpr scope e) (e.Closed names)
  | .literal v => by
    exact .closed trivial rfl ((Succeeds.pure _).of_iff (by simp [Expr.operands]))
  | .name x => by
    rw [bindExpr]
    have hclosed : (Expr.name x).Closed names ↔ x ∈ Fields.keys scope := by
      rw [h x, Expr.closed_iff]
      simp [Expr.Permitted, Expr.operands, Expr.callback?]
    rw [← Fields.isSome_get?_iff] at hclosed
    split
    · rename_i hx
      exact (Succeeds.pure _).of_iff (by rw [hclosed, hx, Option.isSome_some, eq_self])
    · rename_i hx
      exact (Succeeds.throw _).of_iff (by rw [hclosed, hx]; simp)
  | .array items => by
    rw [bindExpr]
    refine .closed trivial rfl (((bindItems_succeeds h items).map _).of_iff ?_)
    rw [Expr.operands, List.forall_mem_map]
  | .object entries => by
    rw [bindExpr]
    refine .closed trivial rfl (((bindEntries_succeeds h entries).map _).of_iff ?_)
    rw [Expr.operands, List.forall_mem_map]
  | .member base name isOptional => by
    rw [bindExpr]
    refine .closed trivial rfl (((bindExpr_succeeds h base).map _).of_iff ?_)
    rw [Expr.operands, List.forall_mem_singleton]
  | .index base index => by
    rw [bindExpr]
    refine .closed trivial rfl (((bindExpr_succeeds h base).andThen fun _ =>
      (bindExpr_succeeds h index).map _).of_iff ?_)
    rw [Expr.operands, List.forall_mem_cons, List.forall_mem_singleton]
  | .unary op e => by
    rw [bindExpr]
    refine .closed trivial rfl (((bindExpr_succeeds h e).map _).of_iff ?_)
    rw [Expr.operands, List.forall_mem_singleton]
  | .binary op left right => by
    rw [bindExpr]
    refine .closed trivial rfl (((bindExpr_succeeds h left).andThen fun _ =>
      (bindExpr_succeeds h right).map _).of_iff ?_)
    rw [Expr.operands, List.forall_mem_cons, List.forall_mem_singleton]
  | .ternary condition yes no => by
    rw [bindExpr]
    refine .closed trivial rfl (((bindExpr_succeeds h condition).andThen fun _ =>
      (bindExpr_succeeds h yes).andThen fun _ => (bindExpr_succeeds h no).map _).of_iff ?_)
    rw [Expr.operands, List.forall_mem_cons, List.forall_mem_cons, List.forall_mem_singleton]
  | .call function args => by
    rw [bindExpr]
    -- A refused call is not permitted where it stands.
    have refused : ∀ error, (∀ b, Builtin.ofName? function = some b → b.takes args.length = false) →
        Succeeds (throw error : Binding Code) ((Expr.call function args).Closed names) := by
      refine fun error hno => (Succeeds.throw error).of_iff ⟨False.elim, fun hclosed => ?_⟩
      obtain ⟨b, hb, ht, _⟩ := (Expr.closed_iff.mp hclosed).1
      exact absurd ht (Bool.eq_false_iff.mp (hno b hb))
    split
    · rename_i hb
      exact refused _ fun b hb' => by rw [hb] at hb'; cases hb'
    · rename_i b hb
      split
      · rename_i ht
        refine refused _ fun b' hb' => ?_
        rw [hb] at hb'
        cases hb'
        simpa using ht
      · rename_i ht
        have hcall := @closed_call_iff names function b args hb (by simpa using ht)
        split
        · rename_i hcb
          rw [if_pos hcb] at hcall
          exact ((bindCallbackArgs_succeeds h b args).map _).of_iff hcall.symm
        · rename_i hcb
          rw [if_neg hcb] at hcall
          exact ((bindArgs_succeeds h args).map _).of_iff hcall.symm
  | .arrow params body => by
    rw [bindExpr]
    exact (Succeeds.throw _).of_iff ⟨False.elim, fun hclosed => (Expr.closed_iff.mp hclosed).1⟩

theorem bindArgs_succeeds {scope : Scope} {names : List String} (h : scope.Shows names) :
    ∀ args : List Expr, Succeeds (bindArgs scope args) (∀ e ∈ args, e.Closed names)
  | [] => (Succeeds.pure _).of_iff (by simp)
  | e :: rest => by
    rw [bindArgs]
    refine ((bindExpr_succeeds h e).andThen fun _ => (bindArgs_succeeds h rest).map _).of_iff ?_
    rw [List.forall_mem_cons]

theorem bindCallbackArgs_succeeds {scope : Scope} {names : List String} (h : scope.Shows names)
    (b : Builtin) : ∀ args : List Expr, Succeeds (bindCallbackArgs scope b args)
      ((∀ e ∈ args.eraseIdx 1, e.Closed names) ∧ ∀ e, args[1]? = some e → e.ClosedCallback names)
  | list :: callback :: rest => by
    rw [bindCallbackArgs]
    refine ((bindExpr_succeeds h list).andThen fun _ => (bindCallback_succeeds h b callback).andThen
      fun _ => (bindArgs_succeeds h rest).map _).of_iff ?_
    simp only [List.eraseIdx_cons_succ, List.eraseIdx_cons_zero, List.getElem?_cons_succ,
      List.getElem?_cons_zero, Option.some.injEq, forall_eq', List.forall_mem_cons]
    exact ⟨fun ⟨hl, hc, hr⟩ => ⟨⟨hl, hr⟩, hc⟩, fun ⟨⟨hl, hr⟩, hc⟩ => ⟨hl, hc, hr⟩⟩
  | [list] => by
    rw [bindCallbackArgs]
    refine ((bindExpr_succeeds h list).map _).of_iff ?_
    simp
  | [] => (Succeeds.pure _).of_iff (by simp)

theorem bindCallback_succeeds {scope : Scope} {names : List String} (h : scope.Shows names)
    (b : Builtin) : ∀ e : Expr, Succeeds (bindCallback scope b e) (e.ClosedCallback names)
  | .arrow params body => by
    rw [bindCallback]
    have hcallback : (Expr.arrow params body).ClosedCallback names ↔
        (params.length = 1 ∨ params.length = 2) ∧ params.Nodup ∧ body.Closed (params ++ names) := by
      constructor
      · rintro ⟨_, _, harrow, hclosed⟩
        cases harrow
        exact hclosed
      · exact fun hclosed => ⟨params, body, rfl, hclosed⟩
    have hcount : (params.isEmpty || decide (2 < params.length)) = true ↔
        ¬(params.length = 1 ∨ params.length = 2) := by
      rw [Bool.or_eq_true, List.isEmpty_iff_length_eq_zero, decide_eq_true_eq]
      omega
    split
    · rename_i hbad
      exact (Succeeds.throw _).of_iff
        ⟨False.elim, fun hclosed => hcount.mp hbad (hcallback.mp hclosed).1⟩
    · rename_i hok
      obtain ⟨hdeclare, hshows⟩ :=
        @declareAll_succeeds params [] [] fun _ => Iff.rfl
      refine (hdeclare.bind hshows fun r hr =>
        (bindExpr_succeeds (hr.append h) body).map _).of_iff ?_
      rw [hcallback, List.nil_append]
      simp [Decidable.not_not.mp (mt hcount.mpr hok)]
  | .literal .. | .name .. | .array .. | .object .. | .member .. | .index .. | .unary ..
  | .binary .. | .ternary .. | .call .. =>
    (Succeeds.throw (.arrowExpected b)).of_iff
      ⟨False.elim, fun ⟨_, _, harrow, _⟩ => (nomatch harrow)⟩

theorem bindItems_succeeds {scope : Scope} {names : List String} (h : scope.Shows names) :
    ∀ items : List Item, Succeeds (bindItems scope items) (∀ item ∈ items, item.expr.Closed names)
  | [] => (Succeeds.pure _).of_iff (by simp)
  | .one e :: rest | .spread e :: rest => by
    rw [bindItems]
    refine ((bindExpr_succeeds h e).andThen fun _ => (bindItems_succeeds h rest).map _).of_iff ?_
    rw [List.forall_mem_cons, Item.expr]

theorem bindEntries_succeeds {scope : Scope} {names : List String} (h : scope.Shows names) :
    ∀ entries : List Entry,
      Succeeds (bindEntries scope entries) (∀ entry ∈ entries, entry.expr.Closed names)
  | [] => (Succeeds.pure _).of_iff (by simp)
  | .field key e :: rest | .spread e :: rest => by
    rw [bindEntries]
    refine ((bindExpr_succeeds h e).andThen fun _ => (bindEntries_succeeds h rest).map _).of_iff ?_
    rw [List.forall_mem_cons, Entry.expr]

end

/-! ## Functions -/

theorem bindBindings_succeeds {bindings : List (String × Expr)} :
    ∀ {scope : Scope} {names : List String}, scope.Shows names →
      Succeeds (bindBindings scope bindings)
        ((bindings.map Prod.fst).Nodup ∧ (∀ x ∈ bindings.map Prod.fst, x ∉ names) ∧
          ∀ before x e after, bindings = before ++ (x, e) :: after →
            e.Closed (names ++ before.map Prod.fst)) ∧
      ∀ {lo r hi}, (bindBindings scope bindings).run lo = .ok (r, hi) →
        r.2.Shows (names ++ bindings.map Prod.fst) := by
  induction bindings with
  | nil =>
    intro scope names h
    refine ⟨(Succeeds.pure _).of_iff (by simp), fun hr => ?_⟩
    cases hr
    rwa [List.map_nil, List.append_nil]
  | cons binding bindings ih =>
    obtain ⟨x, e⟩ := binding
    intro scope names h
    have hnext : ∀ {lo r hi}, (declare scope x).run lo = .ok (r, hi) →
        r.2.Shows (names ++ [x]) := fun hx => by
      rw [(declare_binds hx).1]
      exact h.cons x _
    refine ⟨?_, fun hr => ?_⟩
    · refine ((bindExpr_succeeds h e).andThen fun _ => (declare_succeeds h x).bind hnext
        fun r hr => (ih hr).1.map _).of_iff ?_
      constructor
      · rintro ⟨he, hx, hnodup, hnew, hrest⟩
        refine ⟨?_, ?_, ?_⟩
        · exact List.nodup_cons.mpr ⟨fun hmem => hnew x hmem (by simp), hnodup⟩
        · intro y hy hmem
          rcases List.mem_cons.mp hy with rfl | hy
          · exact hx hmem
          · exact hnew y hy (List.mem_append_left [x] hmem)
        · intro before y e' after heq
          rcases before with _ | ⟨binding, before⟩
          · cases heq
            rwa [List.map_nil, List.append_nil]
          · cases heq
            have hclosed := hrest before y e' after rfl
            rwa [List.append_assoc] at hclosed
      · rintro ⟨hnodup, hnew, hrest⟩
        rw [List.map_cons, List.nodup_cons] at hnodup
        refine ⟨?_, hnew x (by simp), hnodup.2, ?_, ?_⟩
        · have hclosed := hrest [] x e bindings rfl
          rwa [List.map_nil, List.append_nil] at hclosed
        · intro y hy hmem
          rcases List.mem_append.mp hmem with hmem | hmem
          · exact hnew y (by simp [hy]) hmem
          · rw [List.mem_singleton] at hmem
            exact hnodup.1 (hmem ▸ hy)
        · intro before y e' after heq
          have hclosed := hrest ((x, e) :: before) y e' after (by rw [heq, List.cons_append])
          rwa [List.map_cons, List.append_cons] at hclosed
    · obtain ⟨_, _, _, hr⟩ := bind_binds hr
      obtain ⟨_, _, hx, hr⟩ := bind_binds hr
      obtain ⟨_, _, hrest, hr⟩ := bind_binds hr
      cases hr
      have hshows := (ih (hnext hx)).2 hrest
      rwa [List.append_assoc] at hshows

/-- Binding all of a function: its parameters, its bindings and its result. -/
def bindBody (f : Function) : Binding (List Nat × List (Nat × Code) × Code) := do
  let (paramSlots, scope) ← declareAll [] f.params
  let (bindings, scope) ← bindBindings scope f.bindings
  return (paramSlots, bindings, ← bindExpr scope f.result)

theorem bindBody_succeeds {f : Function} (hcount : f.params.length ≤ 2) :
    Succeeds (bindBody f) f.Closed := by
  obtain ⟨hparams, hshown⟩ :=
    @declareAll_succeeds f.params [] [] fun _ => Iff.rfl
  refine (hparams.bind hshown fun r hr => (bindBindings_succeeds hr).1.bind
    (bindBindings_succeeds hr).2 fun r' hr' => (bindExpr_succeeds hr' f.result).map _).of_iff ?_
  rw [List.nil_append]
  constructor
  · rintro ⟨⟨hp, -⟩, ⟨hb, hnew, hbindings⟩, hresult⟩
    refine ⟨hcount, List.nodup_append.mpr ⟨hp, hb, ?_⟩, hbindings, hresult⟩
    exact fun x hx y hy heq => hnew y hy (heq ▸ hx)
  · rintro ⟨-, hdistinct, hbindings, hresult⟩
    obtain ⟨hp, hb, hnew⟩ := List.nodup_append.mp hdistinct
    exact ⟨⟨hp, nofun⟩, ⟨hb, fun x hx hmem => hnew x hmem x hx rfl, hbindings⟩, hresult⟩

theorem Function.Closed.binds {f : Function} (h : f.Closed) : ∃ p, bind f = .ok p := by
  obtain ⟨body, hi, hbody⟩ := (bindBody_succeeds h.paramCount 0).mpr h
  unfold bind
  split
  · rename_i hmany
    exact absurd h.paramCount (Nat.not_le.mpr hmany)
  · refine ⟨⟨f.params, body.1, body.2.1, body.2.2, hi⟩, ?_⟩
    change (bindBody f).run 0 >>= _ = _
    rw [hbody]
    rfl

theorem Function.closed_of_bind {f : Function} {p : Program} (h : bind f = .ok p) : f.Closed := by
  unfold bind at h
  split at h
  · cases h
  · rename_i hcount
    obtain ⟨⟨body, hi⟩, hbody, -⟩ := eq_ok_of_bind h
    exact (bindBody_succeeds (Nat.not_lt.mp hcount) 0).mp ⟨body, hi, hbody⟩

/-- The binder accepts the closed functions and no others. -/
theorem bind_succeeds_iff (f : Function) : (∃ p, bind f = .ok p) ↔ f.Closed :=
  ⟨fun ⟨_, h⟩ => Function.closed_of_bind h, Function.Closed.binds⟩

end Montage.Script
