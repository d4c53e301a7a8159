import Mathlib
import Montage.Proofs.Json.Fields
import Montage.Script.Compile
import Montage.Proofs.Script.WellFormed

/-!
# What the result of a bound function depends on

A bound function sees its declared parameters and the answers to its own requests, and nothing else.
The requests of a run only grow, so two data sources that answer all requests of the whole run alike
answer those of each part alike, and part by part the runs are the same. A source that calls `fetch`
nowhere means the same whatever the data source.
-/

namespace Montage

/-- The data sources give the same answers to the requests. -/
def Fetcher.AgreeOn (fetch fetch' : Fetcher) (qs : List Fetcher.Request) : Prop :=
  ∀ q ∈ qs, fetch q.url q.body = fetch' q.url q.body

theorem Fetcher.AgreeOn.mono {fetch fetch' : Fetcher} {qs rs : List Fetcher.Request}
    (h : fetch.AgreeOn fetch' rs) (hle : qs <+: rs) : fetch.AgreeOn fetch' qs :=
  fun q hq => h q (hle.subset hq)

namespace Script

open Montage.Stateful

/-! ## Two data sources -/

/-- Two runs, one with each of two data sources: the requests of the first are added to those made
before, and if the data sources agree on all of them, the second run is the same. -/
def Alike (fetch fetch' : Fetcher) {α : Type} (x x' : Run α) : Prop :=
  ∀ m, m.requests <+: (exec x m).2.requests ∧
    (fetch.AgreeOn fetch' (exec x m).2.requests → exec x' m = exec x m)

namespace Alike

variable {α β : Type} {fetch fetch' : Fetcher} {x x' : Run α}

theorem of_silent (h : ∀ m, (exec x m).2.requests = m.requests) : Alike fetch fetch' x x :=
  fun m => ⟨⟨[], (List.append_nil _).trans (h m).symm⟩, fun _ => rfl⟩

theorem pure (a : α) : Alike fetch fetch' (Pure.pure a) (Pure.pure a) := of_silent fun _ => rfl

theorem throw (e : EvalError) :
    Alike fetch fetch' (MonadExcept.throw e : Run α) (MonadExcept.throw e) :=
  of_silent fun _ => rfl

theorem lift (c : Computed α) : Alike fetch fetch' (Run.lift c) (Run.lift c) := by
  cases c with
  | ok a => exact pure a
  | error e => exact throw e

theorem bind {f f' : α → Run β} (hx : Alike fetch fetch' x x')
    (hf : ∀ a, Alike fetch fetch' (f a) (f' a)) : Alike fetch fetch' (x >>= f) (x' >>= f') := by
  intro m
  obtain ⟨hgrows, hsame⟩ := hx m
  rcases h : exec x m with ⟨e | a, mid⟩
  · rw [h] at hgrows hsame
    rw [exec_bind_error h]
    exact ⟨hgrows, fun hagree => exec_bind_error (hsame hagree)⟩
  · rw [h] at hgrows hsame
    rw [exec_bind_ok h]
    obtain ⟨hgrows', hsame'⟩ := hf a mid
    refine ⟨hgrows.trans hgrows', fun hagree => ?_⟩
    rw [exec_bind_ok (hsame (hagree.mono hgrows'))]
    exact hsame' hagree

theorem map (hx : Alike fetch fetch' x x') (f : α → β) :
    Alike fetch fetch' (do return f (← x)) (do return f (← x')) :=
  hx.bind fun a => pure (f a)

theorem foldlM {f f' : β → α → Run β} (hf : ∀ b a, Alike fetch fetch' (f b a) (f' b a))
    (as : List α) : ∀ b, Alike fetch fetch' (as.foldlM f b) (as.foldlM f' b) := by
  induction as with
  | nil => exact pure
  | cons a as ih =>
    intro b
    rw [List.foldlM_cons, List.foldlM_cons]
    exact (hf b a).bind ih

end Alike

section

variable {fetch fetch' : Fetcher}

theorem readSlot_alike (n : Nat) : Alike fetch fetch' (Run.readSlot n) (Run.readSlot n) := by
  refine .of_silent fun m => ?_
  unfold Run.readSlot
  rw [exec_bind_ok (exec_get m)]
  cases m.frame[n]? <;> rfl

theorem writeSlot_alike (n : Nat) (v : Json) :
    Alike fetch fetch' (Run.writeSlot n v) (Run.writeSlot n v) := by
  refine .of_silent fun m => ?_
  unfold Run.writeSlot
  rw [exec_bind_ok (exec_get m)]
  split <;> rfl

theorem writeSlots_alike (slots : List Nat) :
    ∀ vs, Alike fetch fetch' (Run.writeSlots slots vs) (Run.writeSlots slots vs) := by
  induction slots with
  | nil => exact fun vs => .pure ()
  | cons n slots ih =>
    rintro (_ | ⟨v, vs⟩)
    · rw [writeSlots_nil]
      exact .pure ()
    · rw [Run.writeSlots]
      exact (writeSlot_alike n v).bind fun _ => ih vs

theorem exec_request (fetch : Fetcher) (url : String) (body : Json) (m : Machine) :
    exec (Run.request fetch url body) m =
      ((fetch url body).mapError (.fetchFailed url),
        { m with requests := m.requests ++ [⟨url, body⟩] }) := by
  unfold Run.request
  rw [exec_bind_ok (exec_modify _ m)]
  cases fetch url body <;> rfl

/-- The one place where a data source is asked: the request is among those of the run. -/
theorem request_alike (url : String) (body : Json) :
    Alike fetch fetch' (Run.request fetch url body) (Run.request fetch' url body) := by
  intro m
  rw [exec_request, exec_request]
  refine ⟨List.prefix_append .., fun hagree => ?_⟩
  have hanswer : fetch url body = fetch' url body :=
    hagree ⟨url, body⟩ (List.mem_append_right _ (List.mem_singleton_self _))
  rw [hanswer]

theorem fetchCall_alike (vs : List Json) :
    Alike fetch fetch' (Run.fetchCall fetch vs) (Run.fetchCall fetch' vs) := by
  cases vs with
  | nil => exact .throw _
  | cons url rest =>
    unfold Run.fetchCall
    dsimp only
    split
    · split
      · exact request_alike _ _
      · exact .throw _
    · exact .throw _

/-! ## Expressions -/

mutual

theorem eval_alike : ∀ c : Code, Alike fetch fetch' (eval fetch c) (eval fetch' c)
  | .literal v => by
    rw [eval, eval]
    exact .pure v
  | .slot n => by
    rw [eval, eval]
    exact readSlot_alike n
  | .array items => by
    rw [eval, eval]
    exact (evalItems_alike items).map _
  | .object entries => by
    rw [eval, eval]
    exact (evalEntries_alike entries []).map _
  | .member base name isOptional => by
    rw [eval, eval]
    refine (eval_alike base).bind fun v => ?_
    split
    · split
      · exact .pure _
      · exact .throw _
    · exact .pure _
  | .index base index => by
    rw [eval, eval]
    refine (eval_alike base).bind fun v => (eval_alike index).bind fun i => ?_
    split
    · split
      · exact .pure _
      · exact .throw _
    · exact .pure _
  | .unary op e => by
    rw [eval, eval]
    exact (eval_alike e).bind fun v => .lift _
  | .binary op left right => by
    have hl := eval_alike left
    have hr := eval_alike right
    cases op
    case and =>
      rw [eval, eval]
      refine hl.bind fun l => ?_
      split
      · exact hr
      · exact .pure l
    case or =>
      rw [eval, eval]
      refine hl.bind fun l => ?_
      split
      · exact .pure l
      · exact hr
    all_goals
      rw [eval, eval]
      · exact hl.bind fun l => hr.bind fun r => .lift _
      all_goals nofun
  | .ternary condition yes no => by
    rw [eval, eval]
    refine (eval_alike condition).bind fun v => ?_
    split
    · exact eval_alike yes
    · exact eval_alike no
  | .call b args => by
    rw [eval, eval]
    split
    · exact evalCallback_alike b args
    · refine (evalArgs_alike args).bind fun vs => ?_
      split
      · exact fetchCall_alike vs
      · exact .lift _
  | .arrow _ _ => by
    rw [eval, eval]
    exact .throw _

theorem evalArgs_alike :
    ∀ args : List Code, Alike fetch fetch' (evalArgs fetch args) (evalArgs fetch' args)
  | [] => by
    rw [evalArgs, evalArgs]
    exact .pure []
  | e :: rest => by
    rw [evalArgs, evalArgs]
    exact (eval_alike e).bind fun v => (evalArgs_alike rest).map _

theorem evalCallback_alike (b : Builtin) :
    ∀ args : List Code, Alike fetch fetch' (evalCallback fetch b args) (evalCallback fetch' b args)
  | [] => .throw _
  | [_] => .throw _
  | list :: _ :: _ :: _ => by
    rw [evalCallback, evalCallback]
    · exact (eval_alike list).bind fun v => (Alike.lift _).bind fun _ => .throw _
    all_goals nofun
  | [list, c] => by
    cases c
    case arrow slots body =>
      rw [evalCallback, evalCallback]
      refine (eval_alike list).bind fun v => (Alike.lift _).bind fun items => ?_
      refine Alike.bind (.foldlM (fun p item => ?_) items _) fun p => .pure _
      exact (writeSlots_alike slots _).bind fun _ => (eval_alike body).map _
    all_goals
      rw [evalCallback, evalCallback]
      · exact (eval_alike list).bind fun v => (Alike.lift _).bind fun _ => .throw _
      all_goals nofun

theorem evalItems_alike :
    ∀ items : List CodeItem, Alike fetch fetch' (evalItems fetch items) (evalItems fetch' items)
  | [] => by
    rw [evalItems, evalItems]
    exact .pure []
  | .one e :: rest => by
    rw [evalItems, evalItems]
    exact (eval_alike e).bind fun v => (evalItems_alike rest).map _
  | .spread e :: rest => by
    rw [evalItems, evalItems]
    refine (eval_alike e).bind fun v => (Alike.lift _).bind fun vs => ?_
    exact (evalItems_alike rest).map _

theorem evalEntries_alike : ∀ (entries : List CodeEntry) (fields : Fields),
    Alike fetch fetch' (evalEntries fetch fields entries) (evalEntries fetch' fields entries)
  | [], fields => by
    rw [evalEntries, evalEntries]
    exact .pure fields
  | .field _ e :: rest, _ => by
    rw [evalEntries, evalEntries]
    exact (eval_alike e).bind fun v => evalEntries_alike rest _
  | .spread e :: rest, _ => by
    rw [evalEntries, evalEntries]
    exact (eval_alike e).bind fun v => evalEntries_alike rest _

end

theorem evalBindings_alike (bindings : List (Nat × Code)) :
    Alike fetch fetch' (evalBindings fetch bindings) (evalBindings fetch' bindings) := by
  induction bindings with
  | nil =>
    rw [evalBindings, evalBindings]
    exact .pure ()
  | cons binding bindings ih =>
    obtain ⟨slot, e⟩ := binding
    rw [evalBindings, evalBindings]
    exact (eval_alike e).bind fun v => (writeSlot_alike slot v).bind fun _ => ih

theorem Program.run_eq_of_agreeOn {p : Program} {args : List Json}
    (h : fetch.AgreeOn fetch' (p.requests fetch args)) :
    p.run fetch' args = p.run fetch args := by
  have hbody : Alike fetch fetch' (p.body fetch args) (p.body fetch' args) :=
    (writeSlots_alike _ args).bind fun _ =>
      (evalBindings_alike p.bindings).bind fun _ => eval_alike p.result
  exact (hbody p.start).2 h

end

/-! ## Arguments -/

theorem writeSlots_take (slots : List Nat) :
    ∀ vs, Run.writeSlots slots (vs.take slots.length) = Run.writeSlots slots vs := by
  induction slots with
  | nil => exact fun vs => by cases vs <;> rfl
  | cons n slots ih =>
    rintro (_ | ⟨v, vs⟩)
    · rfl
    · rw [List.length_cons, List.take_succ_cons, Run.writeSlots, Run.writeSlots, ih]

theorem params_of_bind {f : Function} {p : Program} (h : bind f = .ok p) : p.params = f.params := by
  unfold bind at h
  split at h
  · cases h
  · obtain ⟨_, _, hp⟩ := eq_ok_of_bind h
    cases hp
    rfl

theorem paramSlots_length {f : Function} {p : Program} (h : bind f = .ok p) :
    p.paramSlots.length = p.params.length := by
  obtain ⟨_, _, _, _, hparams, -, -⟩ := bind_binds_all h
  have hempty : Scope.Below ([] ++ []) 0 := nofun
  rw [params_of_bind h]
  exact (declareAll_allots hparams hempty).2.1

theorem Program.run_take {f : Function} {p : Program} (h : bind f = .ok p) (fetch : Fetcher)
    (args : List Json) : p.run fetch (args.take p.params.length) = p.run fetch args := by
  have hbody : p.body fetch (args.take p.params.length) = p.body fetch args := by
    rw [Program.body, Program.body, ← paramSlots_length h, writeSlots_take]
  rw [Program.run, Program.run, hbody]

/-! ## Sources that ask for nothing -/

mutual

/-- Whether an expression calls a function. -/
def Expr.calls (function : String) : Expr → Bool
  | .literal _ | .name _ => false
  | .array items => itemsCall function items
  | .object entries => entriesCall function entries
  | .member base _ _ => base.calls function
  | .index base index => base.calls function || index.calls function
  | .unary _ e => e.calls function
  | .binary _ left right => left.calls function || right.calls function
  | .ternary condition yes no =>
    condition.calls function || yes.calls function || no.calls function
  | .call name args => name == function || argsCall function args
  | .arrow _ body => body.calls function

def argsCall (function : String) : List Expr → Bool
  | [] => false
  | e :: rest => e.calls function || argsCall function rest

def itemsCall (function : String) : List Item → Bool
  | [] => false
  | .one e :: rest | .spread e :: rest => e.calls function || itemsCall function rest

def entriesCall (function : String) : List Entry → Bool
  | [] => false
  | .field _ e :: rest | .spread e :: rest => e.calls function || entriesCall function rest

end

def Function.calls (function : String) (f : Function) : Bool :=
  f.bindings.any (·.2.calls function) || f.result.calls function

theorem name_of_ofName? {name : String} {b : Builtin} (h : Builtin.ofName? name = some b) :
    b.name = name := by
  have htable : ∀ entry ∈ Builtin.table, entry.2.name = entry.1 := by decide
  exact htable _ (Fields.mem_of_get? h)

section

variable {fetch fetch' : Fetcher}

mutual

theorem evaluate_congr : ∀ {e : Expr}, e.calls "fetch" = false → ∀ env : Environment,
    evaluate fetch env e = evaluate fetch' env e
  | .literal v, _, _ => by rw [evaluate, evaluate]
  | .name x, _, _ => by rw [evaluate, evaluate]
  | .array items, h, env => by rw [evaluate, evaluate, evaluateItems_congr h]
  | .object entries, h, env => by rw [evaluate, evaluate, evaluateEntries_congr h]
  | .member base _ _, h, env => by
    rw [Expr.calls] at h
    rw [evaluate, evaluate, evaluate_congr h]
  | .index base index, h, env => by
    rw [Expr.calls, Bool.or_eq_false_iff] at h
    rw [evaluate, evaluate, evaluate_congr h.1, evaluate_congr h.2]
  | .unary _ e, h, env => by
    rw [Expr.calls] at h
    rw [evaluate, evaluate, evaluate_congr h]
  | .binary op left right, h, env => by
    rw [Expr.calls, Bool.or_eq_false_iff] at h
    have hl := evaluate_congr h.1 env
    have hr := evaluate_congr h.2 env
    cases op <;> simp only [evaluate, hl, hr]
  | .ternary condition yes no, h, env => by
    rw [Expr.calls, Bool.or_eq_false_iff, Bool.or_eq_false_iff] at h
    rw [evaluate, evaluate, evaluate_congr h.1.1, evaluate_congr h.1.2, evaluate_congr h.2]
  | .call name args, h, env => by
    rw [Expr.calls, Bool.or_eq_false_iff, beq_eq_false_iff_ne] at h
    rw [evaluate, evaluate]
    rcases hb : Builtin.ofName? name with _ | b
    · rfl
    have hfetch : b ≠ .fetch := by
      rintro rfl
      exact h.1 (name_of_ofName? hb).symm
    dsimp only
    rw [evaluateCallback_congr b h.2, evaluateArgs_congr h.2]
    simp only [if_neg hfetch]
  | .arrow _ _, _, _ => by rw [evaluate, evaluate]

theorem evaluateArgs_congr : ∀ {args : List Expr}, argsCall "fetch" args = false →
    ∀ env : Environment, evaluateArgs fetch env args = evaluateArgs fetch' env args
  | [], _, _ => by rw [evaluateArgs, evaluateArgs]
  | e :: rest, h, env => by
    rw [argsCall, Bool.or_eq_false_iff] at h
    rw [evaluateArgs, evaluateArgs, evaluate_congr h.1, evaluateArgs_congr h.2]

theorem evaluateCallback_congr (b : Builtin) : ∀ {args : List Expr}, argsCall "fetch" args = false →
    ∀ env : Environment, evaluateCallback fetch env b args = evaluateCallback fetch' env b args
  | [list, c], h, env => by
    simp only [argsCall, Bool.or_false, Bool.or_eq_false_iff] at h
    cases c
    case arrow params body =>
      have hbody := h.2
      rw [Expr.calls] at hbody
      have hcallback : ∀ env : Environment, evaluate fetch env body = evaluate fetch' env body :=
        evaluate_congr hbody
      rw [evaluateCallback, evaluateCallback, evaluate_congr h.1]
      simp only [hcallback]
    all_goals rfl
  | [], _, _ => rfl
  | [_], _, _ => rfl
  | _ :: _ :: _ :: _, _, _ => by
    rw [evaluateCallback, evaluateCallback]
    all_goals nofun

theorem evaluateItems_congr : ∀ {items : List Item}, itemsCall "fetch" items = false →
    ∀ env : Environment, evaluateItems fetch env items = evaluateItems fetch' env items
  | [], _, _ => by rw [evaluateItems, evaluateItems]
  | .one e :: rest, h, env | .spread e :: rest, h, env => by
    rw [itemsCall, Bool.or_eq_false_iff] at h
    rw [evaluateItems, evaluateItems, evaluate_congr h.1, evaluateItems_congr h.2]

theorem evaluateEntries_congr : ∀ {entries : List Entry}, entriesCall "fetch" entries = false →
    ∀ (env : Environment) (fields : Fields),
      evaluateEntries fetch env fields entries = evaluateEntries fetch' env fields entries
  | [], _, _, _ => by rw [evaluateEntries, evaluateEntries]
  | .field _ e :: rest, h, env, fields | .spread e :: rest, h, env, fields => by
    rw [entriesCall, Bool.or_eq_false_iff] at h
    rw [evaluateEntries, evaluateEntries, evaluate_congr h.1]
    simp only [evaluateEntries_congr h.2]

end

theorem evaluateBindings_congr {bindings : List (String × Expr)}
    (h : bindings.any (·.2.calls "fetch") = false) :
    ∀ env, evaluateBindings fetch env bindings = evaluateBindings fetch' env bindings := by
  induction bindings with
  | nil => exact fun _ => rfl
  | cons binding bindings ih =>
    obtain ⟨x, e⟩ := binding
    rw [List.any_cons, Bool.or_eq_false_iff] at h
    intro env
    have hvalue : evaluate fetch env e = evaluate fetch' env e := evaluate_congr h.1 env
    rw [evaluateBindings, evaluateBindings, hvalue]
    simp only [ih h.2]

theorem Function.meaning_congr {f : Function} (h : f.calls "fetch" = false) (args : List Json) :
    f.meaning fetch args = f.meaning fetch' args := by
  rw [Function.calls, Bool.or_eq_false_iff] at h
  have hresult : ∀ env, evaluate fetch env f.result = evaluate fetch' env f.result :=
    evaluate_congr h.2
  have hbindings : ∀ env, evaluateBindings fetch env f.bindings =
      evaluateBindings fetch' env f.bindings := evaluateBindings_congr h.1
  have hbody : f.body fetch args = f.body fetch' args := by
    simp only [Function.body, hresult, hbindings]
  rw [Function.meaning, Function.meaning, hbody]

end

/-! ## Isolation -/

/-- **A compiled function sees its declared arguments and the answers to its requests only.** Neither
arguments behind the declared parameters nor a data source that answers the requests of the run in
the same way change its result or its requests; and the result of a source that calls `fetch` nowhere
is the same with every data source. -/
theorem compile_isolated {source : String} {p : Program} (h : compile source = .ok p) :
    (∀ (fetch fetch' : Fetcher) (args args' : List Json),
      args.take p.params.length = args'.take p.params.length →
      fetch.AgreeOn fetch' (p.requests fetch args) →
      p.call fetch' args' = p.call fetch args ∧
        p.requests fetch' args' = p.requests fetch args) ∧
    ∀ f, parse (Text.trim source) = .ok f → f.calls "fetch" = false →
      ∀ (fetch fetch' : Fetcher) (args : List Json), p.call fetch' args = p.call fetch args := by
  obtain ⟨f, hparse, hbind⟩ := eq_ok_of_bind h
  have hparse := eq_ok_of_mapError hparse
  have hbind := eq_ok_of_mapError hbind
  refine ⟨fun fetch fetch' args args' hargs hagree => ?_, fun f' hparse' hcalls fetch fetch' args => ?_⟩
  · have hrun : p.run fetch' args' = p.run fetch args := by
      rw [← Program.run_take hbind fetch' args', ← hargs, Program.run_take hbind,
        Program.run_eq_of_agreeOn hagree]
    rw [Program.call, Program.call, Program.requests, Program.requests, hrun]
    exact ⟨rfl, rfl⟩
  · cases hparse.symm.trans hparse'
    have hsame := (run_sameOutcome hbind fetch' args).1
    rw [Function.meaning_congr hcalls] at hsame
    exact hsame.unique (run_sameOutcome hbind fetch args).1

/-- The first element is `null`, so only the second is asked for: neither a second argument nor what
the data source says of other urls matters. Another source, with a callback, asks for nothing. -/
theorem compile_isolated_secondUrl :
    let p : Program :=
      { params := ["xs"], paramSlots := [0], bindings := [], frameSize := 2
        result := .call .map
          [.slot 0, .arrow [1] (.binary .and (.slot 1) (.call .fetch [.slot 1]))] }
    let p' : Program :=
      { params := ["xs"], paramSlots := [0], bindings := [], frameSize := 2
        result := .call .filter [.slot 0, .arrow [1] (.member (.slot 1) "go" false)] }
    compile "(xs) => map(xs, x => x && fetch(x))" = .ok p ∧
      p.call (.canned [("v", .null), ("u", .bool true)])
        [.array [.null, .string "u"], .string "secret"] = .ok (.array [.null, .bool true]) ∧
      compile "(xs) => filter(xs, x => x.go)" = .ok p' ∧
      ∀ fetch args, p'.call fetch args = p'.call .absent args := by
  intro p p'
  have hcompile : compile "(xs) => map(xs, x => x && fetch(x))" = .ok p := by cbv
  have hcompile' : compile "(xs) => filter(xs, x => x.go)" = .ok p' := by cbv
  have hparse' : parse (Text.trim "(xs) => filter(xs, x => x.go)") =
      .ok ⟨["xs"], [], .call "filter"
        [.name "xs", .arrow ["x"] (.member (.name "x") "go" false)]⟩ := by cbv
  have hrequests : p.requests (.canned [("u", .bool true)]) [.array [.null, .string "u"]] =
      [⟨"u", .null⟩] := by cbv
  have hagree : Fetcher.AgreeOn (.canned [("u", .bool true)])
      (.canned [("v", .null), ("u", .bool true)])
      (p.requests (.canned [("u", .bool true)]) [.array [.null, .string "u"]]) := by
    rw [hrequests]
    exact List.forall_mem_singleton.2 rfl
  have hcall : p.call (.canned [("u", .bool true)]) [.array [.null, .string "u"]] =
      .ok (.array [.null, .bool true]) := by cbv
  have hsame := (compile_isolated hcompile).1 _ _ _
    [.array [.null, .string "u"], .string "secret"] rfl hagree
  refine ⟨hcompile, hsame.1.trans hcall, hcompile', fun fetch args => ?_⟩
  exact (compile_isolated hcompile').2 _ hparse' rfl .absent fetch args

end Script

end Montage
