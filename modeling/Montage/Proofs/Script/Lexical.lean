import Montage.Script.Eval

/-!
# Evaluation by name

What a preset function means before it is bound: names are looked up in an environment, which has
the parameters, then the bindings made so far, then the parameters of the callbacks around the
expression, the nearest in front. There are no slots and no frame, so nothing of a callback is left
once its element is done.

An evaluation keeps the requests it has made, also when it fails. It is *stuck* where the language
gives an expression no meaning: a name that is declared nowhere, a function that does not exist, a
callback where a value is wanted or a value where a callback is wanted.
-/

namespace Montage.Script

/-- The names that can be seen, with their values, the nearest declaration first. -/
abbrev Environment := List (String × Json)

/-- Names in front of an environment, each with its value; a name without a value is `null`, and a
value without a name is not looked at. -/
def Environment.extend (env : Environment) : List String → List Json → Environment
  | [], _ => env
  | x :: xs, [] => extend ((x, .null) :: env) xs []
  | x :: xs, v :: vs => extend ((x, v) :: env) xs vs

/-- Why an evaluation ends without a value. -/
inductive Stop
  | failed (e : EvalError)
  | stuck

/-- A computation that makes requests. -/
abbrev Asking := ExceptT Stop (StateM (List Fetcher.Request))

namespace Asking

def lift {α : Type} (c : Computed α) : Asking α :=
  match c with
  | .ok a => return a
  | .error e => throw (.failed e)

def request (fetch : Fetcher) (url : String) (body : Json) : Asking Json := do
  modify (· ++ [⟨url, body⟩])
  match fetch url body with
  | .ok v => return v
  | .error failure => throw (.failed (.fetchFailed url failure))

/-- The value of `fetch` on its arguments: a url, and a body that may be left out. -/
def fetchCall (fetch : Fetcher) : List Json → Asking Json
  | [.string url] => request fetch url .null
  | [.string url, body] => request fetch url body
  | [v] => throw (.failed (.fetchExpectsUrl v.kind))
  | [v, _] => throw (.failed (.fetchExpectsUrl v.kind))
  | _ => throw (.failed (.fault (.arguments .fetch)))

/-- What an element and the callback's value on it put in front of a list: `filter` keeps the
element if the value is true, `map` takes the value. -/
def keep (b : Builtin) (item result : Json) (results : List Json) : List Json :=
  match b with
  | .filter => if truthy result then item :: results else results
  | _ => result :: results

/-- The list that a callback makes of the elements from place `i` on. -/
def each (b : Builtin) (callback : Json → Nat → Asking Json) (i : Nat) :
    List Json → Asking (List Json)
  | [] => return []
  | item :: rest => do
    let result ← callback item i
    return keep b item result (← each b callback (i + 1) rest)

end Asking

/-- Whether an expression belongs to a chain of members and indices that has a `?.` in it. -/
def Expr.inOptionalChain : Expr → Bool
  | .member base _ isOptional => isOptional || base.inOptionalChain
  | .index base _ => base.inOptionalChain
  | _ => false

mutual

/-- The value of an expression in an environment. -/
def evaluate (fetch : Fetcher) (env : Environment) : Expr → Asking Json
  | .literal v => return v
  | .name x =>
    match Fields.get? env x with
    | some v => return v
    | none => throw .stuck
  | .array items => do return .array (← evaluateItems fetch env items)
  | .object entries => do return .object (← evaluateEntries fetch env [] entries)
  | .member base name isOptional => do
    match ← evaluate fetch env base with
    | .null =>
      if isOptional || base.inOptionalChain then return .null
      else throw (.failed (.memberOfNull name))
    | v => return memberOf v name
  | .index base index => do
    let v ← evaluate fetch env base
    let i ← evaluate fetch env index
    match v with
    | .null => if base.inOptionalChain then return .null else throw (.failed (.elementOfNull i))
    | v => return elementOf v i
  | .unary op e => do Asking.lift (op.apply (← evaluate fetch env e))
  | .binary .and left right => do
    let l ← evaluate fetch env left
    if truthy l then evaluate fetch env right else return l
  | .binary .or left right => do
    let l ← evaluate fetch env left
    if truthy l then return l else evaluate fetch env right
  | .binary op left right => do
    let l ← evaluate fetch env left
    Asking.lift (op.apply l (← evaluate fetch env right))
  | .ternary condition yes no => do
    if truthy (← evaluate fetch env condition) then evaluate fetch env yes
    else evaluate fetch env no
  | .call function args =>
    match Builtin.ofName? function with
    | none => throw .stuck
    | some b =>
      if b.takesCallback then evaluateCallback fetch env b args
      else do
        let vs ← evaluateArgs fetch env args
        if b = .fetch then Asking.fetchCall fetch vs else Asking.lift (b.apply vs)
  | .arrow _ _ => throw .stuck

def evaluateArgs (fetch : Fetcher) (env : Environment) : List Expr → Asking (List Json)
  | [] => return []
  | e :: rest => do
    let v ← evaluate fetch env e
    return v :: (← evaluateArgs fetch env rest)

/-- The value of `map` or `filter`: for each element the callback's parameters stand for the element
and its place, in front of all that can be seen around the call. -/
def evaluateCallback (fetch : Fetcher) (env : Environment) (b : Builtin) :
    List Expr → Asking Json
  | [list, .arrow params body] => do
    let items ← Asking.lift (listArg b (← evaluate fetch env list))
    let callback (item : Json) (i : Nat) : Asking Json :=
      evaluate fetch (env.extend params [item, .ofNat i]) body
    return .array (← Asking.each b callback 0 items)
  | _ => throw .stuck

def evaluateItems (fetch : Fetcher) (env : Environment) : List Item → Asking (List Json)
  | [] => return []
  | .one e :: rest => do
    let v ← evaluate fetch env e
    return v :: (← evaluateItems fetch env rest)
  | .spread e :: rest => do
    let vs ← Asking.lift (spreadItems (← evaluate fetch env e))
    return vs ++ (← evaluateItems fetch env rest)

/-- The members of an object, written over those so far. -/
def evaluateEntries (fetch : Fetcher) (env : Environment) (fields : Fields) :
    List Entry → Asking Fields
  | [] => return fields
  | .field key e :: rest => do
    let v ← evaluate fetch env e
    evaluateEntries fetch env (Fields.insert fields key v) rest
  | .spread e :: rest => do
    let v ← evaluate fetch env e
    evaluateEntries fetch env (Fields.overlay fields (spreadFields v)) rest

end

/-- The environment after bindings, each of which sees the ones before it. -/
def evaluateBindings (fetch : Fetcher) (env : Environment) :
    List (String × Expr) → Asking Environment
  | [] => return env
  | (x, e) :: rest => do
    let v ← evaluate fetch env e
    evaluateBindings fetch ((x, v) :: env) rest

def Function.body (fetch : Fetcher) (f : Function) (args : List Json) : Asking Json := do
  let env ← evaluateBindings fetch (Environment.extend [] f.params args) f.bindings
  evaluate fetch env f.result

/-- The meaning of a function: its result on arguments, and the requests it makes in order. -/
def Function.meaning (fetch : Fetcher) (f : Function) (args : List Json) :
    Except Stop Json × List Fetcher.Request :=
  ((f.body fetch args).run).run []

end Montage.Script
