import Montage.Script.Code
import Montage.Script.Fetcher

/-!
# Running a bound function

A run has one frame, in which every slot keeps its value until it is written again, and a list of
the requests that have been made. Both survive an error, so a run that fails still shows what it
asked for.
-/

namespace Montage.Script

/-- The state of a run: the frame, and the requests made so far. -/
structure Machine where
  frame : List Json
  requests : List Fetcher.Request

/-- A computation in a run. -/
abbrev Run := ExceptT EvalError (StateM Machine)

namespace Run

def readSlot (n : Nat) : Run Json := do
  match (← get).frame[n]? with
  | some v => return v
  | none => throw (.fault (.slot n))

def writeSlot (n : Nat) (v : Json) : Run Unit := do
  if n < (← get).frame.length then modify fun m => { m with frame := m.frame.set n v }
  else throw (.fault (.slot n))

/-- Writes values into slots, pair by pair. -/
def writeSlots : List Nat → List Json → Run Unit
  | n :: ns, v :: vs => do
    writeSlot n v
    writeSlots ns vs
  | _, _ => return ()

def lift {α : Type} (c : Computed α) : Run α :=
  match c with
  | .ok a => return a
  | .error e => throw e

def request (fetch : Fetcher) (url : String) (body : Json) : Run Json := do
  modify fun m => { m with requests := m.requests ++ [⟨url, body⟩] }
  match fetch url body with
  | .ok v => return v
  | .error failure => throw (.fetchFailed url failure)

/-- The value of `fetch` on its arguments. -/
def fetchCall (fetch : Fetcher) : List Json → Run Json
  | url :: rest =>
    if rest.length ≤ 1 then
      match url with
      | .string url => request fetch url (rest.head?.getD .null)
      | v => throw (.fetchExpectsUrl v.kind)
    else throw (.fault (.arguments .fetch))
  | [] => throw (.fault (.arguments .fetch))

end Run

/-- The elements that a value spreads into a list. -/
def spreadItems : Json → Computed (List Json)
  | .array items => .ok items
  | .string s => .ok (characters s)
  | v => .error (.cannotSpread v.kind)

/-- The members that a value spreads into an object; the elements of a list come under their places.
What is neither has none. -/
def spreadFields : Json → Fields
  | .object fields => fields
  | .array items => items.zipIdx.map fun (v, i) => (toString i, v)
  | _ => []

/-- What a callback's result does to the results so far, which are in reverse. -/
def collect (b : Builtin) (out : List Json) (item result : Json) : List Json :=
  match b with
  | .filter => if truthy result then item :: out else out
  | _ => result :: out

/-- The list that `map` or `filter` goes over. -/
def listArg (b : Builtin) : Json → Computed (List Json)
  | .array items => .ok items
  | v => .error (.expectsList b v.kind)

mutual

/-- The value of an expression. -/
def eval (fetch : Fetcher) : Code → Run Json
  | .literal v => return v
  | .slot n => Run.readSlot n
  | .array items => do return .array (← evalItems fetch items)
  | .object entries => do return .object (← evalEntries fetch [] entries)
  | .member base name isOptional => do
    match ← eval fetch base with
    | .null =>
      if isOptional || base.inOptionalChain then return .null else throw (.memberOfNull name)
    | v => return memberOf v name
  | .index base index => do
    let v ← eval fetch base
    let i ← eval fetch index
    match v with
    | .null => if base.inOptionalChain then return .null else throw (.elementOfNull i)
    | v => return elementOf v i
  | .unary op e => do Run.lift (op.apply (← eval fetch e))
  | .binary .and left right => do
    let l ← eval fetch left
    if truthy l then eval fetch right else return l
  | .binary .or left right => do
    let l ← eval fetch left
    if truthy l then return l else eval fetch right
  | .binary op left right => do
    let l ← eval fetch left
    Run.lift (op.apply l (← eval fetch right))
  | .ternary condition yes no => do
    if truthy (← eval fetch condition) then eval fetch yes else eval fetch no
  | .call b args =>
    if b.takesCallback then evalCallback fetch b args
    else do
      let vs ← evalArgs fetch args
      if b = .fetch then Run.fetchCall fetch vs else Run.lift (b.apply vs)
  | .arrow _ _ => throw (.fault .strayArrow)

/-- The values of expressions from left to right. -/
def evalArgs (fetch : Fetcher) : List Code → Run (List Json)
  | [] => return []
  | e :: rest => do
    let v ← eval fetch e
    return v :: (← evalArgs fetch rest)

/-- The value of `map` or `filter`: the callback runs on each element, with the element and its
place in its slots. -/
def evalCallback (fetch : Fetcher) (b : Builtin) : List Code → Run Json
  | [list, .arrow slots body] => do
    let items ← Run.lift (listArg b (← eval fetch list))
    let (out, _) ← items.foldlM (fun ((out, i) : List Json × Nat) item => do
      Run.writeSlots slots [item, .ofNat i]
      let result ← eval fetch body
      return (collect b out item result, i + 1)) ([], 0)
    return .array out.reverse
  | list :: _ :: _ => do
    let _ ← Run.lift (listArg b (← eval fetch list))
    throw (.fault (.noArrow b))
  | _ => throw (.fault (.arguments b))

def evalItems (fetch : Fetcher) : List CodeItem → Run (List Json)
  | [] => return []
  | .one e :: rest => do
    let v ← eval fetch e
    return v :: (← evalItems fetch rest)
  | .spread e :: rest => do
    let vs ← Run.lift (spreadItems (← eval fetch e))
    return vs ++ (← evalItems fetch rest)

/-- The members of an object, written over those so far. -/
def evalEntries (fetch : Fetcher) (fields : Fields) : List CodeEntry → Run Fields
  | [] => return fields
  | .field key e :: rest => do
    let v ← eval fetch e
    evalEntries fetch (Fields.insert fields key v) rest
  | .spread e :: rest => do
    let v ← eval fetch e
    evalEntries fetch (Fields.overlay fields (spreadFields v)) rest

end

/-- Makes bindings from first to last. -/
def evalBindings (fetch : Fetcher) : List (Nat × Code) → Run Unit
  | [] => return ()
  | (slot, e) :: rest => do
    Run.writeSlot slot (← eval fetch e)
    evalBindings fetch rest

/-- The body of a bound function on arguments; a parameter without an argument is `null`, and an
argument without a parameter is not looked at. -/
def Program.body (fetch : Fetcher) (p : Program) (args : List Json) : Run Json := do
  Run.writeSlots p.paramSlots args
  evalBindings fetch p.bindings
  eval fetch p.result

/-- The frame with which a bound function starts. -/
def Program.start (p : Program) : Machine := ⟨List.replicate p.frameSize .null, []⟩

/-- Runs a bound function: its result, and the state in which the run ends. -/
def Program.run (fetch : Fetcher) (p : Program) (args : List Json) :
    Except EvalError Json × Machine :=
  ((p.body fetch args).run).run p.start

def Program.call (fetch : Fetcher) (p : Program) (args : List Json) : Computed Json :=
  (p.run fetch args).1

/-- The requests that a bound function makes, in order. -/
def Program.requests (fetch : Fetcher) (p : Program) (args : List Json) : List Fetcher.Request :=
  (p.run fetch args).2.requests

end Montage.Script
