import Montage.Script.Code

/-!
# Binding names to slots

The binder gives every declared name a slot that no other name has, and turns each name in an
expression into the slot of the declaration that is nearest around it. A name that is declared
nowhere is refused, so a bound function reads only its own parameters and what it computed itself.
-/

namespace Montage.Script

/-- Why a function cannot be bound. -/
inductive BindError
  | tooManyParams (n : Nat)
  | redeclared (name : String)
  | unknownName (name : String)
  | unknownFunction (name : String)
  | argumentCount (b : Builtin) (n : Nat)
  | strayArrow
  | arrowExpected (b : Builtin)
  | arrowParams (b : Builtin)
  deriving DecidableEq, Repr

/-- The most parameters that a preset function has. -/
def maxParams : Nat := 2

/-- The numbers of arguments that a function takes, in words. -/
def Builtin.arityWords (b : Builtin) : String :=
  match b.arity with
  | (least, some most) =>
    if most = least then toString least else toString least ++ "..=" ++ toString most
  | (least, none) => "at least " ++ toString least

def BindError.message : BindError → String
  | .tooManyParams n =>
    "preset function takes at most " ++ toString maxParams ++ " parameters, found " ++ toString n
  | .redeclared name => "'" ++ name ++ "' is already declared"
  | .unknownName name => "unknown identifier '" ++ name ++ "'"
  | .unknownFunction name => "unknown function '" ++ name ++ "'"
  | .argumentCount b n =>
    b.name ++ "() expects " ++ b.arityWords ++ " arguments, found " ++ toString n
  | .strayArrow => "arrow functions are only allowed as map/filter callbacks"
  | .arrowExpected b => b.name ++ "() expects an arrow function as its second argument"
  | .arrowParams b => b.name ++ "() callback takes (item) or (item, index)"

/-- The names that can be seen, with their slots, the nearest declaration first. -/
abbrev Scope := List (String × Nat)

/-- Binding hands out slots one after another. -/
abbrev Binding := StateT Nat (Except BindError)

/-- Declares a name among those of one frame, which must not have it yet. -/
def declare (frame : Scope) (name : String) : Binding (Nat × Scope) := do
  if Fields.hasKey frame name then throw (.redeclared name)
  else
    let slot ← get
    set (slot + 1)
    return (slot, (name, slot) :: frame)

/-- Declares names one after another; their slots are in the order of the names. -/
def declareAll (frame : Scope) : List String → Binding (List Nat × Scope)
  | [] => return ([], frame)
  | name :: rest => do
    let (slot, frame) ← declare frame name
    let (slots, frame) ← declareAll frame rest
    return (slot :: slots, frame)

mutual

/-- Binds an expression. -/
def bindExpr (scope : Scope) : Expr → Binding Code
  | .literal v => return .literal v
  | .name x =>
    match Fields.get? scope x with
    | some slot => return .slot slot
    | none => throw (.unknownName x)
  | .array items => do return .array (← bindItems scope items)
  | .object entries => do return .object (← bindEntries scope entries)
  | .member base name isOptional => do return .member (← bindExpr scope base) name isOptional
  | .index base index => do
    let base ← bindExpr scope base
    return .index base (← bindExpr scope index)
  | .unary op e => do return .unary op (← bindExpr scope e)
  | .binary op left right => do
    let left ← bindExpr scope left
    return .binary op left (← bindExpr scope right)
  | .ternary condition yes no => do
    let condition ← bindExpr scope condition
    let yes ← bindExpr scope yes
    return .ternary condition yes (← bindExpr scope no)
  | .call function args => do
    match Builtin.ofName? function with
    | none => throw (.unknownFunction function)
    | some b =>
      if !b.takes args.length then throw (.argumentCount b args.length)
      else if b.takesCallback then return .call b (← bindCallbackArgs scope b args)
      else return .call b (← bindArgs scope args)
  | .arrow _ _ => throw .strayArrow

/-- Binds expressions from left to right. -/
def bindArgs (scope : Scope) : List Expr → Binding (List Code)
  | [] => return []
  | e :: rest => do
    let e ← bindExpr scope e
    return e :: (← bindArgs scope rest)

/-- Binds arguments of which the second is a callback. -/
def bindCallbackArgs (scope : Scope) (b : Builtin) : List Expr → Binding (List Code)
  | list :: callback :: rest => do
    let list ← bindExpr scope list
    let callback ← bindCallback scope b callback
    return list :: callback :: (← bindArgs scope rest)
  | [list] => do return [← bindExpr scope list]
  | [] => return []

/-- Binds a callback: its parameters, one or two, hide what has the same name around it. -/
def bindCallback (scope : Scope) (b : Builtin) : Expr → Binding Code
  | .arrow params body =>
    if params.isEmpty || 2 < params.length then throw (.arrowParams b)
    else do
      let (slots, frame) ← declareAll [] params
      return .arrow slots (← bindExpr (frame ++ scope) body)
  | _ => throw (.arrowExpected b)

def bindItems (scope : Scope) : List Item → Binding (List CodeItem)
  | [] => return []
  | .one e :: rest => do
    let e ← bindExpr scope e
    return .one e :: (← bindItems scope rest)
  | .spread e :: rest => do
    let e ← bindExpr scope e
    return .spread e :: (← bindItems scope rest)

def bindEntries (scope : Scope) : List Entry → Binding (List CodeEntry)
  | [] => return []
  | .field key e :: rest => do
    let e ← bindExpr scope e
    return .field key e :: (← bindEntries scope rest)
  | .spread e :: rest => do
    let e ← bindExpr scope e
    return .spread e :: (← bindEntries scope rest)

end

/-- Binds bindings from first to last: each is seen by the ones behind it, not by itself. -/
def bindBindings (scope : Scope) : List (String × Expr) → Binding (List (Nat × Code) × Scope)
  | [] => return ([], scope)
  | (name, e) :: rest => do
    let e ← bindExpr scope e
    let (slot, scope) ← declare scope name
    let (bindings, scope) ← bindBindings scope rest
    return ((slot, e) :: bindings, scope)

/-- Binds a preset function. -/
def bind (f : Function) : Except BindError Program :=
  if maxParams < f.params.length then .error (.tooManyParams f.params.length)
  else do
    let ((paramSlots, bindings, result), frameSize) ← (do
      let (paramSlots, scope) ← declareAll [] f.params
      let (bindings, scope) ← bindBindings scope f.bindings
      return (paramSlots, bindings, ← bindExpr scope f.result) : Binding _).run 0
    return ⟨f.params, paramSlots, bindings, result, frameSize⟩

end Montage.Script
