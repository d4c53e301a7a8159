import Montage.Script.Builtin

/-!
# Bound preset functions

A bound function has no names left. Every parameter, every binding and every parameter of a
callback has a slot of its own in a frame, and expressions read slots; a call says which built-in
function it runs.
-/

namespace Montage.Script

mutual

/-- A bound expression. -/
inductive Code
  | literal (v : Json)
  | slot (n : Nat)
  | array (items : List CodeItem)
  | object (entries : List CodeEntry)
  | member (base : Code) (name : String) (isOptional : Bool)
  | index (base index : Code)
  | unary (op : UnaryOp) (e : Code)
  | binary (op : BinaryOp) (left right : Code)
  | ternary (condition yes no : Code)
  | call (b : Builtin) (args : List Code)
  /-- A callback, with a slot for each of its parameters. -/
  | arrow (slots : List Nat) (body : Code)

/-- An element of a list. -/
inductive CodeItem
  | one (e : Code)
  | spread (e : Code)

/-- A member of an object. -/
inductive CodeEntry
  | field (key : String) (e : Code)
  | spread (e : Code)

end

/-- A bound function: the names of its parameters and their slots, the bindings with theirs, the
result, and the size of the frame. -/
structure Program where
  params : List String
  paramSlots : List Nat
  bindings : List (Nat × Code)
  result : Code
  frameSize : Nat

/-- Whether an expression belongs to a chain of members and indices that has a `?.` in it. -/
def Code.inOptionalChain : Code → Bool
  | .member base _ isOptional => isOptional || base.inOptionalChain
  | .index base _ => base.inOptionalChain
  | _ => false

end Montage.Script
