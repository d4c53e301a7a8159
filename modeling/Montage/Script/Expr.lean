import Montage.Json.Basic

/-!
# Preset functions as they are written

An expression refers to parameters, bindings and functions by name. Callbacks, `x => e`, are
expressions too; that they stand only where a function takes one is for the binder to check.
-/

namespace Montage.Script

/-- Operators with one operand. -/
inductive UnaryOp
  | neg | not
  deriving DecidableEq, Repr

/-- Operators with two operands. -/
inductive BinaryOp
  | add | sub | mul | div | mod | eq | ne | lt | le | gt | ge | and | or
  deriving DecidableEq, Repr

mutual

/-- An expression. -/
inductive Expr
  | literal (v : Json)
  | name (x : String)
  | array (items : List Item)
  | object (entries : List Entry)
  /-- `base.name`, and with a question mark `base?.name`. -/
  | member (base : Expr) (name : String) (isOptional : Bool)
  | index (base index : Expr)
  | unary (op : UnaryOp) (e : Expr)
  | binary (op : BinaryOp) (left right : Expr)
  | ternary (condition yes no : Expr)
  | call (function : String) (args : List Expr)
  | arrow (params : List String) (body : Expr)

/-- An element of a list: a value, or `...` and the list whose elements come here. -/
inductive Item
  | one (e : Expr)
  | spread (e : Expr)

/-- A member of an object: a key and a value, or `...` and the object whose members come here. -/
inductive Entry
  | field (key : String) (e : Expr)
  | spread (e : Expr)

end

/-- A preset function: its parameters, the bindings in the order they are made, and the result. -/
structure Function where
  params : List String
  bindings : List (String × Expr)
  result : Expr

end Montage.Script
