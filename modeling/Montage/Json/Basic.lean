/-!
# JSON values

A value is null, a truth value, a number, a text, a list, or an object. An object keeps its members
in the order in which their keys first appeared, so it is a list of pairs, and `Fields` has the
operations on such lists: a key that is written again keeps its place and takes the new value.

Numbers are whole or binary floats, and the two stay apart: `1` and `1.0` are different values. What
is not finite is no number of JSON.
-/

namespace Montage

/-- A number: a whole number, or a finite float. -/
inductive Number
  | int (n : Int)
  | float (x : Float) (finite : x.isFinite = true)
  deriving DecidableEq, Repr

/-- A JSON value. -/
inductive Json
  | null
  | bool (b : Bool)
  | number (n : Number)
  | string (s : String)
  | array (items : List Json)
  | object (fields : List (String × Json))
  deriving Inhabited

/-- The members of an object, in order. -/
abbrev Fields := List (String × Json)

/-! ## Members -/

namespace Fields

variable {α : Type}

def get? : List (String × α) → String → Option α
  | [], _ => none
  | (k, v) :: rest, key => if k = key then some v else get? rest key

def hasKey (fields : List (String × α)) (key : String) : Bool := fields.any (·.1 == key)

/-- Writes a member: in the place of the key if it is there, else at the end. -/
def insert : List (String × α) → String → α → List (String × α)
  | [], key, value => [(key, value)]
  | (k, v) :: rest, key, value =>
    if k = key then (k, value) :: rest else (k, v) :: insert rest key value

/-- Writes the members of a second list over those of a first, one after another. -/
def overlay (fields patch : List (String × α)) : List (String × α) :=
  patch.foldl (fun acc (k, v) => insert acc k v) fields

def keys (fields : List (String × α)) : List String := fields.map (·.1)

end Fields

/-! ## Numbers -/

/-- How many numbers 32 bits can tell apart. -/
def count32 : Nat := 0x100000000

/-- How many numbers 64 bits can tell apart. -/
def count64 : Nat := 0x10000000000000000

/-- The float nearest to the number. -/
def Number.toFloat : Number → Float
  | .int n => .ofInt n
  | .float x _ => x

/-- A float as a number, if it is finite. -/
def Number.ofFloat? (x : Float) : Option Number :=
  if finite : x.isFinite = true then some (.float x finite) else none

/-- The number as a place in a list; a float is none, even a whole one. -/
def Number.place? : Number → Option Nat
  | .int (.ofNat n) => some n
  | .int (.negSucc _) => none
  | .float _ _ => none

/-! ## Kinds -/

namespace Json

inductive Kind
  | null | boolean | number | string | array | object
  deriving DecidableEq, Repr

def Kind.name : Kind → String
  | .null => "null"
  | .boolean => "boolean"
  | .number => "number"
  | .string => "string"
  | .array => "array"
  | .object => "object"

def kind : Json → Kind
  | null => .null
  | bool _ => .boolean
  | number _ => .number
  | string _ => .string
  | array _ => .array
  | object _ => .object

def ofNat (n : Nat) : Json := .number (.int n)

/-- A float as a value; one that is not finite becomes `null`. -/
def ofFloat (x : Float) : Json := ((Number.ofFloat? x).map number).getD null

/-- The member of an object under a key; other values have no members. -/
def get? : Json → String → Option Json
  | object fields, key => Fields.get? fields key
  | _, _ => none

/-- The float nearest to a number value; other values have none. -/
def toFloat? : Json → Option Float
  | number n => some n.toFloat
  | _ => none

/-- Nothing in it: `null`, `false`, zero, the empty text, the empty list, the empty object. -/
def isEmpty : Json → Bool
  | null => true
  | bool b => !b
  | number n => n.toFloat == 0 || n.toFloat.isNaN
  | string s => s.isEmpty
  | array items => items.isEmpty
  | object fields => fields.isEmpty

end Json

end Montage
