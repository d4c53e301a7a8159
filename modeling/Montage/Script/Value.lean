import Montage.Json.Printer
import Montage.Decimal.Numeral
import Montage.Text.Blank

/-!
# Values of the preset language

The language computes with JSON values. Its arithmetic is that of floats, and a result that is a
whole number of moderate size becomes a whole number again; a result that is no number becomes
`null`. Equality compares numbers by what they count, so `1` and `1.0` are equal.
-/

namespace Montage.Script

open Montage.Decimal (Binary)

/-- A computed number: `null` unless finite, whole when it is whole and below nine quadrillion. -/
def ofFloat (x : Float) : Json :=
  match Binary.ofFloat? x with
  | none => .null
  | some d =>
    if d.isWhole && d.floor.natAbs < 9000000000000000 then .number (.int d.floor)
    else Json.ofFloat x

/-- Whether a value counts as true in a condition. -/
def truthy : Json → Bool
  | .null => false
  | .bool b => b
  | .number n => n.toFloat != 0 && !n.toFloat.isNaN
  | .string s => !s.isEmpty
  | .array _ => true
  | .object _ => true

mutual

/-- Equality of the language. -/
def looseEq : Json → Json → Bool
  | .null, .null => true
  | .bool a, .bool b => a == b
  | .number m, .number n => m.toFloat == n.toFloat
  | .string s, .string t => s == t
  | .array xs, .array ys => looseEqItems xs ys
  | .object fs, .object gs => fs.length == gs.length && looseEqFields fs gs
  | _, _ => false

/-- Equality of lists, element by element. -/
def looseEqItems : List Json → List Json → Bool
  | [], [] => true
  | x :: xs, y :: ys => looseEq x y && looseEqItems xs ys
  | _, _ => false

/-- Whether every member has an equal one under the same key in the other object. -/
def looseEqFields : List (String × Json) → Fields → Bool
  | [], _ => true
  | (k, x) :: rest, gs =>
    (match Fields.get? gs k with
      | some y => looseEq x y
      | none => false) && looseEqFields rest gs

end

/-- A value as part of a text: a text stands for itself, anything else is written as JSON. -/
def display : Json → String
  | .string s => s
  | j => j.compact

/-- The number that a value counts as: a text has to write one, lists and objects have none. -/
def toNumber? : Json → Option Float
  | .null => some 0
  | .bool b => some (if b then 1 else 0)
  | .number n => some n.toFloat
  | .string s =>
    match Text.trimmed s.toList with
    | [] => some 0
    | cs => Decimal.numeral? cs
  | .array _ => none
  | .object _ => none

/-! ## Parts -/

def characters (s : String) : List Json := s.toList.map fun c => .string c.toString

/-- The member of a value under a name; lists and texts have a `length`. -/
def memberOf (base : Json) (name : String) : Json :=
  match base with
  | .object fields => (Fields.get? fields name).getD .null
  | .array items => if name = "length" then .ofNat items.length else .null
  | .string s => if name = "length" then .ofNat s.toList.length else .null
  | _ => .null

/-- The part of a value at an index: a key of an object, a place in a list or a text. -/
def elementOf (base index : Json) : Json :=
  match base, index with
  | .object fields, .string key => (Fields.get? fields key).getD .null
  | .object fields, .number n => (Fields.get? fields n.text).getD .null
  | .array items, .number n => (n.place?.bind (items[·]?)).getD .null
  | .string s, .number n => (n.place?.bind ((characters s)[·]?)).getD .null
  | base, .string key => memberOf base key
  | _, _ => .null

end Montage.Script
