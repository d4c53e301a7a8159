import Montage.Script.Value
import Montage.Script.Expr
import Montage.Failure

/-!
# Functions and operators on values

What the operators and the built-in functions of the language do with values, and what they fail
with. `map` and `filter` take a callback and `fetch` asks a data source; those three are run by the
evaluator.
-/

namespace Montage.Script

open Montage.Decimal (Binary)

/-- The built-in functions. -/
inductive Builtin
  | len | min | max | abs | floor | ceil | round | clamp | str | num | keys | concat | merge
  | range | slice | join | map | filter | fetch
  deriving DecidableEq, Repr

namespace Builtin

/-- The functions by name. -/
def table : List (String × Builtin) :=
  [("len", len), ("min", min), ("max", max), ("abs", abs), ("floor", floor), ("ceil", ceil),
    ("round", round), ("clamp", clamp), ("str", str), ("num", num), ("keys", keys),
    ("concat", concat), ("merge", merge), ("range", range), ("slice", slice), ("join", join),
    ("map", map), ("filter", filter), ("fetch", fetch)]

def ofName? (name : String) : Option Builtin := Fields.get? table name

def name : Builtin → String
  | len => "len"
  | min => "min"
  | max => "max"
  | abs => "abs"
  | floor => "floor"
  | ceil => "ceil"
  | round => "round"
  | clamp => "clamp"
  | str => "str"
  | num => "num"
  | keys => "keys"
  | concat => "concat"
  | merge => "merge"
  | range => "range"
  | slice => "slice"
  | join => "join"
  | map => "map"
  | filter => "filter"
  | fetch => "fetch"

/-- The least and the greatest number of arguments; `none` where there is no greatest. -/
def arity : Builtin → Nat × Option Nat
  | len | abs | floor | ceil | round | str | num | keys => (1, some 1)
  | min | max | concat | merge => (1, none)
  | clamp => (3, some 3)
  | slice => (2, some 3)
  | map | filter => (2, some 2)
  | range | join | fetch => (1, some 2)

/-- Whether the function takes so many arguments. -/
def takes (b : Builtin) (n : Nat) : Bool :=
  b.arity.1 ≤ n && b.arity.2.all (n ≤ ·)

/-- Whether the second argument is a callback. -/
def takesCallback : Builtin → Bool
  | map | filter => true
  | _ => false

end Builtin

/-! ## Failures -/

/-- A failure of the evaluator itself, which a bound function never meets. -/
inductive Fault
  /-- A slot outside the frame. -/
  | slot (n : Nat)
  /-- A callback where a value is wanted. -/
  | strayArrow
  /-- A number of arguments that the function does not take. -/
  | arguments (b : Builtin)
  /-- A value where a callback is wanted. -/
  | noArrow (b : Builtin)
  /-- A part of a list or a text that reaches beyond it. -/
  | bounds
  /-- Bounds for a number of which the lower is not known to be at most the upper. -/
  | unordered
  deriving DecidableEq, Repr

/-- What a preset function fails with when it runs. -/
inductive EvalError
  | memberOfNull (name : String)
  | elementOfNull (index : Json)
  | cannotNegate (found : Json.Kind)
  | cannotSpread (found : Json.Kind)
  | operands (op : BinaryOp) (left right : Json.Kind)
  | cannotCompare (left right : Json.Kind)
  | expectsNumber (b : Builtin) (found : Json.Kind)
  | notDefinedFor (b : Builtin) (found : Json.Kind)
  | clampReversed (low high : Float)
  | mergeExpectsObjects (found : Json.Kind)
  | rangeTooLong (length : Int)
  | expectsList (b : Builtin) (found : Json.Kind)
  | fetchExpectsUrl (found : Json.Kind)
  | fetchFailed (url : String) (failure : Failure)
  | fault (f : Fault)

def BinaryOp.label : BinaryOp → String
  | .add => "Add"
  | .sub => "Sub"
  | .mul => "Mul"
  | .div => "Div"
  | .mod => "Mod"
  | .eq => "Eq"
  | .ne => "Ne"
  | .lt => "Lt"
  | .le => "Le"
  | .gt => "Gt"
  | .ge => "Ge"
  | .and => "And"
  | .or => "Or"

/-- The longest list that `range` makes. -/
def maxRange : Nat := 100000

def Fault.message : Fault → String
  | .slot n => "no slot " ++ toString n
  | .strayArrow => "arrow function used as a value"
  | .arguments b => b.name ++ "() called with unsupported arguments"
  | .noArrow b => b.name ++ "() expects an arrow function"
  | .bounds => "part out of bounds"
  | .unordered => "bounds out of order"

def plainFloat (x : Float) : String := String.ofList (Decimal.Format.plain.text x)

def EvalError.message : EvalError → String
  | .memberOfNull name => "cannot read property '" ++ name ++ "' of null"
  | .elementOfNull index => "cannot read index " ++ display index ++ " of null"
  | .cannotNegate found => "cannot negate " ++ found.name
  | .cannotSpread found => "cannot spread " ++ found.name ++ " into an array"
  | .operands op left right =>
    "unsupported operands for " ++ op.label ++ ": " ++ left.name ++ " and " ++ right.name
  | .cannotCompare left right => "cannot compare " ++ left.name ++ " with " ++ right.name
  | .expectsNumber b found => b.name ++ "() expects a number, found " ++ found.name
  | .notDefinedFor b found => b.name ++ "() of " ++ found.name ++ " is undefined"
  | .clampReversed low high =>
    "clamp() bounds are reversed: " ++ plainFloat low ++ " > " ++ plainFloat high
  | .mergeExpectsObjects found => "merge() expects objects, found " ++ found.name
  | .rangeTooLong length =>
    "range() of " ++ toString length ++ " items exceeds the limit of " ++ toString maxRange
  | .expectsList b found => b.name ++ "() expects an array, found " ++ found.name
  | .fetchExpectsUrl found => "fetch() expects a url string, found " ++ found.name
  | .fetchFailed url failure => "fetch('" ++ url ++ "') failed: " ++ failure.message
  | .fault f => f.message

/-- What a computation on values yields. -/
abbrev Computed := Except EvalError

/-! ## Operators -/

def UnaryOp.apply (op : UnaryOp) (v : Json) : Computed Json :=
  match op with
  | .not => .ok (.bool !(truthy v))
  | .neg =>
    match toNumber? v with
    | some x => .ok (ofFloat (-x))
    | none => .error (.cannotNegate v.kind)

/-- How two values are ordered: texts by their characters, all else by the numbers they count as. -/
def order (l r : Json) : Computed (Option Ordering) :=
  match l, r with
  | .string a, .string b => .ok (some (compare a b))
  | l, r =>
    match toNumber? l, toNumber? r with
    | some a, some b =>
      .ok <|
        if a < b then some .lt else if a == b then some .eq else if b < a then some .gt else none
    | _, _ => .error (.cannotCompare l.kind r.kind)

/-- The remainder of a division, with the sign of the dividend. -/
def remainder (x y : Float) : Json :=
  match Binary.ofFloat? x, Binary.ofFloat? y with
  | some a, some b => ((a.rem? b).map fun d => ofFloat d.toFloat).getD .null
  | _, _ => .null

/-- The value of `l op r` for the operators of arithmetic, on the numbers that the operands count
as. -/
def arithmetic (op : BinaryOp) (compute : Float → Float → Json) (l r : Json) : Computed Json :=
  match toNumber? l, toNumber? r with
  | some x, some y => .ok (compute x y)
  | _, _ => .error (.operands op l.kind r.kind)

/-- The value of `l op r`. For `&&` and `||` the evaluator decides before it comes to this. -/
def BinaryOp.apply (op : BinaryOp) (l r : Json) : Computed Json :=
  match op with
  | .eq => .ok (.bool (looseEq l r))
  | .ne => .ok (.bool !(looseEq l r))
  | .lt => do return .bool ((← order l r) == some .lt)
  | .le => do return .bool (((← order l r).map Ordering.isLE).getD false)
  | .gt => do return .bool ((← order l r) == some .gt)
  | .ge => do return .bool (((← order l r).map Ordering.isGE).getD false)
  | .add =>
    match l, r with
    | .string a, r => .ok (.string (a ++ display r))
    | l, .string b => .ok (.string (display l ++ b))
    | l, r => arithmetic .add (fun x y => ofFloat (x + y)) l r
  | .sub => arithmetic .sub (fun x y => ofFloat (x - y)) l r
  | .mul => arithmetic .mul (fun x y => ofFloat (x * y)) l r
  | .div => arithmetic .div (fun x y => ofFloat (x / y)) l r
  | .mod => arithmetic .mod remainder l r
  | .and => .ok (if truthy l then r else l)
  | .or => .ok (if truthy l then l else r)

/-! ## Parts of lists and texts -/

/-- The part from `start` up to, not including, `stop`; `none` where it reaches beyond the list. -/
def window? {α : Type} (xs : List α) (start stop : Nat) : Option (List α) :=
  if start ≤ stop ∧ stop ≤ xs.length then some ((xs.take stop).drop start) else none

/-- A bound of a part of a list of `length` elements: its fraction is dropped, a negative one counts
from the end, and it never leaves the list. For a `length` below `2 ^ 53` the sum in floats, which is
exact where it is not negative, makes the same bound. -/
def bound (length : Nat) (x : Float) : Nat :=
  let n := ((Binary.ofFloat? x).map Binary.trunc).getD 0
  if n < 0 then (length + n).toNat else Nat.min n.toNat length

/-- The bounds of a part: the end is never before the start. -/
def bounds (length : Nat) (start : Float) (stop : Option Float) : Nat × Nat :=
  let s := bound length start
  let e := (stop.map (bound length)).getD length
  (s, Nat.max e s)

/-- The part between two bounds. -/
def part {α : Type} (xs : List α) (start : Float) (stop : Option Float) : Computed (List α) :=
  let (s, e) := bounds xs.length start stop
  match window? xs s e with
  | some ys => .ok ys
  | none => .error (.fault .bounds)

/-! ## Functions -/

/-- The number that an argument counts as. -/
def numberArg (b : Builtin) (v : Json) : Computed Float :=
  match toNumber? v with
  | some x => .ok x
  | none => .error (.expectsNumber b v.kind)

/-- The number between two bounds that is nearest to `x`; `none` where the bounds are not in
order. -/
def between? (x low high : Float) : Option Float :=
  if low ≤ high then some (if x < low then low else if high < x then high else x) else none

/-- The greatest or the least of numbers, by the test for the better of two; `null` if there is
none. -/
def extreme (b : Builtin) (better : Float → Float → Bool) (vs : List Json) : Computed Json := do
  let best ← vs.foldlM (fun (best : Option Float) v => do
    let x ← numberArg b v
    match best with
    | none => return some x
    | some y => return some (if better x y then x else y)) none
  return (best.map ofFloat).getD .null

/-- The arguments of `min` and `max`: a single list stands for its elements. -/
def operandsOf : List Json → List Json
  | [.array items] => items
  | args => args

/-- A whole number kept within 64 bits with a sign. -/
def clamp64 (n : Int) : Int :=
  let half : Int := 0x8000000000000000
  if n < -half then -half else if half ≤ n then half - 1 else n

def ceiling (x : Float) : Int := ((Binary.ofFloat? x).map Binary.ceil).getD 0

/-- The whole numbers from one bound up to, not including, the other. -/
def wholeRange (start stop : Float) : Computed Json :=
  let first := clamp64 (ceiling start)
  let last := clamp64 (ceiling stop)
  let length := clamp64 (last - first)
  if maxRange < length then .error (.rangeTooLong length)
  else .ok (.array ((List.range length.toNat).map fun (i : Nat) => .number (.int (first + i))))

/-- A list whose elements are written between the separators; `null` is written as nothing. -/
def joined (separator : String) (items : List Json) : String :=
  separator.intercalate (items.map fun v =>
    match v with
    | .null => ""
    | v => display v)

/-- The objects written one over the other. -/
def merged (vs : List Json) : Computed Json := do
  let fields ← vs.foldlM (fun (acc : Fields) v =>
    match v with
    | .object fields => .ok (Fields.overlay acc fields)
    | .null => .ok acc
    | v => .error (.mergeExpectsObjects v.kind)) []
  return .object fields

/-- Lists one behind the other, where a value that is no list counts as a list of one. -/
def chained (vs : List Json) : List Json :=
  vs.flatMap fun v =>
    match v with
    | .array items => items
    | v => [v]

def rounded (b : Builtin) (round : Binary → Int) (v : Json) : Computed Json := do
  let x ← numberArg b v
  return ((Binary.ofFloat? x).map fun d => ofFloat (.ofInt (round d))).getD .null

/-- The value of a function on its arguments. -/
def Builtin.apply : Builtin → List Json → Computed Json
  | .len, [v] =>
    match v with
    | .array items => .ok (.ofNat items.length)
    | .string s => .ok (.ofNat s.toList.length)
    | .object fields => .ok (.ofNat fields.length)
    | .null => .ok (.ofNat 0)
    | v => .error (.notDefinedFor .len v.kind)
  | .min, args => extreme .min (fun x y => x < y) (operandsOf args)
  | .max, args => extreme .max (fun x y => y < x) (operandsOf args)
  | .abs, [v] => do return ofFloat (← numberArg .abs v).abs
  | .floor, [v] => rounded .floor Binary.floor v
  | .ceil, [v] => rounded .ceil Binary.ceil v
  | .round, [v] => do
    let x ← numberArg .round v
    return ((Binary.ofFloat? (x + 0.5)).map fun d => ofFloat (.ofInt d.floor)).getD .null
  | .clamp, [v, low, high] => do
    let x ← numberArg .clamp v
    let low ← numberArg .clamp low
    let high ← numberArg .clamp high
    if high < low then throw (.clampReversed low high)
    else
      match between? x low high with
      | some y => return ofFloat y
      | none => throw (.fault .unordered)
  | .str, [v] => .ok (.string (display v))
  | .num, [v] => .ok (((toNumber? v).map ofFloat).getD .null)
  | .keys, [v] =>
    match v with
    | .object fields => .ok (.array ((Fields.keys fields).map .string))
    | .array items => .ok (.array ((List.range items.length).map fun i => .string (toString i)))
    | v => .error (.notDefinedFor .keys v.kind)
  | .concat, v :: vs =>
    match v with
    | .array _ => .ok (.array (chained (v :: vs)))
    | v => .ok (.string (String.join ((v :: vs).map display)))
  | .merge, vs => merged vs
  | .range, [stop] => do wholeRange 0 (← numberArg .range stop)
  | .range, [start, stop] => do
    let start ← numberArg .range start
    wholeRange start (← numberArg .range stop)
  | .slice, [v, start] => do slice v (← numberArg .slice start) none
  | .slice, [v, start, stop] => do
    let start ← numberArg .slice start
    slice v start (some (← numberArg .slice stop))
  | .join, [v] => join v ","
  | .join, [v, separator] => join v (display separator)
  | b, _ => .error (.fault (.arguments b))
where
  slice (v : Json) (start : Float) (stop : Option Float) : Computed Json :=
    match v with
    | .array items => do return .array (← part items start stop)
    | .string s => do return .string (String.ofList (← part s.toList start stop))
    | v => .error (.notDefinedFor .slice v.kind)
  join (v : Json) (separator : String) : Computed Json :=
    match v with
    | .array items => .ok (.string (joined separator items))
    | v => .error (.expectsList .join v.kind)

end Montage.Script
