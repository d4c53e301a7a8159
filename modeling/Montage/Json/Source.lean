import Montage.Json.Basic
import Montage.Decimal.Numeral

/-!
# JSON as it is written

A JSON text is cut into marks, and the marks are built into a tree. Both passes go over their input
once, from left to right, with a state that says what may come next, so neither needs a measure.

The tree keeps what the text says: members stand in the order they are written, a key may occur
twice, a number may be too large for a float, and a text may hold half of a surrogate pair. Which of
these matter is for the reader of the tree to decide.
-/

namespace Montage.Json

open Montage.Text (isAsciiDigit digitValue?)
open Montage.Decimal (digitRun signOf)

/-- A JSON text as a tree. A number is `none` where no float is near enough, a text or a key is
`none` where an escape stands for half a character. -/
inductive Source
  | null
  | bool (b : Bool)
  | number (n : Option Number)
  | text (s : Option String)
  | list (items : List Source)
  | object (members : List (Option String × Source))

/-! ## Numbers -/

/-- The number `coefficient · 10 ^ -places`, with the coefficient in 64 bits: digits are taken while
they fit; of those that do not, the ones before the point still count as places. -/
structure Digits where
  coefficient : Nat
  places : Int
  /-- Whether a digit has been left out. -/
  cut : Bool

namespace Digits

def takeWhole (ds : List Char) : Digits :=
  ds.foldl (fun acc c =>
    let next := 10 * acc.coefficient + (digitValue? c).getD 0
    if !acc.cut && next < count64 then { acc with coefficient := next }
    else { acc with places := acc.places - 1, cut := true }) ⟨0, 0, false⟩

/-- The digits behind the point, up to the first that does not fit. -/
def takeFraction (start : Digits) (ds : List Char) : Digits :=
  ds.foldl (fun acc c =>
    let next := 10 * acc.coefficient + (digitValue? c).getD 0
    if !acc.cut && next < count64 then { acc with coefficient := next, places := acc.places + 1 }
    else { acc with cut := true }) { start with cut := false }

end Digits

def powerOfTen (n : Nat) : Float := .ofScientific 1 false n

/-- A float divided by `10 ^ n`, in steps that have a float. -/
def divideByPower (x : Float) (n : Nat) : Float :=
  if n ≤ 308 then x / powerOfTen n
  else if x == 0 then x
  else divideByPower (x / powerOfTen 308) (n - 308)
termination_by n
decreasing_by omega

/-- A float times `10 ^ e`; `none` where that is too large. -/
def timesPower (x : Float) (e : Int) : Option Float :=
  if e < 0 then some (divideByPower x e.natAbs)
  else if e ≤ 308 then
    let y := x * powerOfTen e.natAbs
    if y.isInf then none else some y
  else if x == 0 then some x
  else none

/-- The exponent of a number: nothing, or `e`, an optional sign and digits. -/
def exponentPart? : List Char → Option Int
  | [] => some 0
  | c :: rest => if c = 'e' ∨ c = 'E' then Decimal.exponentOf? (c :: rest) else none

/-- The number that a word writes, if it is a number of JSON: no leading zeros, a digit on both
sides of a point. Without point and exponent it is whole, if 64 bits hold it; `-0` is a float. -/
def numberWord? (cs : List Char) : Option (Option Number) :=
  let (negative, cs) :=
    match cs with
    | '-' :: rest => (true, rest)
    | cs => (false, cs)
  let (whole, rest) := digitRun cs
  let signed (x : Float) : Float := if negative then -x else x
  let float (d : Digits) (e : Int) : Option Number :=
    (timesPower (.ofNat d.coefficient) (e - d.places)).bind fun x => Number.ofFloat? (signed x)
  match whole, rest with
  | [], _ => none
  | '0' :: _ :: _, _ => none
  | whole, [] =>
    let n := (Text.natOfDigits? whole).getD 0
    if n < count64 ∧ ¬ negative then some (some (.int n))
    else if 0 < n ∧ 2 * n ≤ count64 then some (some (.int (-n)))
    else some (float (.takeWhole whole) 0)
  | whole, '.' :: rest =>
    match digitRun rest with
    | ([], _) => none
    | (fraction, rest) =>
      (exponentPart? rest).map (float ((Digits.takeWhole whole).takeFraction fraction) ·)
  | whole, rest => (exponentPart? rest).map (float (.takeWhole whole) ·)

/-! ## Texts -/

/-- A character of a text, or sixteen bits given by an escape. -/
inductive Piece
  | char (c : Char)
  | unit (u : Nat)

/-- The character that two halves of a surrogate pair stand for. -/
def ofPair (lead trail : Nat) : Char :=
  .ofNat (0x10000 + (lead - 0xD800) * 0x400 + (trail - 0xDC00))

/-- The text that pieces make; `none` where half of a pair stands alone. -/
def assemble : List Piece → Option (List Char)
  | [] => some []
  | .char c :: rest => (assemble rest).map (c :: ·)
  | .unit u :: rest =>
    if 0xD800 ≤ u ∧ u < 0xDC00 then
      match rest with
      | .unit v :: rest =>
        if 0xDC00 ≤ v ∧ v < 0xE000 then (assemble rest).map (ofPair u v :: ·) else none
      | _ => none
    else if 0xDC00 ≤ u ∧ u < 0xE000 then none
    else (assemble rest).map (Char.ofNat u :: ·)

/-- The value of a digit of base sixteen, in either case. -/
def hexValue? (c : Char) : Option Nat :=
  if '0' ≤ c ∧ c ≤ '9' then some (c.toNat - '0'.toNat)
  else if 'a' ≤ c ∧ c ≤ 'f' then some (c.toNat - 'a'.toNat + 10)
  else if 'A' ≤ c ∧ c ≤ 'F' then some (c.toNat - 'A'.toNat + 10)
  else none

/-- The character that an escape of one letter stands for. -/
def shortEscape? : Char → Option Char
  | '"' => some '"'
  | '\\' => some '\\'
  | '/' => some '/'
  | 'b' => some '\x08'
  | 'f' => some '\x0c'
  | 'n' => some '\n'
  | 'r' => some '\r'
  | 't' => some '\t'
  | _ => none

/-! ## Marks -/

/-- The parts that a JSON text is made of. -/
inductive Mark
  | openList | closeList | openObject | closeObject | comma | colon
  | scalar (s : Source)

/-- The mark of a bracket, a comma or a colon. -/
def punctuation? : Char → Option Mark
  | '[' => some .openList
  | ']' => some .closeList
  | '\x7b' => some .openObject
  | '\x7d' => some .closeObject
  | ',' => some .comma
  | ':' => some .colon
  | _ => none

def wordMark? (cs : List Char) : Option Mark :=
  if cs = ['n', 'u', 'l', 'l'] then some (.scalar .null)
  else if cs = ['t', 'r', 'u', 'e'] then some (.scalar (.bool true))
  else if cs = ['f', 'a', 'l', 's', 'e'] then some (.scalar (.bool false))
  else (numberWord? cs).map fun n => .scalar (.number n)

/-- Where the cut into marks stands; lists are in reverse. -/
inductive Scan
  | gap
  | word (cs : List Char)
  | text (ps : List Piece)
  | escape (ps : List Piece)
  | code (ps : List Piece) (digits : Nat) (value : Nat)

/-- One character outside a text. -/
def scanGap (marks : List Mark) (c : Char) : Scan × List Mark :=
  if c = ' ' ∨ c = '\t' ∨ c = '\n' ∨ c = '\r' then (.gap, marks)
  else if c = '"' then (.text [], marks)
  else
    match punctuation? c with
    | some m => (.gap, m :: marks)
    | none => (.word [c], marks)

def endsWord (c : Char) : Bool :=
  c == ' ' || c == '\t' || c == '\n' || c == '\r' || c == '"' || (punctuation? c).isSome

/-- One character of the text; `none` where it cannot stand. -/
def scanChar : Scan × List Mark → Char → Option (Scan × List Mark)
  | (.gap, marks), c => some (scanGap marks c)
  | (.word cs, marks), c =>
    if endsWord c then (wordMark? cs.reverse).map fun m => scanGap (m :: marks) c
    else some (.word (c :: cs), marks)
  | (.text ps, marks), c =>
    if c = '"' then
      some (.gap, .scalar (.text ((assemble ps.reverse).map String.ofList)) :: marks)
    else if c = '\\' then some (.escape ps, marks)
    else if c.toNat < 0x20 then none
    else some (.text (.char c :: ps), marks)
  | (.escape ps, marks), c =>
    if c = 'u' then some (.code ps 4 0, marks)
    else (shortEscape? c).map fun d => (.text (.char d :: ps), marks)
  | (.code ps digits value, marks), c =>
    (hexValue? c).map fun d =>
      let value := 16 * value + d
      if digits ≤ 1 then (.text (.unit value :: ps), marks)
      else (.code ps (digits - 1) value, marks)

/-- The marks of a text. -/
def marks? (cs : List Char) : Option (List Mark) :=
  match cs.foldlM scanChar (.gap, []) with
  | some (.gap, marks) => some marks.reverse
  | some (.word w, marks) => (wordMark? w.reverse).map fun m => (m :: marks).reverse
  | _ => none

/-! ## The tree -/

/-- A bracket that is still open, with what stands in it so far, in reverse. -/
inductive Frame
  | list (items : List Source)
  | object (members : List (Option String × Source)) (key : Option String)

/-- What may come next. -/
inductive Phase
  /-- A value; after an opening bracket also its end. -/
  | value (first : Bool)
  /-- A key; after an opening brace also its end. -/
  | key (members : List (Option String × Source)) (first : Bool)
  /-- The colon behind a key. -/
  | colon (members : List (Option String × Source)) (key : Option String)
  /-- What stands behind this value: a comma, an end, or nothing more. -/
  | after (v : Source)

/-- One mark; `none` where it cannot stand. -/
def build : List Frame × Phase → Mark → Option (List Frame × Phase)
  | (frames, .value _), .scalar v => some (frames, .after v)
  | (frames, .value _), .openList => some (.list [] :: frames, .value true)
  | (frames, .value _), .openObject => some (frames, .key [] true)
  | (.list _ :: frames, .value true), .closeList => some (frames, .after (.list []))
  | (frames, .key members _), .scalar (.text key) => some (frames, .colon members key)
  | (frames, .key _ true), .closeObject => some (frames, .after (.object []))
  | (frames, .colon members key), .colon => some (.object members key :: frames, .value false)
  | (.list items :: frames, .after v), .comma => some (.list (v :: items) :: frames, .value false)
  | (.list items :: frames, .after v), .closeList =>
    some (frames, .after (.list (v :: items).reverse))
  | (.object members key :: frames, .after v), .comma =>
    some (frames, .key ((key, v) :: members) false)
  | (.object members key :: frames, .after v), .closeObject =>
    some (frames, .after (.object ((key, v) :: members).reverse))
  | _, _ => none

/-- The tree of a JSON text; `none` where it is not JSON. -/
def Source.parse? (s : String) : Option Source :=
  (marks? s.toList).bind fun marks =>
    match marks.foldlM build ([], .value false) with
    | some ([], .after v) => some v
    | _ => none

end Montage.Json
