import Montage.Text.Digit

/-!
# Reading a decimal

The float nearest to `± digits.digits e± digits`, and the texts that have this form.
-/

namespace Montage.Decimal

open Montage.Text (isAsciiDigit natOfDigits?)

/-- The float nearest to the number that the digits before the point, the digits behind it and the
exponent write. -/
def floatOfParts (whole fraction : List Char) (exponent : Int) : Float :=
  let e := exponent - fraction.length
  .ofScientific ((natOfDigits? (whole ++ fraction)).getD 0) (e < 0) e.natAbs

def digitRun (cs : List Char) : List Char × List Char :=
  (cs.takeWhile isAsciiDigit, cs.dropWhile isAsciiDigit)

/-- A sign, if there is one, and what follows it; `true` is a minus. -/
def signOf : List Char → Bool × List Char
  | '-' :: rest => (true, rest)
  | '+' :: rest => (false, rest)
  | rest => (false, rest)

/-- The exponent behind a mantissa, which must end the text: nothing, or `e` and a whole number. -/
def exponentOf? : List Char → Option Int
  | [] => some 0
  | c :: rest =>
    if c = 'e' ∨ c = 'E' then
      let (negative, rest) := signOf rest
      match digitRun rest with
      | ([], _) => none
      | (ds, []) => (natOfDigits? ds).map fun n => if negative then -(n : Int) else n
      | (_, _ :: _) => none
    else none

/-- The finite number that a text writes: an optional sign, digits with at most one point among
them, and an optional exponent. -/
def numeral? (cs : List Char) : Option Float :=
  let (negative, cs) := signOf cs
  let (whole, rest) := digitRun cs
  let (fraction, rest) :=
    match rest with
    | '.' :: rest => digitRun rest
    | rest => ([], rest)
  if whole.isEmpty && fraction.isEmpty then none
  else
    (exponentOf? rest).bind fun e =>
      let x := floatOfParts whole fraction e
      let x := if negative then -x else x
      if x.isFinite then some x else none

end Montage.Decimal
