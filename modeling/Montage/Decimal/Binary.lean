/-!
# The exact value of a float

A finite float is an integer times a power of two. Rounding to whole numbers and the remainder of
a division are taken on that exact value.
-/

namespace Montage.Decimal

open Float.Model (UnpackedFloat)

/-- The number `coefficient · 2 ^ exponent`. -/
structure Binary where
  coefficient : Int
  exponent : Int
  deriving DecidableEq, Repr

namespace Binary

/-- The value of a finite float; infinities and NaN have none. -/
def ofFloat? (x : Float) : Option Binary :=
  match x.toModel.unpack with
  | .finite sign mantissa exponent _ => some ⟨sign.apply mantissa, exponent⟩
  | .zero _ => some ⟨0, 0⟩
  | .infinity _ => none
  | .notANumber => none

/-- The float nearest to the value; zero is the positive one. -/
def toFloat (d : Binary) : Float :=
  .ofModel (.pack (UnpackedFloat.normalize .binary64 d.coefficient d.exponent .positive))

def floor (d : Binary) : Int :=
  if 0 ≤ d.exponent then d.coefficient * Nat.pow 2 d.exponent.toNat
  else d.coefficient / Nat.pow 2 (-d.exponent).toNat

def ceil (d : Binary) : Int := -floor ⟨-d.coefficient, d.exponent⟩

/-- The whole part of the value, its fraction dropped. -/
def trunc (d : Binary) : Int := if 0 ≤ d.coefficient then d.floor else d.ceil

def isWhole (d : Binary) : Bool := d.floor == d.ceil

/-- What is left of `a` after taking away `b` as often as it fits, with the sign of `a`;
`none` where `b` is zero. -/
def rem? (a b : Binary) : Option Binary :=
  if b.coefficient = 0 then none
  else
    let unit := min a.exponent b.exponent
    let scaled (d : Binary) : Int := d.coefficient * Nat.pow 2 (d.exponent - unit).toNat
    some ⟨(scaled a).tmod (scaled b), unit⟩

end Binary

end Montage.Decimal
