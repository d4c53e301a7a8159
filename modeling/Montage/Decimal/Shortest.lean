import Montage.Decimal.Binary

/-!
# The shortest decimal that reads back

Every finite float owns an interval of reals, those that are nearer to it than to its neighbours;
the ends belong to it when its mantissa is even. Of the decimals inside that interval the shortest
is the one with the fewest digits, and of those the one nearest to the float.

Scaled by a power of ten the interval has whole ends, so the search walks the grids
`10 ^ j` from coarse to fine over natural numbers. The finest grid holds the float itself, so the
search always ends in the interval.
-/

namespace Montage.Decimal

/-- The number `digits · 10 ^ exponent`. -/
structure Scaled where
  digits : Nat
  exponent : Int
  deriving DecidableEq, Repr

/-- Which of two decimals at the same distance is taken. -/
inductive Tie
  | even
  | up
  deriving DecidableEq, Repr

/-- The interval of reals that round to a float, as whole multiples of one power of ten. -/
structure Interval where
  low : Nat
  middle : Nat
  high : Nat
  /-- Whether the two ends belong to it. -/
  closed : Bool
  deriving DecidableEq, Repr

namespace Interval

def holds (i : Interval) (n : Nat) : Bool :=
  if i.closed then i.low ≤ n && n ≤ i.high else i.low < n && n < i.high

/-- Of the two points around the middle on a grid, the one to take when both are in the
interval. -/
def nearer (tie : Tie) (i : Interval) (unit : Nat) : Nat :=
  let below := i.middle / unit
  match compare (2 * (i.middle % unit)) unit with
  | .lt => below
  | .gt => below + 1
  | .eq =>
    match tie with
    | .even => if below % 2 = 0 then below else below + 1
    | .up => below + 1

/-- The point of the coarsest grid `10 ^ j` that has one in the interval, and that `j`. -/
def search (tie : Tie) (i : Interval) : Nat → Nat × Nat
  | 0 => (i.middle, 0)
  | j + 1 =>
    let unit := Nat.pow 10 (j + 1)
    let below := i.middle / unit
    match i.holds (below * unit), i.holds ((below + 1) * unit) with
    | true, true => (nearer tie i unit, j + 1)
    | true, false => (below, j + 1)
    | false, true => (below + 1, j + 1)
    | false, false => search tie i j

end Interval

/-- How many decimal digits a number has; zero has one. -/
def digitCount (n : Nat) : Nat := (Nat.toDigits 10 n).length

/-- The interval of the float `mantissa · 2 ^ exponent` in units of `10 ^ unit`. The float below a
power of two is half as far away as the one above, unless both are subnormal. -/
def intervalOf (mantissa : Nat) (exponent : Int) : Interval × Int :=
  let below := if mantissa = 0x10000000000000 ∧ -1074 < exponent then 1 else 2
  let factor :=
    if 2 ≤ exponent then Nat.pow 2 (exponent - 2).toNat else Nat.pow 5 (2 - exponent).toNat
  let unit := if 2 ≤ exponent then 0 else exponent - 2
  (⟨(4 * mantissa - below) * factor, 4 * mantissa * factor, (4 * mantissa + 2) * factor,
    mantissa % 2 == 0⟩, unit)

/-- The shortest decimal of the float `mantissa · 2 ^ exponent`. -/
def shortest (tie : Tie) (mantissa : Nat) (exponent : Int) : Scaled :=
  let (i, unit) := intervalOf mantissa exponent
  let (digits, j) := i.search tie (digitCount i.middle - 1)
  ⟨digits, unit + j⟩

end Montage.Decimal
