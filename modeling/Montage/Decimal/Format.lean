import Montage.Decimal.Shortest

/-!
# How a float is written

Every text of a float holds the digits of its shortest decimal. A format says where positional
notation ends, what a whole number looks like, and how an exponent is written.
-/

namespace Montage.Decimal

/-- The decisions of one way to write floats. -/
structure Format where
  tie : Tie
  /-- Whether a number `d.ddd · 10 ^ e` is written without an exponent, by `e`. -/
  positional : Int → Bool
  /-- What follows the digits of a whole number in positional notation. -/
  whole : List Char
  /-- What stands between `e` and the digits of an exponent that is not negative. -/
  plus : List Char

/-- The digits of a number, the most significant first. -/
def natDigits (n : Nat) : List Char := Nat.toDigits 10 n

def significant (ds : List Char) : List Char := (ds.reverse.dropWhile (· == '0')).reverse

/-- `0.000ddd`, `dd.ddd` or `ddd000`: the digits `ds` with the first at place `e`. -/
def Format.positionalText (f : Format) (ds : List Char) (e : Int) : List Char :=
  if e < 0 then '0' :: '.' :: (List.replicate (-e - 1).toNat '0' ++ ds)
  else
    let whole := e.toNat + 1
    if ds.length ≤ whole then ds ++ List.replicate (whole - ds.length) '0' ++ f.whole
    else ds.take whole ++ '.' :: ds.drop whole

/-- `d.ddde±x`: the digits `ds` with the first at place `e`. -/
def Format.exponentText (f : Format) (ds : List Char) (e : Int) : List Char :=
  let mantissa :=
    match ds with
    | d :: second :: rest => d :: '.' :: second :: rest
    | ds => ds
  let sign := if e < 0 then ['-'] else f.plus
  mantissa ++ 'e' :: sign ++ natDigits e.natAbs

/-- The text of a decimal that is not negative. -/
def Format.scaledText (f : Format) (d : Scaled) : List Char :=
  let all := natDigits d.digits
  let e := d.exponent + (all.length - 1 : Nat)
  if d.digits = 0 then '0' :: f.whole
  else if f.positional e then f.positionalText (significant all) e
  else f.exponentText (significant all) e

/-- The text of a float. -/
def Format.text (f : Format) (x : Float) : List Char :=
  match x.toModel.unpack with
  | .finite .negative mantissa exponent _ => '-' :: f.scaledText (shortest f.tie mantissa exponent)
  | .finite .positive mantissa exponent _ => f.scaledText (shortest f.tie mantissa exponent)
  | .zero .negative => '-' :: f.scaledText ⟨0, 0⟩
  | .zero .positive => f.scaledText ⟨0, 0⟩
  | .infinity .negative => ['-', 'i', 'n', 'f']
  | .infinity .positive => ['i', 'n', 'f']
  | .notANumber => ['N', 'a', 'N']

/-- Floats in data: positional from five places behind the point to fifteen before it, a whole
number ends in `.0`, and the exponent always has its sign. -/
def Format.data : Format := ⟨.even, fun e => -5 ≤ e && e ≤ 15, ['.', '0'], ['+']⟩

/-- Floats inside a description of a token: positional from four places behind the point to
fifteen before it, a whole number ends in `.0`. -/
def Format.described : Format := ⟨.up, fun e => -4 ≤ e && e ≤ 15, ['.', '0'], []⟩

/-- Floats in running text: never an exponent, and a whole number without a point. -/
def Format.plain : Format := ⟨.up, fun _ => true, [], []⟩

end Montage.Decimal
