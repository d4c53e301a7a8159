import Montage.Json.Basic
import Montage.Text.Digit

/-!
# Ranges

A range takes a part of a list. An index range `N-M` takes the elements from place `N` to place `M`,
both included. A time range `MM:SS-MM:SS` takes the captions that are on at some moment between two
times. The digits of a range may be those of any script, but only ASCII digits have a value: an
index in other digits lies behind every list, a time in other digits is zero.
-/

namespace Montage.Reference

open Montage.Text (isDecimalDigit natOfDigits?)

/-! ## Forms -/

/-- A point in time, as digits for minutes and for seconds. -/
structure Clock where
  minutes : List Char
  seconds : List Char

def Clock.total (c : Clock) : Nat :=
  60 * (natOfDigits? c.minutes).getD 0 + (natOfDigits? c.seconds).getD 0

/-- A time at the start, with one or two digits for the minutes and two for the seconds, and what
follows. -/
def clock? (cs : List Char) : Option (Clock × List Char) :=
  let minutes := cs.takeWhile isDecimalDigit
  match cs.dropWhile isDecimalDigit with
  | ':' :: rest =>
    let seconds := rest.takeWhile isDecimalDigit
    if (minutes.length = 1 ∨ minutes.length = 2) ∧ seconds.length = 2 then
      some (⟨minutes, seconds⟩, rest.dropWhile isDecimalDigit)
    else none
  | _ => none

/-- The two times of a time range. -/
def timeForm? (cs : List Char) : Option (Clock × Clock) :=
  match clock? cs with
  | some (first, '-' :: rest) =>
    match clock? rest with
    | some (last, []) => some (first, last)
    | _ => none
  | _ => none

/-- The two runs of digits of an index range. -/
def indexForm? (cs : List Char) : Option (List Char × List Char) :=
  let first := cs.takeWhile isDecimalDigit
  match cs.dropWhile isDecimalDigit with
  | '-' :: last =>
    if first ≠ [] ∧ last ≠ [] ∧ last.all isDecimalDigit then some (first, last) else none
  | _ => none

/-- The greatest index: 64 bits hold no greater number. -/
def maxIndex : Nat := count64 - 1

/-- The index that digits write. What is not a number, or is too large a number, is the greatest
index. -/
def indexOf (digits : List Char) : Nat := min ((natOfDigits? digits).getD maxIndex) maxIndex

/-! ## Kinds -/

/-- The kinds of ranges. -/
inductive RangeKind
  | time | index | unrecognized
  deriving DecidableEq, Repr

def RangeKind.name : RangeKind → String
  | .time => "time"
  | .index => "index"
  | .unrecognized => "unrecognized"

def rangeKind (range : String) : RangeKind :=
  if (timeForm? range.toList).isSome then .time
  else if (indexForm? range.toList).isSome then .index
  else .unrecognized

/-! ## Failures -/

/-- What a range cannot be applied to. -/
inductive RangeTarget
  | plainList | objectWithoutCaptions | scalar
  deriving DecidableEq, Repr

def RangeTarget.words : RangeTarget → String
  | .plainList => "an array without captions"
  | .objectWithoutCaptions => "an object without captions"
  | .scalar => "a scalar value"

/-- Why a range cannot be applied. -/
inductive RangeError
  | grammar
  | outOfBounds (first last length : Nat)
  | reversed (first last : Nat)
  | target (kind : RangeKind) (place : RangeTarget)
  deriving DecidableEq, Repr

def RangeError.message : RangeError → String
  | .grammar => "expected N-M or MM:SS-MM:SS"
  | .outOfBounds first last length =>
    "index range " ++ toString first ++ "-" ++ toString last ++ " is out of bounds for " ++
      toString length ++ " items"
  | .reversed first last =>
    "start " ++ toString first ++ " is after end " ++ toString last
  | .target kind place => kind.name ++ " range cannot be applied to " ++ place.words

/-! ## Application -/

/-- The elements at the places of an index range. -/
def takeIndices (values : List Json) (range : String) : Except RangeError (List Json) :=
  match indexForm? range.toList with
  | none => .error .grammar
  | some (first, last) =>
    let first := indexOf first
    let last := indexOf last
    if last < first then .error (.reversed first last)
    else if values.length ≤ last then .error (.outOfBounds first last values.length)
    else .ok ((values.drop first).take (last + 1 - first))

/-- The two times of a time range, in seconds. -/
def timeBounds (range : String) : Except RangeError (Nat × Nat) :=
  match timeForm? range.toList with
  | some (first, last) => .ok (first.total, last.total)
  | none => .error .grammar

/-- The number under the first of two keys that has one. -/
def captionTime? (caption : Json) (key fallback : String) : Option Float :=
  ((caption.get? key).bind Json.toFloat?).or ((caption.get? fallback).bind Json.toFloat?)

/-- When a caption comes on and when it goes off; the absolute times are preferred. -/
def captionInterval? (caption : Json) : Option (Float × Float) := do
  return (← captionTime? caption "absoluteStart" "start",
    ← captionTime? caption "absoluteEnd" "end")

/-- Whether a caption is on at some moment between two times. -/
def isOnBetween (first last : Float) (caption : Json) : Bool :=
  match captionInterval? caption with
  | some (start, stop) => start < last && first < stop
  | none => false

/-- The captions of a time range. -/
def takeTimes (captions : List Json) (range : String) : Except RangeError (List Json) := do
  let (first, last) ← timeBounds range
  return captions.filter (isOnBetween (.ofNat first) (.ofNat last))

end Montage.Reference
