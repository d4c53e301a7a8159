import Montage.Reference.Range
import Montage.Noted

/-!
# Taking a part of a value

A range is applied to what it can be applied to. Where that fails the value stays whole, and the
reason is noted.
-/

namespace Montage.Reference

/-- The part of a list, or the whole list and a note why. -/
def partOr (whole : List Json) (range : String) : Except RangeError (List Json) → Noted (List Json)
  | .ok part => pure part
  | .error e => .despite whole (.rangeInvalid range e.message)

/-- A part of a plain list, which has indices but no times. -/
def sliceList (values : List Json) (range : String) : Noted (List Json) :=
  partOr values range <|
    match rangeKind range with
    | .index => takeIndices values range
    | .time => .error (.target .time .plainList)
    | .unrecognized => .error .grammar

/-- A part of a list of captions, by times or by indices. -/
def sliceCaptions (captions : List Json) (range : String) : Noted (List Json) :=
  partOr captions range <|
    match rangeKind range with
    | .time => takeTimes captions range
    | .index => takeIndices captions range
    | .unrecognized => .error .grammar

/-- A value that has no part of this kind. -/
def notSliced (v : Json) (range : String) (place : RangeTarget) : Noted Json :=
  .despite v (.rangeInvalid range (RangeError.target (rangeKind range) place).message)

/-- A part of a value: of a list, or of the captions of an object, which keeps its other members. -/
def slice (v : Json) (range : String) : Noted Json :=
  match v with
  | .array items => .array <$> sliceList items range
  | .object fields =>
    match Fields.get? fields "captions" with
    | some (.array captions) => do
      return .object (Fields.insert fields "captions" (.array (← sliceCaptions captions range)))
    | _ => notSliced v range .objectWithoutCaptions
  | _ => notSliced v range .scalar

end Montage.Reference
