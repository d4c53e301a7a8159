import Montage.Json.Decode

/-!
# Failures

What a preset, a data source or an operation on a document can fail with: a kind, and a text that
says what happened.
-/

namespace Montage

/-- What went wrong, by the stage that noticed it. -/
inductive Failure.Kind
  | validation | compile | execution | malformedOutput | fetch | decoding | other
  deriving DecidableEq, Repr

/-- A failure of an operation. -/
structure Failure where
  kind : Failure.Kind
  text : String
  deriving DecidableEq, Repr

namespace Failure

def Kind.label : Kind → String
  | .validation => "validation error: "
  | .compile => "compile error: "
  | .execution => "execution error: "
  | .malformedOutput => "malformed preset output: "
  | .fetch => "fetch error: "
  | .decoding => "serialization error: "
  | .other => ""

/-- A failure as it is shown. -/
def message (f : Failure) : String := f.kind.label ++ f.text

/-- The failure of an operation that decodes a value. -/
def ofDecode (e : DecodeError) : Failure := ⟨.decoding, e.message⟩

end Failure

/-- What an operation yields. -/
abbrev Outcome := Except Failure

/-- A decoded value, or the failure to decode it. -/
def Outcome.ofDecoded {α : Type} (d : Decoded α) : Outcome α := d.mapError Failure.ofDecode

end Montage
