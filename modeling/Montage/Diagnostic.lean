import Montage.Failure

/-!
# Diagnostics

A problem that does not end a pass is recorded and handed back: a reference that is not defined, a
range that cannot be applied, an attachment point that does not exist, a preset that contributed
nothing.
-/

namespace Montage

/-- The kinds of problems that a pass gets around. -/
inductive Diagnostic.Kind
  | referenceNotFound | rangeInvalid | attachmentTargetNotFound | presetNotFound
  | presetCompileError | presetExecutionError | malformedPresetOutput
  deriving DecidableEq, Repr

/-- A recorded problem, with the preset that ran when it came up. -/
structure Diagnostic where
  kind : Diagnostic.Kind
  message : String
  presetId : Option String
  deriving DecidableEq, Repr

namespace Diagnostic

/-- The kinds by the names they have in data. -/
def kinds : List (String × Kind) :=
  [("referenceNotFound", .referenceNotFound), ("rangeInvalid", .rangeInvalid),
    ("attachmentTargetNotFound", .attachmentTargetNotFound), ("presetNotFound", .presetNotFound),
    ("presetCompileError", .presetCompileError), ("presetExecutionError", .presetExecutionError),
    ("malformedPresetOutput", .malformedPresetOutput)]

def Kind.name : Kind → String
  | .referenceNotFound => "referenceNotFound"
  | .rangeInvalid => "rangeInvalid"
  | .attachmentTargetNotFound => "attachmentTargetNotFound"
  | .presetNotFound => "presetNotFound"
  | .presetCompileError => "presetCompileError"
  | .presetExecutionError => "presetExecutionError"
  | .malformedPresetOutput => "malformedPresetOutput"

def Kind.words : Kind → String
  | .referenceNotFound => "reference not found"
  | .rangeInvalid => "invalid range"
  | .attachmentTargetNotFound => "attachment target not found"
  | .presetNotFound => "preset not found"
  | .presetCompileError => "preset compile error"
  | .presetExecutionError => "preset execution error"
  | .malformedPresetOutput => "malformed preset output"

/-- The problem that a key is not in the pool. -/
def referenceNotFound (key : String) : Diagnostic :=
  ⟨.referenceNotFound, "reference \"" ++ key ++ "\" is not defined", none⟩

/-- The problem that a range cannot be applied. -/
def rangeInvalid (range reason : String) : Diagnostic :=
  ⟨.rangeInvalid, "range \"" ++ range ++ "\" ignored: " ++ reason, none⟩

/-- The problem, laid at the door of a preset. -/
def withPreset (id : String) (d : Diagnostic) : Diagnostic := { d with presetId := some id }

/-- A diagnostic as it is shown. -/
def display (d : Diagnostic) : String :=
  let text := d.kind.words ++ ": " ++ d.message
  match d.presetId with
  | some id => "[" ++ id ++ "] " ++ text
  | none => text

/-! ## Data -/

structure Draft where
  kind : Option Kind := none
  message : Option String := none
  presetId : Option String := none

def Draft.read (d : Draft) (part : String) (v : Json) : Decoded Draft :=
  if part = "kind" then do return { d with kind := some (← Decode.choice kinds v) }
  else if part = "message" then do return { d with message := some (← Decode.string v) }
  else if part = "presetId" then do return { d with presetId := ← Decode.optional Decode.string v }
  else .ok d

def ofJson : Json → Decoded Diagnostic :=
  Decode.record "Diagnostic" ["kind", "message", "presetId"] Draft.read {} fun missing d => do
    return ⟨← Decode.required missing "kind" d.kind,
      ← Decode.required missing "message" d.message, d.presetId⟩

def toFields (d : Diagnostic) : Fields :=
  [("kind", .string d.kind.name), ("message", .string d.message)] ++
    Json.member? "presetId" .string d.presetId

end Diagnostic

end Montage
