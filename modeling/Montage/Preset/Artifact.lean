import Montage.Merge
import Montage.Preset.Function

/-!
# Artifacts and entries

An artifact is a stored preset: its source, and what the host knows about it. An entry is a place in
the host's list of presets to run: which preset, how its contribution is merged, and its input.
-/

namespace Montage.Preset

/-! ## Artifacts -/

/-- A stored preset. The metadata and the schema of the parameters are the host's. -/
structure Artifact where
  id : String
  metadata : Json := .null
  source : String
  params : Json := .null

namespace Artifact

structure Draft where
  id : Option String := none
  metadata : Json := .null
  source : Option String := none
  params : Json := .null

def Draft.read (d : Draft) (part : String) (v : Json) : Decoded Draft :=
  if part = "id" then do return { d with id := some (← Decode.string v) }
  else if part = "metadata" then .ok { d with metadata := v }
  else if part = "presetFunction" then do return { d with source := some (← Decode.string v) }
  else if part = "presetParams" then .ok { d with params := v }
  else .ok d

def ofJson : Json → Decoded Artifact :=
  Decode.record "PresetArtifact" ["id", "metadata", "presetFunction", "presetParams"]
    Draft.read {} fun missing d => do
      return ⟨← Decode.required missing "id" d.id, d.metadata,
        ← Decode.required missing "presetFunction" d.source, d.params⟩

def toJson (a : Artifact) : Json :=
  .object [("id", .string a.id), ("metadata", a.metadata), ("presetFunction", .string a.source),
    ("presetParams", a.params)]

def compile (a : Artifact) : Outcome Script.Program := Preset.compile a.source

end Artifact

/-! ## Entries -/

/-- A preset to run. -/
structure Entry where
  presetId : String
  type : MergeType
  input : Json := .null
  disabled : Bool := false

namespace Entry

structure Draft where
  presetId : Option String := none
  type : Option MergeType := none
  input : Json := .null
  disabled : Bool := false

def Draft.read (d : Draft) (part : String) (v : Json) : Decoded Draft :=
  if part = "presetId" then do return { d with presetId := some (← Decode.string v) }
  else if part = "presetType" then do return { d with type := some (← MergeType.ofJson v) }
  else if part = "presetInputData" then .ok { d with input := v }
  else if part = "disabled" then do return { d with disabled := ← Decode.boolean v }
  else .ok d

def ofJson : Json → Decoded Entry :=
  Decode.record "PresetEntry" ["presetId", "presetType", "presetInputData", "disabled"]
    Draft.read {} fun missing d => do
      return ⟨← Decode.required missing "presetId" d.presetId,
        ← Decode.required missing "presetType" d.type, d.input, d.disabled⟩

def toJson (e : Entry) : Json :=
  .object [("presetId", .string e.presetId), ("presetType", .string e.type.name),
    ("presetInputData", e.input), ("disabled", .bool e.disabled)]

/-- The entry, not to be run. -/
def disable (e : Entry) : Entry := { e with disabled := true }

end Entry

end Montage.Preset
