import Montage.Pass
import Montage.Reference.Missing

/-!
# Projects

All that one pass needs: a document to start from, references, presets, the entries to run, the
host's props, and stored responses for requests.
-/

namespace Montage

open Scene

/-- All that one pass needs. -/
structure Project where
  baseDocument : Document := {}
  references : List Reference.Item := []
  presets : List Preset.Artifact := []
  entries : List Preset.Entry := []
  props : Fields := []
  /-- Responses by url. -/
  fetchFixtures : Fields := []

/-- The keys that the input of an entry refers to and the project does not define. -/
structure Missing where
  index : Nat
  presetId : String
  keys : List String
  deriving DecidableEq, Repr

namespace Project

/-! ## Data -/

def parts : List String :=
  ["baseDocument", "references", "presets", "entries", "props", "fetchFixtures"]

def read (p : Project) (part : String) (v : Json) : Decoded Project :=
  if part = "baseDocument" then do return { p with baseDocument := ← Document.ofJson v }
  else if part = "references" then do
    return { p with references := ← Decode.list Reference.Item.ofJson v }
  else if part = "presets" then do
    return { p with presets := ← Decode.list Preset.Artifact.ofJson v }
  else if part = "entries" then do
    return { p with entries := ← Decode.list Preset.Entry.ofJson v }
  else if part = "props" then do return { p with props := ← Decode.fields v }
  else if part = "fetchFixtures" then do return { p with fetchFixtures := ← Decode.fields v }
  else .ok p

def ofJson : Json → Decoded Project :=
  Decode.record "ProjectFile" parts read {} fun _ p => .ok p

def toJson (p : Project) : Json :=
  .object [("baseDocument", p.baseDocument.toJson),
    ("references", .array (p.references.map Reference.Item.toJson)),
    ("presets", .array (p.presets.map Preset.Artifact.toJson)),
    ("entries", .array (p.entries.map Preset.Entry.toJson)), ("props", .object p.props),
    ("fetchFixtures", .object p.fetchFixtures)]

/-! ## Checks -/

def placedEntries (p : Project) : List (Preset.Entry × Nat) := p.entries.zipIdx

/-- What is wrong with a project: its document, or the first entry whose preset it does not have. -/
def validate (p : Project) : Outcome Unit := do
  p.baseDocument.validate
  match p.placedEntries.find? fun (e, _) => !p.presets.any (·.id == e.presetId) with
  | some (e, i) =>
    .error ⟨.validation, "entries[" ++ toString i ++ "] names unknown preset \"" ++ e.presetId ++
      "\""⟩
  | none => .ok ()

def pool (p : Project) : Reference.Pool := .ofItems p.references

def registry (p : Project) : Preset.Registry := .ofArtifacts p.presets

/-- What is missing in the input of an entry, unless it is disabled or nothing is. -/
def missingIn (pool : Reference.Pool) (e : Preset.Entry) (index : Nat) : Option Missing :=
  let keys := Reference.missing pool e.input
  if e.disabled || keys.isEmpty then none else some ⟨index, e.presetId, keys⟩

/-- What is missing in the inputs of the entries. -/
def missingReferences (p : Project) : List Missing :=
  p.placedEntries.filterMap fun (e, i) => missingIn p.pool e i

/-! ## The pass -/

/-- What the pass of a project runs with. -/
def host (p : Project) : Host where
  registry := p.registry
  pool := p.pool
  fetch := .canned p.fetchFixtures
  props := .object p.props

/-- The pass of a project. -/
def generate (p : Project) (strict : Bool) : Outcome Report :=
  Montage.generate strict p.host p.baseDocument p.entries

end Project

end Montage
