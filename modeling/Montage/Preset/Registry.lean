import Montage.Preset.Artifact

/-!
# The registry of presets

The presets that a pass can run, by id. A stored preset is compiled when an entry uses it, so a
source that does not compile concerns only the entries that name it.
-/

namespace Montage

/-- A preset: stored as a source, or built into the host. -/
inductive Preset
  | stored (a : Preset.Artifact)
  | native (f : Preset.Function)

def Preset.function : Preset → Outcome Preset.Function
  | .stored a => .ofProgram <$> a.compile
  | .native f => .ok f

namespace Preset

/-- Presets by id. -/
structure Registry where
  entries : List (String × Preset) := []

namespace Registry

def get? (r : Registry) (id : String) : Option Preset := Fields.get? r.entries id

def contains (r : Registry) (id : String) : Bool := Fields.hasKey r.entries id

/-- Puts a preset under an id, in the place of the one that is there. -/
def insert (r : Registry) (id : String) (p : Preset) : Registry := ⟨Fields.insert r.entries id p⟩

/-- Puts a stored preset under its own id. -/
def insertArtifact (r : Registry) (a : Artifact) : Registry := r.insert a.id (.stored a)

def ofArtifacts (as : List Artifact) : Registry := as.foldl insertArtifact {}

def size (r : Registry) : Nat := r.entries.length

def isEmpty (r : Registry) : Bool := r.entries.isEmpty

/-- The ids in order. -/
def ids (r : Registry) : List String := (Fields.keys r.entries).mergeSort (· ≤ ·)

/-- A registry as it is shown to developers. -/
def describe (r : Registry) : String :=
  "PresetRegistry \x7b ids: " ++ Text.quotedList r.ids ++ " \x7d"

end Registry

end Preset

end Montage
