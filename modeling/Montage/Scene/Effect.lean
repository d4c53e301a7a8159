import Montage.Json.Decode

/-!
# Effects

What is done to a node when it is shown: an effect has an id, the component that does it, and data
for the component.
-/

namespace Montage.Scene

/-- An effect of a node. -/
structure Effect where
  id : String
  componentId : String
  data : Fields := []

namespace Effect

structure Draft where
  id : Option String := none
  componentId : Option String := none
  data : Fields := []

def Draft.read (d : Draft) (part : String) (v : Json) : Decoded Draft :=
  if part = "id" then do return { d with id := some (← Decode.string v) }
  else if part = "componentId" then do return { d with componentId := some (← Decode.string v) }
  else if part = "data" then do return { d with data := ← Decode.fields v }
  else .ok d

def ofJson : Json → Decoded Effect :=
  Decode.record "Effect" ["id", "componentId", "data"] Draft.read {} fun missing d => do
    return ⟨← Decode.required missing "id" d.id,
      ← Decode.required missing "componentId" d.componentId, d.data⟩

def toJson (e : Effect) : Json :=
  .object [("id", .string e.id), ("componentId", .string e.componentId), ("data", .object e.data)]

/-- Effects from data: a list of effects, or one effect, or `null` for none. -/
def listOfJson (v : Json) : Decoded (List Effect) :=
  match Decode.list ofJson v, ofJson v, v with
  | .ok effects, _, _ => .ok effects
  | .error _, .ok effect, _ => .ok [effect]
  | .error _, .error _, .null => .ok []
  | .error _, .error _, _ => .error (.noForm "Repr")

end Effect

end Montage.Scene
