import Montage.Failure
import Montage.Scene.Context
import Montage.Scene.Effect
import Montage.Text.Blank

/-!
# Nodes

A node is an element of a composition: an id, the component that shows it, its type, data for the
component, a context, effects, and the nodes inside it.
-/

namespace Montage.Scene

/-! ## Types -/

/-- The types of nodes. -/
inductive NodeType
  | atom | layout | scene
  deriving DecidableEq, Repr

namespace NodeType

/-- The types by the names they have in data. -/
def types : List (String × NodeType) := [("atom", .atom), ("layout", .layout), ("scene", .scene)]

def name : NodeType → String
  | .atom => "atom"
  | .layout => "layout"
  | .scene => "scene"

def ofJson : Json → Decoded NodeType := Decode.choice types

def toJson (t : NodeType) : Json := .string t.name

end NodeType

/-! ## Nodes -/

/-- A node of a composition. -/
structure Node where
  id : String
  componentId : String
  type : NodeType
  data : Fields
  context : Context
  effects : List Effect
  children : List Node

namespace Node

def parts : List String :=
  ["id", "componentId", "type", "data", "context", "effects", "childrenData"]

structure Draft where
  id : Option String := none
  componentId : String := ""
  type : Option NodeType := none
  data : Fields := []
  context : Context := {}
  effects : List Effect := []
  children : List Node := []

/-- Reads one part of a node other than the nodes inside it. -/
def Draft.read (d : Draft) (part : String) (v : Json) : Decoded Draft :=
  if part = "id" then do return { d with id := some (← Decode.string v) }
  else if part = "componentId" then do return { d with componentId := ← Decode.string v }
  else if part = "type" then do return { d with type := some (← NodeType.ofJson v) }
  else if part = "data" then do return { d with data := ← Decode.fields v }
  else if part = "context" then do return { d with context := ← Context.ofJson v }
  else if part = "effects" then do return { d with effects := ← Effect.listOfJson v }
  else .ok d

/-- The node of a draft, if it has an id and a type. -/
def Draft.finish (missing : String → DecodeError) (d : Draft) : Decoded Node := do
  let id ← Decode.required missing "id" d.id
  let type ← Decode.required missing "type" d.type
  return ⟨id, d.componentId, type, d.data, d.context, d.effects, d.children⟩

mutual

def ofJson : Json → Decoded Node
  | .object members => do
    (← readMembers {} members).finish (Decode.missingPart "Node" parts true)
  | .array items => do
    let n ← (← readPlaces {} parts items).finish (Decode.missingPart "Node" parts false)
    if parts.length < items.length then .error (.tooLong items.length) else .ok n
  | j => .error (.invalidType j (.record "Node"))

def readMembers (d : Draft) : Fields → Decoded Draft
  | [] => .ok d
  | (part, v) :: rest =>
    if part = "childrenData" then do
      readMembers { d with children := ← listOfJson v } rest
    else do
      readMembers (← d.read part v) rest

/-- Reads the elements of a list as the parts of a node. -/
def readPlaces (d : Draft) : List String → List Json → Decoded Draft
  | part :: parts, v :: rest =>
    if part = "childrenData" then do
      readPlaces { d with children := ← listOfJson v } parts rest
    else do
      readPlaces (← d.read part v) parts rest
  | _, _ => .ok d

def listOfJson : Json → Decoded (List Node)
  | .array items => ofItems items
  | j => .error (.invalidType j .list)

def ofItems : List Json → Decoded (List Node)
  | [] => .ok []
  | v :: rest => do return (← ofJson v) :: (← ofItems rest)

end

mutual

def toJson : Node → Json
  | ⟨id, componentId, type, data, context, effects, children⟩ =>
    .object [("id", .string id), ("componentId", .string componentId), ("type", type.toJson),
      ("data", .object data), ("context", context.toJson),
      ("effects", .array (effects.map Effect.toJson)), ("childrenData", .array (toItems children))]

def toItems : List Node → List Json
  | [] => []
  | n :: rest => n.toJson :: toItems rest

end

/-! ## Validity -/

mutual

/-- A node whose id is blank, the first in the order of the tree, is what is wrong with a node. -/
def validate : Node → Outcome Unit
  | ⟨id, componentId, _, _, _, _, children⟩ =>
    if Text.isBlankText id then
      .error ⟨.validation, "node with componentId '" ++ componentId ++ "' has an empty id"⟩
    else validateAll children

def validateAll : List Node → Outcome Unit
  | [] => .ok ()
  | n :: rest => do
    n.validate
    validateAll rest

end

end Node

end Montage.Scene
