import Montage.Scene.Node

/-!
# Node templates

A node as a preset hands it out. To stand in a document a template needs an id and a type; to change
a node that stands there already it needs neither.
-/

namespace Montage.Scene

/-- A node that may lack its component and its type. -/
structure Template where
  id : String := ""
  componentId : Option String := none
  type : Option NodeType := none
  data : Fields := []
  context : Context := {}
  effects : List Effect := []
  children : List Node := []

namespace Template

def read (t : Template) (part : String) (v : Json) : Decoded Template :=
  if part = "id" then do return { t with id := ← Decode.string v }
  else if part = "componentId" then do
    return { t with componentId := ← Decode.optional Decode.string v }
  else if part = "type" then do return { t with type := ← Decode.optional NodeType.ofJson v }
  else if part = "data" then do return { t with data := ← Decode.fields v }
  else if part = "context" then do return { t with context := ← Context.ofJson v }
  else if part = "effects" then do return { t with effects := ← Effect.listOfJson v }
  else if part = "childrenData" then do return { t with children := ← Node.listOfJson v }
  else .ok t

def ofJson : Json → Decoded Template :=
  Decode.record "NodeTemplate" Node.parts read {} fun _ t => .ok t

def toJson (t : Template) : Json :=
  .object <| [("id", .string t.id)] ++ Json.member? "componentId" .string t.componentId ++
    Json.member? "type" NodeType.toJson t.type ++
    [("data", .object t.data), ("context", t.context.toJson),
      ("effects", .array (t.effects.map Effect.toJson)),
      ("childrenData", .array (Node.toItems t.children))]

/-- The node of a complete template: its id is not blank and its type is given. -/
def toNode (t : Template) : Outcome Node :=
  if Text.isBlankText t.id then .error ⟨.malformedOutput, "node is missing `id`"⟩
  else
    match t.type with
    | none =>
      .error ⟨.malformedOutput, "node \"" ++ t.id ++ "\" is missing `type`"⟩
    | some type =>
      .ok ⟨t.id, t.componentId.getD "", type, t.data, t.context, t.effects, t.children⟩

def ofNode (n : Node) : Template :=
  ⟨n.id, some n.componentId, some n.type, n.data, n.context, n.effects, n.children⟩

/-- The nodes of templates, all of which have to be complete. -/
def toNodes (ts : List Template) : Outcome (List Node) := ts.mapM toNode

end Template

end Montage.Scene
