import Montage.Json.Decode

/-!
# The pool of references

The values that tokens point at, each under a key. No key occurs twice: the value that is put in
last is the one that counts.
-/

namespace Montage.Reference

/-! ## Items -/

/-- What a reference holds. -/
inductive ItemType
  | media | medias | captions | string | number | boolean | object | objects
  deriving DecidableEq, Repr

/-- The types by the names they have in data. -/
def ItemType.types : List (String × ItemType) :=
  [("media", .media), ("medias", .medias), ("captions", .captions), ("string", .string),
    ("number", .number), ("boolean", .boolean), ("object", .object), ("objects", .objects)]

def ItemType.name : ItemType → String
  | .media => "media"
  | .medias => "medias"
  | .captions => "captions"
  | .string => "string"
  | .number => "number"
  | .boolean => "boolean"
  | .object => "object"
  | .objects => "objects"

/-- A value that can be referred to. -/
structure Item where
  key : String
  type : ItemType
  value : Json

namespace Item

structure Draft where
  key : Option String := none
  type : Option ItemType := none
  value : Json := .null

def Draft.read (d : Draft) (part : String) (v : Json) : Decoded Draft :=
  if part = "key" then do return { d with key := some (← Decode.string v) }
  else if part = "type" then do return { d with type := some (← Decode.choice ItemType.types v) }
  else if part = "value" then .ok { d with value := v }
  else .ok d

def ofJson : Json → Decoded Item :=
  Decode.record "ReferenceItem" ["key", "type", "value"] Draft.read {} fun missing d => do
    return ⟨← Decode.required missing "key" d.key, ← Decode.required missing "type" d.type, d.value⟩

def toJson (item : Item) : Json :=
  .object [("key", .string item.key), ("type", .string item.type.name), ("value", item.value)]

end Item

/-! ## Pools -/

/-- Values by key. -/
structure Pool where
  entries : Fields := []

namespace Pool

def get? (pool : Pool) (key : String) : Option Json := Fields.get? pool.entries key

def contains (pool : Pool) (key : String) : Bool := Fields.hasKey pool.entries key

def insert (pool : Pool) (key : String) (value : Json) : Pool :=
  ⟨Fields.insert pool.entries key value⟩

def size (pool : Pool) : Nat := pool.entries.length

def isEmpty (pool : Pool) : Bool := pool.entries.isEmpty

def ofFields (fields : Fields) : Pool := ⟨Fields.overlay [] fields⟩

def ofItems (items : List Item) : Pool :=
  items.foldl (fun pool item => pool.insert item.key item.value) {}

end Pool

end Montage.Reference
