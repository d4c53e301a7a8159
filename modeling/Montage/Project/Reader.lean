import Montage.Json.Reader
import Montage.Project.Basic

/-!
# Reading projects and references

Which places there are in the text of a project, and what is taken from each. A part of a record may
be written only once. A record passes over the members it does not know; settings, contexts and
timings keep them. What is free in its form is kept as it is, and there the last member of a name
counts.

Effects are written in several forms, so all of their text has to have a value, even what is not
used.
-/

namespace Montage

open Json (Source Outline)

/-- A place in the text of a project. -/
inductive Place
  | free | tag
  | project | document | config | node | context | timing
  | effects | effectList | effect
  | reference | artifact | entry
  | listOf (item : Place)

namespace Place

/-- The parts of a record and their places, in the order in which they are declared. -/
def parts : Place → List (String × Place)
  | project =>
    [("baseDocument", document), ("references", listOf reference), ("presets", listOf artifact),
      ("entries", listOf entry), ("props", free), ("fetchFixtures", free)]
  | document => [("childrenData", listOf node), ("config", config), ("style", free)]
  | config => [("duration", free), ("width", free), ("height", free), ("fps", free)]
  | node =>
    [("id", free), ("componentId", free), ("type", tag), ("data", free), ("context", context),
      ("effects", effects), ("childrenData", listOf node)]
  | context => [("timing", timing), ("boundaries", free)]
  | timing => [("start", free), ("duration", free), ("fitDurationTo", free)]
  | effect => [("id", free), ("componentId", free), ("data", free)]
  | reference => [("key", free), ("type", tag), ("value", free)]
  | artifact => [("id", free), ("metadata", free), ("presetFunction", free), ("presetParams", free)]
  | entry =>
    [("presetId", free), ("presetType", tag), ("presetInputData", free), ("disabled", free)]
  | free | tag | effects | effectList | listOf _ => []

/-- Whether members that are not parts of the record are kept. -/
def keepsOthers : Place → Bool
  | free | tag | config | context | timing | effects | effectList | effect => true
  | project | document | node | reference | artifact | entry | listOf _ => false

/-- The form that the effects of a node are written in: one effect as an object, one as the list of
its parts, which starts with a text, or a list of effects. -/
def look : Place → Source → Place
  | effects, .object _ => effect
  | effects, .list (.text _ :: _) => effect
  | effects, .list _ => effectList
  | place, _ => place

def element (place : Place) (index : Nat) : Place :=
  match place with
  | listOf item => item
  | effectList => effect
  | place => ((place.parts[index]?).map (·.2)).getD free

/-- The place of a member of an object. -/
def member (place : Place) (key : String) : Option Place :=
  match Fields.get? place.parts key with
  | some inner => some inner
  | none => if place.keepsOthers then some free else none

/-- Whether a member may be written only once: a part of a record, or the name of a choice. -/
def single (place : Place) (key : String) : Bool :=
  match place with
  | tag => true
  | place => Fields.hasKey place.parts key

end Place

/-- What is taken from each place of a project. -/
def Place.outline : Outline Place where
  look := look
  element := element
  member := member
  single := single

/-- A project from a text. -/
def Project.ofText? (s : String) : Option Project :=
  match Json.readWith Place.outline .project s with
  | some v => (Project.ofJson v).toOption
  | none => none

/-! ## References -/

/-- A place in the text of a pool of references. -/
inductive RefsPlace
  | top | items | inside (place : Place)

namespace RefsPlace

/-- The pool is either a list of items or an object with a value for each key. -/
def look : RefsPlace → Source → RefsPlace
  | top, .list _ => items
  | top, _ => inside .free
  | inside place, v => inside (place.look v)
  | items, _ => items

def element : RefsPlace → Nat → RefsPlace
  | items, _ => inside .reference
  | inside place, index => inside (place.element index)
  | top, _ => inside .free

/-- The place of a member of an object; all of the text is read. -/
def member : RefsPlace → String → Option RefsPlace
  | inside place, key => some (inside ((place.member key).getD .free))
  | _, _ => some (inside .free)

/-- Whether a member may be written only once. -/
def single : RefsPlace → String → Bool
  | inside place, key => place.single key
  | _, _ => false

def outline : Outline RefsPlace where
  look := look
  element := element
  member := member
  single := single

end RefsPlace

def Reference.Pool.ofJson : Json → Decoded Reference.Pool
  | .object fields => .ok (.ofFields fields)
  | v => .ofItems <$> Decode.list Reference.Item.ofJson v

def Reference.Pool.ofText? (s : String) : Option Reference.Pool :=
  match Json.readWith RefsPlace.outline .top s with
  | some v => (Reference.Pool.ofJson v).toOption
  | none => none

end Montage
