import Montage.Json.Source

/-!
# Reading a JSON text

A text is read for a purpose, and an outline says what that purpose takes from it: which members
of an object are passed over, and which keys may be written only once. What is passed over has only
to be JSON. Everything else has to have a value: numbers within the floats, whole characters, and
not more than 127 brackets inside one another. A key that is written again, where that is allowed,
keeps its place and takes the new value.
-/

namespace Montage.Json

/-- What a reader takes from a text, for each kind `σ` of place in it. -/
structure Outline (σ : Type) where
  /-- A place, once it is seen what stands there. -/
  look : σ → Source → σ := fun place _ => place
  /-- The place of an element of a list, by its position. -/
  element : σ → Nat → σ
  /-- The place under a key; `none` where the member is passed over. -/
  member : σ → String → Option σ
  /-- Whether the key may be written only once. -/
  single : σ → String → Bool

def Outline.whole : Outline Unit where
  element _ _ := ()
  member _ _ := some ()
  single _ _ := false

/-- How many brackets may stand inside one another. -/
def maxDepth : Nat := 127

mutual

/-- The value at a place, inside brackets of which `depth` more may be opened. -/
def Source.take {σ : Type} (o : Outline σ) (place : σ) (depth : Nat) : Source → Option Json
  | .null => some .null
  | .bool b => some (.bool b)
  | .number n => n.map .number
  | .text s => s.map .string
  | .list items =>
    if depth = 0 then none
    else
      (Source.takeItems o (o.look place (.list items)) (depth - 1) 0 [] items).map fun items =>
        .array items.reverse
  | .object members =>
    if depth = 0 then none
    else
      (Source.takeMembers o (o.look place (.object members)) (depth - 1) [] members).map .object

/-- The elements of a list, in reverse, after those taken so far. -/
def Source.takeItems {σ : Type} (o : Outline σ) (place : σ) (depth index : Nat)
    (taken : List Json) : List Source → Option (List Json)
  | [] => some taken
  | v :: rest =>
    match Source.take o (o.element place index) depth v with
    | some j => Source.takeItems o place depth (index + 1) (j :: taken) rest
    | none => none

/-- The members of an object, written over those taken so far. -/
def Source.takeMembers {σ : Type} (o : Outline σ) (place : σ) (depth : Nat) (taken : Fields) :
    List (Option String × Source) → Option Fields
  | [] => some taken
  | (none, _) :: _ => none
  | (some key, v) :: rest =>
    match o.member place key with
    | none => Source.takeMembers o place depth taken rest
    | some inner =>
      if o.single place key && Fields.hasKey taken key then none
      else
        match Source.take o inner depth v with
        | some j => Source.takeMembers o place depth (Fields.insert taken key j) rest
        | none => none

end

/-- Reads a text for a purpose; `none` where it does not serve it. -/
def readWith {σ : Type} (o : Outline σ) (place : σ) (s : String) : Option Json :=
  (Source.parse? s).bind (Source.take o place maxDepth)

/-- The value of a JSON text. -/
def read (s : String) : Option Json := readWith .whole () s

end Montage.Json
