import Montage.Json.Printer
import Montage.Text.Quoted

/-!
# Typed values from JSON

A decoder takes a value apart and says what is wrong with the first part that does not fit. The
parts of a record are read in the order in which they are written; only then is looked for parts
that are missing, in the order in which the record declares them. A record may also be written as
the list of its parts in that order.
-/

namespace Montage

open Json

/-- What a decoder expects to find. -/
inductive Expected
  | string | boolean | float | natural32 | unit | map | list | stringOrMap
  | record (name : String)

def Expected.name : Expected → String
  | .string => "a string"
  | .boolean => "a boolean"
  | .float => "f64"
  | .natural32 => "u32"
  | .unit => "unit"
  | .map => "a map"
  | .list => "a sequence"
  | .stringOrMap => "string or map"
  | .record name => "struct " ++ name

/-- Why a value could not be decoded. -/
inductive DecodeError
  | invalidType (found : Json) (expected : Expected)
  /-- A whole number that 32 bits without a sign do not hold. -/
  | outsideNatural32 (n : Int)
  /-- A choice written as an object without exactly one member. -/
  | notOneKey
  | unknownVariant (name : String) (known : List String)
  | missingField (name : String)
  /-- A list that ends before a part the record needs. -/
  | tooShort (length : Nat) (record : String) (fields : Nat)
  | tooLong (length : Nat)
  /-- A value that has none of the forms of the choice. -/
  | noForm (choice : String)

/-- What a decoder yields. -/
abbrev Decoded := Except DecodeError

namespace Json

/-- A value as messages describe it. -/
def described : Json → String
  | .null => "null"
  | .bool true => "boolean `true`"
  | .bool false => "boolean `false`"
  | .number (.int n) => "integer `" ++ intText n ++ "`"
  | .number (.float x finite) => "floating point `" ++ (Number.float x finite).text ++ "`"
  | .string s => "string " ++ Text.quoted s
  | .array _ => "sequence"
  | .object _ => "map"

end Json

def DecodeError.message : DecodeError → String
  | .invalidType found expected =>
    "invalid type: " ++ found.described ++ ", expected " ++ expected.name
  | .outsideNatural32 n => "invalid value: integer `" ++ intText n ++ "`, expected u32"
  | .notOneKey => "invalid value: map, expected map with a single key"
  | .unknownVariant name known =>
    "unknown variant `" ++ name ++ "`, expected one of " ++
      ", ".intercalate (known.map fun k => "`" ++ k ++ "`")
  | .missingField name => "missing field `" ++ name ++ "`"
  | .tooShort length record fields =>
    "invalid length " ++ toString length ++ ", expected struct " ++ record ++ " with " ++
      toString fields ++ " elements"
  | .tooLong length =>
    "invalid length " ++ toString length ++ ", expected fewer elements in array"
  | .noForm choice => "data did not match any variant of untagged enum " ++ choice

namespace Decode

/-! ## Single values -/

def string : Json → Decoded String
  | .string s => .ok s
  | j => .error (.invalidType j .string)

def boolean : Json → Decoded Bool
  | .bool b => .ok b
  | j => .error (.invalidType j .boolean)

/-- A number as a float. -/
def float : Json → Decoded Float
  | .number n => .ok n.toFloat
  | j => .error (.invalidType j .float)

/-- A whole number of 32 bits without a sign. -/
def natural32 : Json → Decoded UInt32
  | .number (.int n) =>
    if 0 ≤ n ∧ n < count32 then .ok (.ofNat n.toNat) else .error (.outsideNatural32 n)
  | j => .error (.invalidType j .natural32)

/-- An object with members of any kind. -/
def fields : Json → Decoded Fields
  | .object fields => .ok fields
  | j => .error (.invalidType j .map)

def list {α : Type} (item : Json → Decoded α) : Json → Decoded (List α)
  | .array items => items.mapM item
  | j => .error (.invalidType j .list)

/-- A value that may be left out by writing `null`. -/
def optional {α : Type} (value : Json → Decoded α) : Json → Decoded (Option α)
  | .null => .ok none
  | j => some <$> value j

/-- One of a few named choices: its name, or an object whose one key is the name and whose value
is `null`. -/
def choice {α : Type} (known : List (String × α)) : Json → Decoded α
  | .string s => pick s
  | .object [(s, payload)] => do
    let a ← pick s
    match payload with
    | .null => .ok a
    | j => .error (.invalidType j .unit)
  | .object _ => .error .notOneKey
  | j => .error (.invalidType j .stringOrMap)
where
  pick (s : String) : Decoded α :=
    match Fields.get? known s with
    | some a => .ok a
    | none => .error (.unknownVariant s (Fields.keys known))

/-! ## Records -/

/-- What is reported for a part that is missing: in an object its name, in a list the place at
which the list ends. -/
def missingPart (name : String) (parts : List String) : Bool → String → DecodeError
  | true, part => .missingField part
  | false, part => .tooShort (parts.idxOf part) name parts.length

/-- A record, written as an object or as the list of its parts. `step` reads one part into a draft,
and `finish` makes the record of the draft, with the error for each part it may lack. -/
def record {δ α : Type} (name : String) (parts : List String)
    (step : δ → String → Json → Decoded δ) (start : δ)
    (finish : (String → DecodeError) → δ → Decoded α) : Json → Decoded α
  | .object members => do
    let draft ← members.foldlM (fun d (k, v) => step d k v) start
    finish (missingPart name parts true) draft
  | .array items => do
    let draft ← (parts.zip items).foldlM (fun d (k, v) => step d k v) start
    let a ← finish (missingPart name parts false) draft
    if parts.length < items.length then .error (.tooLong items.length) else .ok a
  | j => .error (.invalidType j (.record name))

/-- A record that keeps the members it does not know, in their order. It is written as an object
only. -/
def openRecord {δ : Type} (name : String) (parts : List String)
    (step : δ → String → Json → Decoded δ) (start : δ) : Json → Decoded (δ × Fields)
  | .object members => do
    let draft ← members.foldlM (fun d (k, v) => step d k v) start
    .ok (draft, members.filter fun (k, _) => !parts.contains k)
  | j => .error (.invalidType j (.record name))

/-- A part that has to be there. -/
def required {α : Type} (missing : String → DecodeError) (part : String) : Option α → Decoded α
  | some a => .ok a
  | none => .error (missing part)

end Decode

/-! ## Writing -/

namespace Json

/-- A member that is left out when there is nothing to write. -/
def member? {α : Type} (key : String) (write : α → Json) : Option α → Fields
  | some a => [(key, write a)]
  | none => []

end Json

end Montage
