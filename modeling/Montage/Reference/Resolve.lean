import Montage.Json.Printer
import Montage.Reference.Pool
import Montage.Reference.Slice
import Montage.Reference.Token

/-!
# Resolving references

A text that is one token becomes the value that the token points at, of whatever kind it is. In
longer texts each token is replaced by a text for its value. A token whose key is not in the pool
stays as it is written, and that is noted.

The flexible way replaces whole texts only. There, an object with a token under `$data` becomes the
object that the token points at, with its own other members written over it.
-/

namespace Montage.Reference

/-! ## Tokens -/

/-- The value that a token points at, as far as its range takes it. -/
def wholeValue (pool : Pool) (t : Token) : Noted (Option Json) :=
  match pool.get? t.key with
  | none => .despite none (.referenceNotFound t.key)
  | some v =>
    match t.range with
    | some range => some <$> slice v range
    | none => pure (some v)

/-- Where the text for a value may be found in it, the best place first. -/
def textPaths : List (List String) :=
  [["src"], ["metadata", "src"], ["filePath"], ["title"], ["text"]]

/-- The value at the end of a path of keys. -/
def follow (v : Json) (path : List String) : Option Json := path.foldlM Json.get? v

/-- Whether a value says something in a text: it is neither `null` nor the empty text. -/
def isTelling : Json → Bool
  | .null => false
  | .string s => !s.isEmpty
  | _ => true

/-- The value that stands for another one in a text: what is found at the first place that says
something, else the captions in the range, else the part of a list in the range, else the value
itself. -/
def projection (v : Json) (range : Option String) : Noted Json :=
  match textPaths.findSome? fun path => (follow v path).filter isTelling with
  | some found => pure found
  | none =>
    match v.get? "captions", v, range with
    | some (.array captions), _, some range => .array <$> sliceCaptions captions range
    | some (.array captions), _, none => pure (.array captions)
    | _, .array items, some range => .array <$> sliceList items range
    | _, v, _ => pure v

/-- A value as it stands in a text: a text as it is, all else as JSON. -/
def inText : Json → String
  | .string s => s
  | v => v.compact

/-- What a token becomes in a longer text. -/
def tokenText (pool : Pool) (t : Token) : Noted (List Char) :=
  match pool.get? t.key with
  | some v => (fun w => (inText w).toList) <$> projection v t.range
  | none => .despite t.written (.referenceNotFound t.key)

/-- What the pieces of a text become. -/
def fill (pool : Pool) : List Piece → Noted (List Char)
  | [] => pure []
  | .char c :: rest => (c :: ·) <$> fill pool rest
  | .token t :: rest => do return (← tokenText pool t) ++ (← fill pool rest)

/-- What a text becomes. -/
def resolveText (pool : Pool) (s : String) : Noted Json :=
  match soleToken? s with
  | some t => (·.getD (.string s)) <$> wholeValue pool t
  | none => (.string <| .ofList ·) <$> fill pool (pieces s.toList)

/-! ## Values -/

mutual

/-- A value with every token in its texts replaced. -/
def resolve (pool : Pool) : Json → Noted Json
  | .string s => resolveText pool s
  | .array items => .array <$> resolveItems pool items
  | .object fields => .object <$> resolveFields pool fields
  | v => pure v

def resolveItems (pool : Pool) : List Json → Noted (List Json)
  | [] => pure []
  | v :: rest => do return (← resolve pool v) :: (← resolveItems pool rest)

def resolveFields (pool : Pool) : Fields → Noted Fields
  | [] => pure []
  | (key, v) :: rest => do return (key, ← resolve pool v) :: (← resolveFields pool rest)

end

/-! ## The flexible way -/

/-- The key under which an object names the object that it starts from. -/
def defaultsKey : String := "$data"

/-- The token that names the object to start from. -/
def defaultsToken? (fields : Fields) : Option Token :=
  match Fields.get? fields defaultsKey with
  | some (.string s) => soleToken? s
  | _ => none

mutual

/-- A value with every text that is one token replaced, and every object with a token under `$data`
built on what the token points at. -/
def resolveFlexible (pool : Pool) : Json → Noted Json
  | .string s =>
    match soleToken? s with
    | some t => (·.getD (.string s)) <$> wholeValue pool t
    | none => pure (.string s)
  | .array items => .array <$> flexibleItems pool items
  | .object fields =>
    match defaultsToken? fields with
    | none => .object <$> flexibleFields pool false fields
    | some t => do
      match ← wholeValue pool t with
      | some (.object defaults) =>
        let own ← flexibleFields pool true fields
        return .object (Fields.overlay defaults (own.filter (·.1 != defaultsKey)))
      | some v => return v
      | none => .object <$> flexibleFields pool true fields
  | v => pure v

def flexibleItems (pool : Pool) : List Json → Noted (List Json)
  | [] => pure []
  | v :: rest => do return (← resolveFlexible pool v) :: (← flexibleItems pool rest)

/-- The members of an object, resolved, except for the one under `$data` if that is to stay. -/
def flexibleFields (pool : Pool) (stays : Bool) : Fields → Noted Fields
  | [] => pure []
  | (key, v) :: rest =>
    if stays && key == defaultsKey then do
      return (key, v) :: (← flexibleFields pool stays rest)
    else do
      return (key, ← resolveFlexible pool v) :: (← flexibleFields pool stays rest)

end

end Montage.Reference
