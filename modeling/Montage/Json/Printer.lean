import Montage.Json.Basic
import Montage.Decimal.Format

/-!
# JSON text

`compact` writes a value without any blanks. `pretty` puts each element and each member on a line
of its own, two spaces deeper than the brackets around it; an empty list and an empty object stay
`[]` and `\x7b\x7d`.
-/

namespace Montage.Json

/-- One character inside a JSON text: quotes, backslashes and controls are escaped, all else stands
for itself. -/
def escapedChar (c : Char) : List Char :=
  match c with
  | '"' => ['\\', '"']
  | '\\' => ['\\', '\\']
  | '\x08' => ['\\', 'b']
  | '\t' => ['\\', 't']
  | '\n' => ['\\', 'n']
  | '\x0c' => ['\\', 'f']
  | '\r' => ['\\', 'r']
  | c =>
    if c.toNat < 0x20 then
      ['\\', 'u', '0', '0', Nat.digitChar (c.toNat / 16), Nat.digitChar (c.toNat % 16)]
    else [c]

/-- A text between quotes. -/
def quotedText (s : String) : String :=
  String.ofList ('"' :: (s.toList.flatMap escapedChar ++ ['"']))

/-- The digits of an integer, after a minus if it is negative. -/
def intText (n : Int) : String := if n < 0 then "-" ++ toString n.natAbs else toString n.natAbs

end Json

/-- A number in JSON. -/
def Number.text : Number → String
  | .int n => Json.intText n
  | .float x _ => String.ofList (Decimal.Format.data.text x)

namespace Json

def scalarText : Json → String
  | bool true => "true"
  | bool false => "false"
  | number n => n.text
  | string s => quotedText s
  | _ => "null"

/-! ## Without blanks -/

mutual

/-- The text of a value, after what has been written so far. -/
def writeCompact (out : String) : Json → String
  | array items => compactItems (out ++ "[") "" items ++ "]"
  | object fields => compactFields (out ++ "\x7b") "" fields ++ "\x7d"
  | j => out ++ scalarText j

/-- The elements of a list; `gap` stands before the next one. -/
def compactItems (out gap : String) : List Json → String
  | [] => out
  | j :: rest => compactItems (writeCompact (out ++ gap) j) "," rest

/-- The members of an object; `gap` stands before the next one. -/
def compactFields (out gap : String) : List (String × Json) → String
  | [] => out
  | (k, j) :: rest => compactFields (writeCompact (out ++ gap ++ quotedText k ++ ":") j) "," rest

end

/-- A value as one line without blanks. -/
def compact (j : Json) : String := writeCompact "" j

/-! ## Over several lines -/

def lineStart (depth : Nat) : String := "\n" ++ String.ofList (List.replicate (2 * depth) ' ')

mutual

/-- The text of a value at a depth, after what has been written so far. -/
def writePretty (depth : Nat) (out : String) : Json → String
  | array [] => out ++ "[]"
  | object [] => out ++ "\x7b\x7d"
  | array items => prettyItems (depth + 1) (out ++ "[") "" items ++ lineStart depth ++ "]"
  | object fields => prettyFields (depth + 1) (out ++ "\x7b") "" fields ++ lineStart depth ++ "\x7d"
  | j => out ++ scalarText j

/-- The elements of a list, each on a line; `gap` stands before the next one. -/
def prettyItems (depth : Nat) (out gap : String) : List Json → String
  | [] => out
  | j :: rest => prettyItems depth (writePretty depth (out ++ gap ++ lineStart depth) j) "," rest

/-- The members of an object, each on a line; `gap` stands before the next one. -/
def prettyFields (depth : Nat) (out gap : String) : List (String × Json) → String
  | [] => out
  | (k, j) :: rest =>
    prettyFields depth
      (writePretty depth (out ++ gap ++ lineStart depth ++ quotedText k ++ ": ") j) "," rest

end

/-- A value over several lines. -/
def pretty (j : Json) : String := writePretty 0 "" j

end Montage.Json
