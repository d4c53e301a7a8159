import Montage.Proofs.Script.Splitting

/-!
# Lexing by byte index

A lexer may go through the bytes of a source by their index: it reads one byte after another, each
as the character of its code, and takes text out of the source by the bytes at which it begins and
ends. Such a walk can go wrong where a walk over characters cannot, as an index may be no byte of
the source or lie inside of a character. Here is that walk, with every read and every cut checked: a
byte must be one of the source, and a cut must be where a character begins or at the end. Only bytes
are read inside of characters, one after another in a comment and two or three at once to find a
sign.
-/

namespace Montage.Script

open Montage.Text (isAsciiDigit octets octets_append)

namespace ByteWalk

/-! ## Reads and cuts -/

/-- How a walk ends without tokens: the source is refused, or there is a fault. -/
inductive Failure
  | refused (e : SyntaxError)
  /-- There is no byte of this index. -/
  | outside (i : Nat)
  /-- Text is cut at this byte, where no character begins. -/
  | split (i : Nat)
  /-- At this byte is not what was expected there. -/
  | unreadable (i : Nat)
  /-- The walk does not get beyond this byte. -/
  | stalled (i : Nat)

abbrev Walk := Except Failure

/-- The bytes of a source, each as the character of its code. -/
def bytes (source : String) : List Char :=
  source.toByteArray.data.toList.map fun b => Char.ofNat b.toNat

/-- The first `n` bytes of the characters as characters, and the others; `none` where no character
ends there. -/
def splitBytes? : Nat → List Char → Option (List Char × List Char)
  | 0, cs => some ([], cs)
  | _ + 1, [] => none
  | n + 1, c :: cs =>
    if c.utf8Size ≤ n + 1 then
      (splitBytes? (n + 1 - c.utf8Size) cs).map fun (before, rest) => (c :: before, rest)
    else none

variable (source : String)

/-- Byte `i`, which must be there. -/
def byteAt (i : Nat) : Walk Char :=
  match (bytes source)[i]? with
  | some b => .ok b
  | none => .error (.outside i)

/-- Whether byte `i` is of a kind, if there is one. -/
def byteIs (kind : Char → Bool) (i : Nat) : Walk Bool :=
  if i < source.utf8ByteSize then do return kind (← byteAt source i) else return false

def window (start stop : Nat) : Walk (List Char) :=
  if start ≤ stop ∧ stop ≤ source.utf8ByteSize then
    .ok (((bytes source).drop start).take (stop - start))
  else .error (.outside stop)

def textFrom (start : Nat) : Walk (List Char) :=
  match splitBytes? start source.toList with
  | some (_, rest) => .ok rest
  | none => .error (.split start)

def textBetween (start stop : Nat) : Walk (List Char) := do
  if start ≤ stop then
    match splitBytes? (stop - start) (← textFrom source start) with
    | some (text, _) => .ok text
    | none => .error (.split stop)
  else .error (.split stop)

def skipWhile (kind : Char → Bool) (i : Nat) : Walk Nat :=
  if i < source.utf8ByteSize then do
    if kind (← byteAt source i) then skipWhile kind (i + 1) else return i
  else return i
termination_by source.utf8ByteSize - i

/-! ## Pieces -/

/-- The byte at which the first `*/` of a text begins. -/
def findClose? : List Char → Option Nat
  | '*' :: '/' :: _ => some 0
  | c :: rest => (findClose? rest).map (c.utf8Size + ·)
  | [] => none

/-- The end of the comment that begins with the `/` at byte `i`, if one does. -/
def comment? (i : Nat) : Walk (Option Nat) := do
  if ← byteIs source (· == '/') (i + 1) then
    return some (← skipWhile source (· ≠ '\n') i)
  else if ← byteIs source (· == '*') (i + 1) then
    match findClose? (← textFrom source (i + 2)) with
    | some n => return some (i + 2 + n + 2)
    | none => throw (.refused ⟨i, .openComment⟩)
  else return none

def afterSign (i : Nat) : Walk Nat := do
  if ← byteIs source (fun b => b == '+' || b == '-') i then return i + 1 else return i

/-- The end of the exponent at byte `i`, which may be missing. -/
def exponent (i : Nat) : Walk Nat := do
  if ← byteIs source (fun b => b == 'e' || b == 'E') i then
    let start ← afterSign source (i + 1)
    let stop ← skipWhile source isAsciiDigit start
    if start = stop then throw (.refused ⟨i, .exponentDigits⟩) else return stop
  else return i

/-- Where the digits of a number that begins with `c` at byte `i` go on behind its point, or behind
its first digits if it has no point. -/
def fractionStart (i : Nat) (c : Char) : Walk Nat := do
  if c = '.' then return i + 1
  else
    let j ← skipWhile source isAsciiDigit i
    if ← byteIs source (· == '.') j then
      if ← byteIs source isAsciiDigit (j + 1) then return j + 1 else return j
    else return j

def number (i : Nat) (c : Char) : Walk (Token.Kind × Nat) := do
  let j ← fractionStart source i c
  let stop ← exponent source (← skipWhile source isAsciiDigit j)
  let text ← textBetween source i stop
  match scanNumber text with
  | .ok (x, n) => if n = text.length then return (.number x, stop) else throw (.unreadable i)
  | .error _ => throw (.unreadable i)

def beginsNumber (i : Nat) (c : Char) : Walk Bool :=
  if isAsciiDigit c then return true
  else if c = '.' then byteIs source isAsciiDigit (i + 1)
  else return false

/-- Characters, each with the byte at which it begins if the first one begins at `offset`. -/
def charIndices : Nat → List Char → List (Nat × Char)
  | _, [] => []
  | offset, c :: rest => (offset, c) :: charIndices (offset + c.utf8Size) rest

/-- The text up to its closing quote and the byte behind the quote. The opening quote is at byte
`start`, from which the characters are counted. -/
def readText (quote : Char) (start : Nat) :
    (taken : List Char) → List (Nat × Char) → Except SyntaxError (String × Nat)
  | _, [] => .error ⟨start, .openText⟩
  | taken, (offset, c) :: rest =>
    if c = quote then .ok (String.ofList taken.reverse, start + offset + c.utf8Size)
    else if c = '\n' then .error ⟨start + offset, .lineBreakInText⟩
    else if c = '\\' then
      match rest with
      | [] => .error ⟨start, .openText⟩
      | (offset, e) :: rest =>
        if e = 'u' then
          match scanCode 4 0 (rest.map Prod.snd) with
          | .error cause => .error ⟨start + offset, cause⟩
          | .ok code =>
            match codeChar? code with
            | some d => readText quote start (d :: taken) (rest.drop 4)
            | none => .error ⟨start + offset, .codePoint⟩
        else
          match escaped? e with
          | some d => readText quote start (d :: taken) rest
          | none => .error ⟨start + offset, .escape e⟩
    else readText quote start (c :: taken) rest
termination_by _ chars => chars.length

def quoted (i : Nat) : Walk (Token.Kind × Nat) := do
  match charIndices 0 (← textFrom source i) with
  | (_, quote) :: rest =>
    match readText quote i [] rest with
    | .ok (s, stop) => return (.text s, stop)
    | .error e => throw (.refused e)
  | [] => throw (.unreadable i)

def name (i : Nat) : Walk (Token.Kind × Nat) := do
  let stop ← skipWhile source continuesName (i + 1)
  return (lettersKind (String.ofList (← textBetween source i stop)), stop)

def triples : List (List Char × Sign) :=
  [(['.', '.', '.'], .ellipsis), (['=', '=', '='], .equal), (['!', '=', '='], .notEqual)]

def pairs : List (List Char × Sign) :=
  [(['&', '&'], .both), (['|', '|'], .either), (['=', '='], .equal), (['!', '='], .notEqual),
   (['<', '='], .lessEqual), (['>', '='], .greaterEqual), (['=', '>'], .arrow),
   (['?', '.'], .optionalDot)]

/-- The sign of a table that stands at the bytes from `i` up to `last` bytes behind it. -/
def longSign? (table : List (List Char × Sign)) (last i : Nat) : Walk (Option Sign) :=
  if i + last < source.utf8ByteSize then do
    return table.lookup (← window source i (i + last + 1))
  else return none

/-- The sign of two bytes at byte `i`; `?.` is none before a digit. -/
def pair? (i : Nat) : Walk (Option Sign) := do
  match ← longSign? source pairs 1 i with
  | some .optionalDot =>
    if ← byteIs source isAsciiDigit (i + 2) then return none else return some .optionalDot
  | s => return s

def sign (i : Nat) (c : Char) : Walk (Token.Kind × Nat) := do
  match ← longSign? source triples 2 i with
  | some s => return (.sign s, i + 3)
  | none =>
    match ← pair? source i with
    | some s => return (.sign s, i + 2)
    | none =>
      match scanSign?.single? c with
      | some s => return (.sign s, i + 1)
      | none =>
        let rest ← textFrom source i
        throw (.refused ⟨i, .character (rest.head?.getD c)⟩)

/-- The token that begins with `c` at byte `i`, and the byte behind it. -/
def token (i : Nat) (c : Char) : Walk (Token.Kind × Nat) := do
  if ← beginsNumber source i c then number source i c
  else if c = '"' ∨ c = '\'' then quoted source i
  else if startsName c then name source i
  else sign source i c

def gap? (i : Nat) (c : Char) : Walk (Option Nat) :=
  if isGap c then return some (i + 1)
  else if c = '/' then comment? source i
  else return none

/-- The piece at byte `i`: its token, if it is not a gap, and the byte behind it. -/
def step (i : Nat) : Walk (Option Token.Kind × Nat) := do
  let c ← byteAt source i
  match ← gap? source i c with
  | some stop => return (none, stop)
  | none =>
    let (kind, stop) ← token source i c
    return (some kind, stop)

def walkFrom (i : Nat) : Walk (List Token × Nat) :=
  if i < source.utf8ByteSize then do
    let (kind, stop) ← step source i
    if i < stop then
      let (tokens, last) ← walkFrom stop
      return (Piece.tokens kind i stop ++ tokens, last)
    else throw (.stalled i)
  else return ([], i)
termination_by source.utf8ByteSize - i

end ByteWalk

/-- The tokens of a source by a walk over its bytes, and the byte at which the walk ends. -/
def walk (source : String) : ByteWalk.Walk (List Token × Nat) := ByteWalk.walkFrom source 0

end Montage.Script
