import Montage.Script.SyntaxError
import Montage.Decimal.Numeral
import Montage.Text.Octets

/-!
# Cutting a source into tokens

A source is a row of pieces: blanks and comments, which are gaps, and tokens. `scan` looks at the
front of a source and says how many characters the first piece takes and which token it is, so
every piece has at least one character and the pieces in order are the source.
-/

namespace Montage.Script

open Montage.Text (isAsciiDigit natOfDigits? octets)
open Montage.Decimal (floatOfParts digitRun signOf)

/-- The piece at the front of a source: its token, if it is not a gap, and how many characters
belong to it after the first. -/
structure Piece where
  kind : Option Token.Kind
  more : Nat

/-! ## Gaps -/

/-- The blanks that may stand between tokens: space, tab, line feed, form feed, carriage return. -/
def isGap (c : Char) : Bool :=
  c == ' ' || c == '\t' || c == '\n' || c == '\x0c' || c == '\r'

/-- How many characters there are up to the end of the first `*/`. -/
def commentEnd? : List Char → Option Nat
  | '*' :: '/' :: _ => some 2
  | _ :: rest => (commentEnd? rest).map (· + 1)
  | [] => none

/-! ## Names -/

def startsName (c : Char) : Bool := c.isAlpha || c == '_' || c == '$'

def continuesName (c : Char) : Bool := startsName c || isAsciiDigit c

/-- The token of a run of letters. -/
def lettersKind (s : String) : Token.Kind :=
  match Word.ofLetters? s with
  | some w => .word w
  | none => .name s

/-! ## Numbers -/

/-- The exponent at the front, and how many characters it takes: none, or `e`, an optional sign and
digits, which must not be missing. -/
def scanExponent : List Char → Option (Int × Nat)
  | c :: rest =>
    if c = 'e' ∨ c = 'E' then
      let (negative, digits) := signOf rest
      let ds := digits.takeWhile isAsciiDigit
      let n : Int := (natOfDigits? ds).getD 0
      if ds.isEmpty then none
      else some (if negative then -n else n, 1 + (rest.length - digits.length) + ds.length)
    else some (0, 0)
  | [] => some (0, 0)

/-- The number at the front: digits, and behind a point more digits, and an exponent. The digits
before the point may be missing, but not those behind it; `none` if the exponent has no digits, and
then the number of characters before it. -/
def scanNumber (cs : List Char) : Except Nat (Float × Nat) :=
  let (whole, rest) := digitRun cs
  let fraction :=
    match rest with
    | '.' :: rest => rest.takeWhile isAsciiDigit
    | _ => []
  let mantissa := whole.length + (if fraction.isEmpty then 0 else fraction.length + 1)
  match scanExponent (cs.drop mantissa) with
  | some (e, n) => .ok (floatOfParts whole fraction e, mantissa + n)
  | none => .error mantissa

/-! ## Texts -/

/-- The character that an escape of one letter stands for. -/
def escaped? : Char → Option Char
  | 'n' => some '\n'
  | 't' => some '\t'
  | 'r' => some '\r'
  | '0' => some '\x00'
  | '\\' => some '\\'
  | '\'' => some '\''
  | '"' => some '"'
  | '/' => some '/'
  | _ => none

/-- The value of a digit of base sixteen, in either case. -/
def hexDigit? (c : Char) : Option Nat :=
  if '0' ≤ c ∧ c ≤ '9' then some (c.toNat - '0'.toNat)
  else if 'a' ≤ c ∧ c ≤ 'f' then some (c.toNat - 'a'.toNat + 10)
  else if 'A' ≤ c ∧ c ≤ 'F' then some (c.toNat - 'A'.toNat + 10)
  else none

/-- The number that the next `n` digits of base sixteen write. -/
def scanCode : Nat → Nat → List Char → Except SyntaxError.Cause Nat
  | 0, value, _ => .ok value
  | _ + 1, _, [] => .error .shortCode
  | n + 1, value, c :: rest =>
    match hexDigit? c with
    | some d => scanCode n (16 * value + d) rest
    | none => .error .codeDigit

/-- The character with a code, which must not be half of a surrogate pair. -/
def codeChar? (n : Nat) : Option Char :=
  if h : n.isValidChar then some (Char.ofNatAux n h) else none

/-- The text up to its closing quote, and how many characters it takes with that quote. The text was
opened at byte `start`; the next character is at byte `pos`, `count` have been taken, and `taken`
holds the text so far, in reverse. -/
def scanText (quote : Char) (start : Nat) :
    (pos count : Nat) → (taken : List Char) → List Char → Except SyntaxError (String × Nat)
  | _, _, _, [] => .error ⟨start, .openText⟩
  | pos, count, taken, c :: rest =>
    if c = quote then .ok (String.ofList taken.reverse, count + 1)
    else if c = '\n' then .error ⟨pos, .lineBreakInText⟩
    else if c = '\\' then
      match rest with
      | [] => .error ⟨start, .openText⟩
      | e :: rest =>
        if e = 'u' then
          match scanCode 4 0 rest with
          | .error cause => .error ⟨pos + 1, cause⟩
          | .ok code =>
            match codeChar? code, rest with
            | some d, _ :: _ :: _ :: _ :: rest =>
              scanText quote start (pos + 6) (count + 6) (d :: taken) rest
            | _, _ => .error ⟨pos + 1, .codePoint⟩
        else
          match escaped? e with
          | some d => scanText quote start (pos + 2) (count + 2) (d :: taken) rest
          | none => .error ⟨pos + 1, .escape e⟩
    else scanText quote start (pos + c.utf8Size) (count + 1) (c :: taken) rest

/-! ## Signs -/

/-- The sign at the front of a source, and how many characters it takes after the first. The longest
sign is taken, but `?.` is not a sign before a digit. -/
def scanSign? : Char → List Char → Option (Sign × Nat)
  | '.', '.' :: '.' :: _ => some (.ellipsis, 2)
  | '=', '=' :: '=' :: _ => some (.equal, 2)
  | '!', '=' :: '=' :: _ => some (.notEqual, 2)
  | '&', '&' :: _ => some (.both, 1)
  | '|', '|' :: _ => some (.either, 1)
  | '=', '=' :: _ => some (.equal, 1)
  | '!', '=' :: _ => some (.notEqual, 1)
  | '<', '=' :: _ => some (.lessEqual, 1)
  | '>', '=' :: _ => some (.greaterEqual, 1)
  | '=', '>' :: _ => some (.arrow, 1)
  | '?', '.' :: rest =>
    if (rest.head?.map isAsciiDigit).getD false then some (.question, 0)
    else some (.optionalDot, 1)
  | c, _ => (single? c).map (·, 0)
where
  /-- The sign of one character. -/
  single? : Char → Option Sign
    | '(' => some .openParen
    | ')' => some .closeParen
    | '[' => some .openBracket
    | ']' => some .closeBracket
    | '\x7b' => some .openBrace
    | '\x7d' => some .closeBrace
    | ',' => some .comma
    | '.' => some .dot
    | ';' => some .semicolon
    | '=' => some .assign
    | '+' => some .plus
    | '-' => some .minus
    | '*' => some .star
    | '/' => some .slash
    | '%' => some .percent
    | '!' => some .bang
    | '<' => some .less
    | '>' => some .greater
    | '?' => some .question
    | ':' => some .colon
    | _ => none

/-! ## Pieces -/

/-- Whether a number begins here: a digit, or a point before a digit. -/
def startsNumber (c : Char) (rest : List Char) : Bool :=
  isAsciiDigit c || (c == '.' && (rest.head?.map isAsciiDigit).getD false)

/-- The piece at the front of a source whose first character, at byte `pos`, is `c`. -/
def scan (pos : Nat) (c : Char) (rest : List Char) : Except SyntaxError Piece :=
  if isGap c then .ok ⟨none, 0⟩
  else if c = '/' ∧ rest.head? = some '/' then
    .ok ⟨none, (rest.takeWhile (· ≠ '\n')).length⟩
  else if c = '/' ∧ rest.head? = some '*' then
    match commentEnd? (rest.drop 1) with
    | some n => .ok ⟨none, n + 1⟩
    | none => .error ⟨pos, .openComment⟩
  else if startsNumber c rest then
    match scanNumber (c :: rest) with
    | .ok (x, n) => .ok ⟨some (.number x), n - 1⟩
    | .error n => .error ⟨pos + n, .exponentDigits⟩
  else if c = '"' ∨ c = '\'' then do
    let (s, n) ← scanText c pos (pos + 1) 0 [] rest
    return ⟨some (.text s), n⟩
  else if startsName c then
    let tail := rest.takeWhile continuesName
    .ok ⟨some (lettersKind (String.ofList (c :: tail))), tail.length⟩
  else
    match scanSign? c rest with
    | some (s, n) => .ok ⟨some (.sign s), n⟩
    | none => .error ⟨pos, .character c⟩

/-- The tokens of a source that starts at byte `pos`. -/
def lexFrom (pos : Nat) : List Char → Except SyntaxError (List Token)
  | [] => .ok []
  | c :: rest => do
    let piece ← scan pos c rest
    let stop := pos + c.utf8Size + octets (rest.take piece.more)
    let tokens ← lexFrom stop (rest.drop piece.more)
    match piece.kind with
    | some kind => return ⟨kind, pos, stop⟩ :: tokens
    | none => return tokens
termination_by cs => cs.length
decreasing_by simp only [List.length_drop, List.length_cons]; omega

/-- The tokens of a source. -/
def lex (source : String) : Except SyntaxError (List Token) := lexFrom 0 source.toList

end Montage.Script
