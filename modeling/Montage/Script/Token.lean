import Montage.Decimal.Format
import Montage.Text.Quoted

/-!
# Tokens of the preset language

A source is names, numbers, texts, reserved words and signs. Every token knows where it stands, in
bytes of the source.
-/

namespace Montage.Script

/-- The reserved words. `undefined` is a spelling of `null`, and `const` is one of `let`. -/
inductive Word
  | trueWord | falseWord | nullWord | letWord | returnWord
  deriving DecidableEq, Repr

/-- Brackets, separators and operators. -/
inductive Sign
  | openParen | closeParen | openBracket | closeBracket | openBrace | closeBrace
  | comma | dot | optionalDot | ellipsis | semicolon | arrow | assign
  | plus | minus | star | slash | percent | bang
  | equal | notEqual | less | lessEqual | greater | greaterEqual
  | both | either | question | colon
  deriving DecidableEq, Repr

/-- What a token is. -/
inductive Token.Kind
  | name (s : String)
  | number (x : Float)
  | text (s : String)
  | word (w : Word)
  | sign (s : Sign)
  deriving DecidableEq, Repr

/-- A token and the bytes of the source it takes: from `start` up to, not including, `stop`. -/
structure Token where
  kind : Token.Kind
  start : Nat
  stop : Nat
  deriving DecidableEq, Repr

/-- The name that a reserved word stands for where a name may stand. -/
def Word.asName : Word → String
  | .trueWord => "true"
  | .falseWord => "false"
  | .nullWord => "null"
  | .letWord => "let"
  | .returnWord => "return"

/-- The reserved word that a run of letters is. -/
def Word.ofLetters? (s : String) : Option Word :=
  if s = "true" then some .trueWord
  else if s = "false" then some .falseWord
  else if s = "null" ∨ s = "undefined" then some .nullWord
  else if s = "let" ∨ s = "const" then some .letWord
  else if s = "return" then some .returnWord
  else none

/-! ## Descriptions -/

def Word.label : Word → String
  | .trueWord => "True"
  | .falseWord => "False"
  | .nullWord => "Null"
  | .letWord => "Let"
  | .returnWord => "Return"

def Sign.label : Sign → String
  | .openParen => "LParen"
  | .closeParen => "RParen"
  | .openBracket => "LBracket"
  | .closeBracket => "RBracket"
  | .openBrace => "LBrace"
  | .closeBrace => "RBrace"
  | .comma => "Comma"
  | .dot => "Dot"
  | .optionalDot => "QuestionDot"
  | .ellipsis => "Ellipsis"
  | .semicolon => "Semi"
  | .arrow => "Arrow"
  | .assign => "Assign"
  | .plus => "Plus"
  | .minus => "Minus"
  | .star => "Star"
  | .slash => "Slash"
  | .percent => "Percent"
  | .bang => "Bang"
  | .equal => "EqEq"
  | .notEqual => "Ne"
  | .less => "Lt"
  | .lessEqual => "Le"
  | .greater => "Gt"
  | .greaterEqual => "Ge"
  | .both => "AndAnd"
  | .either => "OrOr"
  | .question => "Question"
  | .colon => "Colon"

/-- A token in messages; the end of the source counts as one. -/
def Token.describe : Option Token.Kind → String
  | some (.name s) => "Ident(" ++ Text.quoted s ++ ")"
  | some (.number x) => "Number(" ++ String.ofList (Decimal.Format.described.text x) ++ ")"
  | some (.text s) => "Str(" ++ Text.quoted s ++ ")"
  | some (.word w) => w.label
  | some (.sign s) => s.label
  | none => "Eof"

end Montage.Script
