import Montage.Script.Token

/-!
# Errors in a source

Why a source is not a preset function, and the byte at which that shows.
-/

namespace Montage.Script

/-- The roles of a name that has to be given. -/
inductive NameRole
  | parameter | binding
  deriving DecidableEq, Repr

/-- What is wrong with a source. A missing token stands for the end of the source. -/
inductive SyntaxError.Cause
  | openComment
  | exponentDigits
  | openText
  | lineBreakInText
  | shortCode
  | codeDigit
  | codePoint
  | escape (c : Char)
  | character (c : Char)
  | expected (wanted found : Option Token.Kind)
  | expectedName (role : NameRole) (found : Option Token.Kind)
  | duplicateParameter (name : String)
  | functionBody
  | notFunction
  | propertyName (found : Option Token.Kind)
  | callTarget
  | unexpected (found : Option Token.Kind)
  | objectKey (found : Option Token.Kind)
  deriving DecidableEq, Repr

/-- An error and the byte of the source at which it is. -/
structure SyntaxError where
  offset : Nat
  cause : SyntaxError.Cause
  deriving DecidableEq, Repr

def NameRole.words : NameRole → String
  | .parameter => "parameter name"
  | .binding => "binding name"

def SyntaxError.Cause.message : SyntaxError.Cause → String
  | .openComment => "unterminated block comment"
  | .exponentDigits => "invalid number exponent (expected digits)"
  | .openText => "unterminated string literal"
  | .lineBreakInText => "newline in string literal"
  | .shortCode => "truncated \\u escape"
  | .codeDigit => "invalid hex digit in \\u escape"
  | .codePoint => "invalid \\u code point"
  | .escape c => "unknown escape '\\" ++ c.toString ++ "'"
  | .character c => "unexpected character '" ++ c.toString ++ "'"
  | .expected wanted found =>
    "expected " ++ Token.describe wanted ++ ", found " ++ Token.describe found
  | .expectedName role found => "expected " ++ role.words ++ ", found " ++ Token.describe found
  | .duplicateParameter name => "duplicate parameter '" ++ name ++ "'"
  | .functionBody => "function body must be a \x7b ... \x7d block"
  | .notFunction => "preset source must be a function: (inputData, props) => ..."
  | .propertyName found => "expected property name after '.', found " ++ Token.describe found
  | .callTarget => "call target must be a builtin name"
  | .unexpected found => "unexpected token " ++ Token.describe found
  | .objectKey found => "expected object key, found " ++ Token.describe found

end Montage.Script
