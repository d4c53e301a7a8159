import Montage.Script.Parser
import Montage.Script.Binder
import Montage.Script.Eval

/-!
# Compiling a preset function

From a source to a bound function, and what can stand in the way.
-/

namespace Montage.Script

/-- Why a source does not compile. -/
inductive CompileError
  | parsing (e : SyntaxError)
  | binding (e : BindError)
  deriving DecidableEq, Repr

/-- The text of an error. A name that cannot be bound is reported at the start of the source. -/
def CompileError.message : CompileError → String
  | .parsing e => "expr error at byte " ++ toString e.offset ++ ": " ++ e.cause.message
  | .binding e => "expr error at byte 0: " ++ e.message

/-- The bound function of a source, whose blanks at both ends do not count. -/
def compile (source : String) : Except CompileError Program := do
  let f ← (parse (Text.trim source)).mapError .parsing
  (bind f).mapError .binding

def CompileError.failure (e : CompileError) : Failure := ⟨.compile, e.message⟩

def EvalError.failure (e : EvalError) : Failure := ⟨.execution, e.message⟩

end Montage.Script
