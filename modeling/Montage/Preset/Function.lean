import Montage.Scene.Contribution
import Montage.Script.Compile
import Montage.Text.Quoted

/-!
# Preset functions

A preset is a function of an input and of the host's props, which may ask a data source. It is
either written in the preset language or built into the host.
-/

namespace Montage.Preset

/-- What a preset does. -/
abbrev Function := Fetcher → (input props : Json) → Outcome Json

namespace Function

/-- A function built into the host; it asks no data source. -/
def native (f : Json → Json → Outcome Json) : Function := fun _ input props => f input props

def ofProgram (p : Script.Program) : Function := fun fetch input props =>
  (p.call fetch [input, props]).mapError Script.EvalError.failure

/-- The contribution of a preset; `none` where it has nothing to contribute. -/
def invoke (f : Function) (fetch : Fetcher) (input props : Json) :
    Outcome (Option Scene.Contribution) := do
  Scene.Contribution.ofResult (← f fetch input props)

end Function

def compile (source : String) : Outcome Script.Program :=
  (Script.compile source).mapError Script.CompileError.failure

/-- A bound function as it is shown to developers. -/
def describe (p : Script.Program) : String :=
  "CompiledPreset \x7b params: " ++ Text.quotedList p.params ++ ", slots: " ++
    toString p.frameSize ++ " \x7d"

end Montage.Preset
