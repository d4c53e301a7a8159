import Montage.Scene.Document

/-!
# Building documents

A node or a document is built in steps from one without content, and checked at the end.
-/

namespace Montage.Scene

/-! ## Nodes -/

/-- A step in building a node. -/
inductive NodeStep
  | data (key : String) (value : Json)
  | timing (start duration : Float)
  | fitDurationTo (id : String)
  | effect (e : Effect)
  | child (n : Node)

namespace Node

/-- A node with a change to its timing, which it gets if it has none. -/
def changeTiming (n : Node) (change : Timing → Timing) : Node :=
  { n with context := { n.context with timing := some (change (n.context.timing.getD {})) } }

def after (n : Node) : NodeStep → Node
  | .data key value => { n with data := Fields.insert n.data key value }
  | .timing start duration =>
    n.changeTiming fun t => { t with start := some start, duration := some duration }
  | .fitDurationTo id => n.changeTiming fun t => { t with fitDurationTo := some id }
  | .effect e => { n with effects := n.effects ++ [e] }
  | .child c => { n with children := n.children ++ [c] }

def bare (id componentId : String) (type : NodeType) : Node :=
  ⟨id, componentId, type, [], {}, [], []⟩

/-- The node itself, if it has a component and is valid. -/
def checked (n : Node) : Outcome Node :=
  if Text.isBlankText n.componentId then
    .error ⟨.validation, "node '" ++ n.id ++ "' needs a componentId"⟩
  else do
    n.validate
    return n

/-- Builds a node. -/
def build (id componentId : String) (type : NodeType) (steps : List NodeStep) : Outcome Node :=
  (steps.foldl after (bare id componentId type)).checked

end Node

/-! ## Documents -/

/-- A step in building a document. -/
inductive DocumentStep
  | configField (key : String) (value : Json)
  | style (key : String) (value : Json)
  | child (n : Node)

namespace Document

def after (d : Document) : DocumentStep → Document
  | .configField key value =>
    { d with config := { d.config with extra := Fields.insert d.config.extra key value } }
  | .style key value => { d with style := Fields.insert d.style key value }
  | .child n => { d with children := d.children ++ [n] }

def bare (width height : UInt32) (fps duration : Float) : Document :=
  { config := { duration, width, height, fps } }

/-- The document itself, if it is valid. -/
def checked (d : Document) : Outcome Document := do
  d.validate
  return d

/-- Builds a document. -/
def build (width height : UInt32) (fps duration : Float) (steps : List DocumentStep) :
    Outcome Document :=
  (steps.foldl after (bare width height fps duration)).checked

end Document

end Montage.Scene
