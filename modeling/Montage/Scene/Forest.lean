import Montage.Scene.Node

/-!
# Forests

Looking for nodes and putting others in their place. A forest is gone through from top to bottom: a
node comes before the nodes inside it, and these before the nodes behind it.
-/

namespace Montage.Scene

/-- The nodes side by side at one level, with all that is inside them. -/
abbrev Forest := List Node

/-! ## Search -/

mutual

/-- A node and the nodes inside it, from top to bottom. -/
def Node.flatten : Node → List Node
  | ⟨id, componentId, type, data, context, effects, children⟩ =>
    ⟨id, componentId, type, data, context, effects, children⟩ :: Forest.flatten children

/-- All nodes of a forest, from top to bottom. -/
def Forest.flatten : Forest → List Node
  | [] => []
  | n :: rest => n.flatten ++ Forest.flatten rest

end

/-- What a node is looked for by: its type, its component, or both. -/
structure Query where
  type : Option NodeType := none
  componentId : Option String := none

/-- Whether a node is meant: what the query gives has to agree, and it has to give something. -/
def Query.isMet (q : Query) (n : Node) : Bool :=
  (q.type.isSome || q.componentId.isSome) && q.type.all (· == n.type) &&
    q.componentId.all (· == n.componentId)

namespace Forest

def findIds (forest : Forest) (ids : List String) : List Node :=
  forest.flatten.filter (ids.contains ·.id)

def findQuery (forest : Forest) (q : Query) : List Node := forest.flatten.filter q.isMet

/-- The first node that has the id. -/
def first? (forest : Forest) (id : String) : Option Node := (forest.findIds [id]).head?

end Forest

/-! ## Replacement -/

mutual

/-- A node with every node inside it that has one of the ids replaced, or the replacement if it has
one itself. What is replaced is not looked into. -/
def Node.replaceIds (ids : List String) (replacement : Node) : Node → Node
  | ⟨id, componentId, type, data, context, effects, children⟩ =>
    if ids.contains id then replacement
    else
      ⟨id, componentId, type, data, context, effects,
        Forest.replaceIds ids replacement children⟩

/-- A forest with every node that has one of the ids replaced. -/
def Forest.replaceIds (ids : List String) (replacement : Node) : Forest → Forest
  | [] => []
  | n :: rest => Node.replaceIds ids replacement n :: Forest.replaceIds ids replacement rest

end

def Forest.replace (forest : Forest) (id : String) (replacement : Node) : Forest :=
  Forest.replaceIds [id] replacement forest

/-! ## Growth -/

mutual

/-- A node with others added at its end if it has the id, or else at the end of the first node
inside it that has; `none` where there is no such node. -/
def Node.appendTo? (id : String) (added : List Node) : Node → Option Node
  | ⟨nodeId, componentId, type, data, context, effects, children⟩ =>
    if nodeId = id then
      some ⟨nodeId, componentId, type, data, context, effects, children ++ added⟩
    else
      (Forest.appendTo? id added children).map fun children =>
        ⟨nodeId, componentId, type, data, context, effects, children⟩

/-- A forest with nodes added at the end of the first node that has the id. -/
def Forest.appendTo? (id : String) (added : List Node) : Forest → Option Forest
  | [] => none
  | n :: rest =>
    match n.appendTo? id added with
    | some n => some (n :: rest)
    | none => (Forest.appendTo? id added rest).map (n :: ·)

end

end Montage.Scene
