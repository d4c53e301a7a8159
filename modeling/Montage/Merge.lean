import Montage.Diagnostic
import Montage.Scene.Contribution
import Montage.Scene.Document

/-!
# Merging

A contribution becomes part of a document in one of five ways. A full contribution brings nodes,
settings and style of its own; the others need a document that has nodes. Children are added at the
end of one node. Data, context and effects change one node: the first that has the id of the
contribution's first template, or else the first root.

A contribution that cannot be merged leaves the document as it is.
-/

namespace Montage

open Scene

/-! ## Types -/

/-- The ways in which a contribution is merged. -/
inductive MergeType
  | full | children | data | context | effects
  deriving DecidableEq, Repr

namespace MergeType

/-- The ways by the names they have in data. -/
def types : List (String × MergeType) :=
  [("full", .full), ("children", .children), ("data", .data), ("context", .context),
    ("effects", .effects)]

def name : MergeType → String
  | .full => "full"
  | .children => "children"
  | .data => "data"
  | .context => "context"
  | .effects => "effects"

def ofJson : Json → Decoded MergeType := Decode.choice types

end MergeType

/-- Why there is nothing to merge. -/
inductive SkipReason
  | emptyDocument | noChildren | noTarget | noTemplate
  deriving DecidableEq, Repr

def SkipReason.words : SkipReason → String
  | .emptyDocument => "base document has no children"
  | .noChildren => "preset produced no children"
  | .noTarget => "attachment target disappeared"
  | .noTemplate => "preset produced no template node"

/-- What has become of a contribution. -/
inductive MergeOutcome
  /-- It has become part of the document; the target is the node that was changed, if only one
  was. -/
  | applied (target : Option String)
  | skipped (reason : SkipReason)
  deriving DecidableEq, Repr

/-- What a merge reports: what has become of the contribution, and the problems on the way. -/
structure MergeReport where
  outcome : MergeOutcome
  notes : List Diagnostic := []

/-! ## Changing a document -/

/-- A computation that changes a document. What it has written stays written if it fails later. -/
abbrev Merging := ExceptT Failure (StateM Document)

namespace Merging

def lift {α : Type} (o : Outcome α) : Merging α :=
  match o with
  | .ok a => return a
  | .error f => throw f

def mergeConfig (patch : Fields) : Merging Unit := do
  set (← lift ((← get).mergeConfig patch))

def mergeStyle (patch : Fields) : Merging Unit := modify (·.mergeStyle patch)

def setChildren (children : Forest) : Merging Unit := modify fun d => { d with children := children }

end Merging

/-! ## Data -/

/-- A value on top of another one: lists are joined, objects are written over one another, and
otherwise the new value counts. -/
def combine : Json → Json → Json
  | .array old, .array new => .array (old ++ new)
  | .object old, .object new => .object (Fields.overlay old new)
  | _, new => new

/-- Members with others on top of them, key by key. -/
def mergeData (fields patch : Fields) : Fields :=
  patch.foldl (fun acc (key, v) =>
    Fields.insert acc key <|
      match Fields.get? acc key with
      | some old => combine old v
      | none => v) fields

/-! ## The ways -/

/-- The node that children are added to when no other is named. -/
def defaultAttachmentId : String := "BaseScene"

def targetNotFound (wanted fallback : String) : Diagnostic :=
  ⟨.attachmentTargetNotFound, "no node with id \"" ++ wanted ++ "\", attaching to first root \"" ++
    fallback ++ "\"", none⟩

/-- Merges nodes, settings and style. Nothing is written before the nodes have been checked, and
nothing is checked after the settings. -/
def mergeFull (c : Contribution) : Merging MergeReport := do
  let children ← Merging.lift (c.output.children.mapM Template.toNodes)
  Merging.mergeConfig (c.output.config.getD [])
  Merging.mergeStyle (c.output.style.getD [])
  if let some children := children then Merging.setChildren children
  return ⟨.applied none, []⟩

/-- The id of the node that a contribution's nodes are added to, in a forest with the given first
root, and the problem that no node has the id that was asked for. -/
def Scene.Forest.attachment (forest : Forest) (root : Node) (a : Attachment) :
    String × List Diagnostic :=
  let wanted := a.attachedToId.getD defaultAttachmentId
  match forest.first? wanted with
  | some n => (n.id, [])
  | none => (root.id, [targetNotFound wanted root.id])

/-- Adds nodes at the end of one node of a document with the given first root. -/
def mergeChildren (root : Node) (c : Contribution) : Merging MergeReport := do
  let forest := (← get).children
  let (target, notes) := forest.attachment root c.options
  let added ← Merging.lift (Template.toNodes (c.output.children.getD []))
  if added.isEmpty then return ⟨.skipped .noChildren, notes⟩
  else
    match Forest.appendTo? target added forest with
    | some forest => do
      Merging.setChildren forest
      return ⟨.applied (some target), notes⟩
    | none => return ⟨.skipped .noTarget, notes⟩

/-- The part of a node that is changed. -/
inductive NodePatch
  | data | context | effects
  deriving DecidableEq, Repr

def NodePatch.apply (p : NodePatch) (n : Node) (t : Template) : Node :=
  match p with
  | .data => { n with data := mergeData n.data t.data }
  | .context => { n with context := n.context.patch t.context }
  | .effects => { n with effects := t.effects }

/-- The node that a template changes in a forest with the given first root. -/
def Scene.Forest.target (forest : Forest) (root : Node) (t : Template) : Node :=
  (forest.first? t.id).getD root

/-- Changes one node of a document with the given first root. -/
def mergeIntoNode (root : Node) (c : Contribution) (p : NodePatch) : Merging MergeReport := do
  match (c.output.children.getD []).head? with
  | none => return ⟨.skipped .noTemplate, []⟩
  | some t =>
    let forest := (← get).children
    let target := forest.target root t
    Merging.setChildren (forest.replace target.id (p.apply target t))
    return ⟨.applied (some target.id), []⟩

/-- Merges a contribution. -/
def merging (c : Contribution) (type : MergeType) : Merging MergeReport := do
  match type, (← get).children with
  | .full, _ => mergeFull c
  | _, [] => return ⟨.skipped .emptyDocument, []⟩
  | .children, root :: _ => mergeChildren root c
  | .data, root :: _ => mergeIntoNode root c .data
  | .context, root :: _ => mergeIntoNode root c .context
  | .effects, root :: _ => mergeIntoNode root c .effects

/-- Merges a contribution into a document: what is reported, and the document afterwards. -/
def merge (base : Document) (c : Contribution) (type : MergeType) :
    Outcome MergeReport × Document :=
  (merging c type).run.run base

end Montage
