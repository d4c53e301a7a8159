import Montage.Scene.Template

/-!
# Contributions

What a preset adds to a document: nodes, settings and style, any of which may be left out, and where
the nodes go. A preset may return the document part alone, or both parts under the keys `output` and
`options`; a result with nothing in it is no contribution.
-/

namespace Montage.Scene

/-! ## Fragments -/

/-- The part of a document that a preset contributes. -/
structure Fragment where
  children : Option (List Template) := none
  config : Option Fields := none
  style : Option Fields := none

namespace Fragment

def read (f : Fragment) (part : String) (v : Json) : Decoded Fragment :=
  if part = "childrenData" then do
    return { f with children := ← Decode.optional (Decode.list Template.ofJson) v }
  else if part = "config" then do return { f with config := ← Decode.optional Decode.fields v }
  else if part = "style" then do return { f with style := ← Decode.optional Decode.fields v }
  else .ok f

def ofJson : Json → Decoded Fragment :=
  Decode.record "PartialDocument" ["childrenData", "config", "style"] read {} fun _ f => .ok f

def toJson (f : Fragment) : Json :=
  .object <|
    Json.member? "childrenData" (fun ts : List Template => .array (ts.map Template.toJson))
        f.children ++
      Json.member? "config" .object f.config ++ Json.member? "style" .object f.style

end Fragment

/-! ## Attachment -/

/-- Where a contribution goes: the node that takes its nodes in, and containers for the host's
layout, which are handed on as they are. -/
structure Attachment where
  attachedToId : Option String := none
  attachedContainers : List Json := []

namespace Attachment

def read (a : Attachment) (part : String) (v : Json) : Decoded Attachment :=
  if part = "attachedToId" then do
    return { a with attachedToId := ← Decode.optional Decode.string v }
  else if part = "attachedContainers" then do
    return { a with attachedContainers := ← Decode.list .ok v }
  else .ok a

def ofJson : Json → Decoded Attachment :=
  Decode.record "PresetOptions" ["attachedToId", "attachedContainers"] read {} fun _ a => .ok a

def toJson (a : Attachment) : Json :=
  .object <| Json.member? "attachedToId" .string a.attachedToId ++
    if a.attachedContainers.isEmpty then []
    else [("attachedContainers", .array a.attachedContainers)]

end Attachment

/-! ## Contributions -/

/-- What a preset adds to a document. -/
structure Contribution where
  output : Fragment
  options : Attachment := {}

namespace Contribution

structure Draft where
  output : Option Fragment := none
  options : Attachment := {}

def Draft.read (d : Draft) (part : String) (v : Json) : Decoded Draft :=
  if part = "output" then do return { d with output := some (← Fragment.ofJson v) }
  else if part = "options" then do return { d with options := ← Attachment.ofJson v }
  else .ok d

/-- A contribution from data that has both parts. -/
def ofJson : Json → Decoded Contribution :=
  Decode.record "PresetOutput" ["output", "options"] Draft.read {} fun missing d => do
    return ⟨← Decode.required missing "output" d.output, d.options⟩

def toJson (c : Contribution) : Json :=
  .object [("output", c.output.toJson), ("options", c.options.toJson)]

/-- The failure of a preset whose result is not a contribution. -/
def malformed (e : DecodeError) : Failure := ⟨.malformedOutput, e.message⟩

/-- The contribution in the result of a preset; `none` where there is nothing in it. -/
def ofResult (v : Json) : Outcome (Option Contribution) :=
  if v.isEmpty then .ok none
  else
    match v with
    | .object fields =>
      match Fields.get? fields "output" with
      | some output =>
        if output.isEmpty then .ok none else some <$> (ofJson v).mapError malformed
      | none => (fun f => some ⟨f, {}⟩) <$> (Fragment.ofJson v).mapError malformed
    | v => .error ⟨.malformedOutput, "expected an object, got " ++ v.kind.name⟩

end Contribution

end Montage.Scene
