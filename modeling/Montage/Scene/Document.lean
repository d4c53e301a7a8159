import Montage.Scene.Forest

/-!
# Documents

A composition: its settings, its style, and the nodes at its root. The settings are a duration, a
size and a rate, and whatever else the host keeps there.
-/

namespace Montage.Scene

/-! ## Settings -/

/-- The settings of a composition; the duration is in seconds. -/
structure Config where
  duration : Float := 0
  width : UInt32 := 1920
  height : UInt32 := 1080
  fps : Float := 30
  extra : Fields := []

namespace Config

def parts : List String := ["duration", "width", "height", "fps"]

def read (c : Config) (part : String) (v : Json) : Decoded Config :=
  if part = "duration" then do return { c with duration := ← Decode.float v }
  else if part = "width" then do return { c with width := ← Decode.natural32 v }
  else if part = "height" then do return { c with height := ← Decode.natural32 v }
  else if part = "fps" then do return { c with fps := ← Decode.float v }
  else .ok c

def ofJson (v : Json) : Decoded Config := do
  let (c, extra) ← Decode.openRecord "DocumentConfig" parts read {} v
  return { c with extra := extra }

def toFields (c : Config) : Fields :=
  Fields.overlay
    [("duration", .ofFloat c.duration), ("width", .ofNat c.width.toNat),
      ("height", .ofNat c.height.toNat), ("fps", .ofFloat c.fps)]
    c.extra

def toJson (c : Config) : Json := .object c.toFields

/-- What is wrong with settings: the duration is finite and not negative, the size is not zero, the
rate is finite and positive. -/
def validate (c : Config) : Outcome Unit :=
  if !c.duration.isFinite || c.duration < 0 then
    .error ⟨.validation, "config.duration must be a finite, non-negative number"⟩
  else if c.width = 0 ∨ c.height = 0 then
    .error ⟨.validation, "config.width/config.height must be > 0"⟩
  else if !c.fps.isFinite || c.fps ≤ 0 then .error ⟨.validation, "config.fps must be > 0"⟩
  else .ok ()

/-- Settings with members written over them; a patch without members is no patch. -/
def patch (c : Config) (p : Fields) : Outcome Config :=
  if p.isEmpty then .ok c
  else do
    let c ← (ofJson (.object (Fields.overlay c.toFields p))).mapError fun e =>
      (⟨.malformedOutput, "config patch rejected: " ++ e.message⟩ : Failure)
    c.validate
    return c

end Config

/-! ## Documents -/

/-- A composition. -/
structure Document where
  children : Forest := []
  config : Config := {}
  style : Fields := []

namespace Document

def parts : List String := ["childrenData", "config", "style"]

def read (d : Document) (part : String) (v : Json) : Decoded Document :=
  if part = "childrenData" then do return { d with children := ← Node.listOfJson v }
  else if part = "config" then do return { d with config := ← Config.ofJson v }
  else if part = "style" then do return { d with style := ← Decode.fields v }
  else .ok d

/-- A document from data, whether valid or not. -/
def ofJson : Json → Decoded Document :=
  Decode.record "CompositionDocument" parts read {} fun _ d => .ok d

def toJson (d : Document) : Json :=
  .object [("childrenData", .array (Node.toItems d.children)), ("config", d.config.toJson),
    ("style", .object d.style)]

/-- What is wrong with a document: first its settings, then its nodes. -/
def validate (d : Document) : Outcome Unit := do
  d.config.validate
  Node.validateAll d.children

/-- A valid document from data. -/
def load (v : Json) : Outcome Document := do
  let d ← .ofDecoded (ofJson v)
  d.validate
  return d

def mergeConfig (d : Document) (patch : Fields) : Outcome Document := do
  return { d with config := ← d.config.patch patch }

def mergeStyle (d : Document) (patch : Fields) : Document :=
  { d with style := Fields.overlay d.style patch }

end Document

end Montage.Scene
