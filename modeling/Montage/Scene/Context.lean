import Montage.Json.Decode

/-!
# Contexts

Where and when a node stands in its parent: its timing, its boundaries, and whatever else the layer
that lays it out may want to know. What is not known here is kept as it is.
-/

namespace Montage.Scene

/-! ## Timing -/

/-- When a node is shown. -/
structure Timing where
  start : Option Float := none
  duration : Option Float := none
  /-- The node whose duration is taken over. -/
  fitDurationTo : Option String := none
  extra : Fields := []

namespace Timing

def parts : List String := ["start", "duration", "fitDurationTo"]

def read (t : Timing) (part : String) (v : Json) : Decoded Timing :=
  if part = "start" then do return { t with start := ← Decode.optional Decode.float v }
  else if part = "duration" then do return { t with duration := ← Decode.optional Decode.float v }
  else if part = "fitDurationTo" then do
    return { t with fitDurationTo := ← Decode.optional Decode.string v }
  else .ok t

def ofJson (v : Json) : Decoded Timing := do
  let (t, extra) ← Decode.openRecord "Timing" parts read {} v
  return { t with extra := extra }

def toJson (t : Timing) : Json :=
  .object <| Fields.overlay
    (Json.member? "start" Json.ofFloat t.start ++ Json.member? "duration" Json.ofFloat t.duration ++
      Json.member? "fitDurationTo" .string t.fitDurationTo)
    t.extra

end Timing

/-! ## Contexts -/

/-- Where and when a node stands in its parent. -/
structure Context where
  timing : Option Timing := none
  boundaries : Option Json := none
  extra : Fields := []

namespace Context

def parts : List String := ["timing", "boundaries"]

def read (c : Context) (part : String) (v : Json) : Decoded Context :=
  if part = "timing" then do return { c with timing := ← Decode.optional Timing.ofJson v }
  else if part = "boundaries" then do return { c with boundaries := ← Decode.optional .ok v }
  else .ok c

def ofJson (v : Json) : Decoded Context := do
  let (c, extra) ← Decode.openRecord "NodeContext" parts read {} v
  return { c with extra := extra }

def toJson (c : Context) : Json :=
  .object <| Fields.overlay
    (Json.member? "timing" Timing.toJson c.timing ++ Json.member? "boundaries" id c.boundaries)
    c.extra

/-- A context written over another one: what the patch has replaces what is there. -/
def patch (c p : Context) : Context where
  timing := p.timing.or c.timing
  boundaries := p.boundaries.or c.boundaries
  extra := Fields.overlay c.extra p.extra

end Context

end Montage.Scene
