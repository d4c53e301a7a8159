import Montage.Preset.Registry
import Montage.Reference.Resolve

/-!
# A pass

A pass runs presets one after another on a document: the references in the input of an entry are
resolved, its preset is run on the input and on the host's props, and the contribution is merged
before the next entry has its turn. A preset sees the settings of the document under `config`.

Every entry is attempted in the same way. What differs is what a failed attempt means: a lenient
pass notes it and goes on, a strict pass ends with it.
-/

namespace Montage

open Scene

/-- What a pass runs with: the presets, the references, a data source, and the host's props. -/
structure Host where
  registry : Preset.Registry
  pool : Reference.Pool
  fetch : Fetcher
  props : Json := .object []

/-- Why an attempt to run an entry contributes nothing. -/
structure Setback where
  kind : Diagnostic.Kind
  failure : Failure

namespace Setback

def notRegistered (id : String) : Setback :=
  ⟨.presetNotFound, ⟨.validation, "preset \"" ++ id ++ "\" is not registered"⟩⟩

def ofCompile (f : Failure) : Setback := ⟨.presetCompileError, f⟩

/-- A preset that fails when it runs, or whose result is no contribution. -/
def ofInvoke (f : Failure) : Setback :=
  match f.kind with
  | .compile => ⟨.presetCompileError, f⟩
  | .malformedOutput | .decoding => ⟨.malformedPresetOutput, f⟩
  | .validation | .execution | .fetch | .other => ⟨.presetExecutionError, f⟩

def ofMerge (f : Failure) : Setback := ⟨.malformedPresetOutput, f⟩

def diagnostic (s : Setback) : Diagnostic := ⟨s.kind, s.failure.message, none⟩

end Setback

/-- The props for a preset: the host's, with the settings of the document under `config`, where the
host's own settings count more. -/
def propsFor (props : Json) (d : Document) : Json :=
  let own :=
    match props with
    | .object fields => fields
    | _ => []
  let config :=
    match Fields.get? own "config" with
    | some (.object config) => Fields.overlay d.config.toFields config
    | _ => d.config.toFields
  .object (Fields.insert own "config" (.object config))

/-- What an attempt leaves: the document, and whether the contribution has become part of it, or why
there is none. -/
structure Attempt where
  document : Document
  outcome : Except Setback Bool

/-- Merges what a preset has contributed, if anything. -/
def mergeResult (base : Document) (type : MergeType) : Option Contribution → Noted Attempt
  | none => pure ⟨base, .ok false⟩
  | some c =>
    match merge base c type with
    | (.ok report, d) => ⟨⟨d, .ok (report.outcome matches .applied _)⟩, report.notes⟩
    | (.error f, d) => pure ⟨d, .error (.ofMerge f)⟩

/-- Runs a preset on an input and merges what it contributes. -/
def runPreset (host : Host) (base : Document) (p : Preset) (type : MergeType) (input : Json) :
    Noted Attempt :=
  match p.function with
  | .error f => pure ⟨base, .error (.ofCompile f)⟩
  | .ok f =>
    match f.invoke host.fetch input (propsFor host.props base) with
    | .error f => pure ⟨base, .error (.ofInvoke f)⟩
    | .ok c => mergeResult base type c

/-- Attempts to run an entry on a document. -/
def attempt (host : Host) (base : Document) (e : Preset.Entry) : Noted Attempt :=
  match host.registry.get? e.presetId with
  | none => pure ⟨base, .error (.notRegistered e.presetId)⟩
  | some p => do
    let input ← Reference.resolve host.pool e.input
    runPreset host base p e.type input

/-- What a pass leaves: the document, the problems noted, and how many contributions have become
part of the document. -/
structure Report where
  document : Document
  notes : List Diagnostic := []
  applied : Nat := 0

namespace Report

/-- A report with more problems, noted for a preset. -/
def note (r : Report) (id : String) (ds : List Diagnostic) : Report :=
  { r with notes := r.notes ++ ds.map (·.withPreset id) }

def withDocument (r : Report) (d : Document) : Report := { r with document := d }

/-- A report with one more contribution that has become part of the document, or none more. -/
def count (r : Report) (applied : Bool) : Report := { r with applied := r.applied + applied.toNat }

def lenientStep (host : Host) (r : Report) (e : Preset.Entry) : Report :=
  let a := attempt host r.document e
  let r := (r.note e.presetId a.notes).withDocument a.value.document
  match a.value.outcome with
  | .ok applied => r.count applied
  | .error s => r.note e.presetId [s.diagnostic]

def strictStep (host : Host) (r : Report) (e : Preset.Entry) : Outcome Report :=
  let a := attempt host r.document e
  let r := (r.note e.presetId a.notes).withDocument a.value.document
  match a.value.outcome with
  | .ok applied => .ok (r.count applied)
  | .error s => .error s.failure

end Report

/-- A pass that goes on after a failure. -/
def lenientPass (host : Host) (base : Document) (entries : List Preset.Entry) : Report :=
  (entries.filter (!·.disabled)).foldl (Report.lenientStep host) { document := base }

/-- A pass that ends with the first failure. -/
def strictPass (host : Host) (base : Document) (entries : List Preset.Entry) : Outcome Report :=
  (entries.filter (!·.disabled)).foldlM (Report.strictStep host) { document := base }

/-- A pass, strict or lenient. -/
def generate (strict : Bool) (host : Host) (base : Document) (entries : List Preset.Entry) :
    Outcome Report :=
  if strict then strictPass host base entries else .ok (lenientPass host base entries)

end Montage
