import Mathlib.Data.List.Induction
import Montage.Proofs.Merge.Outcomes
import Montage.Proofs.Pass.Run
import Montage.Proofs.Reference.Notes

/-!
# Strict and lenient passes

A strict pass and a lenient one go the same way until an entry fails. The strict pass ends there
with the failure, the lenient one notes it. Those notes are the only ones of their kinds: what
resolving and merging note on the way to a contribution is of other kinds, and ends no pass.
-/

namespace Montage

open Scene

/-- The kinds of problems for which an entry contributes nothing. -/
def Diagnostic.Kind.isFatal : Diagnostic.Kind → Bool
  | .presetNotFound | .presetCompileError | .presetExecutionError | .malformedPresetOutput => true
  | .referenceNotFound | .rangeInvalid | .attachmentTargetNotFound => false

/-- The first problem for which an entry has contributed nothing. -/
def Report.firstFatal? (r : Report) : Option Diagnostic := r.notes.find? (·.kind.isFatal)

variable (host : Host)

/-! ## Attempts -/

def Setback.kinds : List Diagnostic.Kind :=
  [.presetCompileError, .presetExecutionError, .malformedPresetOutput]

theorem kind_ofInvoke (f : Failure) : (Setback.ofInvoke f).kind ∈ Setback.kinds := by
  obtain ⟨kind, text⟩ := f
  cases kind <;> simp [Setback.ofInvoke, Setback.kinds]

theorem merge_notes {d : Document} {c : Contribution} {type : MergeType} {report : MergeReport}
    (h : (merge d c type).1 = .ok report) :
    ∀ n ∈ report.notes, n.kind = .attachmentTargetNotFound := by
  have hattach : ∀ (forest : Forest) (root : Node) (a : Attachment),
      ∀ n ∈ (forest.attachment root a).2, n.kind = .attachmentTargetNotFound := by
    intro forest root a n hn
    unfold Scene.Forest.attachment at hn
    dsimp only at hn
    split at hn
    · cases hn
    · rw [List.mem_singleton.mp hn]
      rfl
  have hends := merge_ends d c type
  generalize (merge d c type).1 = outcome, (merge d c type).2 = after at h hends
  subst h
  cases hends with
  | noChildren => exact hattach _ _ _
  | noTarget => exact hattach _ _ _
  | children => exact hattach _ _ _
  | _ =>
    intro n hn
    cases hn

theorem runPreset_notes (d : Document) (p : Preset) (type : MergeType) (input : Json) :
    NotesOnly [.attachmentTargetNotFound] (runPreset host d p type input) := by
  unfold runPreset
  split
  · exact .pure _
  split
  · exact .pure _
  rename_i c _
  rcases c with _ | c
  · exact .pure _
  rw [mergeResult]
  split
  · rename_i report _ hmerge
    intro n hn
    rw [merge_notes (congrArg Prod.fst hmerge) n hn]
    exact List.mem_cons_self
  · exact .pure _

theorem attempt_notes (d : Document) (e : Preset.Entry) :
    NotesOnly (.attachmentTargetNotFound :: Reference.kinds) (attempt host d e) := by
  unfold attempt
  split
  · exact .pure _
  · exact ((Reference.resolve_notes host.pool e.input).mono (List.subset_cons_self _ _)).bind
      fun _ => (runPreset_notes host d _ e.type _).mono
        (List.cons_subset_cons _ (List.nil_subset _))

theorem isFatal_attempt_notes (d : Document) (e : Preset.Entry) :
    ∀ n ∈ (attempt host d e).notes, n.kind.isFatal = false := by
  have hkind : ∀ k ∈ Diagnostic.Kind.attachmentTargetNotFound :: Reference.kinds,
      k.isFatal = false := by decide
  exact fun n hn => hkind _ (attempt_notes host d e n hn)

theorem contribution_setback {d : Document} {e : Preset.Entry} {s : Setback}
    (h : host.contribution d e = .error s) :
    host.registry.get? e.presetId = none ∧ s.kind = .presetNotFound ∨ s.kind ∈ Setback.kinds := by
  unfold Host.contribution at h
  split at h
  · rename_i hnone
    cases h
    exact .inl ⟨hnone, rfl⟩
  refine .inr ?_
  split at h
  · cases h
    exact List.mem_cons_self
  rename_i f _
  rcases hinvoke : f.invoke host.fetch (Reference.resolve host.pool e.input).value
    (propsFor host.props d) with failure | c
  · rw [hinvoke] at h
    cases h
    exact kind_ofInvoke failure
  · rw [hinvoke] at h
    cases h

theorem attempt_setback {d : Document} {e : Preset.Entry} {s : Setback}
    (h : (attempt host d e).value.outcome = .error s) :
    host.registry.get? e.presetId = none ∧ s.kind = .presetNotFound ∨ s.kind ∈ Setback.kinds := by
  rw [attempt_value] at h
  rcases hc : host.contribution d e with s' | c
  · rw [hc] at h
    cases h
    exact contribution_setback host hc
  rw [hc] at h
  rcases c with _ | c
  · cases h
  dsimp only at h
  rw [mergeResult] at h
  split at h
  · cases h
  · cases h
    have hkind : Diagnostic.Kind.malformedPresetOutput ∈ Setback.kinds := by decide
    exact .inr hkind

theorem isFatal_attempt_setback {d : Document} {e : Preset.Entry} {s : Setback}
    (h : (attempt host d e).value.outcome = .error s) : s.kind.isFatal = true := by
  have hkind : ∀ k ∈ Setback.kinds, k.isFatal = true := by decide
  rcases attempt_setback host h with ⟨-, hs⟩ | hs
  · rw [hs]
    rfl
  · exact hkind _ hs

/-! ## Steps -/

/-- How a strict and a lenient pass over the same entries stand to one another: they have the same
report, or the strict one has ended with the first failure that the lenient one has noted. -/
def Agrees (strict : Outcome Report) (lenient : Report) : Prop :=
  match lenient.firstFatal? with
  | none => strict = .ok lenient
  | some d => ∃ f, strict = .error f ∧ f.message = d.message

theorem firstFatal?_append (r : Report) (notes : List Diagnostic) :
    ({ r with notes := r.notes ++ notes } : Report).firstFatal? =
      r.firstFatal?.or (notes.find? (·.kind.isFatal)) :=
  List.find?_append

theorem firstFatal?_note (r : Report) (id : String) {ds : List Diagnostic}
    (h : ∀ d ∈ ds, d.kind.isFatal = false) : (r.note id ds).firstFatal? = r.firstFatal? := by
  have hnone : (ds.map (·.withPreset id)).find? (·.kind.isFatal) = none := by
    rw [List.find?_eq_none]
    intro d hd
    obtain ⟨d', hd', rfl⟩ := List.mem_map.mp hd
    rw [Bool.not_eq_true]
    exact h d' hd'
  rw [Report.note, firstFatal?_append, hnone, Option.or_none]

theorem firstFatal?_lenientStep {r : Report} {d : Diagnostic} (e : Preset.Entry)
    (h : r.firstFatal? = some d) : (r.lenientStep host e).firstFatal? = some d := by
  have happend : ∃ notes, (r.lenientStep host e).firstFatal? =
      ({ r with notes := r.notes ++ notes } : Report).firstFatal? := by
    unfold Report.lenientStep
    dsimp only
    split
    · exact ⟨_, rfl⟩
    · exact ⟨_, congrArg (List.find? _) (List.append_assoc _ _ _)⟩
  obtain ⟨notes, hnotes⟩ := happend
  rw [hnotes, firstFatal?_append, h, Option.some_or]

/-- From a common report, one more entry keeps the passes together or ends the strict one. -/
theorem agrees_step {r : Report} (e : Preset.Entry) (h : r.firstFatal? = none) :
    Agrees (r.strictStep host e) (r.lenientStep host e) := by
  have hbefore : (r.note e.presetId (attempt host r.document e).notes).firstFatal? = none := by
    rw [firstFatal?_note r e.presetId (isFatal_attempt_notes host r.document e), h]
  unfold Report.strictStep Report.lenientStep Agrees
  dsimp only
  rcases houtcome : (attempt host r.document e).value.outcome with s | applied
  · have hfatal := isFatal_attempt_setback host houtcome
    have hfirst : (((r.note e.presetId (attempt host r.document e).notes).withDocument
        (attempt host r.document e).value.document).note e.presetId [s.diagnostic]).firstFatal? =
          some (s.diagnostic.withPreset e.presetId) := by
      rw [Report.note, firstFatal?_append]
      have hnext : [s.diagnostic.withPreset e.presetId].find? (·.kind.isFatal) =
          some (s.diagnostic.withPreset e.presetId) := List.find?_cons_of_pos hfatal
      exact (congrArg (Option.or · _) hbefore).trans hnext
    dsimp only
    rw [hfirst]
    exact ⟨s.failure, rfl, rfl⟩
  · have hsame : (((r.note e.presetId (attempt host r.document e).notes).withDocument
        (attempt host r.document e).value.document).count applied).firstFatal? = none := hbefore
    dsimp only
    rw [hsame]

/-! ## Passes -/

theorem strictPass_agrees (base : Document) (entries : List Preset.Entry) :
    Agrees (strictPass host base entries) (lenientPass host base entries) := by
  unfold strictPass lenientPass
  induction entries.filter (!·.disabled) using List.reverseRecOn with
  | nil => rfl
  | append_singleton done e ih =>
    rw [List.foldlM_append, List.foldl_append, List.foldl_cons, List.foldl_nil]
    generalize done.foldlM (Report.strictStep host) { document := base } = strict at ih ⊢
    generalize done.foldl (Report.lenientStep host) { document := base } = lenient at ih ⊢
    unfold Agrees at ih
    rcases hfirst : lenient.firstFatal? with _ | d
    · rw [hfirst] at ih
      dsimp only at ih
      rw [ih]
      have hlast : (Except.ok lenient >>= fun r => [e].foldlM (Report.strictStep host) r) =
          lenient.strictStep host e := bind_pure (lenient.strictStep host e)
      rw [hlast]
      exact agrees_step host e hfirst
    · rw [hfirst] at ih
      obtain ⟨f, rfl, hf⟩ := ih
      unfold Agrees
      rw [firstFatal?_lenientStep host e hfirst]
      exact ⟨f, rfl, hf⟩

/-- **Strict and lenient passes agree.** A strict pass succeeds exactly if the lenient one notes no
failure, and then with the same report; otherwise it fails with the failure that is noted first. -/
theorem generate_strict_agrees (base : Document) (entries : List Preset.Entry) :
    ∃ r, generate false host base entries = .ok r ∧
      ((∃ r', generate true host base entries = .ok r') ↔
        ∀ d ∈ r.notes, d.kind.isFatal = false) ∧
      (∀ r', generate true host base entries = .ok r' → r' = r) ∧
      ∀ d, r.notes.find? (·.kind.isFatal) = some d →
        ∃ f, generate true host base entries = .error f ∧ f.message = d.message := by
  have hagrees := strictPass_agrees host base entries
  have hstrict : generate true host base entries = strictPass host base entries := rfl
  refine ⟨lenientPass host base entries, rfl, ?_⟩
  rw [hstrict]
  generalize lenientPass host base entries = r at hagrees
  unfold Agrees Report.firstFatal? at hagrees
  rcases hfirst : r.notes.find? (·.kind.isFatal) with _ | d
  · rw [hfirst] at hagrees
    dsimp only at hagrees
    rw [hagrees]
    refine ⟨⟨fun _ d hd => ?_, fun _ => ⟨r, rfl⟩⟩, fun r' h => ?_, fun d hd => ?_⟩
    · simpa using List.find?_eq_none.mp hfirst d hd
    · cases h
      rfl
    · rw [hfirst] at hd
      cases hd
  · rw [hfirst] at hagrees
    obtain ⟨f, hf, hmessage⟩ := hagrees
    rw [hf]
    refine ⟨⟨nofun, fun h => ?_⟩, nofun, fun d' hd' => ?_⟩
    · have hmem := h d (List.mem_of_find?_eq_some hfirst)
      have hfatal := List.find?_some hfirst
      rw [hmem] at hfatal
      cases hfatal
    · rw [hfirst] at hd'
      cases hd'
      exact ⟨f, rfl, hmessage⟩

def oneFailing : Host where
  registry := ⟨[("node", .native (.native fun _ _ => .ok (.object [("childrenData", .array [
      .object [("id", .string "a"), ("type", .string "atom")]])]))),
    ("bad", .native (.native fun _ _ => .error ⟨.execution, "no"⟩))]⟩
  pool := {}
  fetch := .absent

/-- The node is added to another place than the default one, which is noted and ends no pass; the
strict pass ends with the entry behind it, not with the last, whose preset is not there. -/
theorem generate_strict_oneFailing :
    let base : Document := ⟨[⟨"s", "Scene", .scene, [], {}, [], []⟩], {}, []⟩
    let entries : List Preset.Entry :=
      [{ presetId := "node", type := .children }, { presetId := "bad", type := .full },
        { presetId := "absent", type := .full }]
    (∃ r, generate false oneFailing base entries = .ok r ∧
      r.notes.map (·.kind) =
        [.attachmentTargetNotFound, .presetExecutionError, .presetNotFound] ∧ r.applied = 1) ∧
      ∃ f, generate true oneFailing base entries = .error f ∧ f.message = "execution error: no" := by
  intro base entries
  obtain ⟨r, hr, -, -, hfirst⟩ := generate_strict_agrees oneFailing base entries
  cases hr
  exact ⟨⟨_, rfl, rfl, rfl⟩, hfirst ⟨.presetExecutionError, "execution error: no", some "bad"⟩ rfl⟩

end Montage
