import Mathlib.Data.List.Induction
import Montage.Pass
import Montage.Proofs.Except

/-!
# The run of a pass

A pass, strict or lenient, is one step per entry that is not disabled. A step changes the document
by no more than the merge of the contribution that the entry comes to, if it comes to one.
-/

namespace Montage

open Scene

/-! ## Steps -/

def Report.step (strict : Bool) (host : Host) (r : Report) (e : Preset.Entry) : Outcome Report :=
  if strict then r.strictStep host e else .ok (r.lenientStep host e)

theorem Report.document_step {strict : Bool} {host : Host} {r r' : Report} {e : Preset.Entry}
    (h : r.step strict host e = .ok r') :
    r'.document = (attempt host r.document e).value.document := by
  rw [Report.step] at h
  cases strict
  · cases h
    rw [Report.lenientStep]
    split <;> rfl
  · rw [if_pos rfl, Report.strictStep] at h
    split at h
    · cases h
      rfl
    · cases h

theorem Report.exists_step {host : Host} {r : Report} {e : Preset.Entry} {applied : Bool}
    (strict : Bool) (h : (attempt host r.document e).value.outcome = .ok applied) :
    ∃ r', r.step strict host e = .ok r' := by
  cases strict
  · exact ⟨_, rfl⟩
  · rw [Report.step, if_pos rfl, Report.strictStep, h]
    exact ⟨_, rfl⟩

theorem generate_eq_foldlM (strict : Bool) (host : Host) (base : Document)
    (entries : List Preset.Entry) :
    generate strict host base entries =
      (entries.filter (!·.disabled)).foldlM (Report.step strict host) { document := base } := by
  cases strict
  · have hstep : Report.step false host = fun r e => pure (r.lenientStep host e) := rfl
    rw [hstep, List.foldlM_pure]
    rfl
  · rfl

@[simp] theorem generate_nil (strict : Bool) (host : Host) (base : Document) :
    generate strict host base [] = .ok { document := base } := by
  rw [generate_eq_foldlM]
  rfl

theorem generate_concat (strict : Bool) (host : Host) (base : Document) (done : List Preset.Entry)
    (e : Preset.Entry) :
    generate strict host base (done ++ [e]) =
      generate strict host base done >>= fun r =>
        if e.disabled then .ok r else r.step strict host e := by
  rw [generate_eq_foldlM, generate_eq_foldlM, List.filter_append, List.foldlM_append]
  congr 1
  funext r
  cases hdisabled : e.disabled
  · rw [List.filter_cons_of_pos (by rw [hdisabled]; rfl), List.foldlM_cons]
    exact bind_pure _
  · rw [List.filter_cons_of_neg (by rw [hdisabled]; exact Bool.false_ne_true)]
    rfl

/-- What holds at some point of a pass, and is kept by the attempts from there on, holds at every
later point. -/
theorem generate_invariant {P : Document → Prop} {strict : Bool} {host : Host} {base : Document}
    {done later : List Preset.Entry} {r r' : Report} (hle : done <+: later)
    (hr : generate strict host base done = .ok r) (hP : P r.document)
    (hkeep : ∀ mid e s, done <+: mid → mid ++ [e] <+: later → e.disabled = false →
      generate strict host base mid = .ok s → P s.document →
      P (attempt host s.document e).value.document)
    (hr' : generate strict host base later = .ok r') : P r'.document := by
  obtain ⟨rest, rfl⟩ := hle
  induction rest using List.reverseRecOn generalizing r' with
  | nil =>
    rw [List.append_nil, hr] at hr'
    cases hr'
    exact hP
  | append_singleton rest e ih =>
    rw [← List.append_assoc, generate_concat] at hr'
    obtain ⟨s, hs, hr'⟩ := eq_ok_of_bind hr'
    rw [← List.append_assoc] at hkeep
    have hPs : P s.document := ih
      (fun mid e' s' hmid hnext => hkeep mid e' s' hmid (hnext.trans (List.prefix_append _ _))) hs
    rcases henabled : e.disabled with _ | _
    · rw [henabled] at hr'
      rw [Report.document_step hr']
      exact hkeep (done ++ rest) e s (List.prefix_append _ _) List.prefix_rfl henabled hs hPs
    · rw [henabled] at hr'
      cases hr'
      exact hPs

/-! ## Attempts -/

/-- What the preset of an entry contributes on a document, or why it contributes nothing. -/
def Host.contribution (host : Host) (d : Document) (e : Preset.Entry) :
    Except Setback (Option Contribution) :=
  match host.registry.get? e.presetId with
  | none => .error (.notRegistered e.presetId)
  | some p =>
    match p.function with
    | .error f => .error (.ofCompile f)
    | .ok f =>
      (f.invoke host.fetch (Reference.resolve host.pool e.input).value
        (propsFor host.props d)).mapError .ofInvoke

theorem attempt_value (host : Host) (d : Document) (e : Preset.Entry) :
    (attempt host d e).value =
      match host.contribution d e with
      | .error s => ⟨d, .error s⟩
      | .ok c => (mergeResult d e.type c).value := by
  rw [attempt, Host.contribution]
  rcases host.registry.get? e.presetId with _ | p
  · rfl
  rw [Noted.value_bind, runPreset]
  dsimp only
  rcases p.function with f | f
  · rfl
  dsimp only
  rcases f.invoke host.fetch (Reference.resolve host.pool e.input).value
    (propsFor host.props d) with f | c
  · rfl
  · rfl

theorem document_mergeResult (d : Document) (c : Contribution) (type : MergeType) :
    (mergeResult d type (some c)).value.document = (merge d c type).2 := by
  rw [mergeResult]
  rcases merge d c type with ⟨f | report, after⟩
  · rfl
  · rfl

theorem attempt_document (host : Host) (d : Document) (e : Preset.Entry) :
    (attempt host d e).value.document =
      match host.contribution d e with
      | .ok (some c) => (merge d c e.type).2
      | .ok none | .error _ => d := by
  rw [attempt_value]
  rcases host.contribution d e with s | _ | c
  · rfl
  · rfl
  · exact document_mergeResult d c e.type

theorem attempt_merged {host : Host} {d : Document} {e : Preset.Entry} {c : Contribution}
    {report : MergeReport} (hc : host.contribution d e = .ok (some c))
    (hmerge : (merge d c e.type).1 = .ok report) :
    ∃ applied, (attempt host d e).value.outcome = .ok applied := by
  rw [attempt_value, hc]
  dsimp only
  rw [mergeResult]
  rcases h : merge d c e.type with ⟨f | report', after⟩
  · rw [h] at hmerge
    cases hmerge
  · exact ⟨_, rfl⟩

theorem exists_generate_concat {strict : Bool} {host : Host} {base : Document}
    {done : List Preset.Entry} {e : Preset.Entry} {r : Report} {applied : Bool}
    (hr : generate strict host base done = .ok r) (henabled : e.disabled = false)
    (h : (attempt host r.document e).value.outcome = .ok applied) :
    ∃ r', generate strict host base (done ++ [e]) = .ok r' ∧
      r'.document = (attempt host r.document e).value.document := by
  obtain ⟨r', hr'⟩ := Report.exists_step strict h
  refine ⟨r', ?_, Report.document_step hr'⟩
  rw [generate_concat, hr, henabled]
  exact hr'

end Montage
