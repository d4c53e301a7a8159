import Montage.Proofs.Pass.Run
import Montage.Proofs.Merge.Outcomes
import Montage.Proofs.Scene.Every
import Montage.Proofs.Scene.Replacement

/-!
# Where the roots of a document come from

Only a full contribution puts other roots in the place of those that are there, and it takes the list
it brings as it is, an empty one too. The other ways of merging leave an empty document empty, and
change or add to what is in another one. So a document with roots keeps some unless a full
contribution brings an empty list, and an empty document stays empty until one brings nodes.
-/

namespace Montage

open Scene

/-! ## Merges -/

theorem Scene.Template.toNodes_eq_nil_iff {ts : List Template} {ns : List Node}
    (h : Template.toNodes ts = .ok ns) : ns = [] ↔ ts = [] := by
  cases ts with
  | nil =>
    cases h
    exact ⟨fun _ => rfl, fun _ => rfl⟩
  | cons t ts =>
    obtain ⟨n, rest, -, -, rfl⟩ := Template.toNodes_cons h
    exact ⟨nofun, nofun⟩

theorem Scene.Forest.ne_nil_of_appendTo? {id : String} {added : List Node} {forest grown : Forest}
    (h : Forest.appendTo? id added forest = some grown) : grown ≠ [] := by
  rintro rfl
  cases forest with
  | nil => cases h
  | cons n rest =>
    rw [Forest.appendTo?] at h
    split at h
    · cases h
    · rw [Option.map_eq_some_iff] at h
      obtain ⟨_, _, h⟩ := h
      cases h

/-- The templates whose nodes take the place of the roots when a contribution is merged, if any. -/
def Scene.Contribution.Brings (c : Contribution) (d : Document) (type : MergeType)
    (ts : List Template) : Prop :=
  type = .full ∧ c.output.children = some ts ∧ ∃ report, (merge d c type).1 = .ok report

theorem merge_brings {d : Document} {c : Contribution} {type : MergeType} {ts : List Template}
    (h : c.Brings d type ts) : (merge d c type).2.children = [] ↔ ts = [] := by
  obtain ⟨hfull, hchildren, report, hreport⟩ := h
  have hends := merge_ends d c type
  rw [hreport] at hends
  generalize (merge d c type).2 = after at hends ⊢
  cases hends with
  | emptyDocument htype => exact absurd hfull htype
  | @full templates config hnodes hconfig =>
    obtain ⟨hnone, -⟩ | ⟨ts', ns, hts, rfl, hns⟩ := Template.mapM_toNodes hnodes
    · rw [hchildren] at hnone
      cases hnone
    · rw [hchildren] at hts
      cases hts
      exact Template.toNodes_eq_nil_iff hns
  | noChildren | noTarget | children => cases hfull
  | @noTemplate p | @patched p => cases p <;> cases hfull

theorem merge_brings_none {d : Document} {c : Contribution} {type : MergeType}
    (h : ∀ ts, ¬ c.Brings d type ts) :
    (merge d c type).2.children = [] ↔ d.children = [] := by
  have hends := merge_ends d c type
  unfold Contribution.Brings at h
  generalize (merge d c type).1 = outcome, (merge d c type).2 = after at hends h ⊢
  cases hends with
  | emptyDocument | fullNodes | fullConfig | childrenNodes | noChildren | noTarget | noTemplate =>
    exact Iff.rfl
  | @full templates config hnodes hconfig =>
    obtain ⟨-, rfl⟩ | ⟨ts, ns, hts, rfl, -⟩ := Template.mapM_toNodes hnodes
    · exact Iff.rfl
    · exact absurd ⟨rfl, hts, _, rfl⟩ (h ts)
  | children hroot hadded hne hforest =>
    refine ⟨fun hnil => absurd hnil (Forest.ne_nil_of_appendTo? hforest), fun hnil => ?_⟩
    rw [hroot] at hnil
    cases hnil
  | patched =>
    rw [Forest.replace, Forest.replaceIds_eq_map, List.map_eq_nil_iff]

/-! ## Attempts -/

/-- The templates whose nodes take the place of the roots when an entry has its turn, if any. -/
def Host.Brings (host : Host) (d : Document) (e : Preset.Entry) (ts : List Template) : Prop :=
  ∃ c, host.contribution d e = .ok (some c) ∧ c.Brings d e.type ts

theorem attempt_brings {host : Host} {d : Document} {e : Preset.Entry} {ts : List Template}
    (h : host.Brings d e ts) :
    (attempt host d e).value.document.children = [] ↔ ts = [] := by
  obtain ⟨c, hc, hbrings⟩ := h
  rw [attempt_document, hc]
  exact merge_brings hbrings

theorem attempt_brings_none {host : Host} {d : Document} {e : Preset.Entry}
    (h : ∀ ts, ¬ host.Brings d e ts) :
    (attempt host d e).value.document.children = [] ↔ d.children = [] := by
  rw [attempt_document]
  rcases hc : host.contribution d e with s | _ | c
  · exact Iff.rfl
  · exact Iff.rfl
  · exact merge_brings_none fun ts hbrings => h ts ⟨c, hc, hbrings⟩

theorem attempt_children_ne_nil {host : Host} {d : Document} {e : Preset.Entry}
    (hd : d.children ≠ []) (h : ¬ host.Brings d e []) :
    (attempt host d e).value.document.children ≠ [] := by
  by_cases hbrings : ∃ ts, host.Brings d e ts
  · obtain ⟨ts, hts⟩ := hbrings
    rw [Ne, attempt_brings hts]
    rintro rfl
    exact h hts
  · rw [Ne, attempt_brings_none (not_exists.mp hbrings)]
    exact hd

theorem Host.Brings.exists_next {strict : Bool} {host : Host} {base : Document}
    {done : List Preset.Entry} {e : Preset.Entry} {r : Report} {ts : List Template}
    (h : host.Brings r.document e ts) (hr : generate strict host base done = .ok r)
    (henabled : e.disabled = false) :
    ∃ r', generate strict host base (done ++ [e]) = .ok r' ∧ (r'.document.children = [] ↔ ts = []) := by
  obtain ⟨c, hc, -, -, report, hreport⟩ := id h
  obtain ⟨_, hmerged⟩ := attempt_merged hc hreport
  obtain ⟨r', hr', hdocument⟩ := exists_generate_concat hr henabled hmerged
  rw [← attempt_brings h, ← hdocument]
  exact ⟨r', hr', Iff.rfl⟩

/-! ## Passes -/

/-- **A document that has roots keeps some for the rest of the pass, and has some from the first
entry that brings nodes, exactly if no entry puts an empty list in the place of roots.** -/
theorem generate_roots_iff (strict : Bool) (host : Host) (base : Document)
    (entries : List Preset.Entry) :
    ((∀ done later r r', done <+: later → later <+: entries →
        generate strict host base done = .ok r → generate strict host base later = .ok r' →
        r.document.children ≠ [] → r'.document.children ≠ []) ∧
      ∀ done e later r r' t ts, done ++ [e] <+: later → later <+: entries → e.disabled = false →
        generate strict host base done = .ok r → generate strict host base later = .ok r' →
        host.Brings r.document e (t :: ts) → r'.document.children ≠ []) ↔
      ∀ done e r, done ++ [e] <+: entries → e.disabled = false →
        generate strict host base done = .ok r → host.Brings r.document e [] →
        r.document.children = [] := by
  refine ⟨fun ⟨hkeep, _⟩ done e r hdone henabled hr hbrings => ?_, fun h => ?_⟩
  · by_contra hroots
    obtain ⟨r', hr', hnil⟩ := hbrings.exists_next hr henabled
    exact hkeep done _ r r' (List.prefix_append _ _) hdone hr hr' hroots (hnil.mpr rfl)
  · have hkeep : ∀ done later r r', done <+: later → later <+: entries →
        generate strict host base done = .ok r → generate strict host base later = .ok r' →
        r.document.children ≠ [] → r'.document.children ≠ [] := by
      intro done later r r' hdone hlater hr hr' hroots
      refine generate_invariant (P := fun d => d.children ≠ []) hdone hr hroots
        (fun mid e s _ hmid henabled hs hsroots => ?_) hr'
      exact attempt_children_ne_nil hsroots
        fun hbrings => hsroots (h mid e s (hmid.trans hlater) henabled hs hbrings)
    refine ⟨hkeep, fun done e later r r' t ts hdone hlater henabled hr hr' hbrings => ?_⟩
    obtain ⟨r'', hr'', hnil⟩ := hbrings.exists_next hr henabled
    exact hkeep (done ++ [e]) later r'' r' hdone hlater hr'' hr' (mt hnil.mp nofun)

def emptying : Host where
  registry := ⟨[("p", .native (.native fun _ _ => .ok (.object [("childrenData", .array [])])))]⟩
  pool := {}
  fetch := .absent

/-- The only node of the document is gone, and no problem is noted: the entry has put an empty list
in its place. -/
theorem generate_emptying :
    let base : Document := { children := [⟨"a", "", .scene, [], {}, [], []⟩] }
    let entries : List Preset.Entry := [{ presetId := "p", type := .full }]
    (∃ r, generate false emptying base entries = .ok r ∧ r.applied = 1 ∧ r.notes = [] ∧
      r.document.children = []) ∧
      ∃ done e r, done ++ [e] <+: entries ∧ generate false emptying base done = .ok r ∧
        emptying.Brings r.document e [] ∧ r.document.children ≠ [] := by
  intro base entries
  have hrun : ∃ r, generate false emptying base entries = .ok r ∧ r.applied = 1 ∧ r.notes = [] ∧
      r.document.children = [] := ⟨_, rfl, rfl, rfl, rfl⟩
  refine ⟨hrun, ?_⟩
  by_contra hnone
  have hroots := (generate_roots_iff false emptying base entries).mpr fun done e r hdone _ hr hbrings =>
    by_contra fun hne => hnone ⟨done, e, r, hdone, hr, hbrings, hne⟩
  obtain ⟨r, hr, -, -, hnil⟩ := hrun
  exact hroots.1 [] entries _ r (List.nil_prefix) List.prefix_rfl (generate_nil _ _ _) hr nofun hnil

end Montage
