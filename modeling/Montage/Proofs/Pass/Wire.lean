import Montage.Proofs.Merge.Target
import Montage.Proofs.Pass.Run
import Montage.Proofs.Scene.Wire

/-!
# Passes and documents as data

A pass that starts from a document that has been read leaves one that can be written and read back,
whatever its presets return: what they contribute is read from data too, and merging writes only
members that have been read over members that have been read.
-/

namespace Montage

open Scene

/-! ## Merges -/

theorem faithful_full {templates : Option (List Template)} {children : Option (List Node)}
    {forest : Forest} (hforest : forest.Faithful)
    (htemplates : ∀ t ∈ templates.getD [], t.Faithful)
    (h : templates.mapM Template.toNodes = .ok children) :
    Forest.Faithful (children.getD forest) := by
  obtain ⟨rfl, rfl⟩ | ⟨ts, ns, rfl, rfl, hns⟩ := Template.mapM_toNodes h
  · exact hforest
  · exact Template.faithful_toNodes htemplates hns

theorem faithful_patched {forest : Forest} {root : Node} {rest : Forest} {t : Template}
    (p : NodePatch) (hroot : forest = root :: rest) (h : forest.Faithful) (ht : t.Faithful) :
    Forest.Faithful
      (forest.replace (forest.target root t).id (p.apply (forest.target root t) t)) := by
  refine Forest.every_patched t p hroot h fun n hn => ?_
  cases p with
  | data | effects => exact hn
  | context => exact Context.faithful_patch hn ht.context

theorem merge_faithful {d : Document} {c : Contribution} (type : MergeType) (hd : d.Faithful)
    (hc : c.output.Faithful) : (merge d c type).2.Faithful := by
  have hends := merge_ends d c type
  generalize (merge d c type).1 = outcome, (merge d c type).2 = after at hends
  cases hends with
  | emptyDocument | fullNodes | fullConfig | childrenNodes | noChildren | noTarget | noTemplate =>
    exact hd
  | full htemplates hpatch =>
    exact ⟨faithful_full hd.children hc htemplates, Config.faithful_patch hpatch hd.config⟩
  | children hroot hadded hne hforest =>
    have hnodes : Forest.Faithful _ := Template.faithful_toNodes hc hadded
    exact ⟨(Forest.every_appendTo? hforest).mpr ⟨hd.children, hnodes⟩, hd.config⟩
  | @patched p root target rest t hroot ht htarget =>
    subst htarget
    have ht : t.Faithful := hc t (List.mem_of_mem_head? ht)
    exact ⟨faithful_patched p hroot hd.children ht, hd.config⟩

/-! ## Passes -/

/-- What the preset of an entry returns on a document, if it is there, compiles and does not fail. -/
def Host.returned (host : Host) (d : Document) (e : Preset.Entry) : Option Json := do
  let p ← host.registry.get? e.presetId
  let f ← p.function.toOption
  (f host.fetch (Reference.resolve host.pool e.input).value (propsFor host.props d)).toOption

theorem Host.exists_returned {host : Host} {d : Document} {e : Preset.Entry} {c : Contribution}
    (h : host.contribution d e = .ok (some c)) :
    ∃ v, host.returned d e = some v ∧ Contribution.ofResult v = .ok (some c) := by
  rw [Host.contribution] at h
  rw [Host.returned]
  rcases hp : host.registry.get? e.presetId with _ | p
  · rw [hp] at h
    cases h
  rw [hp] at h
  dsimp only at h
  rcases hf : p.function with _ | f
  · rw [hf] at h
    cases h
  rw [hf] at h
  obtain ⟨v, hv, hc⟩ := eq_ok_of_bind (eq_ok_of_mapError h)
  refine ⟨v, ?_, hc⟩
  rw [Option.bind_eq_bind, Option.bind_some, hf]
  exact congrArg Except.toOption hv

/-- **A document that a pass leaves is read back from what is written of it**, if the pass has
started from one that has been read and its presets return values that are well formed. -/
theorem generate_roundTrip (strict : Bool) (host : Host) {v : Json} {base : Document}
    {entries : List Preset.Entry} {r : Report} (hv : v.WellFormed)
    (hread : Document.ofJson v = .ok base)
    (hreturned : ∀ done e s w, done ++ [e] <+: entries → e.disabled = false →
      generate strict host base done = .ok s → host.returned s.document e = some w → w.WellFormed)
    (hr : generate strict host base entries = .ok r) :
    Document.ofJson r.document.toJson = .ok r.document := by
  have hbase : base.Faithful := Document.gives_ofJson v base hv hread
  refine Document.ofJson_toJson ?_
  refine generate_invariant entries.nil_prefix (generate_nil strict host base) hbase
    (fun mid e s _ hmid henabled hs hfaithful => ?_) hr
  rw [attempt_document]
  rcases hc : host.contribution s.document e with _ | _ | c
  · exact hfaithful
  · exact hfaithful
  · obtain ⟨w, hw, hresult⟩ := Host.exists_returned hc
    have hwell : w.WellFormed := hreturned mid e s w hmid henabled hs hw
    exact merge_faithful e.type hfaithful (Contribution.gives_ofResult hwell hresult)

/-- A host whose preset `when` brings a context with a timing, with no boundaries and with a member
besides, and whose preset `dark` writes over the settings. -/
def retiming : Host where
  registry := ⟨[
    ("when", .native (.native fun _ _ => .ok (.object [("childrenData", .array [.object [
      ("id", .string "a"), ("context", .object [("layer", .ofNat 1), ("boundaries", .null),
        ("timing", .object [("ease", .string "in"), ("start", .ofNat 2)])])]])]))),
    ("dark", .native (.native fun _ _ => .ok (.object [("config", .object [
      ("theme", .string "dark"), ("fps", .ofNat 60)])])))]⟩
  pool := {}
  fetch := .absent

theorem wellFormed_of_returned_retiming {d : Document} {e : Preset.Entry} {w : Json}
    (h : retiming.returned d e = some w) : w.WellFormed := by
  rw [Host.returned, retiming, Preset.Registry.get?, Fields.get?, Fields.get?, Fields.get?] at h
  split at h
  · cases h
    simp [Fields.keys, Json.ofNat, count64]
  split at h
  · cases h
    simp [Fields.keys, Json.ofNat, count64]
  · cases h

/-- A member besides the settings may be `null` and stays, while boundaries that are `null` are not
there. -/
theorem generate_roundTrip_retiming :
    let v : Json := .object [("config", .object [("mood", .null), ("duration", .ofNat 10)]),
      ("childrenData", .array [.object [("id", .string "a"), ("type", .string "scene")]])]
    let entries : List Preset.Entry :=
      [{ presetId := "when", type := .context }, { presetId := "dark", type := .full }]
    v.WellFormed ∧ ∃ base r, Document.ofJson v = .ok base ∧
      generate false retiming base entries = .ok r ∧ r.applied = 2 ∧
      r.document.config.extra = [("mood", .null), ("theme", .string "dark")] ∧
      r.document.children.map (·.context.boundaries) = [none] ∧
      Document.ofJson r.document.toJson = .ok r.document := by
  intro v entries
  have hv : v.WellFormed := by
    simp [v, Fields.keys, Json.ofNat, count64]
  refine ⟨hv, _, _, rfl, rfl, rfl, rfl, rfl, ?_⟩
  exact generate_roundTrip false retiming hv rfl
    (fun _ _ _ _ _ _ _ hw => wellFormed_of_returned_retiming hw) rfl

end Montage
