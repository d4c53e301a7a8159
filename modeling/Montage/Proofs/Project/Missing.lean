import Mathlib
import Montage.Project.Basic
import Montage.Proofs.Pass.Isolation
import Montage.Proofs.Pass.Strict
import Montage.Proofs.Reference.Missing

/-!
# The check for missing references and the pass

A project that is valid has the preset of each of its entries, so the input of every entry that is
not disabled is resolved, whatever becomes of it afterwards. What the check says to be missing,
without running anything, is then what the pass notes to be not defined.
-/

namespace Montage

open Scene

/-! ## Presets that are there -/

theorem Preset.Registry.get?_insertArtifact_isSome (r : Preset.Registry) (a : Preset.Artifact)
    (id : String) :
    ((r.insertArtifact a).get? id).isSome = (a.id == id || (r.get? id).isSome) := by
  have hget : (r.insertArtifact a).get? id = if a.id = id then some (.stored a) else r.get? id :=
    Fields.get?_insert r.entries a.id (.stored a) id
  rw [hget]
  by_cases hid : a.id = id
  · rw [if_pos hid, beq_iff_eq.mpr hid]
    rfl
  · rw [if_neg hid, beq_eq_false_iff_ne.mpr hid]
    rfl

theorem Preset.Registry.get?_ofArtifacts_isSome (as : List Preset.Artifact) (id : String) :
    ((ofArtifacts as).get? id).isSome = as.any (·.id == id) := by
  have hfold : ∀ r : Preset.Registry, ((as.foldl insertArtifact r).get? id).isSome =
      (as.any (·.id == id) || (r.get? id).isSome) := by
    induction as with
    | nil => exact fun _ => rfl
    | cons a as ih =>
      intro r
      rw [List.foldl_cons, ih, get?_insertArtifact_isSome, List.any_cons, ← Bool.or_assoc,
        Bool.or_comm (a.id == id)]
  exact (hfold {}).trans (Bool.or_false _)

theorem Project.registered_of_validate {p : Project} (h : p.validate = .ok ()) {e : Preset.Entry}
    (he : e ∈ p.entries) : ∃ preset, p.host.registry.get? e.presetId = some preset := by
  unfold validate at h
  obtain ⟨_, -, h⟩ := eq_ok_of_bind h
  split at h
  · cases h
  rename_i hnone
  obtain ⟨i, hi⟩ := List.getElem?_of_mem he
  have hplaced : (e, i) ∈ p.placedEntries := List.mk_mem_zipIdx_iff_getElem?.mpr hi
  have hany := List.find?_eq_none.mp hnone (e, i) hplaced
  rw [Bool.not_eq_true', Bool.not_eq_false, ← Preset.Registry.get?_ofArtifacts_isSome,
    Option.isSome_iff_exists] at hany
  exact hany

/-! ## Turns -/

section

variable (host : Host) {t : Turn} {preset : Preset}

/-- The problems of an entry whose preset is there: those of resolving its input come first, and the
others are of other kinds. -/
theorem Turn.exists_notes (henabled : t.entry.disabled = false)
    (hpreset : host.registry.get? t.entry.presetId = some preset) :
    ∃ notes, t.notes host = ((Reference.resolve host.pool t.entry.input).notes ++ notes).map
        (·.withPreset t.entry.presetId) ∧
      ∀ d ∈ notes, d.kind ∈ .attachmentTargetNotFound :: Setback.kinds := by
  rw [t.notes_enabled host henabled]
  have hattempt : (attempt host t.found t.entry).notes =
      (Reference.resolve host.pool t.entry.input).notes ++
        (runPreset host t.found preset t.entry.type
          (Reference.resolve host.pool t.entry.input).value).notes := by
    rw [attempt, hpreset]
    rfl
  rw [hattempt, List.append_assoc]
  refine ⟨_, rfl, fun d hd => ?_⟩
  rcases List.mem_append.mp hd with hd | hd
  · have hkind := runPreset_notes host t.found preset t.entry.type _ d hd
    exact List.mem_cons.mpr (.inl (List.mem_singleton.mp hkind))
  · split at hd
    · cases hd
    · rename_i s houtcome
      rw [List.mem_singleton.mp hd]
      rcases attempt_setback host houtcome with ⟨hnone, -⟩ | hkind
      · rw [hpreset] at hnone
        cases hnone
      · exact List.mem_cons_of_mem _ hkind

theorem Turn.missingKeys_notes (henabled : t.entry.disabled = false)
    (hpreset : host.registry.get? t.entry.presetId = some preset) :
    missingKeys (t.notes host) =
      missingKeys (Reference.resolve host.pool t.entry.input).notes := by
  obtain ⟨notes, hnotes, hkinds⟩ := t.exists_notes host henabled hpreset
  have hother : missingKeys notes = [] := by
    have hkind : Diagnostic.Kind.referenceNotFound ∉ .attachmentTargetNotFound :: Setback.kinds := by
      decide
    exact (missingKeys_eq_nil_iff notes).mpr fun d hd h => hkind (h ▸ hkinds d hd)
  rw [hnotes, missingKeys_withPreset, missingKeys_append, hother, List.append_nil]

theorem Turn.kind_ne_presetNotFound
    (hpreset : host.registry.get? t.entry.presetId = some preset) :
    ∀ d ∈ t.notes host, d.kind ≠ .presetNotFound := by
  rcases henabled : t.entry.disabled with _ | _
  · obtain ⟨notes, hnotes, hkinds⟩ := t.exists_notes host henabled hpreset
    have hkind : Diagnostic.Kind.presetNotFound ∉ .attachmentTargetNotFound :: Setback.kinds := by
      decide
    have hkind' : Diagnostic.Kind.presetNotFound ∉ Reference.kinds := by decide
    rw [hnotes]
    intro d hd hpresetNotFound
    obtain ⟨d', hd', rfl⟩ := List.mem_map.mp hd
    have hd'kind : d'.kind = .presetNotFound := hpresetNotFound
    rcases List.mem_append.mp hd' with hd' | hd'
    · exact hkind' (hd'kind ▸ Reference.resolve_notes host.pool t.entry.input d' hd')
    · exact hkind (hd'kind ▸ hkinds d' hd')
  · rw [t.notes_disabled host henabled]
    exact nofun

end

/-! ## The check -/

theorem Project.missingIn_eq_some_iff {pool : Reference.Pool} {e : Preset.Entry} {i : Nat}
    {m : Missing} :
    missingIn pool e i = some m ↔
      e.disabled = false ∧ m.index = i ∧ m.presetId = e.presetId ∧ m.keys ≠ [] ∧
        m.keys = Reference.missing pool e.input := by
  rw [missingIn]
  split
  · rename_i hnone
    rw [Bool.or_eq_true, List.isEmpty_iff] at hnone
    refine ⟨nofun, fun ⟨henabled, _, _, hne, hkeys⟩ => ?_⟩
    rcases hnone with hdisabled | hnil
    · rw [henabled] at hdisabled
      cases hdisabled
    · exact absurd (hkeys.trans hnil) hne
  · rename_i hsome
    rw [Bool.or_eq_true, List.isEmpty_iff, not_or, Bool.not_eq_true] at hsome
    refine ⟨fun h => ?_, fun ⟨_, hindex, hid, _, hkeys⟩ => ?_⟩
    · cases h
      exact ⟨hsome.1, rfl, rfl, hsome.2, rfl⟩
    · rw [← hindex, ← hid, ← hkeys]

theorem Project.mem_missingReferences {p : Project} {m : Missing} :
    m ∈ p.missingReferences ↔
      ∃ e, p.entries[m.index]? = some e ∧ e.disabled = false ∧ m.presetId = e.presetId ∧
        m.keys ≠ [] ∧ m.keys = Reference.missing p.pool e.input := by
  rw [missingReferences, List.mem_filterMap]
  constructor
  · rintro ⟨⟨e, i⟩, hplaced, hm⟩
    obtain ⟨henabled, rfl, hkeys⟩ := missingIn_eq_some_iff.mp hm
    exact ⟨e, List.mk_mem_zipIdx_iff_getElem?.mp hplaced, henabled, hkeys⟩
  · rintro ⟨e, he, henabled, hkeys⟩
    exact ⟨(e, m.index), List.mk_mem_zipIdx_iff_getElem?.mpr he,
      missingIn_eq_some_iff.mpr ⟨henabled, rfl, hkeys⟩⟩

theorem Project.registered_of_mem_turns {p : Project} (h : p.validate = .ok ()) {t : Turn}
    (ht : t ∈ turns p.host p.baseDocument p.entries) :
    ∃ preset, p.host.registry.get? t.entry.presetId = some preset := by
  refine registered_of_validate h ?_
  rw [← map_entry_turns p.host p.baseDocument p.entries]
  exact List.mem_map_of_mem ht

theorem Project.mem_missingReferences_iff_turn {p : Project} (h : p.validate = .ok ())
    {m : Missing} :
    m ∈ p.missingReferences ↔
      ∃ t, (turns p.host p.baseDocument p.entries)[m.index]? = some t ∧
        t.entry.disabled = false ∧ m.presetId = t.entry.presetId ∧ m.keys ≠ [] ∧
        m.keys = (missingKeys (t.notes p.host)).eraseDups := by
  have hkeys : ∀ t ∈ turns p.host p.baseDocument p.entries, t.entry.disabled = false →
      Reference.missing p.pool t.entry.input = (missingKeys (t.notes p.host)).eraseDups := by
    intro t ht henabled
    obtain ⟨preset, hpreset⟩ := registered_of_mem_turns h ht
    rw [t.missingKeys_notes p.host henabled hpreset]
    exact Reference.missing_eq_eraseDups p.pool t.entry.input
  have hentries := map_entry_turns p.host p.baseDocument p.entries
  rw [mem_missingReferences]
  constructor
  · rintro ⟨e, he, henabled, hid, hne, hmissing⟩
    rw [← hentries, List.getElem?_map, Option.map_eq_some_iff] at he
    obtain ⟨t, ht, rfl⟩ := he
    exact ⟨t, ht, henabled, hid, hne,
      hmissing.trans (hkeys t (List.mem_of_getElem? ht) henabled)⟩
  · rintro ⟨t, ht, henabled, hid, hne, hnoted⟩
    refine ⟨t.entry, ?_, henabled, hid, hne,
      hnoted.trans (hkeys t (List.mem_of_getElem? ht) henabled).symm⟩
    rw [← hentries, List.getElem?_map, ht]
    rfl

theorem Project.missingReferences_eq_nil_iff {p : Project} (h : p.validate = .ok ()) :
    p.missingReferences = [] ↔
      ∀ t ∈ turns p.host p.baseDocument p.entries, missingKeys (t.notes p.host) = [] := by
  rw [List.eq_nil_iff_forall_not_mem]
  constructor
  · intro hnone t ht
    rcases henabled : t.entry.disabled with _ | _
    · by_contra hkeys
      obtain ⟨i, hi⟩ := List.getElem?_of_mem ht
      have hne : (missingKeys (t.notes p.host)).eraseDups ≠ [] := by
        obtain ⟨key, hkey⟩ := List.exists_mem_of_ne_nil _ hkeys
        exact List.ne_nil_of_mem (List.mem_eraseDups.mpr hkey)
      exact hnone ⟨i, t.entry.presetId, (missingKeys (t.notes p.host)).eraseDups⟩
        ((mem_missingReferences_iff_turn h).mpr ⟨t, hi, henabled, rfl, hne, rfl⟩)
    · rw [t.notes_disabled p.host henabled]
      rfl
  · intro hnone m hm
    obtain ⟨t, ht, -, -, hne, hkeys⟩ := (mem_missingReferences_iff_turn h).mp hm
    rw [hnone t (List.mem_of_getElem? ht)] at hkeys
    exact hne hkeys

/-- **The check for missing references says what the pass will note.** In a valid project an entry is
reported exactly if it is not disabled and its turn notes references that are not defined, and with
it their keys, each where it is noted first. No preset is found not to be there, and nothing is
reported exactly if the pass notes no reference that is not defined. -/
theorem Project.missingReferences_predict {p : Project} (h : p.validate = .ok ()) :
    ∃ r, p.generate false = .ok r ∧
      (turns p.host p.baseDocument p.entries).map Turn.entry = p.entries ∧
      r.notes = (turns p.host p.baseDocument p.entries).flatMap (·.notes p.host) ∧
      (∀ m, m ∈ p.missingReferences ↔
        ∃ t, (turns p.host p.baseDocument p.entries)[m.index]? = some t ∧
          t.entry.disabled = false ∧ m.presetId = t.entry.presetId ∧ m.keys ≠ [] ∧
          m.keys = (missingKeys (t.notes p.host)).eraseDups) ∧
      (∀ d ∈ r.notes, d.kind ≠ .presetNotFound) ∧
      (p.missingReferences = [] ↔ ∀ d ∈ r.notes, d.kind ≠ .referenceNotFound) := by
  have hnotes := notes_lenientPass p.host p.baseDocument p.entries
  refine ⟨lenientPass p.host p.baseDocument p.entries, rfl, map_entry_turns _ _ _, hnotes,
    fun m => mem_missingReferences_iff_turn h, ?_, ?_⟩
  · rw [hnotes]
    intro d hd
    obtain ⟨t, ht, hd⟩ := List.mem_flatMap.mp hd
    obtain ⟨preset, hpreset⟩ := registered_of_mem_turns h ht
    exact t.kind_ne_presetNotFound p.host hpreset d hd
  · rw [missingReferences_eq_nil_iff h, hnotes]
    simp only [missingKeys_eq_nil_iff]
    exact List.forall_mem_flatMap.symm

/-- Of two keys that are not defined one is used three times, and named once by the check. What the
disabled entry uses is named by neither. -/
theorem Project.missingReferences_repeatedKey :
    let p : Project :=
      { references := [⟨"a", .string, .string "x"⟩]
        presets := [{ id := "p", source := "() => null" }]
        entries := [⟨"p", .full, .object [("x", .string "data:[b], data:[a] and data:[c][0]"),
            ("y", .array [.string "data:[ b ]", .string "data:[b]!"])], false⟩,
          ⟨"p", .full, .string "data:[d]", true⟩, ⟨"p", .data, .string "data:[a]", false⟩] }
    p.validate = .ok () ∧ p.missingReferences = [⟨0, "p", ["b", "c"]⟩] ∧
      ∃ r t, p.generate false = .ok r ∧ (turns p.host p.baseDocument p.entries)[0]? = some t ∧
        (missingKeys (t.notes p.host)).eraseDups = ["b", "c"] ∧
        ∃ d ∈ r.notes, d.kind = .referenceNotFound := by
  intro p
  have hvalid : p.validate = .ok () := by
    have hbase : p.baseDocument = {} := rfl
    have hdocument : ({} : Document).validate = .ok () := rfl
    rw [validate, hbase, hdocument, ok_bind]
    cbv
  have hmissing : p.missingReferences = [⟨0, "p", ["b", "c"]⟩] := by cbv
  obtain ⟨r, hr, -, -, hreported, -, hnothing⟩ := missingReferences_predict hvalid
  have hmem : ⟨0, "p", ["b", "c"]⟩ ∈ p.missingReferences := by
    rw [hmissing]
    exact List.mem_cons_self
  obtain ⟨t, ht, -, -, -, hkeys⟩ := (hreported _).mp hmem
  refine ⟨hvalid, hmissing, r, t, hr, ht, hkeys.symm, ?_⟩
  by_contra hnone
  have hnil := hnothing.mpr fun d hd hkind => hnone ⟨d, hd, hkind⟩
  rw [hmissing] at hnil
  cases hnil

end Montage
