import Montage.Proofs.Json.Writing
import Montage.Proofs.Scene.Wire

/-!
# Settings with members written over them

A patch of the settings is written over what is written of them, and the whole is read again. Each
part is read from the patch if the patch has it, and else as it was; the members besides the parts
are those of the settings with those of the patch over them.
-/

namespace Montage.Scene

open Decode

/-- The member under a key is there and is read as the value. -/
def ReadAs {α : Type} (members : Fields) (key : String) (decode : Json → Decoded α) (a : α) :
    Prop :=
  ∃ v, Fields.get? members key = some v ∧ decode v = .ok a

structure Config.Reads (members : Fields) (c : Config) : Prop where
  duration : ReadAs members "duration" float c.duration
  width : ReadAs members "width" natural32 c.width
  height : ReadAs members "height" natural32 c.height
  fps : ReadAs members "fps" float c.fps
  extra : members.filter (fun member => !Config.parts.contains member.1) = c.extra

theorem readAs_iff {α : Type} {members : Fields} {key : String} {decode : Json → Decoded α} {a : α}
    {v : Json} (hv : Fields.get? members key = some v) :
    ReadAs members key decode a ↔ decode v = .ok a := by
  simp [ReadAs, hv]

theorem Config.ofJson_eq_ok_iff {members : Fields} {c : Config}
    (hkeys : Fields.keys (members.filter fun member => parts.contains member.1) = parts) :
    ofJson (.object members) = .ok c ↔ Reads members c := by
  generalize hown : (members.filter fun member => parts.contains member.1) = own at hkeys
  have hread : ofJson (.object members) = (do
      let d ← own.foldlM (fun d member => read d member.1 member.2) ({} : Config)
      return { d with extra := members.filter fun member => !parts.contains member.1 }) := by
    rw [ofJson, openRecord, foldlM_parts read_of_not_mem, hown]
    cases own.foldlM (fun d member => read d member.1 member.2) ({} : Config) <;> rfl
  obtain ⟨v₁, v₂, v₃, v₄, rfl⟩ : ∃ v₁ v₂ v₃ v₄,
      own = [("duration", v₁), ("width", v₂), ("height", v₃), ("fps", v₄)] := by
    match own, hkeys with
    | [(_, v₁), (_, v₂), (_, v₃), (_, v₄)], hkeys =>
      simp only [Fields.keys, List.map_cons, List.map_nil, parts, List.cons.injEq] at hkeys
      obtain ⟨rfl, rfl, rfl, rfl, -⟩ := hkeys
      exact ⟨v₁, v₂, v₃, v₄, rfl⟩
  have hget : ∀ key ∈ parts, Fields.get? members key = Fields.get?
      [("duration", v₁), ("width", v₂), ("height", v₃), ("fps", v₄)] key := fun key hkey => by
    rw [← hown, Fields.get?_filter (List.contains_iff_mem.mpr hkey)]
  rw [hread]
  constructor
  · intro h
    obtain ⟨d, hd, h⟩ := eq_ok_of_bind h
    cases h
    obtain ⟨d₁, h₁, hd⟩ := eq_ok_of_bind hd
    obtain ⟨duration, hduration, h₁⟩ := eq_ok_of_bind h₁
    cases h₁
    obtain ⟨d₂, h₂, hd⟩ := eq_ok_of_bind hd
    obtain ⟨width, hwidth, h₂⟩ := eq_ok_of_bind h₂
    cases h₂
    obtain ⟨d₃, h₃, hd⟩ := eq_ok_of_bind hd
    obtain ⟨height, hheight, h₃⟩ := eq_ok_of_bind h₃
    cases h₃
    obtain ⟨d₄, h₄, hd⟩ := eq_ok_of_bind hd
    obtain ⟨fps, hfps, h₄⟩ := eq_ok_of_bind h₄
    cases h₄
    cases hd
    exact ⟨⟨v₁, hget _ (by decide), hduration⟩, ⟨v₂, hget _ (by decide), hwidth⟩,
      ⟨v₃, hget _ (by decide), hheight⟩, ⟨v₄, hget _ (by decide), hfps⟩, rfl⟩
  · intro h
    have hduration := (readAs_iff (hget "duration" (by decide))).mp h.duration
    have hwidth := (readAs_iff (hget "width" (by decide))).mp h.width
    have hheight := (readAs_iff (hget "height" (by decide))).mp h.height
    have hfps := (readAs_iff (hget "fps" (by decide))).mp h.fps
    rw [h.extra]
    simp [read, hduration, hwidth, hheight, hfps]

theorem Config.get?_toFields {c : Config} (hextra : Besides parts c.extra) :
    ∀ key ∈ parts, Fields.get? c.toFields key = Fields.get?
      [("duration", .ofFloat c.duration), ("width", .ofNat c.width.toNat),
        ("height", .ofNat c.height.toNat), ("fps", .ofFloat c.fps)] key := by
  intro key hkey
  rw [toFields, Fields.get?_overlay, hextra.get?_eq_none hkey, Option.none_or]

theorem Config.keys_written (c : Config) (patch : Fields) :
    Fields.keys ((Fields.overlay c.toFields patch).filter fun member => parts.contains member.1) =
      parts := by
  have hsubset : ∀ members : Fields,
      Fields.keys (members.filter fun member => parts.contains member.1) ⊆ parts := by
    intro members key hkey
    obtain ⟨member, hmember, rfl⟩ := List.mem_map.mp hkey
    exact List.contains_iff_mem.mp (List.mem_filter.mp hmember).2
  have hkeys : Fields.keys (c.toFields.filter fun member => parts.contains member.1) = parts := by
    rw [toFields, Fields.filter_overlay parts.contains]
    exact Fields.keys_overlay_of_subset (hsubset c.extra)
  rw [Fields.filter_overlay parts.contains, Fields.keys_overlay_of_subset, hkeys]
  rw [hkeys]
  exact hsubset patch

theorem ReadAs.again {α : Type} {decode : Json → Decoded α} {a : α} {key : String}
    {before after patch : Fields} (h : ReadAs (Fields.overlay before patch) key decode a)
    (hafter : ReadAs after key decode a) : ReadAs (Fields.overlay after patch) key decode a := by
  obtain ⟨v, hv, hread⟩ := h
  obtain ⟨w, hw, hagain⟩ := hafter
  rw [Fields.get?_overlay] at hv
  rw [ReadAs, Fields.get?_overlay, hw]
  cases hpatch : Fields.get? patch.reverse key with
  | none => exact ⟨w, Option.none_or, hagain⟩
  | some u =>
    rw [hpatch, Option.some_or] at hv
    cases hv
    exact ⟨v, Option.some_or, hread⟩

theorem Config.filter_toFields {c : Config} (hkeys : (Fields.keys c.extra).Nodup) :
    c.toFields.filter (fun member => !parts.contains member.1) =
      c.extra.filter fun member => !parts.contains member.1 := by
  have hnone : ∀ own : Fields, Fields.keys own = parts →
      own.filter (fun member => !parts.contains member.1) = [] := by
    intro own hown
    rw [List.filter_eq_nil_iff]
    intro member hmember
    have hkey : member.1 ∈ parts := hown ▸ List.mem_map_of_mem hmember
    simpa using hkey
  rw [toFields, Fields.filter_overlay fun key => !parts.contains key, hnone _ rfl]
  exact Fields.overlay_eq_append (hkeys.sublist (List.filter_sublist.map _))

theorem Config.besides_toFields {c : Config} (hextra : Besides parts c.extra) :
    c.toFields.filter (fun member => !parts.contains member.1) = c.extra := by
  rw [filter_toFields hextra.1, List.filter_eq_self]
  intro member hmember
  have hkey := hextra.2 member.1 (List.mem_map_of_mem hmember)
  simpa using hkey

/-- **Settings patched twice with the same members are the settings patched once.** -/
theorem Config.patch_patch {c c' : Config} {p : Fields} (h : c.patch p = .ok c') :
    c'.patch p = .ok c' := by
  rw [patch] at h ⊢
  by_cases hempty : p.isEmpty = true
  · rw [if_pos hempty]
  rw [if_neg hempty] at h ⊢
  obtain ⟨c₁, hread, h⟩ := eq_ok_of_bind h
  obtain ⟨_, hvalid, h⟩ := eq_ok_of_bind h
  cases h
  have hfirst := (ofJson_eq_ok_iff (keys_written c p)).mp (eq_ok_of_mapError hread)
  obtain ⟨hduration, hfps⟩ := isFinite_of_validate hvalid
  have hparts : parts.Nodup := by decide
  have hkeys : (Fields.keys (Fields.overlay c.toFields p)).Nodup :=
    Fields.nodup_keys_overlay p (Fields.nodup_keys_overlay c.extra hparts)
  have hextra : Besides parts c'.extra := hfirst.extra ▸ besides_filter hkeys
  have hget := get?_toFields hextra
  have hsecond : Reads (Fields.overlay c'.toFields p) c' := by
    refine ⟨hfirst.duration.again ⟨_, hget _ (by decide), float_ofFloat hduration⟩,
      hfirst.width.again ⟨_, hget _ (by decide), natural32_ofNat c'.width⟩,
      hfirst.height.again ⟨_, hget _ (by decide), natural32_ofNat c'.height⟩,
      hfirst.fps.again ⟨_, hget _ (by decide), float_ofFloat hfps⟩, ?_⟩
    rw [Fields.filter_overlay (fun key => !parts.contains key), besides_toFields hextra,
      ← hfirst.extra, Fields.filter_overlay (fun key => !parts.contains key),
      Fields.overlay_overlay]
  rw [(ofJson_eq_ok_iff (keys_written c' p)).mpr hsecond]
  show (do c'.validate; return c') = _
  rw [hvalid]
  rfl

/-! ## One patch after another -/

theorem readAs_overlay {α : Type} {decode : Json → Decoded α} {a : α} {key : String}
    {fields patch : Fields} :
    ReadAs (Fields.overlay fields patch) key decode a ↔
      match Fields.get? patch.reverse key with
      | some v => decode v = .ok a
      | none => ReadAs fields key decode a := by
  rw [ReadAs, Fields.get?_overlay]
  cases Fields.get? patch.reverse key with
  | none => rfl
  | some v => simp

theorem ReadAs.unique {α : Type} {decode : Json → Decoded α} {a b : α} {key : String}
    {fields : Fields} (ha : ReadAs fields key decode a) (hb : ReadAs fields key decode b) :
    a = b := by
  obtain ⟨v, hv, ha⟩ := ha
  exact Except.ok.inj (ha.symm.trans ((readAs_iff hv).mp hb))

theorem ReadAs.overlay_congr {α : Type} {decode : Json → Decoded α} {a b : α} {key : String}
    {fields written patch : Fields} (hfields : ReadAs fields key decode a)
    (hwritten : ReadAs written key decode a)
    (h : ReadAs (Fields.overlay written patch) key decode b) :
    ReadAs (Fields.overlay fields patch) key decode b := by
  rw [readAs_overlay] at h ⊢
  split
  · next v hv =>
    rw [hv] at h
    exact h
  · next hnone =>
    rw [hnone] at h
    exact h.unique hwritten ▸ hfields

theorem ReadAs.eq_of_overlay {α : Type} {decode : Json → Decoded α} {a b : α} {key : String}
    {fields patch : Fields} (h : ReadAs (Fields.overlay fields patch) key decode b)
    (hfields : ReadAs fields key decode a) (hkey : key ∉ Fields.keys patch) : b = a := by
  have hnone : Fields.get? patch.reverse key = none := by
    rw [← Option.not_isSome_iff_eq_none, Fields.isSome_get?_iff, Fields.mem_keys_reverse]
    exact hkey
  rw [readAs_overlay, hnone] at h
  exact h.unique hfields

namespace Config

theorem reads_toFields {c : Config} (h : c.Faithful) : Reads c.toFields c where
  duration := ⟨_, get?_toFields h.extra _ (by decide), float_ofFloat h.duration⟩
  width := ⟨_, get?_toFields h.extra _ (by decide), natural32_ofNat c.width⟩
  height := ⟨_, get?_toFields h.extra _ (by decide), natural32_ofNat c.height⟩
  fps := ⟨_, get?_toFields h.extra _ (by decide), float_ofFloat h.fps⟩
  extra := besides_toFields h.extra

theorem Reads.overlay_congr {fields written patch : Fields} {c c' : Config} (hfields : Reads fields c)
    (hwritten : Reads written c) (h : Reads (Fields.overlay written patch) c') :
    Reads (Fields.overlay fields patch) c' where
  duration := hfields.duration.overlay_congr hwritten.duration h.duration
  width := hfields.width.overlay_congr hwritten.width h.width
  height := hfields.height.overlay_congr hwritten.height h.height
  fps := hfields.fps.overlay_congr hwritten.fps h.fps
  extra := by
    rw [← h.extra, Fields.filter_overlay fun key => !parts.contains key,
      Fields.filter_overlay fun key => !parts.contains key, hfields.extra, hwritten.extra]

/-- A patch with members succeeds with the settings that are written with the patch over them, if
these are valid. -/
theorem patch_eq_ok_iff {c c' : Config} {p : Fields} (hne : p ≠ []) :
    c.patch p = .ok c' ↔ Reads (Fields.overlay c.toFields p) c' ∧ c'.validate = .ok () := by
  rw [patch, if_neg (mt List.isEmpty_iff.mp hne), ← ofJson_eq_ok_iff (keys_written c p)]
  constructor
  · intro h
    obtain ⟨c₁, hread, h⟩ := eq_ok_of_bind h
    obtain ⟨_, hvalid, h⟩ := eq_ok_of_bind h
    cases h
    exact ⟨eq_ok_of_mapError hread, hvalid⟩
  · rintro ⟨hread, hvalid⟩
    rw [hread]
    show (do c'.validate; return c') = _
    rw [hvalid]
    rfl

theorem patch_overlay {c c₁ c₂ : Config} {p q : Fields} (hc : c.Faithful)
    (hp : (Fields.keys p).Nodup) (h₁ : c.patch p = .ok c₁) (h₂ : c₁.patch q = .ok c₂) :
    c.patch (Fields.overlay p q) = .ok c₂ := by
  by_cases hq : q = []
  · subst hq
    cases h₂
    exact h₁
  have hne : Fields.overlay p q ≠ [] := by
    obtain ⟨member, rest, rfl⟩ := List.exists_cons_of_ne_nil hq
    have hkey : member.1 ∈ Fields.keys (Fields.overlay p (member :: rest)) :=
      Fields.mem_keys_overlay.mpr (.inr List.mem_cons_self)
    exact fun h => List.not_mem_nil (h ▸ hkey)
  have hwritten := reads_toFields (faithful_patch h₁ hc)
  rw [patch_eq_ok_iff hq] at h₂
  rw [patch_eq_ok_iff hne, Fields.overlay_assoc _ _ hp]
  refine ⟨Reads.overlay_congr ?_ hwritten h₂.1, h₂.2⟩
  by_cases hempty : p = []
  · subst hempty
    cases h₁
    exact hwritten
  · exact ((patch_eq_ok_iff hempty).mp h₁).1

/-- The settings have all but the named parts and members as they were, and no member has changed
its place among the others. -/
structure KeepsBut (named : List String) (before after : Config) : Prop where
  duration : "duration" ∉ named → after.duration = before.duration
  width : "width" ∉ named → after.width = before.width
  height : "height" ∉ named → after.height = before.height
  fps : "fps" ∉ named → after.fps = before.fps
  extra : ∀ key ∉ named, Fields.get? after.extra key = Fields.get? before.extra key
  places : Fields.keys before.extra <+: Fields.keys after.extra

theorem KeepsBut.refl (named : List String) (c : Config) : KeepsBut named c c :=
  ⟨fun _ => rfl, fun _ => rfl, fun _ => rfl, fun _ => rfl, fun _ _ => rfl, List.prefix_rfl⟩

theorem keepsBut_of_patch {c c' : Config} {p : Fields} (hc : c.Faithful) (h : c.patch p = .ok c') :
    KeepsBut (Fields.keys p) c c' := by
  by_cases hne : p = []
  · subst hne
    cases h
    exact .refl _ _
  have hread := ((patch_eq_ok_iff hne).mp h).1
  have hbefore := reads_toFields hc
  have hextra := hread.extra
  rw [Fields.filter_overlay fun key => !parts.contains key, hbefore.extra] at hextra
  refine ⟨hread.duration.eq_of_overlay hbefore.duration, hread.width.eq_of_overlay hbefore.width,
    hread.height.eq_of_overlay hbefore.height, hread.fps.eq_of_overlay hbefore.fps,
    fun key hkey => ?_, ?_⟩
  · have hnone : Fields.valuesAt (p.filter fun member => !parts.contains member.1) key = [] :=
      Fields.valuesAt_eq_nil fun hmem =>
        hkey ((List.filter_sublist.map Prod.fst).subset hmem)
    rw [← hextra, Fields.get?_overlay_valuesAt, hnone]
    exact Option.none_or
  · rw [← hextra, Fields.overlay_eq_write, Fields.keys_write]
    exact List.prefix_append _ _

end Config

end Montage.Scene
