import Mathlib
import Montage.Json.Decode
import Montage.Proofs.Decimal.Finite
import Montage.Proofs.Except
import Montage.Proofs.Json.Fields

/-!
# Well-formed values

The values that JSON has: no object has a key twice, and whole numbers have 64 bits. A decoder that
reads the parts of a record one after another keeps whatever each of its steps keeps, and a record
that is read back from its own parts is the same record.
-/

namespace Montage

/-! ## Values -/

/-- A whole number has 64 bits, with a sign or without. -/
@[simp] def Number.WellFormed : Number → Prop
  | .int n => -count64 ≤ 2 * n ∧ n < count64
  | .float _ _ => True

theorem Number.WellFormed.isFinite_toFloat {n : Number} (h : n.WellFormed) :
    n.toFloat.isFinite = true := by
  cases n with
  | int n =>
    obtain ⟨hlow, hhigh⟩ := h
    have hcount : (count64 : Int) = 2 ^ 64 := rfl
    exact Decimal.isFinite_ofInt (by omega)
  | float x finite => exact finite

mutual

/-- No object inside has a key twice, and all whole numbers have 64 bits. -/
@[simp] def Json.WellFormed : Json → Prop
  | .null | .bool _ | .string _ => True
  | .number n => n.WellFormed
  | .array items => itemsWellFormed items
  | .object fields => (Fields.keys fields).Nodup ∧ fieldsWellFormed fields

@[simp] def itemsWellFormed : List Json → Prop
  | [] => True
  | v :: rest => v.WellFormed ∧ itemsWellFormed rest

@[simp] def fieldsWellFormed : Fields → Prop
  | [] => True
  | (_, v) :: rest => v.WellFormed ∧ fieldsWellFormed rest

end

theorem itemsWellFormed_iff {items : List Json} :
    itemsWellFormed items ↔ ∀ v ∈ items, v.WellFormed := by
  induction items with
  | nil => exact ⟨fun _ => nofun, fun _ => trivial⟩
  | cons v rest ih => rw [itemsWellFormed, ih, List.forall_mem_cons]

theorem fieldsWellFormed_iff {fields : Fields} :
    fieldsWellFormed fields ↔ ∀ member ∈ fields, member.2.WellFormed := by
  induction fields with
  | nil => exact ⟨fun _ => nofun, fun _ => trivial⟩
  | cons member rest ih => rw [fieldsWellFormed, ih, List.forall_mem_cons]

namespace Decode

/-! ## What decoders give -/

/-- What the decoder makes of a well-formed value has the property. -/
def Gives {α : Type} (decode : Json → Decoded α) (P : α → Prop) : Prop :=
  ∀ v a, v.WellFormed → decode v = .ok a → P a

theorem gives_float : Gives float (·.isFinite = true) := by
  intro v x hv h
  cases v with
  | number n =>
    cases h
    exact hv.isFinite_toFloat
  | _ => cases h

theorem Gives.optional {α : Type} {P : α → Prop} {value : Json → Decoded α} (h : Gives value P) :
    Gives (optional value) fun a => ∀ b ∈ a, P b := by
  intro v a hv hva b hb
  unfold Decode.optional at hva
  split at hva
  · cases hva
    cases hb
  · obtain ⟨b', hb', ha⟩ := eq_ok_of_bind hva
    cases ha
    cases hb
    exact h _ _ hv hb'

theorem Gives.list {α : Type} {P : α → Prop} {item : Json → Decoded α} (h : Gives item P) :
    Gives (list item) fun as => ∀ a ∈ as, P a := by
  intro v as hv hvas
  cases v with
  | array items =>
    have hitems : ∀ v ∈ items, v.WellFormed := itemsWellFormed_iff.mp hv
    clear hv
    rw [Decode.list] at hvas
    induction items generalizing as with
    | nil =>
      cases hvas
      exact nofun
    | cons v rest ih =>
      rw [List.mapM_cons] at hvas
      obtain ⟨a, ha, hvas⟩ := eq_ok_of_bind hvas
      obtain ⟨rest', hrest, hvas⟩ := eq_ok_of_bind hvas
      cases hvas
      rw [List.forall_mem_cons] at hitems ⊢
      exact ⟨h _ _ hitems.1 ha, ih rest' hrest hitems.2⟩
  | _ => cases hvas

/-! ## Records -/

section

variable {δ α : Type} {name : String} {parts : List String} {step : δ → String → Json → Decoded δ}
  {start : δ} {P : δ → Prop}

def Keeps (step : δ → String → Json → Decoded δ) (P : δ → Prop) : Prop :=
  ∀ d part v d', v.WellFormed → P d → step d part v = .ok d' → P d'

theorem Keeps.foldlM (hstep : Keeps step P) {members : Fields}
    (hmembers : ∀ member ∈ members, member.2.WellFormed) :
    ∀ {d d' : δ}, P d → members.foldlM (fun d member => step d member.1 member.2) d = .ok d' →
      P d' := by
  induction members with
  | nil =>
    intro d d' hd h
    cases h
    exact hd
  | cons member rest ih =>
    intro d d' hd h
    rw [List.forall_mem_cons] at hmembers
    rw [List.foldlM_cons] at h
    obtain ⟨mid, hmid, h⟩ := eq_ok_of_bind h
    exact ih hmembers.2 (hstep _ _ _ _ hmembers.1 hd hmid) h

theorem Keeps.record {finish : (String → DecodeError) → δ → Decoded α} {Q : α → Prop}
    (hstep : Keeps step P) (hstart : P start)
    (hfinish : ∀ missing d a, P d → finish missing d = .ok a → Q a) :
    Gives (record name parts step start finish) Q := by
  intro v a hv h
  cases v with
  | object members =>
    obtain ⟨d, hd, h⟩ := eq_ok_of_bind h
    exact hfinish _ d a (hstep.foldlM (fieldsWellFormed_iff.mp hv.2) hstart hd) h
  | array items =>
    obtain ⟨d, hd, h⟩ := eq_ok_of_bind h
    obtain ⟨b, hb, h⟩ := eq_ok_of_bind h
    have hzip : ∀ member ∈ parts.zip items, member.2.WellFormed := fun member hmember =>
      itemsWellFormed_iff.mp hv member.2 (List.of_mem_zip hmember).2
    split at h
    · cases h
    · cases h
      exact hfinish _ d _ (hstep.foldlM hzip hstart hd) hb
  | _ => cases h

/-- The members that a record keeps besides its own parts: no key twice, and none of the parts. -/
def Besides (parts : List String) (extra : Fields) : Prop :=
  (Fields.keys extra).Nodup ∧ ∀ key ∈ Fields.keys extra, key ∉ parts

theorem besides_nil (parts : List String) : Besides parts [] := ⟨List.nodup_nil, nofun⟩

theorem Besides.overlay {extra more : Fields} (h : Besides parts extra)
    (hmore : Besides parts more) : Besides parts (Fields.overlay extra more) :=
  ⟨Fields.nodup_keys_overlay more h.1, fun key hkey =>
    (Fields.mem_keys_overlay.mp hkey).elim (h.2 key) (hmore.2 key)⟩

theorem Besides.get?_eq_none {extra : Fields} {key : String} (h : Besides parts extra)
    (hkey : key ∈ parts) : Fields.get? extra.reverse key = none := by
  rw [← Option.not_isSome_iff_eq_none, Fields.isSome_get?_iff, Fields.mem_keys_reverse]
  exact fun hmem => h.2 key hmem hkey

theorem besides_filter {members : Fields} (h : (Fields.keys members).Nodup) :
    Besides parts (members.filter fun member => !parts.contains member.1) := by
  refine ⟨h.sublist (List.filter_sublist.map _), fun key hkey => ?_⟩
  obtain ⟨member, hmember, rfl⟩ := List.mem_map.mp hkey
  have hcontains := (List.mem_filter.mp hmember).2
  rw [Bool.not_eq_true', ← Bool.not_eq_true, List.contains_iff_mem] at hcontains
  exact hcontains

theorem besides_of_openRecord {members extra : Fields} {d : δ}
    (hkeys : (Fields.keys members).Nodup)
    (h : openRecord name parts step start (.object members) = .ok (d, extra)) :
    Besides parts extra := by
  obtain ⟨_, -, h⟩ := eq_ok_of_bind h
  cases h
  exact besides_filter hkeys

theorem Keeps.openRecord (hstep : Keeps step P) (hstart : P start) :
    Gives (openRecord name parts step start) fun a => P a.1 ∧ Besides parts a.2 := by
  intro v a hv h
  cases v with
  | object members =>
    refine ⟨?_, besides_of_openRecord hv.1 h⟩
    obtain ⟨d, hd, h⟩ := eq_ok_of_bind h
    cases h
    exact hstep.foldlM (fieldsWellFormed_iff.mp hv.2) hstart hd
  | _ => cases h

end

/-! ## Reading back -/

theorem optional_ok {α : Type} {value : Json → Decoded α} {v : Json} {a : α} (hv : v ≠ .null)
    (h : value v = .ok a) : optional value v = .ok (some a) := by
  cases v with
  | null => exact absurd rfl hv
  | _ => exact congrArg (some <$> ·) h

theorem float_ofFloat {x : Float} (h : x.isFinite = true) : float (.ofFloat x) = .ok x := by
  rw [Json.ofFloat, Number.ofFloat?, dif_pos h]
  rfl

theorem ofFloat_ne_null {x : Float} (h : x.isFinite = true) : Json.ofFloat x ≠ .null := by
  rw [Json.ofFloat, Number.ofFloat?, dif_pos h]
  nofun

theorem natural32_ofNat (n : UInt32) : natural32 (.ofNat n.toNat) = .ok n := by
  have hn : (n.toNat : Int) < count32 := Int.ofNat_lt.mpr n.toNat_lt
  rw [Json.ofNat, natural32, if_pos ⟨Int.natCast_nonneg _, hn⟩, Int.toNat_natCast,
    UInt32.ofNat_toNat]

section

variable {δ : Type} {name : String} {parts : List String} {step : δ → String → Json → Decoded δ}

theorem keys_member? {α : Type} (key : String) (write : α → Json) (o : Option α) :
    (Fields.keys (Json.member? key write o)).Sublist [key] := by
  cases o with
  | none => exact List.nil_sublist _
  | some a => exact List.Sublist.refl _

theorem foldlM_parts (hskip : ∀ d key v, key ∉ parts → step d key v = .ok d) (members : Fields) :
    ∀ d, members.foldlM (fun d member => step d member.1 member.2) d =
      (members.filter fun member => parts.contains member.1).foldlM
        (fun d member => step d member.1 member.2) d := by
  induction members with
  | nil => exact fun _ => rfl
  | cons member rest ih =>
    intro d
    rw [List.foldlM_cons, List.filter_cons]
    by_cases hkey : member.1 ∈ parts
    · rw [if_pos (List.contains_iff_mem.mpr hkey), List.foldlM_cons]
      exact bind_congr fun d => ih d
    · rw [if_neg (mt List.contains_iff_mem.mp hkey), hskip _ _ _ hkey]
      exact ih d

theorem foldlM_besides (hskip : ∀ d key v, key ∉ parts → step d key v = .ok d) {extra : Fields}
    (hextra : ∀ key ∈ Fields.keys extra, key ∉ parts) (d : δ) :
    extra.foldlM (fun d member => step d member.1 member.2) d = .ok d := by
  have hnone : extra.filter (fun member => parts.contains member.1) = [] := by
    rw [List.filter_eq_nil_iff]
    intro member hmember
    exact mt List.contains_iff_mem.mp (hextra member.1 (List.mem_map_of_mem hmember))
  rw [foldlM_parts hskip, hnone]
  rfl

/-- An open record is read back from its own parts and the members besides. -/
theorem openRecord_overlay {start d : δ} {own extra : Fields}
    (hskip : ∀ d key v, key ∉ parts → step d key v = .ok d) (hparts : parts.Nodup)
    (hown : (Fields.keys own).Sublist parts) (hextra : Besides parts extra)
    (hread : own.foldlM (fun d member => step d member.1 member.2) start = .ok d) :
    openRecord name parts step start (.object (Fields.overlay own extra)) = .ok (d, extra) := by
  have hkeys : (Fields.keys (own ++ extra)).Nodup := by
    rw [Fields.keys_append, List.nodup_append]
    refine ⟨hparts.sublist hown, hextra.1, fun key hkey key' hkey' heq => ?_⟩
    rw [heq] at hkey
    exact hextra.2 key' hkey' (hown.subset hkey)
  have hfold : (own ++ extra).foldlM (fun d member => step d member.1 member.2) start = .ok d := by
    rw [List.foldlM_append, hread]
    exact foldlM_besides hskip hextra.2 d
  have hfilter : (own ++ extra).filter (fun member => !parts.contains member.1) = extra := by
    rw [List.filter_append, List.filter_eq_nil_iff.mpr, List.filter_eq_self.mpr, List.nil_append]
    · intro member hmember
      have hkey := hextra.2 member.1 (List.mem_map_of_mem hmember)
      rw [Bool.not_eq_true', ← Bool.not_eq_true, List.contains_iff_mem]
      exact hkey
    · intro member hmember
      have hkey := hown.subset (List.mem_map_of_mem hmember)
      rw [Bool.not_eq_true', Bool.not_eq_false, List.contains_iff_mem]
      exact hkey
  rw [Fields.overlay_eq_append hkeys]
  show ((own ++ extra).foldlM (fun d member => step d member.1 member.2) start >>= fun draft =>
    .ok (draft, (own ++ extra).filter fun member => !parts.contains member.1)) = _
  rw [hfold, ok_bind, hfilter]

end

end Decode

end Montage
