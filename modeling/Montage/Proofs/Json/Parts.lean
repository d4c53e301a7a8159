import Montage.Proofs.Json.WellFormed

/-!
# Parts of records

A record is written as an object or as the list of its parts, and its reader goes through the
members one after another. As no key comes twice, each part of what is read comes of the one member
with its name, and is as at the start where there is no such member.
-/

namespace Montage

/-- The members of a record, written as an object or as the list of its parts. -/
def Json.membersOf (parts : List String) : Json → Fields
  | .object members => members
  | .array items => parts.zip items
  | _ => []

def Json.part? (parts : List String) (v : Json) (name : String) : Option Json :=
  Fields.get? (v.membersOf parts) name

theorem Json.nodup_keys_membersOf {parts : List String} {v : Json} (hparts : parts.Nodup)
    (hv : v.WellFormed) : (Fields.keys (v.membersOf parts)).Nodup := by
  cases v with
  | object members => exact hv.1
  | array items =>
    have hkeys : Fields.keys (parts.zip items) <+: parts := by
      clear hparts hv
      induction parts generalizing items with
      | nil => rw [List.zip_nil_left]; exact List.prefix_rfl
      | cons part parts ih =>
        cases items with
        | nil => exact List.nil_prefix
        | cons item items => exact List.cons_prefix_cons.mpr ⟨rfl, ih items⟩
    exact hparts.sublist hkeys.sublist
  | _ => exact List.nodup_nil

theorem Json.wellFormed_of_part? {parts : List String} {v x : Json} {name : String}
    (hv : v.WellFormed) (h : v.part? parts name = some x) : x.WellFormed := by
  have hmem := Fields.mem_of_get? h
  cases v with
  | object members => exact fieldsWellFormed_iff.mp hv.2 _ hmem
  | array items => exact itemsWellFormed_iff.mp hv _ (List.of_mem_zip hmem).2
  | _ => cases hmem

namespace Decode

variable {δ α β : Type} {name : String} {parts : List String} {step : δ → String → Json → Decoded δ}
  {start d : δ}

/-- Reading the part with this name sets a part of the draft, and reading another one keeps it. -/
structure Sets (step : δ → String → Json → Decoded δ) (part : String) (get : δ → β)
    (Q : Json → β → Prop) : Prop where
  reads : ∀ {d v d'}, step d part v = .ok d' → Q v (get d')
  keeps : ∀ {d other v d'}, other ≠ part → step d other v = .ok d' → get d' = get d

namespace Sets

variable {part : String} {get : δ → β} {Q : Json → β → Prop}

theorem foldlM_of_not_mem (h : Sets step part get Q) {members : Fields}
    (hpart : part ∉ Fields.keys members) :
    ∀ {start : δ}, members.foldlM (fun d member => step d member.1 member.2) start = .ok d →
      get d = get start := by
  induction members with
  | nil =>
    intro start hread
    cases hread
    rfl
  | cons member rest ih =>
    intro start hread
    rw [Fields.keys_cons, List.mem_cons, not_or] at hpart
    obtain ⟨mid, hmid, hread⟩ := eq_ok_of_bind hread
    rw [ih hpart.2 hread, h.keeps (Ne.symm hpart.1) hmid]

theorem foldlM (h : Sets step part get Q) {members : Fields} (hkeys : (Fields.keys members).Nodup) :
    ∀ {start : δ}, members.foldlM (fun d member => step d member.1 member.2) start = .ok d →
      (Fields.get? members part).elim (get d = get start) fun v => Q v (get d) := by
  induction members with
  | nil => exact h.foldlM_of_not_mem List.not_mem_nil
  | cons member rest ih =>
    intro start hread
    obtain ⟨key, v⟩ := member
    rw [Fields.keys_cons, List.nodup_cons] at hkeys
    obtain ⟨mid, hmid, hread⟩ := eq_ok_of_bind hread
    rw [Fields.get?]
    by_cases hkey : key = part
    · subst hkey
      rw [if_pos rfl, Option.elim_some, h.foldlM_of_not_mem hkeys.1 hread]
      exact h.reads hmid
    · rw [if_neg hkey, ← h.keeps hkey hmid]
      exact ih hkeys.2 hread

end Sets

theorem exists_draft_of_record {finish : (String → DecodeError) → δ → Decoded α} {v : Json} {a : α}
    (h : record name parts step start finish v = .ok a) :
    ∃ missing d, (v.membersOf parts).foldlM (fun d member => step d member.1 member.2) start =
      .ok d ∧ finish missing d = .ok a := by
  cases v with
  | object members =>
    obtain ⟨d, hd, h⟩ := eq_ok_of_bind h
    exact ⟨_, d, hd, h⟩
  | array items =>
    obtain ⟨d, hd, h⟩ := eq_ok_of_bind h
    obtain ⟨b, hb, h⟩ := eq_ok_of_bind h
    split at h
    · cases h
    · cases h
      exact ⟨_, d, hd, hb⟩
  | _ => cases h

/-- An open record is written as an object, and keeps the members that are no parts. -/
theorem exists_members_of_openRecord {v : Json} {extra : Fields}
    (h : openRecord name parts step start v = .ok (d, extra)) :
    ∃ members, v = .object members ∧
      members.foldlM (fun d member => step d member.1 member.2) start = .ok d ∧
      extra = members.filter fun member => !parts.contains member.1 := by
  cases v with
  | object members =>
    obtain ⟨d', hd, h⟩ := eq_ok_of_bind h
    cases h
    exact ⟨members, rfl, hd, rfl⟩
  | _ => cases h

theorem object_eq_of_fields {o : Option Json} {fields : Fields}
    (h : o.elim (fields = []) fun v => Decode.fields v = .ok fields) :
    .object fields = o.getD (.object []) := by
  cases o with
  | none => exact congrArg Json.object h
  | some v =>
    cases v with
    | object members =>
      cases h
      rfl
    | _ => cases h

theorem exists_of_optional {value : Json → Decoded α} {v : Json} {o : Option α} (hv : v ≠ .null)
    (h : optional value v = .ok o) : ∃ a, o = some a ∧ value v = .ok a := by
  cases v with
  | null => exact absurd rfl hv
  | _ =>
    obtain ⟨a, ha, h⟩ := eq_ok_of_bind h
    cases h
    exact ⟨a, rfl, ha⟩

theorem forall₂_of_mapM {item : Json → Decoded α} {items : List Json} {as : List α}
    (h : items.mapM item = .ok as) : List.Forall₂ (fun v a => item v = .ok a) items as := by
  induction items generalizing as with
  | nil =>
    cases h
    exact .nil
  | cons v rest ih =>
    rw [List.mapM_cons] at h
    obtain ⟨a, ha, h⟩ := eq_ok_of_bind h
    obtain ⟨rest', hrest, h⟩ := eq_ok_of_bind h
    cases h
    exact .cons ha (ih hrest)

end Decode

end Montage
