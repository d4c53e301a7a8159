import Montage.Json.Basic

/-!
# Members

What `Fields.get?` finds after a member has been written, and after the members of one list have
been written over those of another: of a key that is written more than once the last value counts.
Writing keeps keys distinct, members with new keys come at the end, and members that are there
already change nothing.
-/

namespace Montage.Fields

variable {α : Type}

theorem overlay_cons (fields : List (String × α)) (member : String × α)
    (rest : List (String × α)) :
    overlay fields (member :: rest) = overlay (insert fields member.1 member.2) rest := rfl

/-! ## Looking members up -/

theorem mem_of_get? {fields : List (String × α)} {key : String} {value : α}
    (h : get? fields key = some value) : (key, value) ∈ fields := by
  induction fields with
  | nil => cases h
  | cons field rest ih =>
    rw [get?] at h
    split at h
    next hkey =>
      cases h
      rw [← hkey]
      exact List.mem_cons_self
    next => exact List.mem_cons_of_mem _ (ih h)

theorem hasKey_eq_isSome (fields : List (String × α)) (key : String) :
    hasKey fields key = (get? fields key).isSome := by
  induction fields with
  | nil => rfl
  | cons field rest ih =>
    obtain ⟨k, v⟩ := field
    rw [hasKey, List.any_cons, get?]
    by_cases hk : k = key
    · rw [if_pos hk, beq_iff_eq.mpr hk, Bool.true_or, Option.isSome_some]
    · rw [if_neg hk, beq_eq_false_iff_ne.mpr hk, Bool.false_or, ← ih, hasKey]

theorem get?_insert (fields : List (String × α)) (key : String) (value : α) (k : String) :
    get? (insert fields key value) k = if key = k then some value else get? fields k := by
  induction fields with
  | nil => rfl
  | cons field rest ih =>
    obtain ⟨key', v⟩ := field
    rw [insert]
    by_cases hkey : key' = key
    · subst hkey
      rw [if_pos rfl, get?, get?]
      split <;> rfl
    · rw [if_neg hkey, get?, get?, ih]
      by_cases hk : key' = k
      · subst hk
        rw [if_pos rfl, if_pos rfl, if_neg (fun h => hkey h.symm)]
      · rw [if_neg hk, if_neg hk]

theorem get?_append (fields more : List (String × α)) (k : String) :
    get? (fields ++ more) k = (get? fields k).or (get? more k) := by
  induction fields with
  | nil => rfl
  | cons field rest ih =>
    rw [List.cons_append, get?, get?, ih]
    split <;> rfl

/-- A member that is written over the others hides those of its key, and of two with the same key
the one that is written later. -/
theorem get?_overlay (patch : List (String × α)) (k : String) :
    ∀ fields : List (String × α),
      get? (overlay fields patch) k = (get? patch.reverse k).or (get? fields k) := by
  induction patch with
  | nil => exact fun _ => rfl
  | cons member rest ih =>
    intro fields
    obtain ⟨key, v⟩ := member
    rw [overlay_cons, ih, get?_insert, List.reverse_cons, get?_append, Option.or_assoc]
    congr 1
    rw [get?]
    split <;> rfl

theorem get?_filter {kind : String → Bool} {fields : List (String × α)}
    {key : String} (h : kind key) :
    get? (fields.filter fun member => kind member.1) key = get? fields key := by
  induction fields with
  | nil => rfl
  | cons field rest ih =>
    obtain ⟨k, v⟩ := field
    rw [List.filter_cons]
    by_cases hk : k = key
    · subst hk
      rw [if_pos h, get?, get?, if_pos rfl, if_pos rfl]
    · split
      · rw [get?, get?, if_neg hk, if_neg hk, ih]
      · rw [get?, if_neg hk, ih]

/-! ## Keys -/

theorem keys_cons (member : String × α) (fields : List (String × α)) :
    keys (member :: fields) = member.1 :: keys fields := rfl

theorem keys_append (fields more : List (String × α)) :
    keys (fields ++ more) = keys fields ++ keys more := List.map_append

theorem get?_of_mem {fields : List (String × α)} (hdistinct : (keys fields).Nodup)
    {member : String × α} (h : member ∈ fields) : get? fields member.1 = some member.2 := by
  induction fields with
  | nil => cases h
  | cons field rest ih =>
    rw [keys_cons, List.nodup_cons] at hdistinct
    rcases List.mem_cons.mp h with rfl | h
    · rw [get?, if_pos rfl]
    · have hne : field.1 ≠ member.1 := fun heq =>
        hdistinct.1 (heq ▸ List.mem_map_of_mem h)
      rw [get?, if_neg hne, ih hdistinct.2 h]

theorem insert_of_not_mem {fields : List (String × α)} {key : String} (value : α)
    (h : key ∉ keys fields) : insert fields key value = fields ++ [(key, value)] := by
  induction fields with
  | nil => rfl
  | cons field rest ih =>
    obtain ⟨k, v⟩ := field
    rw [keys_cons, List.mem_cons, not_or] at h
    rw [insert, if_neg (Ne.symm h.1), ih h.2, List.cons_append]

theorem exists_of_get? {fields : List (String × α)} {key : String} {value : α}
    (h : get? fields key = some value) :
    ∃ before after, fields = before ++ (key, value) :: after ∧ key ∉ keys before := by
  induction fields with
  | nil => cases h
  | cons field rest ih =>
    obtain ⟨k, v⟩ := field
    rw [get?] at h
    by_cases hk : k = key
    · rw [if_pos hk] at h
      cases h
      exact ⟨[], rest, by rw [hk, List.nil_append], List.not_mem_nil⟩
    · rw [if_neg hk] at h
      obtain ⟨before, after, hrest, hbefore⟩ := ih h
      refine ⟨(k, v) :: before, after, by rw [hrest, List.cons_append], ?_⟩
      rw [keys_cons, List.mem_cons, not_or]
      exact ⟨Ne.symm hk, hbefore⟩

theorem insert_append {before after : List (String × α)} {key : String} {v : α} (w : α)
    (h : key ∉ keys before) :
    insert (before ++ (key, v) :: after) key w = before ++ (key, w) :: after := by
  induction before with
  | nil => rw [List.nil_append, insert, if_pos rfl, List.nil_append]
  | cons field before ih =>
    obtain ⟨k, u⟩ := field
    rw [keys_cons, List.mem_cons, not_or] at h
    rw [List.cons_append, insert, if_neg (Ne.symm h.1), ih h.2, List.cons_append]

theorem keys_insert_of_mem {fields : List (String × α)} {key : String} (value : α)
    (h : key ∈ keys fields) : keys (insert fields key value) = keys fields := by
  induction fields with
  | nil => cases h
  | cons field rest ih =>
    obtain ⟨k, v⟩ := field
    rw [insert]
    split
    · rfl
    · rename_i hne
      rw [keys_cons, List.mem_cons] at h
      rw [keys_cons, keys_cons, ih (h.resolve_left fun heq => hne heq.symm)]

theorem mem_keys_insert {fields : List (String × α)} {key k : String} {value : α} :
    k ∈ keys (insert fields key value) ↔ k ∈ keys fields ∨ k = key := by
  by_cases h : key ∈ keys fields
  · rw [keys_insert_of_mem value h]
    refine ⟨.inl, fun hk => hk.elim id fun heq => ?_⟩
    rw [heq]
    exact h
  · rw [insert_of_not_mem value h, keys_append, List.mem_append]
    exact or_congr_right List.mem_singleton

theorem nodup_keys_insert {fields : List (String × α)} (key : String) (value : α)
    (h : (keys fields).Nodup) : (keys (insert fields key value)).Nodup := by
  by_cases hkey : key ∈ keys fields
  · rw [keys_insert_of_mem value hkey]
    exact h
  · rw [insert_of_not_mem value hkey, keys_append, List.nodup_append]
    refine ⟨h, List.pairwise_singleton _ _, fun k hk k' hk' heq => ?_⟩
    rw [heq, List.mem_singleton.mp hk'] at hk
    exact hkey hk

theorem mem_keys_overlay {patch : List (String × α)} {k : String} :
    ∀ {fields : List (String × α)},
      k ∈ keys (overlay fields patch) ↔ k ∈ keys fields ∨ k ∈ keys patch := by
  induction patch with
  | nil => exact fun {_} => ⟨.inl, fun h => h.resolve_right List.not_mem_nil⟩
  | cons member rest ih =>
    intro fields
    rw [overlay_cons, ih, mem_keys_insert, keys_cons, List.mem_cons, or_assoc]

theorem keys_overlay_of_subset {patch : List (String × α)} :
    ∀ {fields : List (String × α)}, keys patch ⊆ keys fields →
      keys (overlay fields patch) = keys fields := by
  induction patch with
  | nil => exact fun _ => rfl
  | cons member rest ih =>
    intro fields h
    rw [keys_cons, List.cons_subset] at h
    have hkeys := keys_insert_of_mem member.2 h.1
    rw [overlay_cons, ih (hkeys ▸ h.2), hkeys]

theorem nodup_keys_overlay (patch : List (String × α)) :
    ∀ {fields : List (String × α)}, (keys fields).Nodup →
      (keys (overlay fields patch)).Nodup := by
  induction patch with
  | nil => exact id
  | cons member rest ih => exact fun h => ih (nodup_keys_insert member.1 member.2 h)

theorem overlay_eq_append {patch : List (String × α)} :
    ∀ {fields : List (String × α)}, (keys (fields ++ patch)).Nodup →
      overlay fields patch = fields ++ patch := by
  induction patch with
  | nil => exact fun {fields} _ => (List.append_nil fields).symm
  | cons member rest ih =>
    intro fields h
    obtain ⟨key, value⟩ := member
    have hnew : key ∉ keys fields := by
      rw [keys_append, List.nodup_append] at h
      exact fun hkey => h.2.2 key hkey key List.mem_cons_self rfl
    rw [List.append_cons] at h ⊢
    rw [overlay_cons, insert_of_not_mem value hnew]
    exact ih h

/-! ## Writing again -/

theorem insert_insert (fields : List (String × α)) (key : String) (v w : α) :
    insert (insert fields key v) key w = insert fields key w := by
  induction fields with
  | nil => simp [insert]
  | cons field rest ih =>
    obtain ⟨k, u⟩ := field
    by_cases hk : k = key
    · simp [insert, hk]
    · simp [insert, hk, ih]

theorem insert_comm {fields : List (String × α)} {key key' : String} (v w : α) (hne : key ≠ key')
    (h : key ∈ keys fields) :
    insert (insert fields key v) key' w = insert (insert fields key' w) key v := by
  induction fields with
  | nil => cases h
  | cons field rest ih =>
    obtain ⟨k, u⟩ := field
    rw [keys_cons, List.mem_cons] at h
    by_cases hk : k = key
    · have hk' : k ≠ key' := fun heq => hne (hk.symm.trans heq)
      simp [insert, hk, hk ▸ hk']
    by_cases hk' : k = key'
    · simp [insert, hk', Ne.symm hne]
    · have hrest : key ∈ keys rest := h.resolve_left fun heq => hk heq.symm
      simp [insert, hk, hk', ih hrest]

theorem insert_of_get? {fields : List (String × α)} {key : String} {v : α}
    (h : get? fields key = some v) : insert fields key v = fields := by
  induction fields with
  | nil => cases h
  | cons field rest ih =>
    obtain ⟨k, u⟩ := field
    rw [get?] at h
    by_cases hk : k = key
    · rw [if_pos hk] at h
      cases h
      simp [insert, hk]
    · rw [if_neg hk] at h
      simp [insert, hk, ih h]

theorem overlay_insert_of_mem {patch : List (String × α)} {key : String} (v : α) :
    ∀ {fields : List (String × α)}, key ∈ keys fields → key ∈ keys patch →
      overlay (insert fields key v) patch = overlay fields patch := by
  induction patch with
  | nil => exact fun _ h => nomatch h
  | cons member rest ih =>
    intro fields hfields hpatch
    obtain ⟨k, w⟩ := member
    rw [overlay_cons, overlay_cons]
    by_cases hk : key = k
    · rw [hk, insert_insert]
    · have hrest : key ∈ keys rest := (List.mem_cons.mp hpatch).resolve_left hk
      rw [insert_comm v w hk hfields]
      exact ih (mem_keys_insert.mpr (.inl hfields)) hrest

theorem isSome_get?_iff {fields : List (String × α)} {key : String} :
    (get? fields key).isSome ↔ key ∈ keys fields := by
  rw [← hasKey_eq_isSome, hasKey, List.any_eq_true, keys, List.mem_map]
  simp

theorem mem_keys_reverse {fields : List (String × α)} {key : String} :
    key ∈ keys fields.reverse ↔ key ∈ keys fields := by
  simp [keys]

theorem overlay_eq_self {patch : List (String × α)} :
    ∀ {fields : List (String × α)},
      (∀ key ∈ keys patch, get? fields key = get? patch.reverse key) →
        overlay fields patch = fields := by
  induction patch with
  | nil => exact fun _ => rfl
  | cons member rest ih =>
    intro fields h
    obtain ⟨k, v⟩ := member
    rw [keys_cons, List.forall_mem_cons, List.reverse_cons] at h
    obtain ⟨hk, hrest⟩ := h
    have hsame : overlay fields rest = fields := by
      refine ih fun key hkey => ?_
      have hsome := isSome_get?_iff.mpr (mem_keys_reverse.mpr hkey)
      rw [hrest key hkey, get?_append, Option.or_of_isSome hsome]
    rw [overlay_cons]
    rw [get?_append] at hk
    by_cases hmem : k ∈ keys rest
    · have hsome := isSome_get?_iff.mpr (mem_keys_reverse.mpr hmem)
      have hfields : k ∈ keys fields := by
        rw [← isSome_get?_iff, hk, Option.or_of_isSome hsome]
        exact hsome
      rw [overlay_insert_of_mem v hfields hmem, hsame]
    · have hnone : get? rest.reverse k = none := by
        rw [← Option.not_isSome_iff_eq_none, isSome_get?_iff, mem_keys_reverse]
        exact hmem
      rw [hnone, Option.none_or, get?, if_pos rfl] at hk
      rw [insert_of_get? hk, hsame]

theorem overlay_overlay (fields patch : List (String × α)) :
    overlay (overlay fields patch) patch = overlay fields patch := by
  refine overlay_eq_self fun key hkey => ?_
  have hsome := isSome_get?_iff.mpr (mem_keys_reverse.mpr hkey)
  rw [get?_overlay, Option.or_of_isSome hsome]

/-- A member that is there keeps its place, so it may as well be written before the others. -/
theorem overlay_insert {patch : List (String × α)} {key : String} (v : α) :
    ∀ {fields : List (String × α)}, key ∈ keys fields → key ∉ keys patch →
      overlay (insert fields key v) patch = insert (overlay fields patch) key v := by
  induction patch with
  | nil => exact fun _ _ => rfl
  | cons member rest ih =>
    intro fields hfields hpatch
    obtain ⟨k, w⟩ := member
    rw [keys_cons, List.mem_cons, not_or] at hpatch
    rw [overlay_cons, overlay_cons, insert_comm v w hpatch.1 hfields]
    exact ih (mem_keys_insert.mpr (.inl hfields)) hpatch.2

theorem overlay_insert_right {patch : List (String × α)} (key : String) (v : α) :
    ∀ {fields : List (String × α)}, (keys patch).Nodup →
      overlay fields (insert patch key v) = insert (overlay fields patch) key v := by
  induction patch with
  | nil => exact fun _ => rfl
  | cons member rest ih =>
    intro fields hdistinct
    obtain ⟨k, w⟩ := member
    rw [keys_cons, List.nodup_cons] at hdistinct
    rw [insert]
    by_cases hk : k = key
    · subst hk
      have hthere : k ∈ keys (insert fields k w) := mem_keys_insert.mpr (.inr rfl)
      rw [if_pos rfl, overlay_cons, overlay_cons, ← overlay_insert v hthere hdistinct.1,
        insert_insert]
    · rw [if_neg hk, overlay_cons, overlay_cons]
      exact ih hdistinct.2

theorem overlay_assoc (fields : List (String × α)) {patch : List (String × α)}
    (more : List (String × α)) (hdistinct : (keys patch).Nodup) :
    overlay fields (overlay patch more) = overlay (overlay fields patch) more := by
  induction more generalizing patch with
  | nil => rfl
  | cons member rest ih =>
    rw [overlay_cons, overlay_cons, ih (nodup_keys_insert _ _ hdistinct),
      overlay_insert_right _ _ hdistinct]

theorem filter_overlay (kind : String → Bool) (patch : List (String × α)) :
    ∀ fields : List (String × α),
      (overlay fields patch).filter (fun member => kind member.1) =
        overlay (fields.filter fun member => kind member.1)
          (patch.filter fun member => kind member.1) := by
  have hinsert : ∀ (fields : List (String × α)) (key : String) (v : α),
      (insert fields key v).filter (fun member => kind member.1) =
        if kind key then insert (fields.filter fun member => kind member.1) key v
        else fields.filter fun member => kind member.1 := by
    intro fields key v
    induction fields with
    | nil => cases hkey : kind key <;> simp [insert, hkey]
    | cons field rest ih =>
      obtain ⟨k, u⟩ := field
      by_cases hk : k = key
      · subst hk
        cases hkind : kind k <;> simp [insert, hkind]
      · cases hkind : kind k <;> cases hkey : kind key <;>
          simp [insert, hk, hkind, hkey, ih]
  induction patch with
  | nil => exact fun _ => rfl
  | cons member rest ih =>
    intro fields
    obtain ⟨key, v⟩ := member
    rw [overlay_cons, ih, hinsert, List.filter_cons]
    cases hkey : kind key
    · simp
    · simp [overlay_cons]

end Montage.Fields
