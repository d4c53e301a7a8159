import Mathlib
import Montage.Proofs.Reference.Dependence

/-!
# The flexible way beside the plain one

The flexible way leaves a token alone that stands among other characters, and it builds an object on
what a token under `$data` points at. A value with neither of the two is resolved alike both ways,
and no other value is. Whatever the value is, the keys that either way does not find are among the
missing keys, which are listed once each, in the order in which tokens first use them.
-/

namespace Montage

/-- A value stands in another one: it is that value, or it stands in an element or in a member. -/
inductive Json.PartOf (part : Json) : Json → Prop
  | here : PartOf part part
  | element {items : List Json} {v : Json} (hv : v ∈ items) (h : PartOf part v) :
    PartOf part (.array items)
  | member {fields : Fields} {field : String × Json} (hfield : field ∈ fields)
    (h : PartOf part field.2) : PartOf part (.object fields)

namespace Reference

/-! ## Values without the differences -/

/-- Each text in the value is one token or has none, and no object in it has a token under
`$data`. -/
structure Plain (v : Json) : Prop where
  texts : ∀ s, Json.PartOf (.string s) v → scan s = [] ∨ (soleToken? s).isSome
  objects : ∀ fields s, Json.PartOf (.object fields) v →
    Fields.get? fields defaultsKey = some (.string s) → soleToken? s = none

theorem plain_string_iff {s : String} :
    Plain (.string s) ↔ scan s = [] ∨ (soleToken? s).isSome := by
  refine ⟨fun h => h.texts s .here, fun h => ⟨?_, nofun⟩⟩
  rintro _ ⟨⟩
  exact h

theorem plain_array_iff {items : List Json} : Plain (.array items) ↔ ∀ v ∈ items, Plain v := by
  constructor
  · intro h v hv
    exact ⟨fun s hs => h.texts s (.element hv hs),
      fun fields s hfields => h.objects fields s (.element hv hfields)⟩
  · refine fun h => ⟨?_, ?_⟩
    · rintro s (_ | ⟨hv, hs⟩)
      exact (h _ hv).texts s hs
    · rintro fields s (_ | ⟨hv, hfields⟩)
      exact (h _ hv).objects fields s hfields

theorem defaultsToken?_eq_none_iff {fields : Fields} :
    defaultsToken? fields = none ↔
      ∀ s, Fields.get? fields defaultsKey = some (.string s) → soleToken? s = none := by
  rw [defaultsToken?]
  constructor
  · intro h s hget
    rw [hget] at h
    exact h
  · intro h
    split
    · exact h _ ‹_›
    · rfl

theorem plain_object_iff {fields : Fields} :
    Plain (.object fields) ↔
      defaultsToken? fields = none ∧ ∀ field ∈ fields, Plain field.2 := by
  rw [defaultsToken?_eq_none_iff]
  constructor
  · intro h
    exact ⟨fun s => h.objects fields s .here, fun field hfield =>
      ⟨fun s hs => h.texts s (.member hfield hs),
        fun fields s hfields => h.objects fields s (.member hfield hfields)⟩⟩
  · rintro ⟨hdefaults, h⟩
    refine ⟨?_, ?_⟩
    · rintro s (_ | _ | ⟨hfield, hs⟩)
      exact (h _ hfield).texts s hs
    · rintro fields s (_ | _ | ⟨hfield, hfields⟩)
      · exact hdefaults s
      · exact (h _ hfield).objects fields s hfields

/-! ## The same for plain values -/

theorem keysIn_of_scan_eq_nil {s : String} (h : scan s = []) : keysIn (.string s) = [] := by
  rw [keysIn, h]
  rfl

section

variable {pool : Pool}

theorem resolveText_of_scan_eq_nil {s : String} (h : scan s = []) :
    resolveText pool s = pure (.string s) := by
  have hkeys := keysIn_of_scan_eq_nil h
  rw [resolveText_of_lacks (hkeys ▸ nofun), hkeys]
  rfl

mutual

theorem resolveFlexible_of_plain : ∀ {v : Json}, Plain v →
    resolveFlexible pool v = resolve pool v
  | .string s, h => by
    rw [resolveFlexible, resolve]
    cases hsole : soleToken? s with
    | some t => rw [resolveText, hsole]
    | none =>
      have hscan := (plain_string_iff.mp h).resolve_right (by simp [hsole])
      rw [resolveText_of_scan_eq_nil hscan]
  | .array items, h => by
    rw [resolveFlexible, resolve, flexibleItems_of_plain (plain_array_iff.mp h)]
  | .object fields, h => by
    obtain ⟨hdefaults, hfields⟩ := plain_object_iff.mp h
    rw [resolveFlexible, hdefaults, resolve]
    dsimp only
    rw [flexibleFields_of_plain hfields]
  | .null, _ | .bool _, _ | .number _, _ => rfl

theorem flexibleItems_of_plain : ∀ {items : List Json}, (∀ v ∈ items, Plain v) →
    flexibleItems pool items = resolveItems pool items
  | [], _ => rfl
  | v :: rest, h => by
    obtain ⟨hfirst, hrest⟩ := List.forall_mem_cons.mp h
    rw [flexibleItems, resolveItems, resolveFlexible_of_plain hfirst, flexibleItems_of_plain hrest]

theorem flexibleFields_of_plain : ∀ {fields : Fields}, (∀ field ∈ fields, Plain field.2) →
    flexibleFields pool false fields = resolveFields pool fields
  | [], _ => rfl
  | (key, v) :: rest, h => by
    obtain ⟨hfirst, hrest⟩ := List.forall_mem_cons.mp h
    rw [flexibleFields, resolveFields, resolveFlexible_of_plain hfirst,
      flexibleFields_of_plain hrest]
    rfl

end

end

/-! ## Not the same for other values -/

def Pool.NullOn (pool : Pool) (keys : List String) : Prop :=
  ∀ key ∈ keys, pool.get? key = some .null

def Pool.nulls (keys : List String) : Pool := ⟨keys.map fun key => (key, .null)⟩

theorem Pool.nullOn_nulls (keys : List String) : (nulls keys).NullOn keys := by
  induction keys with
  | nil => exact nofun
  | cons first rest ih =>
    intro key hkey
    show (if first = key then some Json.null else (nulls rest).get? key) = _
    split
    · rfl
    · rename_i hne
      exact ih key ((List.mem_cons.mp hkey).resolve_left fun h => hne h.symm)

section

variable {pool : Pool}

theorem Pool.nullOn_append {keys more : List String} :
    pool.NullOn (keys ++ more) ↔ pool.NullOn keys ∧ pool.NullOn more :=
  List.forall_mem_append

theorem value_wholeValue_null {t : Token} (h : pool.get? t.key = some .null) :
    (wholeValue pool t).value = some .null := by
  rw [wholeValue_of_get? h]
  cases t.range <;> rfl

theorem filled_null {t : Token} (h : pool.get? t.key = some .null) :
    (Piece.token t).filled pool = "null".toList := by
  rw [Piece.filled, h]
  cases t.range <;> rfl

/-- A token takes more room than `null`. -/
theorem length_filled_null (ps : List Piece) (h : pool.NullOn (keysOf ps)) :
    (ps.flatMap (Piece.filled pool)).length + (keysOf ps).length ≤
      (ps.flatMap Piece.written).length := by
  induction ps with
  | nil => exact Nat.le_refl 0
  | cons p rest ih =>
    cases p with
    | char c =>
      have hrest := ih h
      simp only [List.flatMap_cons, Piece.filled, Piece.written, List.length_append]
      have hkeys : keysOf (.char c :: rest) = keysOf rest := rfl
      rw [hkeys]
      omega
    | token t =>
      rw [keysOf_token] at h ⊢
      obtain ⟨hfirst, hrest⟩ := Pool.nullOn_append.mp h
      have hlength := ih hrest
      have hnull : "null".toList.length = 4 := rfl
      simp only [List.flatMap_cons, filled_null (hfirst t.key List.mem_cons_self), Piece.written,
        Token.written_eq, List.length_append, List.length_cons, List.length_nil, hnull]
      omega

mutual

/-- With `null` for each of its tokens, a value that is resolved alike both ways is plain. -/
theorem plain_of_value_eq : ∀ {v : Json}, pool.NullOn (keysIn v) →
    (resolveFlexible pool v).value = (resolve pool v).value → Plain v
  | .string s, hnull, heq => by
    rw [plain_string_iff]
    cases hsole : soleToken? s with
    | some t => exact .inr rfl
    | none =>
      rw [resolveFlexible, resolve, resolveText, hsole] at heq
      dsimp only at heq
      rw [Noted.value_map, value_fill, Noted.value_pure, Json.string.injEq] at heq
      have hfilled : s.toList = (pieces s.toList).flatMap (Piece.filled pool) :=
        (congrArg String.toList heq).trans String.toList_ofList
      rw [keysIn_string] at hnull
      -- the text is as long as before, while each of its tokens has become shorter
      have hlength := length_filled_null _ hnull
      rw [← hfilled, flatMap_written_pieces, ← keysIn_string] at hlength
      have hkeys : (keysIn (.string s)).length = 0 := by omega
      rw [keysIn, List.length_map] at hkeys
      exact .inl (List.length_eq_zero_iff.mp hkeys)
  | .array items, hnull, heq => by
    rw [resolveFlexible, resolve, Noted.value_map, Noted.value_map, Json.array.injEq] at heq
    exact plain_array_iff.mpr (plain_of_items_eq hnull heq)
  | .object fields, hnull, heq => by
    rw [plain_object_iff]
    rw [resolveFlexible, resolve, Noted.value_map] at heq
    cases hdefaults : defaultsToken? fields with
    | none =>
      rw [hdefaults] at heq
      dsimp only at heq
      rw [Noted.value_map, Json.object.injEq] at heq
      exact ⟨rfl, plain_of_fields_eq hnull heq⟩
    | some t =>
      rw [hdefaults] at heq
      dsimp only at heq
      rw [Noted.value_bind, value_wholeValue_null (hnull _ (key_mem_of_defaultsToken? hdefaults))]
        at heq
      cases heq
  | .null, _, _ | .bool _, _, _ | .number _, _, _ => ⟨nofun, nofun⟩

theorem plain_of_items_eq : ∀ {items : List Json}, pool.NullOn (keysInItems items) →
    (flexibleItems pool items).value = (resolveItems pool items).value → ∀ v ∈ items, Plain v
  | [], _, _ => nofun
  | v :: rest, hnull, heq => by
    obtain ⟨hfirst, hrest⟩ := Pool.nullOn_append.mp hnull
    rw [flexibleItems, resolveItems] at heq
    obtain ⟨hv, hvs⟩ := List.cons.inj heq
    exact List.forall_mem_cons.mpr ⟨plain_of_value_eq hfirst hv, plain_of_items_eq hrest hvs⟩

theorem plain_of_fields_eq : ∀ {fields : Fields}, pool.NullOn (keysInFields fields) →
    (flexibleFields pool false fields).value = (resolveFields pool fields).value →
    ∀ field ∈ fields, Plain field.2
  | [], _, _ => nofun
  | (key, v) :: rest, hnull, heq => by
    obtain ⟨hfirst, hrest⟩ := Pool.nullOn_append.mp hnull
    rw [flexibleFields, resolveFields] at heq
    obtain ⟨hv, hvs⟩ := List.cons.inj heq
    exact List.forall_mem_cons.mpr
      ⟨plain_of_value_eq hfirst (Prod.mk.inj hv).2, plain_of_fields_eq hrest hvs⟩

end

end

/-- **The two ways agree on plain values, and on no others**: whatever the pool has, they give the
same value, members in the same order, and note the same in the same order. -/
theorem resolveFlexible_eq_resolve_iff (v : Json) :
    (∀ pool, resolveFlexible pool v = resolve pool v) ↔ Plain v := by
  refine ⟨fun h => ?_, fun h pool => resolveFlexible_of_plain h⟩
  exact plain_of_value_eq (Pool.nullOn_nulls _) (congrArg Noted.value (h (.nulls (keysIn v))))

/-! ## Missing keys -/

theorem append_subset_append {keys more keys' more' : List String} (h : keys ⊆ keys')
    (hmore : more ⊆ more') : keys ++ more ⊆ keys' ++ more' :=
  List.append_subset.mpr ⟨List.subset_append_of_subset_left _ h,
    List.subset_append_of_subset_right _ hmore⟩

theorem unknownKeys_subset (pool : Pool) {keys more : List String} (h : keys ⊆ more) :
    unknownKeys pool keys ⊆ unknownKeys pool more :=
  List.filter_subset _ h

theorem missingKeys_wholeValue_subset (pool : Pool) {t : Token} {keys : List String}
    (h : t.key ∈ keys) : missingKeys (wholeValue pool t).notes ⊆ unknownKeys pool keys := by
  rw [missingKeys_wholeValue]
  exact unknownKeys_subset pool (List.cons_subset.mpr ⟨h, List.nil_subset keys⟩)

mutual

theorem missingKeys_resolveFlexible_subset (pool : Pool) : ∀ v : Json,
    missingKeys (resolveFlexible pool v).notes ⊆ unknownKeys pool (keysIn v)
  | .string s => by
    rw [resolveFlexible]
    cases hsole : soleToken? s with
    | none => exact List.nil_subset _
    | some t =>
      dsimp only
      rw [Noted.notes_map, keysIn_of_soleToken? hsole]
      exact missingKeys_wholeValue_subset pool List.mem_cons_self
  | .array items => by
    rw [resolveFlexible, Noted.notes_map, keysIn]
    exact missingKeys_flexibleItems_subset pool items
  | .object fields => by
    rw [resolveFlexible, keysIn]
    cases hdefaults : defaultsToken? fields with
    | none =>
      dsimp only
      rw [Noted.notes_map]
      exact missingKeys_flexibleFields_subset pool false fields
    | some t =>
      have hown := missingKeys_flexibleFields_subset pool true fields
      dsimp only
      rw [Noted.notes_bind, missingKeys_append]
      refine List.append_subset.mpr
        ⟨missingKeys_wholeValue_subset pool (key_mem_of_defaultsToken? hdefaults), ?_⟩
      -- the own members are resolved over an object, and where there is nothing under the key
      split
      · rw [Noted.notes_bind, Noted.notes_pure, List.append_nil]
        exact hown
      · exact List.nil_subset _
      · rw [Noted.notes_map]
        exact hown
  | .null | .bool _ | .number _ => List.nil_subset _

theorem missingKeys_flexibleItems_subset (pool : Pool) : ∀ items : List Json,
    missingKeys (flexibleItems pool items).notes ⊆ unknownKeys pool (keysInItems items)
  | [] => List.nil_subset _
  | v :: rest => by
    rw [flexibleItems, keysInItems, unknownKeys_append, Noted.notes_bind, Noted.notes_bind,
      Noted.notes_pure, List.append_nil, missingKeys_append]
    exact append_subset_append (missingKeys_resolveFlexible_subset pool v)
      (missingKeys_flexibleItems_subset pool rest)

theorem missingKeys_flexibleFields_subset (pool : Pool) (stays : Bool) : ∀ fields : Fields,
    missingKeys (flexibleFields pool stays fields).notes ⊆
      unknownKeys pool (keysInFields fields)
  | [] => List.nil_subset _
  | (key, v) :: rest => by
    have hrest := missingKeys_flexibleFields_subset pool stays rest
    rw [flexibleFields, keysInFields, unknownKeys_append]
    split
    · rw [Noted.notes_bind, Noted.notes_pure, List.append_nil]
      exact List.subset_append_of_subset_right _ hrest
    · rw [Noted.notes_bind, Noted.notes_bind, Noted.notes_pure, List.append_nil,
        missingKeys_append]
      exact append_subset_append (missingKeys_resolveFlexible_subset pool v) hrest

end

/-! ## The list of missing keys -/

mutual

theorem mem_keysIn_iff {key : String} : ∀ {v : Json},
    key ∈ keysIn v ↔ ∃ s, Json.PartOf (.string s) v ∧ ∃ l ∈ scan s, l.token.key = key
  | .string s => by
    rw [keysIn, List.mem_map]
    constructor
    · exact fun h => ⟨s, .here, h⟩
    · rintro ⟨_, ⟨⟩, h⟩
      exact h
  | .array items => by
    rw [keysIn, mem_keysInItems_iff]
    constructor
    · rintro ⟨v, hv, s, hs, h⟩
      exact ⟨s, .element hv hs, h⟩
    · rintro ⟨s, _ | ⟨hv, hs⟩, h⟩
      exact ⟨_, hv, s, hs, h⟩
  | .object fields => by
    rw [keysIn, mem_keysInFields_iff]
    constructor
    · rintro ⟨field, hfield, s, hs, h⟩
      exact ⟨s, .member hfield hs, h⟩
    · rintro ⟨s, _ | _ | ⟨hfield, hs⟩, h⟩
      exact ⟨_, hfield, s, hs, h⟩
  | .null | .bool _ | .number _ => ⟨nofun, by rintro ⟨_, ⟨⟩, _⟩⟩

theorem mem_keysInItems_iff {key : String} : ∀ {items : List Json},
    key ∈ keysInItems items ↔
      ∃ v ∈ items, ∃ s, Json.PartOf (.string s) v ∧ ∃ l ∈ scan s, l.token.key = key
  | [] => ⟨nofun, by rintro ⟨_, ⟨⟩, _⟩⟩
  | v :: rest => by
    rw [keysInItems, List.mem_append, mem_keysIn_iff, mem_keysInItems_iff,
      List.exists_mem_cons_iff]

theorem mem_keysInFields_iff {key : String} : ∀ {fields : Fields},
    key ∈ keysInFields fields ↔
      ∃ field ∈ fields, ∃ s, Json.PartOf (.string s) field.2 ∧ ∃ l ∈ scan s, l.token.key = key
  | [] => ⟨nofun, by rintro ⟨_, ⟨⟩, _⟩⟩
  | (_, v) :: rest => by
    rw [keysInFields, List.mem_append, mem_keysIn_iff, mem_keysInFields_iff,
      List.exists_mem_cons_iff]

end

theorem pairwise_eraseDups_filter (kept : String → Bool) (keys : List String) :
    (keys.filter kept).eraseDups.Pairwise fun a b => keys.idxOf a < keys.idxOf b := by
  induction keys generalizing kept with
  | nil => exact .nil
  | cons first rest ih =>
    have hlater : ∀ {a b : String}, a ≠ first → b ≠ first → rest.idxOf a < rest.idxOf b →
        (first :: rest).idxOf a < (first :: rest).idxOf b := by
      intro a b ha hb hlt
      rw [List.idxOf_cons_ne _ (Ne.symm ha), List.idxOf_cons_ne _ (Ne.symm hb)]
      exact Nat.succ_lt_succ hlt
    by_cases hfirst : kept first = true
    · rw [List.filter_cons_of_pos hfirst, List.eraseDups_cons, List.filter_filter]
      have hne : ∀ a ∈ (rest.filter fun a => !a == first && kept a).eraseDups, a ≠ first := by
        intro a ha
        rw [List.mem_eraseDups, List.mem_filter, Bool.and_eq_true] at ha
        simpa using ha.2.1
      refine .cons (fun a ha => ?_) ((ih _).imp_of_mem fun ha hb => hlater (hne _ ha) (hne _ hb))
      rw [List.idxOf_cons_self, List.idxOf_cons_ne _ (Ne.symm (hne a ha))]
      exact Nat.succ_pos _
    · rw [List.filter_cons_of_neg hfirst]
      have hne : ∀ a ∈ (rest.filter kept).eraseDups, a ≠ first := by
        rintro a ha rfl
        rw [List.mem_eraseDups, List.mem_filter] at ha
        exact hfirst ha.2
      exact (ih kept).imp_of_mem fun ha hb => hlater (hne _ ha) (hne _ hb)

theorem mem_missing_iff {pool : Pool} {v : Json} {key : String} :
    key ∈ missing pool v ↔ pool.get? key = none ∧ key ∈ keysIn v := by
  rw [missing, List.mem_eraseDups, List.mem_filter, contains_eq_isSome, and_comm]
  simp

/-- **The list of missing keys covers both ways.** The keys that either way notes as not defined are
in it. It has exactly the keys that the pool does not have out of those that tokens in the value
use, each once, in the order in which they are first used, and it is empty exactly if the plain way
notes none. -/
theorem missing_covers (pool : Pool) (v : Json) :
    missingKeys (resolveFlexible pool v).notes ⊆ missing pool v ∧
      missingKeys (resolve pool v).notes ⊆ missing pool v ∧
      (∀ key, key ∈ missing pool v ↔ pool.get? key = none ∧
        ∃ s, Json.PartOf (.string s) v ∧ ∃ l ∈ scan s, l.token.key = key) ∧
      (missing pool v).Nodup ∧
      (missing pool v).Pairwise (fun a b => (keysIn v).idxOf a < (keysIn v).idxOf b) ∧
      (missing pool v = [] ↔ ∀ d ∈ (resolve pool v).notes, d.kind ≠ .referenceNotFound) := by
  have hlisted : ∀ key ∈ unknownKeys pool (keysIn v), key ∈ missing pool v :=
    fun key hkey => List.mem_eraseDups.mpr hkey
  have hordered := pairwise_eraseDups_filter (!pool.contains ·) (keysIn v)
  have hdiffer : (missing pool v).Nodup :=
    hordered.imp fun hlt => ne_of_apply_ne (List.idxOf · (keysIn v)) (Nat.ne_of_lt hlt)
  refine ⟨fun key hkey => hlisted key (missingKeys_resolveFlexible_subset pool v hkey),
    fun key hkey => hlisted key (missingKeys_resolve pool v ▸ hkey), fun key => ?_, hdiffer,
    hordered, ?_⟩
  · rw [mem_missing_iff, mem_keysIn_iff]
  · rw [← missingKeys_eq_nil_iff, missingKeys_resolve, List.eq_nil_iff_forall_not_mem,
      List.eq_nil_iff_forall_not_mem]
    exact forall_congr' fun key => not_congr List.mem_eraseDups

end Reference

end Montage
