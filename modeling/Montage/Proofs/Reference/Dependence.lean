import Mathlib
import Montage.Proofs.Reference.Missing

/-!
# What resolving depends on

Resolving looks up the keys of the tokens that are written in the value, and no others. What is put
in for a token is not looked at again: a token in it stays as it is, whether the pool has its key or
not. Where the pool has none of the keys nothing is put in, and the value stays as it is.
-/

namespace Montage.Reference

/-- Two pools have the same under each of the keys, or both nothing. -/
def Pool.AgreeOn (pool pool' : Pool) (keys : List String) : Prop :=
  ∀ key ∈ keys, pool.get? key = pool'.get? key

def Pool.LacksAll (pool : Pool) (keys : List String) : Prop :=
  ∀ key ∈ keys, pool.get? key = none

namespace Pool

variable {pool pool' : Pool}

theorem agreeOn_append {keys more : List String} :
    pool.AgreeOn pool' (keys ++ more) ↔ pool.AgreeOn pool' keys ∧ pool.AgreeOn pool' more :=
  List.forall_mem_append

theorem lacksAll_append {keys more : List String} :
    pool.LacksAll (keys ++ more) ↔ pool.LacksAll keys ∧ pool.LacksAll more :=
  List.forall_mem_append

theorem agreeOn_cons {key : String} {keys : List String} :
    pool.AgreeOn pool' (key :: keys) ↔
      pool.get? key = pool'.get? key ∧ pool.AgreeOn pool' keys :=
  List.forall_mem_cons

theorem lacksAll_cons {key : String} {keys : List String} :
    pool.LacksAll (key :: keys) ↔ pool.get? key = none ∧ pool.LacksAll keys :=
  List.forall_mem_cons

end Pool

/-! ## Keys in members -/

theorem keysIn_subset_of_mem {fields : Fields} {member : String × Json} (h : member ∈ fields) :
    keysIn member.2 ⊆ keysInFields fields := by
  induction fields with
  | nil => cases h
  | cons field rest ih =>
    obtain ⟨_, v⟩ := field
    rw [keysInFields]
    rcases List.mem_cons.mp h with rfl | h
    · exact List.subset_append_left _ _
    · exact List.subset_append_of_subset_right _ (ih h)

theorem key_mem_of_defaultsToken? {fields : Fields} {t : Token} (h : defaultsToken? fields = some t) :
    t.key ∈ keysInFields fields := by
  unfold defaultsToken? at h
  split at h
  · rename_i s hget
    have hkeys := keysIn_subset_of_mem (Fields.mem_of_get? hget)
    rw [keysIn_of_soleToken? h] at hkeys
    exact hkeys List.mem_cons_self
  · cases h

/-! ## Pools that agree -/

section

variable {pool pool' : Pool}

theorem wholeValue_congr {t : Token} (h : pool.get? t.key = pool'.get? t.key) :
    wholeValue pool t = wholeValue pool' t := by
  rw [wholeValue, wholeValue, h]

theorem tokenText_congr {t : Token} (h : pool.get? t.key = pool'.get? t.key) :
    tokenText pool t = tokenText pool' t := by
  rw [tokenText, tokenText, h]

theorem fill_congr {ps : List Piece} (h : pool.AgreeOn pool' (keysOf ps)) :
    fill pool ps = fill pool' ps := by
  induction ps with
  | nil => rfl
  | cons p rest ih =>
    cases p with
    | char c => rw [fill, fill, ih h]
    | token t =>
      obtain ⟨hkey, hrest⟩ := Pool.agreeOn_cons.mp h
      rw [fill, fill, tokenText_congr hkey, ih hrest]

theorem resolveText_congr {s : String} (h : pool.AgreeOn pool' (keysIn (.string s))) :
    resolveText pool s = resolveText pool' s := by
  rw [resolveText, resolveText]
  cases hsole : soleToken? s with
  | some t =>
    rw [keysIn_of_soleToken? hsole] at h
    dsimp only
    rw [wholeValue_congr (h t.key List.mem_cons_self)]
  | none =>
    rw [keysIn_string] at h
    dsimp only
    rw [fill_congr h]

mutual

theorem resolve_congr : ∀ {v : Json}, pool.AgreeOn pool' (keysIn v) →
    resolve pool v = resolve pool' v
  | .string _, h => resolveText_congr h
  | .array items, h => by
    rw [keysIn] at h
    rw [resolve, resolve, resolveItems_congr h]
  | .object fields, h => by
    rw [keysIn] at h
    rw [resolve, resolve, resolveFields_congr h]
  | .null, _ | .bool _, _ | .number _, _ => rfl

theorem resolveItems_congr : ∀ {items : List Json}, pool.AgreeOn pool' (keysInItems items) →
    resolveItems pool items = resolveItems pool' items
  | [], _ => rfl
  | _ :: _, h => by
    obtain ⟨hfirst, hrest⟩ := Pool.agreeOn_append.mp h
    rw [resolveItems, resolveItems, resolve_congr hfirst, resolveItems_congr hrest]

theorem resolveFields_congr : ∀ {fields : Fields}, pool.AgreeOn pool' (keysInFields fields) →
    resolveFields pool fields = resolveFields pool' fields
  | [], _ => rfl
  | (_, _) :: _, h => by
    obtain ⟨hfirst, hrest⟩ := Pool.agreeOn_append.mp h
    rw [resolveFields, resolveFields, resolve_congr hfirst, resolveFields_congr hrest]

end

mutual

theorem resolveFlexible_congr : ∀ {v : Json}, pool.AgreeOn pool' (keysIn v) →
    resolveFlexible pool v = resolveFlexible pool' v
  | .string s, h => by
    rw [resolveFlexible, resolveFlexible]
    cases hsole : soleToken? s with
    | some t =>
      rw [keysIn_of_soleToken? hsole] at h
      dsimp only
      rw [wholeValue_congr (h t.key List.mem_cons_self)]
    | none => rfl
  | .array items, h => by
    rw [keysIn] at h
    rw [resolveFlexible, resolveFlexible, flexibleItems_congr h]
  | .object fields, h => by
    rw [keysIn] at h
    have hfields := fun stays => flexibleFields_congr stays h
    rw [resolveFlexible, resolveFlexible]
    cases htoken : defaultsToken? fields with
    | none => simp only [hfields]
    | some t => simp only [hfields, wholeValue_congr (h t.key (key_mem_of_defaultsToken? htoken))]
  | .null, _ | .bool _, _ | .number _, _ => rfl

theorem flexibleItems_congr : ∀ {items : List Json}, pool.AgreeOn pool' (keysInItems items) →
    flexibleItems pool items = flexibleItems pool' items
  | [], _ => rfl
  | _ :: _, h => by
    obtain ⟨hfirst, hrest⟩ := Pool.agreeOn_append.mp h
    rw [flexibleItems, flexibleItems, resolveFlexible_congr hfirst, flexibleItems_congr hrest]

theorem flexibleFields_congr (stays : Bool) : ∀ {fields : Fields},
    pool.AgreeOn pool' (keysInFields fields) →
      flexibleFields pool stays fields = flexibleFields pool' stays fields
  | [], _ => rfl
  | (_, _) :: _, h => by
    obtain ⟨hfirst, hrest⟩ := Pool.agreeOn_append.mp h
    rw [flexibleFields, flexibleFields, resolveFlexible_congr hfirst,
      flexibleFields_congr stays hrest]

end

end

/-! ## Pools that lack the keys -/

/-- What stays as it is, with a note on each key that is not in the pool. -/
def unresolved {α : Type} (a : α) (keys : List String) : Noted α :=
  ⟨a, keys.map .referenceNotFound⟩

theorem map_unresolved {α β : Type} (f : α → β) (a : α) (keys : List String) :
    f <$> unresolved a keys = unresolved (f a) keys :=
  congrArg (Noted.mk _) (List.append_nil _)

theorem bind_unresolved {α β γ : Type} (f : α → β → γ) (a : α) (keys : List String) (b : β)
    (more : List String) :
    (do return f (← unresolved a keys) (← unresolved b more)) =
      unresolved (f a b) (keys ++ more) := by
  refine congrArg (Noted.mk (f a b)) ?_
  rw [List.map_append]
  exact congrArg (_ ++ ·) (List.append_nil _)

section

variable {pool : Pool}

theorem wholeValue_of_lacks {t : Token} (h : pool.get? t.key = none) :
    wholeValue pool t = unresolved none [t.key] := by
  rw [wholeValue, h]
  rfl

theorem tokenText_of_lacks {t : Token} (h : pool.get? t.key = none) :
    tokenText pool t = unresolved t.written [t.key] := by
  rw [tokenText, h]
  rfl

theorem fill_of_lacks {ps : List Piece} (h : pool.LacksAll (keysOf ps)) :
    fill pool ps = unresolved (ps.flatMap Piece.written) (keysOf ps) := by
  induction ps with
  | nil => rfl
  | cons p rest ih =>
    cases p with
    | char c =>
      rw [fill, ih h, map_unresolved]
      rfl
    | token t =>
      obtain ⟨hkey, hrest⟩ := Pool.lacksAll_cons.mp h
      rw [fill, tokenText_of_lacks hkey, ih hrest, bind_unresolved]
      rfl

theorem resolveText_of_lacks {s : String} (h : pool.LacksAll (keysIn (.string s))) :
    resolveText pool s = unresolved (.string s) (keysIn (.string s)) := by
  rw [resolveText]
  cases hsole : soleToken? s with
  | some t =>
    rw [keysIn_of_soleToken? hsole] at h ⊢
    dsimp only
    rw [wholeValue_of_lacks (h t.key List.mem_cons_self), map_unresolved]
    rfl
  | none =>
    rw [keysIn_string] at h ⊢
    dsimp only
    rw [fill_of_lacks h, map_unresolved, flatMap_written_pieces, String.ofList_toList]

mutual

theorem resolve_of_lacks : ∀ {v : Json}, pool.LacksAll (keysIn v) →
    resolve pool v = unresolved v (keysIn v)
  | .string _, h => resolveText_of_lacks h
  | .array items, h => by
    rw [keysIn] at h ⊢
    rw [resolve, resolveItems_of_lacks h, map_unresolved]
  | .object fields, h => by
    rw [keysIn] at h ⊢
    rw [resolve, resolveFields_of_lacks h, map_unresolved]
  | .null, _ | .bool _, _ | .number _, _ => rfl

theorem resolveItems_of_lacks : ∀ {items : List Json}, pool.LacksAll (keysInItems items) →
    resolveItems pool items = unresolved items (keysInItems items)
  | [], _ => rfl
  | _ :: _, h => by
    obtain ⟨hfirst, hrest⟩ := Pool.lacksAll_append.mp h
    rw [resolveItems, resolve_of_lacks hfirst, resolveItems_of_lacks hrest, bind_unresolved,
      keysInItems]

theorem resolveFields_of_lacks : ∀ {fields : Fields}, pool.LacksAll (keysInFields fields) →
    resolveFields pool fields = unresolved fields (keysInFields fields)
  | [], _ => rfl
  | (key, _) :: _, h => by
    obtain ⟨hfirst, hrest⟩ := Pool.lacksAll_append.mp h
    rw [resolveFields, resolve_of_lacks hfirst, resolveFields_of_lacks hrest,
      bind_unresolved fun v rest => (key, v) :: rest, keysInFields]

end

end

/-! ## What is put in -/

/-- What is put in for a piece of a text: for a token with a text in the pool that text, whatever is
written in it. -/
def Piece.filled (pool : Pool) : Piece → List Char
  | .char c => [c]
  | .token t =>
    match pool.get? t.key with
    | some (.string u) => u.toList
    | some w => (inText (projection w t.range).value).toList
    | none => t.written

section

variable {pool : Pool}

theorem value_tokenText (t : Token) : (tokenText pool t).value = (Piece.token t).filled pool := by
  rw [tokenText, Piece.filled]
  cases pool.get? t.key with
  | none => rfl
  | some w => cases w <;> rfl

theorem value_fill (ps : List Piece) : (fill pool ps).value = ps.flatMap (Piece.filled pool) := by
  induction ps with
  | nil => rfl
  | cons p rest ih =>
    cases p with
    | char c =>
      rw [fill, Noted.value_map, ih]
      rfl
    | token t =>
      rw [fill, Noted.value_bind, Noted.value_bind, Noted.value_pure, value_tokenText, ih]
      rfl

theorem wholeValue_of_get? {t : Token} {w : Json} (h : pool.get? t.key = some w) :
    wholeValue pool t = some <$> t.range.elim (pure w) (slice w) := by
  rw [wholeValue, h]
  cases t.range <;> rfl

theorem map_getD_some (v : Json) (x : Noted Json) : (·.getD v) <$> (some <$> x) = x := by
  show Noted.mk x.value (x.notes ++ [] ++ []) = x
  rw [List.append_nil, List.append_nil]

end

/-- **Resolving depends only on the keys that are written in the value.** Pools that agree on these
keys give the same value and the same notes, in the flexible way too, and a pool that has none of them
leaves the value as it is and notes each token, in order. So what is put in is not looked at again: a
text that is one token becomes the value in the pool, or the part of it in the range, and a longer
text is its pieces, each filled in on its own. -/
theorem resolve_dependence (pool : Pool) :
    (∀ v pool', pool.AgreeOn pool' (keysIn v) →
        resolve pool v = resolve pool' v ∧ resolveFlexible pool v = resolveFlexible pool' v) ∧
      (∀ v, pool.LacksAll (keysIn v) → resolve pool v = ⟨v, (keysIn v).map .referenceNotFound⟩) ∧
      (∀ s t w, soleToken? s = some t → pool.get? t.key = some w →
        resolve pool (.string s) = t.range.elim (pure w) (slice w) ∧
          resolveFlexible pool (.string s) = t.range.elim (pure w) (slice w)) ∧
      ∀ s, soleToken? s = none → (resolve pool (.string s)).value =
        .string (.ofList ((pieces s.toList).flatMap (Piece.filled pool))) := by
  refine ⟨fun v pool' h => ⟨resolve_congr h, resolveFlexible_congr h⟩,
    fun v h => resolve_of_lacks h, fun s t w hsole hget => ?_, fun s hsole => ?_⟩
  · rw [resolve, resolveText, resolveFlexible, hsole]
    dsimp only
    rw [wholeValue_of_get? hget, map_getD_some]
    exact ⟨rfl, rfl⟩
  · rw [resolve, resolveText, hsole, Noted.value_map, value_fill]

/-- A pool in which a text holds a token. -/
def quoting : Pool := ⟨[("a", .string "data:[b]")]⟩

def quotingDefined : Pool := quoting.insert "b" (.bool true)

def quoted : Json := .array [.string "data:[a]", .string "see data:[a]"]

theorem resolve_dependence_quoted :
    quoting.AgreeOn quotingDefined ["a", "a"] ∧
      resolve quoting quoted = resolve quotingDefined quoted ∧
      resolveFlexible quoting quoted = resolveFlexible quotingDefined quoted ∧
      resolve {} quoted = ⟨quoted, [.referenceNotFound "a", .referenceNotFound "a"]⟩ ∧
      resolve quotingDefined (.string "data:[a]") = pure (.string "data:[b]") ∧
      (resolve quotingDefined (.string "see data:[a]")).value = .string "see data:[b]" := by
  have hkeys : keysIn quoted = ["a", "a"] := by cbv
  have hagree : quoting.AgreeOn quotingDefined ["a", "a"] := by
    intro key hkey
    obtain rfl : key = "a" := by simpa using hkey
    rfl
  have hsole : soleToken? "data:[a]" = some ⟨['a'], none⟩ := by cbv
  have hnone : soleToken? "see data:[a]" = none := by cbv
  have hpieces : (pieces "see data:[a]".toList).flatMap (Piece.filled quotingDefined) =
      "see data:[b]".toList := by cbv
  obtain ⟨hequal, -, -, -⟩ := resolve_dependence quoting
  obtain ⟨-, hlacks, -, -⟩ := resolve_dependence {}
  obtain ⟨-, -, hwhole, hpart⟩ := resolve_dependence quotingDefined
  refine ⟨hagree, (hequal quoted quotingDefined (hkeys ▸ hagree)).1,
    (hequal quoted quotingDefined (hkeys ▸ hagree)).2, ?_, ?_, ?_⟩
  · rw [hlacks quoted fun _ _ => rfl, hkeys]
    rfl
  · exact (hwhole "data:[a]" ⟨['a'], none⟩ (.string "data:[b]") hsole (by cbv)).1
  · rw [hpart _ hnone, hpieces, String.ofList_toList]

end Montage.Reference
