import Montage.Proofs.Json.Fields

/-!
# Writing members by a rule

Members are written over others one after another, and a rule says what each becomes on top of what
already stands under its key. Each key is then on its own: its value is the fold of the rule over
the values that are written under it. Keys that are there keep their places, and the new ones come
behind them, each where it is first written.
-/

namespace Montage.Fields

variable {α : Type}

def valuesAt (fields : List (String × α)) (key : String) : List α :=
  (fields.filter (·.1 = key)).map (·.2)

/-- The keys that are not yet there, each once, in the order in which they first appear. -/
def newKeys (there written : List String) : List String :=
  (written.filter (· ∉ there)).eraseDups

/-- Writes members one after another over others. The rule says what a member becomes on top of the
value under its key, if there is one. -/
def write (rule : Option α → α → α) (fields patch : List (String × α)) : List (String × α) :=
  patch.foldl (fun acc (key, v) => insert acc key (rule (get? acc key) v)) fields

theorem overlay_eq_write (fields patch : List (String × α)) :
    overlay fields patch = write (fun _ v => v) fields patch := rfl

theorem write_cons (rule : Option α → α → α) (fields : List (String × α)) (member : String × α)
    (rest : List (String × α)) :
    write rule fields (member :: rest) =
      write rule (insert fields member.1 (rule (get? fields member.1) member.2)) rest := rfl

theorem foldl_write (rule : Option α → α → α) (fields : List (String × α))
    (patches : List (List (String × α))) :
    patches.foldl (write rule) fields = write rule fields patches.flatten := by
  induction patches generalizing fields with
  | nil => rfl
  | cons patch rest ih =>
    rw [List.foldl_cons, ih, List.flatten_cons, write, write, write, List.foldl_append]

/-! ## Values -/

theorem valuesAt_cons (member : String × α) (rest : List (String × α)) (key : String) :
    valuesAt (member :: rest) key =
      if member.1 = key then member.2 :: valuesAt rest key else valuesAt rest key := by
  rw [valuesAt, List.filter_cons]
  by_cases h : member.1 = key
  · simp [h, valuesAt]
  · simp [h, valuesAt]

theorem valuesAt_eq_nil {fields : List (String × α)} {key : String} (h : key ∉ keys fields) :
    valuesAt fields key = [] := by
  induction fields with
  | nil => rfl
  | cons member rest ih =>
    rw [keys_cons, List.mem_cons, not_or] at h
    rw [valuesAt_cons, if_neg (Ne.symm h.1), ih h.2]

theorem valuesAt_flatten (patches : List (List (String × α))) (key : String) :
    valuesAt patches.flatten key = patches.flatMap (valuesAt · key) := by
  induction patches with
  | nil => rfl
  | cons patch rest ih =>
    rw [List.flatMap_cons, ← ih, List.flatten_cons, valuesAt, List.filter_append, List.map_append]
    rfl

theorem get?_write (rule : Option α → α → α) (fields patch : List (String × α)) (key : String) :
    get? (write rule fields patch) key =
      (valuesAt patch key).foldl (fun old v => some (rule old v)) (get? fields key) := by
  induction patch generalizing fields with
  | nil => rfl
  | cons member rest ih =>
    rw [write_cons, ih, get?_insert, valuesAt_cons]
    by_cases h : member.1 = key
    · rw [if_pos h, if_pos h, List.foldl_cons, h]
    · rw [if_neg h, if_neg h]

theorem get?_overlay_valuesAt (fields patch : List (String × α)) (key : String) :
    get? (overlay fields patch) key = (valuesAt patch key).getLast?.or (get? fields key) := by
  rw [overlay_eq_write, get?_write]
  generalize get? fields key = old
  induction valuesAt patch key generalizing old with
  | nil => rfl
  | cons v rest ih =>
    rw [List.foldl_cons, ih, List.getLast?_cons]
    cases rest.getLast? <;> rfl

/-! ## Keys -/

theorem newKeys_cons_of_mem {there : List String} {key : String} (h : key ∈ there)
    (rest : List String) : newKeys there (key :: rest) = newKeys there rest := by
  rw [newKeys, List.filter_cons_of_neg (by simpa using h), newKeys]

theorem newKeys_cons_of_not_mem {there : List String} {key : String} (h : key ∉ there)
    (rest : List String) :
    newKeys there (key :: rest) = key :: newKeys (there ++ [key]) rest := by
  have hkept : ∀ k, (!k == key && decide (k ∉ there)) = decide (k ∉ there ++ [key]) := by
    intro k
    by_cases hk : k = key <;> simp [hk]
  rw [newKeys, List.filter_cons_of_pos (by simpa using h), List.eraseDups_cons,
    List.filter_filter, newKeys]
  simp only [hkept]

theorem keys_write (rule : Option α → α → α) (fields patch : List (String × α)) :
    keys (write rule fields patch) = keys fields ++ newKeys (keys fields) (keys patch) := by
  induction patch generalizing fields with
  | nil => exact (List.append_nil _).symm
  | cons member rest ih =>
    rw [write_cons, ih, keys_cons]
    by_cases h : member.1 ∈ keys fields
    · rw [newKeys_cons_of_mem h, keys_insert_of_mem _ h]
    · rw [newKeys_cons_of_not_mem h, insert_of_not_mem _ h, keys_append]
      exact List.append_assoc _ _ _

end Montage.Fields
