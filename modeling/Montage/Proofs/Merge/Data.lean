import Montage.Merge
import Montage.Proofs.Json.Writing

/-!
# Runs of data merges

Merging data writes each member on top of what stands under its key. So in a run of merges each key
goes its own way: its values are laid one on top of the other in the order of the merges, whatever
becomes of the other keys. Keys keep their places, and new ones come at the end in the order in
which they first appear.
-/

namespace Montage

/-! ## One value on top of another -/

/-- What a value becomes when another one is laid on top of it. Of two lists, the elements of the
second follow those of the first. Of two objects, the members of the second are written over those
of the first, which keep their places. Otherwise the new value counts. -/
inductive OnTop : Json → Json → Json → Prop
  | lists (old new : List Json) : OnTop (.array old) (.array new) (.array (old ++ new))
  | objects {old new merged : Fields}
    (hkeys : Fields.keys merged =
      Fields.keys old ++ Fields.newKeys (Fields.keys old) (Fields.keys new))
    (hvalues : ∀ key, Fields.get? merged key =
      (Fields.valuesAt new key).getLast?.or (Fields.get? old key)) :
    OnTop (.object old) (.object new) (.object merged)
  | other {old new : Json} (hlists : ∀ a b, ¬ (old = .array a ∧ new = .array b))
    (hobjects : ∀ a b, ¬ (old = .object a ∧ new = .object b)) : OnTop old new new

theorem combine_onTop (old new : Json) : OnTop old new (combine old new) := by
  rw [combine.eq_def]
  split
  · exact .lists _ _
  · rename_i old new
    refine .objects ?_ (Fields.get?_overlay_valuesAt old new)
    rw [Fields.overlay_eq_write]
    exact Fields.keys_write _ old new
  · rename_i hlists hobjects
    exact .other (fun a b h => hlists a b h.1 h.2) fun a b h => hobjects a b h.1 h.2

/-! ## Runs -/

theorem mergeData_eq_write :
    mergeData = Fields.write fun old v => old.elim v (combine · v) := by
  funext fields patch
  rw [mergeData, Fields.write]
  congr 1
  funext acc member
  obtain ⟨key, v⟩ := member
  dsimp only
  cases Fields.get? acc key <;> rfl

theorem keys_flatten (patches : List Fields) :
    Fields.keys patches.flatten = patches.flatMap Fields.keys := by
  rw [Fields.keys, List.map_flatten, List.flatMap_def]
  rfl

/-- **In a run of data merges each key is merged on its own.** Its value is what comes of laying the
values that the patches have for it, in their order, on top of the one that was there. A key that is
in no patch keeps its value. The keys that were there keep their places, and behind them come the
new ones, each once, in the order in which the patches first have them. -/
theorem mergeData_run (fields : Fields) (patches : List Fields) :
    (∀ key, Fields.get? (patches.foldl mergeData fields) key =
      (patches.flatMap (Fields.valuesAt · key)).foldl
        (fun old v => some (old.elim v (combine · v))) (Fields.get? fields key)) ∧
    (∀ old new, OnTop old new (combine old new)) ∧
    (∀ key, (∀ patch ∈ patches, key ∉ Fields.keys patch) →
      Fields.get? (patches.foldl mergeData fields) key = Fields.get? fields key) ∧
    Fields.keys (patches.foldl mergeData fields) =
      Fields.keys fields ++ Fields.newKeys (Fields.keys fields) (patches.flatMap Fields.keys) := by
  have hvalue : ∀ key, Fields.get? (patches.foldl mergeData fields) key =
      (patches.flatMap (Fields.valuesAt · key)).foldl
        (fun old v => some (old.elim v (combine · v))) (Fields.get? fields key) := by
    intro key
    rw [mergeData_eq_write, Fields.foldl_write, Fields.get?_write, Fields.valuesAt_flatten]
  refine ⟨hvalue, combine_onTop, fun key hkey => ?_, ?_⟩
  · have hnone : patches.flatMap (Fields.valuesAt · key) = [] := by
      rw [List.flatMap_eq_nil_iff]
      exact fun patch hpatch => Fields.valuesAt_eq_nil (hkey patch hpatch)
    rw [hvalue, hnone, List.foldl_nil]
  · rw [mergeData_eq_write, Fields.foldl_write, Fields.keys_write, keys_flatten]

/-- The key `a` is a list, then a number, then a list again; `b` stays an object, `c` is new, and
`d` is in no patch. -/
theorem mergeData_run_kinds :
    let fields : Fields :=
      [("a", .array [.ofNat 1]), ("b", .object [("x", .ofNat 1)]), ("d", .null)]
    let patches : List Fields :=
      [[("c", .null), ("a", .array [.ofNat 2])],
        [("b", .object [("y", .ofNat 2), ("x", .ofNat 3)])],
        [("a", .ofNat 5), ("c", .array [.ofNat 7])],
        [("c", .array [.ofNat 7]), ("a", .array [])]]
    patches.foldl mergeData fields =
        [("a", .array []), ("b", .object [("x", .ofNat 3), ("y", .ofNat 2)]), ("d", .null),
          ("c", .array [.ofNat 7, .ofNat 7])] ∧
      Fields.get? (patches.foldl mergeData fields) "d" = some .null := by
  intro fields patches
  exact ⟨rfl, (mergeData_run fields patches).2.2.1 "d" (by decide)⟩

end Montage
