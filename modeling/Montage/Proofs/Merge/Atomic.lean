import Montage.Proofs.Merge.Outcomes

/-!
# A merge happens or it does not

A merge that fails or is skipped leaves the document as it was, its nodes, settings and style alike.
Where a merge writes more than once, all it checks comes before the first write, so there is no end
at which a part has been written.
-/

namespace Montage

open Scene

/-- **A merge that fails or is skipped leaves the document as it was**, in each of the five ways. -/
theorem merge_atomic (d : Document) (c : Contribution) (type : MergeType) :
    (∀ f, (merge d c type).1 = .error f → (merge d c type).2 = d) ∧
      ∀ reason notes, (merge d c type).1 = .ok ⟨.skipped reason, notes⟩ →
        (merge d c type).2 = d := by
  have hends := merge_ends d c type
  generalize (merge d c type).1 = outcome, (merge d c type).2 = after at hends
  refine ⟨fun f h => ?_, fun reason notes h => ?_⟩
  · -- an error ends each of the ways before it has written anything
    subst h
    cases hends <;> rfl
  · cases hends <;> first | rfl | cases h

/-- The second template has no type, so the settings and the style that come with it are not written
either. -/
theorem merge_atomic_incomplete :
    let d : Document := ⟨[⟨"s", "Scene", .scene, [], {}, [], []⟩], {}, [("bg", .null)]⟩
    let c : Contribution :=
      { output :=
          { children := some [{ id := "a", type := some .atom }, { id := "b" }]
            config := some [("fps", .ofNat 60)]
            style := some [("bg", .bool true)] } }
    (merge d c .full).1 = .error ⟨.malformedOutput, "node \"b\" is missing `type`"⟩ ∧
      (merge d c .full).2 = d := by
  intro d c
  have h : (merge d c .full).1 = .error ⟨.malformedOutput, "node \"b\" is missing `type`"⟩ := by
    rfl
  exact ⟨h, (merge_atomic d c .full).1 _ h⟩

end Montage
