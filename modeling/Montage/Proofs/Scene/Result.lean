import Montage.Proofs.Decimal.Ordered
import Montage.Proofs.Except
import Montage.Scene.Contribution

/-!
# Results in two forms

A preset returns the document part of its contribution alone, or under the key `output`. Each form
has a check of its own for results with nothing in it and a decoder of its own, and both come to the
same contribution, to the same error, or to none.
-/

namespace Montage

/-- The values that count as false, and the empty list and the empty object. -/
inductive Json.Falsy : Json → Prop
  | null : Falsy .null
  | no : Falsy (.bool false)
  | zero {n : Number} (h : n.toFloat == 0) : Falsy (.number n)
  | emptyText : Falsy (.string "")
  | emptyList : Falsy (.array [])
  | emptyObject : Falsy (.object [])

theorem Json.isEmpty_iff (v : Json) : v.isEmpty = true ↔ v.Falsy := by
  constructor
  · intro h
    match v, h with
    | .null, _ => exact .null
    | .bool false, _ => exact .no
    | .number n, h =>
      rw [Json.isEmpty, Number.isNaN_toFloat, Bool.or_false] at h
      exact .zero h
    | .string s, h =>
      obtain rfl := String.isEmpty_iff.mp h
      exact .emptyText
    | .array [], _ => exact .emptyList
    | .object [], _ => exact .emptyObject
  · rintro (_ | _ | h | _ | _ | _)
    case zero => rw [Json.isEmpty, h, Bool.true_or]
    all_goals rfl

namespace Scene.Contribution

theorem ofJson_output (v : Json) :
    ofJson (.object [("output", v)]) = (fun f => ⟨f, {}⟩) <$> Fragment.ofJson v := by
  have hread : Draft.read {} "output" v = (fun f => ⟨some f, {}⟩) <$> Fragment.ofJson v := by
    rw [Draft.read, if_pos rfl]
    rfl
  rw [ofJson, Decode.record, List.foldlM_cons]
  dsimp only
  rw [hread]
  rcases Fragment.ofJson v with e | f <;> rfl

/-- The contribution of a document part that stands alone. -/
def ofPart (v : Json) : Outcome (Option Contribution) :=
  (fun f => some ⟨f, {}⟩) <$> (Fragment.ofJson v).mapError malformed

theorem ofResult_output (v : Json) :
    ofResult (.object [("output", v)]) = if v.isEmpty then .ok none else ofPart v := by
  have hget : ofResult (.object [("output", v)]) =
      if v.isEmpty then .ok none
      else some <$> (ofJson (.object [("output", v)])).mapError malformed := rfl
  rw [hget, ofJson_output, ofPart]
  rcases Fragment.ofJson v with e | f <;> rfl

theorem ofResult_bare {fields : Fields} (h : Fields.get? fields "output" = none) :
    ofResult (.object fields) =
      if (Json.object fields).isEmpty then .ok none else ofPart (.object fields) := by
  unfold ofResult
  dsimp only
  rw [h]
  rfl

/-- **A result and the same result under the key `output` give the same**, for every object without
that key and for every value that counts as false or is empty: no contribution if it is empty, and
otherwise a contribution without options or what is wrong with the document part. -/
theorem ofResult_wrapped {v : Json}
    (h : v.Falsy ∨ ∃ fields, v = .object fields ∧ Fields.get? fields "output" = none) :
    ofResult (.object [("output", v)]) = ofResult v ∧
      (v.Falsy → ofResult v = .ok none) ∧
      (¬ v.Falsy → (∃ f, Fragment.ofJson v = .ok f ∧ ofResult v = .ok (some ⟨f, {}⟩)) ∨
        ∃ e, Fragment.ofJson v = .error e ∧ ofResult v = .error ⟨.malformedOutput, e.message⟩) := by
  rw [← Json.isEmpty_iff] at h ⊢
  have hresult : ofResult v = if v.isEmpty then .ok none else ofPart v := by
    rcases h with hempty | ⟨fields, rfl, houtput⟩
    · unfold ofResult
      rw [if_pos hempty, if_pos hempty]
    · exact ofResult_bare houtput
  rw [ofResult_output, hresult]
  refine ⟨rfl, fun hempty => if_pos hempty, fun hsome => ?_⟩
  rw [if_neg hsome, ofPart]
  rcases Fragment.ofJson v with e | f
  · exact .inr ⟨e, rfl, rfl⟩
  · exact .inl ⟨f, rfl, rfl⟩

/-- Options that stand beside the document part are not looked at, and a node without a proper id is
found at its depth. -/
theorem ofResult_wrapped_stray :
    let v : Json :=
      .object [("options", .bool true), ("childrenData", .array [.object [("id", .null)]])]
    let malformed : Failure := ⟨.malformedOutput, "invalid type: null, expected a string"⟩
    (¬ v.Falsy ∧ Fields.get? [("options", Json.bool true)] "output" = none ∧
      ofResult (.object [("output", v)]) = ofResult v ∧ ofResult v = .error malformed) ∧
    ofResult (.object [("output", .number (.int 0))]) = .ok none := by
  intro v malformed
  have hv : ¬ v.Falsy := by
    rw [← Json.isEmpty_iff]
    exact Bool.false_ne_true
  have hwrapped := ofResult_wrapped (v := v) (.inr ⟨_, rfl, by decide⟩)
  have hzero : (Json.number (.int 0)).Falsy := .zero (by decide)
  have hnone := ofResult_wrapped (.inl hzero)
  exact ⟨⟨hv, rfl, hwrapped.1, rfl⟩, hnone.1.trans (hnone.2.1 hzero)⟩

end Scene.Contribution

end Montage
