import Mathlib
import Montage.Proofs.Json.Fields
import Montage.Proofs.Reference.Indices
import Montage.Proofs.Reference.Times

/-!
# What a range leaves of a value

A range either fits a value or it does not. If it fits, some elements of the list, or of the list of
captions, are left out, and nothing is noted. If it does not, the value stays whole and one note is
added that names the range. There is nothing in between: no part is taken with a note, and no value
is kept whole for a range that does not fit without one.
-/

namespace Montage.Reference

open Montage.Text (isDecimalDigit)

/-! ## Two ends -/

/-- What comes of taking a part of something after other problems have been noted: a part and no
further note if the range fits, or else the whole and a note on the range. -/
inductive Sliced {α : Type} (prior : List Diagnostic) (range : String) (fits : Prop)
    (IsPart : α → Prop) (whole : α) : Noted α → Prop
  | part {part : α} (hfits : fits) (hpart : IsPart part) :
    Sliced prior range fits IsPart whole ⟨part, prior⟩
  | whole {reason : String} (hfits : ¬ fits) :
    Sliced prior range fits IsPart whole ⟨whole, prior ++ [.rangeInvalid range reason]⟩

namespace Sliced

variable {α β : Type} {range : String} {fits : Prop} {IsPart : α → Prop} {whole : α} {x : Noted α}

theorem after (h : Sliced [] range fits IsPart whole x) (prior : List Diagnostic) :
    Sliced prior range fits IsPart whole ((⟨(), prior⟩ : Noted Unit) >>= fun _ => x) := by
  cases h with
  | @part part hfits hpart =>
    have hnotes : ((⟨(), prior⟩ : Noted Unit) >>= fun _ => ⟨part, []⟩) = ⟨part, prior⟩ :=
      congrArg (Noted.mk part) (List.append_nil prior)
    rw [hnotes]
    exact .part hfits hpart
  | whole hfits => exact .whole hfits

theorem map {IsPart' : β → Prop} (f : α → β) (h : Sliced [] range fits IsPart whole x)
    (hpart : ∀ part, IsPart part → IsPart' (f part)) :
    Sliced [] range fits IsPart' (f whole) (f <$> x) := by
  cases h with
  | part hfits h => exact .part hfits (hpart _ h)
  | whole hfits => exact .whole hfits

theorem of_iff {fits' : Prop} (h : Sliced [] range fits IsPart whole x) (hiff : fits ↔ fits') :
    Sliced [] range fits' IsPart whole x := by
  rw [← propext hiff]
  exact h

end Sliced

theorem sliced_partOr {whole : List Json} {range : String} {fits : Prop}
    {part : Except RangeError (List Json)} (hfits : (∃ p, part = .ok p) ↔ fits)
    (hpart : ∀ p, part = .ok p → p.Sublist whole) :
    Sliced [] range fits (List.Sublist · whole) whole (partOr whole range part) := by
  cases part with
  | ok p => exact .part (hfits.mp ⟨p, rfl⟩) (hpart p rfl)
  | error e =>
    refine .whole fun h => ?_
    obtain ⟨p, hp⟩ := hfits.mpr h
    cases hp

/-! ## Lists -/

def FitsTimes (range : String) : Prop := ∃ first last, Spells range first last

/-- Between two runs of digits there is no colon, so two indices are not two times. -/
theorem IndexForm.not_fitsTimes {range : String} {first last : List Char}
    (h : IndexForm range first last) : ¬ FitsTimes range := by
  rintro ⟨start, stop, hspells⟩
  have hcolon : ':' ∈ first ++ '-' :: last := by
    rw [← h.text, hspells.text, Clock.text]
    simp
  have hdigit : ':' ∈ first ++ last := by simpa using hcolon
  have hnot : isDecimalDigit ':' = false := by decide
  rw [h.digits ':' hdigit] at hnot
  cases hnot

theorem FitsIndices.rangeKind_eq {range : String} {n : Nat} (h : FitsIndices range n) :
    rangeKind range = .index := by
  obtain ⟨first, last, hform, -⟩ := h
  have htime : rangeKind range ≠ .time := fun hkind =>
    hform.not_fitsTimes (rangeKind_eq_time_iff.mp hkind)
  rw [rangeKind, indexForm?_eq_some_iff.mpr hform] at htime ⊢
  by_cases hsome : (timeForm? range.toList).isSome
  · rw [if_pos hsome] at htime
    exact absurd rfl htime
  · rw [if_neg hsome]
    rfl

theorem takeIndices_sublist {values part : List Json} {range : String}
    (h : takeIndices values range = .ok part) : part.Sublist values := by
  obtain ⟨first, last, -, -, -, rfl⟩ := takeIndices_eq_ok_iff.mp h
  exact (List.take_sublist _ _).trans (List.drop_sublist _ _)

theorem sliced_list (items : List Json) (range : String) :
    Sliced [] range (FitsIndices range items.length) (List.Sublist · items) items
      (sliceList items range) := by
  rw [sliceList]
  cases hkind : rangeKind range with
  | index => exact sliced_partOr exists_takeIndices_iff fun p => takeIndices_sublist
  | time | unrecognized =>
    refine .whole fun h => ?_
    rw [h.rangeKind_eq] at hkind
    cases hkind

theorem sliced_captions (captions : List Json) (range : String) :
    Sliced [] range (FitsTimes range ∨ FitsIndices range captions.length)
      (List.Sublist · captions) captions (sliceCaptions captions range) := by
  have htimes : rangeKind range = .time ↔ FitsTimes range := rangeKind_eq_time_iff
  cases hkind : rangeKind range with
  | time =>
    obtain ⟨first, last, hspells⟩ := htimes.mp hkind
    rw [sliceCaptions_of_spells hspells]
    exact .part (.inl ⟨first, last, hspells⟩) List.filter_sublist
  | index =>
    have hnot : ¬ FitsTimes range := by
      rw [← htimes, hkind]
      exact RangeKind.noConfusion
    rw [sliceCaptions, hkind]
    refine sliced_partOr (exists_takeIndices_iff.trans ?_) fun p => takeIndices_sublist
    rw [or_iff_right hnot]
  | unrecognized =>
    rw [sliceCaptions, hkind]
    refine .whole ?_
    rintro (h | h)
    · rw [htimes.mpr h] at hkind
      cases hkind
    · rw [h.rangeKind_eq] at hkind
      cases hkind

/-! ## Values -/

/-- A range fits a list if it has two indices in it, and an object with a list of captions if it is
two times or has two indices in that list. -/
inductive Fits (range : String) : Json → Prop
  | list {items : List Json} (h : FitsIndices range items.length) : Fits range (.array items)
  | captions {fields : Fields} {captions : List Json}
    (hcaptions : Fields.get? fields "captions" = some (.array captions))
    (h : FitsTimes range ∨ FitsIndices range captions.length) : Fits range (.object fields)

/-- What can be left of a value: some elements of a list in their order, or an object with some of
its captions in their order, in which all else is as before and in its place. -/
inductive Thinned : Json → Json → Prop
  | list {items part : List Json} (h : part.Sublist items) : Thinned (.array items) (.array part)
  | captions {before after : Fields} {captions part : List Json}
    (hfirst : "captions" ∉ Fields.keys before) (h : part.Sublist captions) :
    Thinned (.object (before ++ ("captions", .array captions) :: after))
      (.object (before ++ ("captions", .array part) :: after))

theorem sliced_object (fields : Fields) (range : String) :
    Sliced [] range (Fits range (.object fields)) (Thinned (.object fields)) (.object fields)
      (slice (.object fields) range) := by
  by_cases hcaptions : ∃ captions, Fields.get? fields "captions" = some (.array captions)
  · obtain ⟨captions, hcaptions⟩ := hcaptions
    obtain ⟨before, after, hfields, hfirst⟩ := Fields.exists_of_get? hcaptions
    have hiff : FitsTimes range ∨ FitsIndices range captions.length ↔
        Fits range (.object fields) := by
      refine ⟨.captions hcaptions, ?_⟩
      rintro (_ | ⟨hsame, h⟩)
      rw [hcaptions] at hsame
      cases hsame
      exact h
    -- where the captions stay whole, the object that is put together is the one that was there
    have hwhole : Fields.insert fields "captions" (.array captions) = fields :=
      Fields.insert_of_get? hcaptions
    have hsliced := (sliced_captions captions range).of_iff hiff
    have hpart : ∀ part, part.Sublist captions → Thinned (.object fields)
        (.object (Fields.insert fields "captions" (.array part))) := by
      intro part h
      rw [hfields, Fields.insert_append _ hfirst]
      exact .captions hfirst h
    have hmapped := hsliced.map _ hpart
    rw [hwhole] at hmapped
    rw [slice, hcaptions]
    exact hmapped
  · have hnot : ¬ Fits range (.object fields) := by
      rintro (_ | ⟨h, -⟩)
      exact hcaptions ⟨_, h⟩
    have hslice : slice (.object fields) range =
        notSliced (.object fields) range .objectWithoutCaptions := by
      rw [slice]
      split
      · rename_i captions h
        exact absurd ⟨captions, h⟩ hcaptions
      · rfl
    rw [hslice]
    exact .whole hnot

theorem sliced_value (v : Json) (range : String) :
    Sliced [] range (Fits range v) (Thinned v) v (slice v range) := by
  cases v with
  | array items =>
    have hiff : FitsIndices range items.length ↔ Fits range (.array items) := by
      refine ⟨.list, ?_⟩
      rintro ⟨h⟩
      exact h
    have hsliced := (sliced_list items range).of_iff hiff
    exact hsliced.map Json.array fun part h => Thinned.list h
  | object fields => exact sliced_object fields range
  | null | bool _ | number _ | string _ =>
    refine .whole ?_
    rintro ⟨⟩

/-- **A range takes a part without a note, or it takes nothing and there is one.** What was noted
before stays in front. A list, a list of captions and a value are left with some of their elements
exactly if the range fits them, and otherwise they stay whole and the range is noted once. -/
theorem slice_allOrNothing (prior : List Diagnostic) (range : String) :
    (∀ v, Sliced prior range (Fits range v) (Thinned v) v
      ((⟨(), prior⟩ : Noted Unit) >>= fun _ => slice v range)) ∧
    (∀ items, Sliced prior range (FitsIndices range items.length) (List.Sublist · items) items
      ((⟨(), prior⟩ : Noted Unit) >>= fun _ => sliceList items range)) ∧
    ∀ captions, Sliced prior range (FitsTimes range ∨ FitsIndices range captions.length)
      (List.Sublist · captions) captions
      ((⟨(), prior⟩ : Noted Unit) >>= fun _ => sliceCaptions captions range) :=
  ⟨fun v => (sliced_value v range).after prior, fun items => (sliced_list items range).after prior,
    fun captions => (sliced_captions captions range).after prior⟩

end Montage.Reference
