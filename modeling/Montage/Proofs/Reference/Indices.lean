import Mathlib
import Montage.Proofs.Decimal.Text
import Montage.Reference.Range

/-!
# Index ranges

An index range is two runs of digits with a hyphen between them, and the digits may be those of any
script. A run that is not written in ASCII digits, or writes a number that 64 bits do not hold,
stands for the greatest index. No list that 64 bits can count has an element there, so a range is
applied exactly if it writes two places of the list in ASCII digits, in order, however long the
numbers are.
-/

namespace Montage.Reference

open Montage.Decimal (AreDigits isAsciiDigit_iff natOfDigits?_eq natOfDigits?_eq_none
  takeWhile_append_of_head?)
open Montage.Text (isDecimalDigit isAsciiDigit natOfDigits?)

/-! ## Forms -/

/-- A text is two runs of digits of any script with a hyphen between them. -/
structure IndexForm (range : String) (first last : List Char) : Prop where
  firstRun : first ≠ []
  lastRun : last ≠ []
  digits : ∀ d ∈ first ++ last, isDecimalDigit d = true
  text : range.toList = first ++ '-' :: last

theorem indexForm?_eq_some_iff {range : String} {first last : List Char} :
    indexForm? range.toList = some (first, last) ↔ IndexForm range first last := by
  constructor
  · intro h
    rw [indexForm?] at h
    split at h
    · rename_i rest hhyphen
      split at h
      · rename_i hruns
        cases h
        refine ⟨hruns.1, hruns.2.1, ?_, ?_⟩
        · intro d hd
          rcases List.mem_append.mp hd with hd | hd
          · exact List.all_eq_true.mp List.all_takeWhile d hd
          · exact List.all_eq_true.mp hruns.2.2 d hd
        · rw [← hhyphen, List.takeWhile_append_dropWhile]
      · cases h
    · cases h
  · rintro ⟨hfirst, hlast, hdigits, htext⟩
    obtain ⟨hbefore, hbehind⟩ := List.forall_mem_append.mp hdigits
    have hhyphen : ∀ d ∈ ('-' :: last).head?, isDecimalDigit d = false := by
      rintro _ ⟨⟩
      decide
    obtain ⟨htake, hdrop⟩ := takeWhile_append_of_head? hbefore hhyphen
    rw [htext, indexForm?, htake, hdrop]
    simp [hfirst, hlast, List.all_eq_true.mpr hbehind]

theorem IndexForm.unique {range : String} {first last first' last' : List Char}
    (h : IndexForm range first last) (h' : IndexForm range first' last') :
    first = first' ∧ last = last' := by
  have hsame := (indexForm?_eq_some_iff.mpr h).symm.trans (indexForm?_eq_some_iff.mpr h')
  simpa using hsame

/-! ## Numbers -/

/-- A run of ASCII digits writes a number, with or without zeros in front of it. -/
structure WritesIndex (digits : List Char) (n : Nat) : Prop where
  run : digits ≠ []
  ascii : AreDigits digits
  value : Nat.ofDigitChars 10 digits 0 = n

/-- A text is two numbers in ASCII digits with a hyphen between them. -/
def SpellsIndices (range : String) (a b : Nat) : Prop :=
  ∃ first last, WritesIndex first a ∧ WritesIndex last b ∧ range.toList = first ++ '-' :: last

theorem isDecimalDigit_of_isAsciiDigit {c : Char} (h : isAsciiDigit c = true) :
    isDecimalDigit c = true := by
  obtain ⟨hlow, hhigh⟩ := isAsciiDigit_iff.mp h
  rw [isDecimalDigit, List.any_eq_true]
  refine ⟨0x30, by decide, ?_⟩
  rw [Bool.and_eq_true, decide_eq_true_eq, decide_eq_true_eq]
  exact ⟨hlow, hhigh⟩

theorem WritesIndex.form {range : String} {first last : List Char} {a b : Nat}
    (hfirst : WritesIndex first a) (hlast : WritesIndex last b)
    (htext : range.toList = first ++ '-' :: last) : IndexForm range first last where
  firstRun := hfirst.run
  lastRun := hlast.run
  digits d hd := isDecimalDigit_of_isAsciiDigit <|
    (List.mem_append.mp hd).elim (hfirst.ascii d) (hlast.ascii d)
  text := htext

theorem SpellsIndices.unique {range : String} {a b a' b' : Nat} (h : SpellsIndices range a b)
    (h' : SpellsIndices range a' b') : a = a' ∧ b = b' := by
  obtain ⟨first, last, hfirst, hlast, htext⟩ := h
  obtain ⟨first', last', hfirst', hlast', htext'⟩ := h'
  obtain ⟨rfl, rfl⟩ := (hfirst.form hlast htext).unique (hfirst'.form hlast' htext')
  exact ⟨hfirst.value.symm.trans hfirst'.value, hlast.value.symm.trans hlast'.value⟩

theorem writesIndex_indexOf {digits : List Char} (hrun : digits ≠ [])
    (hlt : indexOf digits < maxIndex) : WritesIndex digits (indexOf digits) := by
  by_cases hdigits : AreDigits digits
  · refine ⟨hrun, hdigits, ?_⟩
    rw [indexOf, natOfDigits?_eq hdigits, Option.getD_some] at hlt ⊢
    omega
  · -- other digits stand for the greatest index itself
    rw [indexOf, natOfDigits?_eq_none hdigits, Option.getD_none] at hlt
    omega

theorem WritesIndex.indexOf_eq {digits : List Char} {n : Nat} (h : WritesIndex digits n)
    (hle : n ≤ maxIndex) : indexOf digits = n := by
  rw [indexOf, natOfDigits?_eq h.ascii, h.value, Option.getD_some]
  omega

/-! ## Parts of a list -/

section

variable {a b c d : Nat} {values : List Json}

theorem length_extract (hab : a ≤ b) (hb : b < values.length) :
    (values.extract a (b + 1)).length = b - a + 1 := by
  rw [List.length_take, List.length_drop]
  omega

theorem getElem?_extract {i : Nat} (hab : a ≤ b) (hi : i ≤ b - a) :
    (values.extract a (b + 1))[i]? = values[a + i]? := by
  have hlt : i < b + 1 - a := by omega
  rw [List.getElem?_take_of_lt hlt, List.getElem?_drop]

theorem extract_extract (hab : a ≤ b) (hd : d ≤ b - a) :
    (values.extract a (b + 1)).extract c (d + 1) = values.extract (a + c) (a + d + 1) := by
  have hsize : a + d + 1 - (a + c) = d + 1 - c := by omega
  have hinside : d + 1 - c ≤ b + 1 - a - c := by omega
  simp only [List.extract_eq_take_drop, List.drop_take, List.drop_drop, List.take_take]
  rw [hsize, Nat.min_eq_left hinside]

end

/-! ## Application -/

/-- A range has two indices that are in order and in a list of the given length. -/
def FitsIndices (range : String) (length : Nat) : Prop :=
  ∃ first last, IndexForm range first last ∧ indexOf first ≤ indexOf last ∧ indexOf last < length

theorem takeIndices_eq_ok_iff {values part : List Json} {range : String} :
    takeIndices values range = .ok part ↔
      ∃ first last, IndexForm range first last ∧ indexOf first ≤ indexOf last ∧
        indexOf last < values.length ∧
        values.extract (indexOf first) (indexOf last + 1) = part := by
  constructor
  · intro h
    rw [takeIndices] at h
    split at h
    · cases h
    · rename_i first last hform
      dsimp only at h
      split at h
      · cases h
      split at h
      · cases h
      cases h
      exact ⟨first, last, indexForm?_eq_some_iff.mp hform, by omega, by omega, rfl⟩
  · rintro ⟨first, last, hform, hle, hlt, rfl⟩
    rw [takeIndices, indexForm?_eq_some_iff.mpr hform]
    dsimp only
    rw [if_neg (by omega), if_neg (by omega)]

theorem exists_takeIndices_iff {values : List Json} {range : String} :
    (∃ part, takeIndices values range = .ok part) ↔ FitsIndices range values.length := by
  constructor
  · rintro ⟨part, h⟩
    obtain ⟨first, last, hform, hle, hlt, -⟩ := takeIndices_eq_ok_iff.mp h
    exact ⟨first, last, hform, hle, hlt⟩
  · rintro ⟨first, last, hform, hle, hlt⟩
    exact ⟨_, takeIndices_eq_ok_iff.mpr ⟨first, last, hform, hle, hlt, rfl⟩⟩

theorem lt_maxIndex {n length : Nat} (hlength : length < count64) (hn : n < length) :
    n < maxIndex := by
  rw [maxIndex]
  omega

theorem takeIndices_of_spells {values : List Json} (hlength : values.length < count64)
    {range : String} {a b : Nat} (hspells : SpellsIndices range a b) (hab : a ≤ b)
    (hb : b < values.length) : takeIndices values range = .ok (values.extract a (b + 1)) := by
  obtain ⟨first, last, hfirst, hlast, htext⟩ := hspells
  have hmax := lt_maxIndex hlength hb
  have hfirst' := hfirst.indexOf_eq (by omega)
  have hlast' := hlast.indexOf_eq (by omega)
  refine takeIndices_eq_ok_iff.mpr ⟨first, last, hfirst.form hlast htext, ?_⟩
  rw [hfirst', hlast']
  exact ⟨hab, hb, rfl⟩

theorem exists_spells_of_takeIndices {values part : List Json}
    (hlength : values.length < count64) {range : String}
    (h : takeIndices values range = .ok part) :
    ∃ a b, SpellsIndices range a b ∧ a ≤ b ∧ b < values.length := by
  obtain ⟨first, last, hform, hle, hlt, -⟩ := takeIndices_eq_ok_iff.mp h
  -- both indices are below the greatest one, so both runs write them
  have hmax := lt_maxIndex hlength hlt
  have hfirst := writesIndex_indexOf hform.firstRun (by omega)
  have hlast := writesIndex_indexOf hform.lastRun hmax
  exact ⟨_, _, ⟨first, last, hfirst, hlast, hform.text⟩, hle, hlt⟩

/-- **An index range takes the elements at the places that it writes**, both included, and it is
applied exactly if it writes two numbers in ASCII digits of which the first is not greater than the
second and the second is a place of the list. Taking a part of the part that was taken is taking a
part of the list, with both places moved on by the first place. -/
theorem takeIndices_exact {values : List Json} (hlength : values.length < count64) :
    (∀ range, (∃ part, takeIndices values range = .ok part) ↔
      ∃ a b, SpellsIndices range a b ∧ a ≤ b ∧ b < values.length) ∧
    (∀ range part a b, takeIndices values range = .ok part → SpellsIndices range a b →
      part.length = b - a + 1 ∧ ∀ i ≤ b - a, part[i]? = values[a + i]?) ∧
    ∀ range inner outer a b c d, SpellsIndices range a b → SpellsIndices inner c d →
      SpellsIndices outer (a + c) (a + d) → a ≤ b → b < values.length → c ≤ d → d ≤ b - a →
      ∃ part whole, takeIndices values range = .ok part ∧ takeIndices part inner = .ok whole ∧
        takeIndices values outer = .ok whole := by
  refine ⟨fun range => ⟨?_, ?_⟩, ?_, ?_⟩
  · rintro ⟨part, h⟩
    exact exists_spells_of_takeIndices hlength h
  · rintro ⟨a, b, hspells, hab, hb⟩
    exact ⟨_, takeIndices_of_spells hlength hspells hab hb⟩
  · intro range part a b h hspells
    obtain ⟨a', b', hspells', hab, hb⟩ := exists_spells_of_takeIndices hlength h
    obtain ⟨rfl, rfl⟩ := hspells.unique hspells'
    obtain rfl := Except.ok.inj (h.symm.trans (takeIndices_of_spells hlength hspells hab hb))
    exact ⟨length_extract hab hb, fun i hi => getElem?_extract hab hi⟩
  · intro range inner outer a b c d hspells hinner houter hab hb hcd hd
    have hpart := length_extract hab hb
    refine ⟨_, _, takeIndices_of_spells hlength hspells hab hb,
      takeIndices_of_spells (by omega) hinner hcd (by omega), ?_⟩
    rw [takeIndices_of_spells hlength houter (by omega) (by omega), extract_extract hab hd]

/-- The places 1 to 3 of five, and of these the places 1 and 2, once with a zero in front. -/
theorem takeIndices_exact_zeros :
    let values : List Json := [.ofNat 10, .ofNat 20, .ofNat 30, .ofNat 40, .ofNat 50]
    SpellsIndices "001-3" 1 3 ∧ SpellsIndices "1-02" 1 2 ∧ SpellsIndices "2-3" 2 3 ∧
      ∃ part whole, takeIndices values "001-3" = .ok part ∧ takeIndices part "1-02" = .ok whole ∧
        takeIndices values "2-3" = .ok whole ∧ whole.length = 2 := by
  intro values
  have hlength : values.length < count64 := by decide
  have hone : SpellsIndices "001-3" 1 3 :=
    ⟨['0', '0', '1'], ['3'], ⟨nofun, List.all_eq_true.mp rfl, rfl⟩,
      ⟨nofun, List.all_eq_true.mp rfl, rfl⟩, rfl⟩
  have hinner : SpellsIndices "1-02" 1 2 :=
    ⟨['1'], ['0', '2'], ⟨nofun, List.all_eq_true.mp rfl, rfl⟩,
      ⟨nofun, List.all_eq_true.mp rfl, rfl⟩, rfl⟩
  have houter : SpellsIndices "2-3" 2 3 :=
    ⟨['2'], ['3'], ⟨nofun, List.all_eq_true.mp rfl, rfl⟩,
      ⟨nofun, List.all_eq_true.mp rfl, rfl⟩, rfl⟩
  obtain ⟨-, hresult, hcompose⟩ := takeIndices_exact hlength
  obtain ⟨part, whole, hpart, hwhole, hdirect⟩ :=
    hcompose _ _ _ 1 3 1 2 hone hinner houter (by decide) (by decide) (by decide) (by decide)
  exact ⟨hone, hinner, houter, part, whole, hpart, hwhole, hdirect,
    (hresult _ _ _ _ hdirect houter).1⟩

end Montage.Reference
