import Mathlib
import Montage.Proofs.Decimal.Comparison
import Montage.Proofs.Decimal.Text
import Montage.Reference.Slice

/-!
# Time ranges

A time range is two times with a hyphen between them, whose digits may be those of any script.
Minutes or seconds that are not written in ASCII digits count nothing, and there is no note of that.
So the captions that are taken are those that are on between the times that the range spells only if
it spells them in ASCII digits.
-/

namespace Montage.Reference

open Montage.Decimal (AreDigits natOfDigits?_eq natOfDigits?_eq_none ofDigitChars_lt
  takeWhile_append_of_head?)
open Montage.Text (isDecimalDigit isAsciiDigit natOfDigits?)

/-! ## Times -/

/-- A time has one or two digits for the minutes and two for the seconds. -/
structure Clock.Written (c : Clock) : Prop where
  minutes : c.minutes.length = 1 ∨ c.minutes.length = 2
  seconds : c.seconds.length = 2
  digits : ∀ d ∈ c.minutes ++ c.seconds, isDecimalDigit d = true

def Clock.text (c : Clock) : List Char := c.minutes ++ ':' :: c.seconds

theorem clock?_eq_some_iff {cs rest : List Char} {c : Clock} :
    clock? cs = some (c, rest) ↔
      c.Written ∧ cs = c.text ++ rest ∧ ∀ d ∈ rest.head?, isDecimalDigit d = false := by
  constructor
  · intro h
    rw [clock?] at h
    dsimp only at h
    split at h
    · rename_i afterColon hcolon
      split at h
      · rename_i hlengths
        cases h
        refine ⟨⟨hlengths.1, hlengths.2, ?_⟩, ?_, ?_⟩
        · rintro d hd
          rcases List.mem_append.mp hd with hd | hd
          · exact List.all_eq_true.mp List.all_takeWhile d hd
          · exact List.all_eq_true.mp List.all_takeWhile d hd
        · rw [Clock.text, List.append_assoc, List.cons_append, List.takeWhile_append_dropWhile,
            ← hcolon, List.takeWhile_append_dropWhile]
        · intro d hd
          have hnot := List.head?_dropWhile_not isDecimalDigit afterColon
          rw [Option.mem_def.mp hd] at hnot
          exact hnot
      · cases h
    · cases h
  · rintro ⟨⟨hminutes, hseconds, hdigits⟩, rfl, hrest⟩
    obtain ⟨hall, hall'⟩ := List.forall_mem_append.mp hdigits
    have hcolon : ∀ d ∈ (':' :: (c.seconds ++ rest)).head?, isDecimalDigit d = false := by
      rintro _ ⟨⟩
      decide
    obtain ⟨htake, hdrop⟩ := takeWhile_append_of_head? hall hcolon
    obtain ⟨htake', hdrop'⟩ := takeWhile_append_of_head? hall' hrest
    rw [Clock.text, List.append_assoc, List.cons_append, clock?, htake, hdrop]
    simp only [htake', hdrop', hminutes, hseconds, and_self, if_true]

/-- A range spells two times. -/
structure Spells (range : String) (first last : Clock) : Prop where
  firstWritten : first.Written
  lastWritten : last.Written
  text : range.toList = first.text ++ '-' :: last.text

theorem timeForm?_eq_some_iff {range : String} {first last : Clock} :
    timeForm? range.toList = some (first, last) ↔ Spells range first last := by
  constructor
  · intro h
    rw [timeForm?] at h
    split at h
    · rename_i rest hfirst
      split at h
      · rename_i hlast
        cases h
        obtain ⟨hwritten, htext, -⟩ := clock?_eq_some_iff.mp hfirst
        obtain ⟨hwritten', rfl, -⟩ := clock?_eq_some_iff.mp hlast
        rw [List.append_nil] at htext
        exact ⟨hwritten, hwritten', htext⟩
      · cases h
    · cases h
  · rintro ⟨hfirst, hlast, htext⟩
    have hhyphen : ∀ d ∈ ('-' :: last.text).head?, isDecimalDigit d = false := by
      rintro _ ⟨⟩
      decide
    have hread := clock?_eq_some_iff.mpr ⟨hfirst, htext, hhyphen⟩
    have hread' := clock?_eq_some_iff.mpr ⟨hlast, (List.append_nil _).symm, nofun⟩
    rw [timeForm?, hread]
    simp only [hread']

theorem rangeKind_eq_time_iff {range : String} :
    rangeKind range = .time ↔ ∃ first last, Spells range first last := by
  constructor
  · intro h
    rw [rangeKind] at h
    split at h
    · rename_i hsome
      obtain ⟨⟨first, last⟩, hform⟩ := Option.isSome_iff_exists.mp hsome
      exact ⟨first, last, timeForm?_eq_some_iff.mp hform⟩
    · split at h <;> cases h
  · rintro ⟨first, last, h⟩
    rw [rangeKind, timeForm?_eq_some_iff.mpr h]
    rfl

/-! ## What the digits count -/

/-- What a group of digits counts: the number that it writes in ASCII digits, else nothing. -/
def countOf (digits : List Char) : Nat :=
  if digits.all isAsciiDigit then Nat.ofDigitChars 10 digits 0 else 0

def Clock.count (c : Clock) : Nat := 60 * countOf c.minutes + countOf c.seconds

theorem countOf_eq (digits : List Char) : countOf digits = (natOfDigits? digits).getD 0 := by
  rw [countOf]
  split
  · rename_i h
    rw [natOfDigits?_eq (List.all_eq_true.mp h)]
    rfl
  · rename_i h
    rw [natOfDigits?_eq_none (mt List.all_eq_true.mpr h)]
    rfl

theorem Clock.total_eq (c : Clock) : c.total = c.count := by
  rw [total, count, countOf_eq, countOf_eq]

theorem countOf_lt (digits : List Char) : countOf digits < 10 ^ digits.length := by
  rw [countOf]
  split
  · rename_i h
    exact ofDigitChars_lt (List.all_eq_true.mp h)
  · exact Nat.pow_pos (by decide)

theorem Clock.Written.count_lt {c : Clock} (h : c.Written) : c.count < 2 ^ 53 := by
  have hlength : c.minutes.length ≤ 2 := h.minutes.elim (·.trans_le (by decide)) Nat.le_of_eq
  have hminutes : countOf c.minutes < 10 ^ 2 :=
    Nat.lt_of_lt_of_le (countOf_lt _) (Nat.pow_le_pow_right (by decide) hlength)
  have hseconds : countOf c.seconds < 10 ^ 2 := h.seconds ▸ countOf_lt c.seconds
  rw [Clock.count]
  omega

/-! ## Captions -/

/-- A caption has the number under a key or, with no number there, under a second one. -/
def HasTime (caption : Json) (key fallback : String) (x : Number) : Prop :=
  caption.get? key = some (.number x) ∨
    (∀ y, caption.get? key ≠ some (.number y)) ∧ caption.get? fallback = some (.number x)

/-- A caption comes on before the second of two times and goes off after the first. -/
def IsOn (first last : Nat) (caption : Json) : Prop :=
  ∃ start stop, HasTime caption "absoluteStart" "start" start ∧
    HasTime caption "absoluteEnd" "end" stop ∧ start.value < last ∧ (first : ℚ) < stop.value

theorem bind_toFloat?_eq_some_iff {v : Option Json} {time : Float} :
    v.bind Json.toFloat? = some time ↔ ∃ x, v = some (.number x) ∧ x.toFloat = time := by
  rcases v with _ | _ | _ | x | _ | _ | _ <;> simp [Json.toFloat?]

theorem bind_toFloat?_eq_none_iff {v : Option Json} :
    v.bind Json.toFloat? = none ↔ ∀ y, v ≠ some (.number y) := by
  rcases v with _ | _ | _ | x | _ | _ | _ <;> simp [Json.toFloat?]

theorem captionTime?_eq_some_iff {caption : Json} {key fallback : String} {time : Float} :
    captionTime? caption key fallback = some time ↔
      ∃ x, HasTime caption key fallback x ∧ x.toFloat = time := by
  rw [captionTime?, Option.or_eq_some_iff, bind_toFloat?_eq_some_iff, bind_toFloat?_eq_some_iff,
    bind_toFloat?_eq_none_iff]
  constructor
  · rintro (⟨x, hx, htime⟩ | ⟨hnone, x, hx, htime⟩)
    · exact ⟨x, .inl hx, htime⟩
    · exact ⟨x, .inr ⟨hnone, hx⟩, htime⟩
  · rintro ⟨x, hx | ⟨hnone, hx⟩, htime⟩
    · exact .inl ⟨x, hx, htime⟩
    · exact .inr ⟨hnone, x, hx, htime⟩

theorem isOnBetween_iff {first last : Nat} (hfirst : first < 2 ^ 53) (hlast : last < 2 ^ 53)
    (caption : Json) :
    isOnBetween (.ofNat first) (.ofNat last) caption = true ↔ IsOn first last caption := by
  have hinterval : isOnBetween (.ofNat first) (.ofNat last) caption = true ↔
      ∃ start stop, captionTime? caption "absoluteStart" "start" = some start ∧
        captionTime? caption "absoluteEnd" "end" = some stop ∧
        start < .ofNat last ∧ .ofNat first < stop := by
    rw [isOnBetween, captionInterval?]
    cases captionTime? caption "absoluteStart" "start" with
    | none => simp
    | some start => cases captionTime? caption "absoluteEnd" "end" <;> simp
  rw [hinterval]
  simp only [captionTime?_eq_some_iff]
  constructor
  · rintro ⟨_, _, ⟨start, hstart, rfl⟩, ⟨stop, hstop, rfl⟩, hbefore, hafter⟩
    exact ⟨start, stop, hstart, hstop, (start.compare_ofNat_iff hlast).1.mp hbefore,
      (stop.compare_ofNat_iff hfirst).2.mp hafter⟩
  · rintro ⟨start, stop, hstart, hstop, hbefore, hafter⟩
    exact ⟨_, _, ⟨start, hstart, rfl⟩, ⟨stop, hstop, rfl⟩,
      (start.compare_ofNat_iff hlast).1.mpr hbefore, (stop.compare_ofNat_iff hfirst).2.mpr hafter⟩

theorem sliceCaptions_of_spells {captions : List Json} {range : String} {first last : Clock}
    (h : Spells range first last) :
    sliceCaptions captions range =
      pure (captions.filter (isOnBetween (.ofNat first.count) (.ofNat last.count))) := by
  have hkind : rangeKind range = .time := rangeKind_eq_time_iff.mpr ⟨first, last, h⟩
  rw [sliceCaptions, hkind]
  dsimp only
  rw [takeTimes, timeBounds, timeForm?_eq_some_iff.mpr h, ← first.total_eq, ← last.total_eq]
  rfl

/-- **A time range takes the captions that are on between the times that its digits count**, with no
note, and it is a time range exactly if it spells two times. Minutes or seconds count the number
that they write if all of their digits are ASCII digits, and nothing otherwise. -/
theorem sliceCaptions_times (captions : List Json) (range : String) :
    (rangeKind range = .time ↔ ∃ first last, Spells range first last) ∧
      ∀ first last, Spells range first last →
        ∃ kept : Json → Bool, sliceCaptions captions range = pure (captions.filter kept) ∧
          ∀ caption, kept caption = true ↔ IsOn first.count last.count caption :=
  ⟨rangeKind_eq_time_iff, fun _ _ h => ⟨_, sliceCaptions_of_spells h,
    isOnBetween_iff h.firstWritten.count_lt h.lastWritten.count_lt⟩⟩

def secondMinute : Json := .object [("start", .number (.int 70)), ("end", .number (.int 80))]

/-- The second minute, spelled in the digits of two scripts: only the first one is taken. -/
theorem sliceCaptions_times_otherDigits :
    Spells "01:00-02:00" ⟨['0', '1'], ['0', '0']⟩ ⟨['0', '2'], ['0', '0']⟩ ∧
      Spells "०१:००-०२:००" ⟨['०', '१'], ['०', '०']⟩ ⟨['०', '२'], ['०', '०']⟩ ∧
      sliceCaptions [secondMinute] "01:00-02:00" = pure [secondMinute] ∧
      sliceCaptions [secondMinute] "०१:००-०२:००" = pure [] := by
  have hspells : Spells "01:00-02:00" ⟨['0', '1'], ['0', '0']⟩ ⟨['0', '2'], ['0', '0']⟩ :=
    ⟨⟨.inr rfl, rfl, List.all_eq_true.mp rfl⟩, ⟨.inr rfl, rfl, List.all_eq_true.mp rfl⟩, rfl⟩
  have hspells' : Spells "०१:००-०२:००" ⟨['०', '१'], ['०', '०']⟩ ⟨['०', '२'], ['०', '०']⟩ :=
    ⟨⟨.inr rfl, rfl, List.all_eq_true.mp rfl⟩, ⟨.inr rfl, rfl, List.all_eq_true.mp rfl⟩, rfl⟩
  have hstart : HasTime secondMinute "absoluteStart" "start" (.int 70) := .inr ⟨nofun, rfl⟩
  have hstop : HasTime secondMinute "absoluteEnd" "end" (.int 80) := .inr ⟨nofun, rfl⟩
  have hon : IsOn 60 120 secondMinute :=
    ⟨_, _, hstart, hstop, by norm_num [Number.value], by norm_num [Number.value]⟩
  have hoff : ¬ IsOn 0 0 secondMinute := by
    rintro ⟨start, -, hasStart | ⟨-, hasStart⟩, -, hbefore, -⟩ <;> cases hasStart
    norm_num [Number.value] at hbefore
  refine ⟨hspells, hspells', ?_, ?_⟩
  · obtain ⟨kept, hslice, hkept⟩ := (sliceCaptions_times [secondMinute] _).2 _ _ hspells
    rw [hslice, List.filter_cons_of_pos ((hkept _).mpr hon), List.filter_nil]
  · obtain ⟨kept, hslice, hkept⟩ := (sliceCaptions_times [secondMinute] _).2 _ _ hspells'
    rw [hslice, List.filter_cons_of_neg (mt (hkept _).mp hoff), List.filter_nil]

end Montage.Reference
