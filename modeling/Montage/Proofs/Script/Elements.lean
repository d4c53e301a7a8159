import Mathlib
import Montage.Proofs.Decimal.Comparison
import Montage.Proofs.Script.Numbers
import Montage.Proofs.Stateful
import Montage.Script.Eval

/-!
# Elements by equal numbers

A number may be written as a whole number or as a float, and the language takes `1` and `1.0` for
equal. As an index it does not: a float is no place of a list or a text, and in an object a number
stands for the key that is its text. So equal numbers find the same everywhere exactly if they are
written alike. In lists and texts two whole numbers that are equal find the same, as the numbers
that are rounded to one float lie beyond any list, and so do two floats, which find nothing.
-/

namespace Montage

open Decimal (natDigits ofDigitChars_natDigits areDigits_natDigits)
open Montage.Text (isAsciiDigit)

/-! ## Texts of numbers -/

/-- Whether the number is a whole number as it stands, and not a float. -/
def Number.isInt : Number → Bool
  | .int _ => true
  | .float _ _ => false

theorem toList_intText (n : Int) :
    (Json.intText n).toList = if n < 0 then '-' :: natDigits n.natAbs else natDigits n.natAbs := by
  rw [Json.intText]
  split
  · rw [String.toList_append, toList_toString]
    rfl
  · exact toList_toString _

theorem natDigits_injective {m n : Nat} (h : natDigits m = natDigits n) : m = n := by
  rw [← ofDigitChars_natDigits m, h, ofDigitChars_natDigits]

theorem minus_not_mem_natDigits (n : Nat) : '-' ∉ natDigits n :=
  fun h => absurd (areDigits_natDigits n _ h) (by decide)

theorem intText_injective {m n : Int} (h : Json.intText m = Json.intText n) : m = n := by
  have hlist := congrArg String.toList h
  rw [toList_intText, toList_intText] at hlist
  split at hlist <;> split at hlist
  · have := natDigits_injective (List.cons.inj hlist).2
    omega
  · exact absurd (hlist ▸ List.mem_cons_self) (minus_not_mem_natDigits _)
  · exact absurd (hlist ▸ List.mem_cons_self) (minus_not_mem_natDigits _)
  · have := natDigits_injective hlist
    omega

theorem exists_mark_scaledText (d : Decimal.Scaled) :
    ∃ c ∈ Decimal.Format.data.scaledText d, c = '.' ∨ c = 'e' := by
  rw [Decimal.Format.scaledText]
  split
  · exact ⟨'.', by simp [Decimal.Format.data], .inl rfl⟩
  split
  · refine ⟨'.', ?_, .inl rfl⟩
    rw [Decimal.Format.positionalText]
    split
    · simp
    · dsimp only
      split <;> simp [Decimal.Format.data]
  · exact ⟨'e', by simp [Decimal.Format.exponentText], .inr rfl⟩

theorem exists_mark_text {x : Float} (hx : x.isFinite = true) :
    ∃ c ∈ Decimal.Format.data.text x, c = '.' ∨ c = 'e' := by
  have hsigned : ∃ d, Decimal.Format.data.scaledText d ⊆ Decimal.Format.data.text x := by
    rw [Decimal.Format.text]
    rcases Decimal.form_of_isFinite hx with ⟨s, hu⟩ | ⟨m, e, hm, hu | hu⟩ <;> rw [hu]
    · cases s with
      | positive => exact ⟨_, List.Subset.refl _⟩
      | negative => exact ⟨_, List.subset_cons_self _ _⟩
    · exact ⟨_, List.Subset.refl _⟩
    · exact ⟨_, List.subset_cons_self _ _⟩
  obtain ⟨d, hsubset⟩ := hsigned
  obtain ⟨c, hc, hmark⟩ := exists_mark_scaledText d
  exact ⟨c, hsubset hc, hmark⟩

theorem text_int_ne_float (n : Int) {x : Float} (hx : x.isFinite = true) :
    Number.text (.int n) ≠ Number.text (.float x hx) := by
  intro h
  have hlist := congrArg String.toList h
  rw [Number.text, Number.text, String.toList_ofList, toList_intText] at hlist
  obtain ⟨c, hc, hmark⟩ := exists_mark_text hx
  have hdigit : ¬ isAsciiDigit c = true ∧ c ≠ '-' := by
    obtain rfl | rfl := hmark <;> decide
  rw [← hlist] at hc
  have hmem : c ∈ natDigits n.natAbs := by
    split at hc
    · exact (List.mem_cons.mp hc).resolve_left hdigit.2
    · exact hc
  exact hdigit.1 (areDigits_natDigits _ _ hmem)

theorem Number.place?_eq_of_text_eq {i j : Number} (h : i.text = j.text) : i.place? = j.place? := by
  cases i with
  | int m =>
    cases j with
    | int n => rw [intText_injective h]
    | float y hy => exact absurd h (text_int_ne_float m hy)
  | float x hx =>
    cases j with
    | int n => exact absurd h.symm (text_int_ne_float n hx)
    | float y hy => rfl

/-! ## Places -/

/-- Only one whole number is rounded to the float of a place below `2 ^ 53`. -/
theorem Number.place?_eq_of_beq {m n : Int} {k : Nat} (hk : k < 2 ^ 53)
    (h : ((Number.int m).toFloat == (Number.int n).toFloat) = true)
    (hm : (Number.int m).place? = some k) : (Number.int n).place? = some k := by
  have hmk : m = k := by
    cases m with
    | ofNat m =>
      cases hm
      rfl
    | negSucc m => cases hm
  subst hmk
  have hequal := (Decimal.beq_iff_not_lt (Number.isNaN_toFloat _) (Number.isNaN_toFloat _)).mp h
  obtain ⟨hless, hgreater⟩ := Number.compare_ofNat_iff hk (.int n)
  have hvalue : (n : ℚ) = (k : ℕ) :=
    le_antisymm (not_lt.mp (mt hgreater.mpr hequal.1)) (not_lt.mp (mt hless.mpr hequal.2))
  have hn : n = k := by exact_mod_cast hvalue
  rw [hn]
  rfl

namespace Script

open Montage.Stateful

def placesOf : Json → List Json
  | .array items => items
  | .string s => characters s
  | _ => []

theorem elementOf_place {x : Json} (hx : x.kind ≠ .object) (i : Number) :
    elementOf x (.number i) = (i.place?.bind ((placesOf x)[·]?)).getD .null := by
  cases x with
  | object fields => exact absurd rfl hx
  | array items => rfl
  | string s => rfl
  | _ => cases i.place? <;> rfl

theorem elementOf_float {x : Json} (hx : x.kind ≠ .object) {y : Float} (hy : y.isFinite = true) :
    elementOf x (.number (.float y hy)) = .null := elementOf_place hx _

theorem elementOf_int {x : Json} (hx : x.kind ≠ .object) (hlength : (placesOf x).length ≤ 2 ^ 53)
    {m n : Int} (h : ((Number.int m).toFloat == (Number.int n).toFloat) = true) :
    elementOf x (.number (.int m)) = elementOf x (.number (.int n)) := by
  have hfound : ∀ {m n : Int}, ((Number.int m).toFloat == (Number.int n).toFloat) = true → ∀ v,
      (Number.int m).place?.bind ((placesOf x)[·]?) = some v →
        (Number.int n).place?.bind ((placesOf x)[·]?) = some v := by
    intro m n h v hv
    obtain ⟨k, hk, hkv⟩ := Option.bind_eq_some_iff.mp hv
    obtain ⟨hlt, -⟩ := List.getElem?_eq_some_iff.mp hkv
    rw [Number.place?_eq_of_beq (Nat.lt_of_lt_of_le hlt hlength) h hk]
    exact hkv
  have hsymm : ((Number.int n).toFloat == (Number.int m).toFloat) = true := by
    rw [Decimal.beq_iff_not_lt (Number.isNaN_toFloat _) (Number.isNaN_toFloat _)] at h ⊢
    exact h.symm
  rw [elementOf_place hx, elementOf_place hx]
  congr 1
  exact Option.ext fun v => ⟨hfound h v, hfound hsymm v⟩

theorem eval_index_literal {fetch : Fetcher} {m : Machine} {x : Json} (hx : x ≠ .null) (i : Json) :
    exec (eval fetch (.index (.literal x) (.literal i))) m = (.ok (elementOf x i), m) := by
  have hbase : exec (eval fetch (.literal x)) m = (.ok x, m) := by rw [eval]; rfl
  have hindex : exec (eval fetch (.literal i)) m = (.ok i, m) := by rw [eval]; rfl
  rw [eval, exec_bind_ok hbase, exec_bind_ok hindex]
  cases x <;> first | exact absurd rfl hx | rfl

/-- **Equal numbers as indices.** They find the same in every value exactly if they are written
alike. In a value that is no object they find the same if both are whole numbers or both floats;
else they do only where the whole number finds nothing, as the float never finds anything. -/
theorem elementOf_alike_iff {i j : Number} (h : looseEq (.number i) (.number j) = true) :
    ((∀ (fetch : Fetcher) (m : Machine) (x : Json), x ≠ .null →
        exec (eval fetch (.index (.literal x) (.literal (.number i)))) m =
          exec (eval fetch (.index (.literal x) (.literal (.number j)))) m) ↔ i.text = j.text) ∧
      ∀ x : Json, x.kind ≠ .object → (placesOf x).length ≤ 2 ^ 53 →
        (elementOf x (.number i) = elementOf x (.number j) ↔
          i.isInt = j.isInt ∨
            elementOf x (.number i) = .null ∧ elementOf x (.number j) = .null) := by
  rw [looseEq] at h
  refine ⟨⟨fun hsame => ?_, fun htext fetch m x hx => ?_⟩, fun x hx hlength => ?_⟩
  · have hfound := hsame .absent ⟨[], []⟩ (.object [(i.text, .bool true)]) (by simp)
    rw [eval_index_literal (by simp), eval_index_literal (by simp)] at hfound
    -- the object has a member for the text of the one number, which the other must find
    have hmember : elementOf (.object [(i.text, .bool true)]) (.number j) = .bool true := by
      rw [← (Except.ok.inj (Prod.mk.inj hfound).1), elementOf, Fields.get?, if_pos rfl]
      rfl
    by_contra hne
    rw [elementOf, Fields.get?, if_neg hne] at hmember
    cases hmember
  · rw [eval_index_literal hx, eval_index_literal hx]
    have hplace := Number.place?_eq_of_text_eq htext
    have hsame : elementOf x (.number i) = elementOf x (.number j) := by
      cases x <;> simp only [elementOf, htext, hplace]
    rw [hsame]
  · cases i with
    | int m =>
      cases j with
      | int n => exact iff_of_true (elementOf_int hx hlength h) (.inl rfl)
      | float y hy =>
        rw [elementOf_float hx hy]
        simp [Number.isInt]
    | float y hy =>
      cases j with
      | int n =>
        rw [elementOf_float hx hy]
        simp [Number.isInt, eq_comm]
      | float z hz =>
        rw [elementOf_float hx hy, elementOf_float hx hz]
        exact iff_of_true rfl (.inl rfl)

/-- `1` finds the second element of a list, and `1.0` nothing. -/
theorem elementOf_alike_iff_oneAsFloat :
    looseEq (.number (.int 1)) (.number (.float 1.0 rfl)) = true ∧
      ¬ elementOf (.array [.string "a", .string "b"]) (.number (.int 1)) =
        elementOf (.array [.string "a", .string "b"]) (.number (.float 1.0 rfl)) := by
  have hequal : looseEq (.number (.int 1)) (.number (.float 1.0 rfl)) = true := rfl
  refine ⟨hequal, fun hsame => ?_⟩
  have hcases := ((elementOf_alike_iff hequal).2 (.array [.string "a", .string "b"])
    (by simp [Json.kind]) (by simp [placesOf])).mp hsame
  obtain hkinds | ⟨hnull, -⟩ := hcases
  · cases hkinds
  · cases hnull

end Script

end Montage
