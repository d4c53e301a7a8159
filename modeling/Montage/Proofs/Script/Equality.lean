import Mathlib
import Montage.Proofs.Decimal.Comparison
import Montage.Proofs.Json.WellFormed
import Montage.Script.Eval

/-!
# Equality of the language

When the language takes two values for equal, without saying how it compares them: they have the
same structure, lists agree place by place and objects key by key, in any order, and numbers agree
if the floats nearest to them have the same value. This relation is symmetric as it stands. The
comparison goes over the members of one object only and looks them up in the other, but it also
compares how many they are, and as no key comes twice this says the same.
-/

namespace Montage

open Decimal (exactValue)

/-! ## Values that agree -/

/-- Two values agree up to their numbers, which are related by `R`. The members of objects may be in
any order. -/
inductive Json.Agrees (R : Number → Number → Prop) : Json → Json → Prop
  | null : Agrees R .null .null
  | bool (b : Bool) : Agrees R (.bool b) (.bool b)
  | number {m n : Number} (h : R m n) : Agrees R (.number m) (.number n)
  | string (s : String) : Agrees R (.string s) (.string s)
  | array {xs ys : List Json} (hlength : xs.length = ys.length)
    (hitems : ∀ (i : Nat) x y, xs[i]? = some x → ys[i]? = some y → Agrees R x y) :
    Agrees R (.array xs) (.array ys)
  | object {fs gs : Fields} (hkeys : ∀ k, k ∈ Fields.keys fs ↔ k ∈ Fields.keys gs)
    (hvalues : ∀ k x y, Fields.get? fs k = some x → Fields.get? gs k = some y → Agrees R x y) :
    Agrees R (.object fs) (.object gs)

/-- The same number of JSON: the same whole number, or equal floats. -/
inductive Number.Same : Number → Number → Prop
  | int (n : Int) : Same (.int n) (.int n)
  | float {x y : Float} {hx : x.isFinite = true} {hy : y.isFinite = true} (h : (x == y) = true) :
    Same (.float x hx) (.float y hy)

/-- Numbers that count the same: the floats nearest to them have the same value. -/
def Number.Equal (m n : Number) : Prop := exactValue m.toFloat = exactValue n.toFloat

theorem Number.equivalence_equal : Equivalence Number.Equal :=
  ⟨fun _ => rfl, Eq.symm, Eq.trans⟩

theorem Number.Same.equal {m n : Number} (h : m.Same n) : m.Equal n := by
  cases h with
  | int n => rfl
  | @float x y hx hy h => exact (Decimal.beq_iff_exactValue hx hy).mp h

namespace Json.Agrees

variable {R S : Number → Number → Prop} {a b c : Json}

theorem mono (hRS : ∀ m n, R m n → S m n) (h : a.Agrees R b) : a.Agrees S b := by
  induction h with
  | null => exact .null
  | bool b => exact .bool b
  | number h => exact .number (hRS _ _ h)
  | string s => exact .string s
  | array hlength _ ih => exact .array hlength ih
  | object hkeys _ ih => exact .object hkeys ih

theorem symm (hR : ∀ {m n}, R m n → R n m) (h : a.Agrees R b) : b.Agrees R a := by
  induction h with
  | null => exact .null
  | bool b => exact .bool b
  | number h => exact .number (hR h)
  | string s => exact .string s
  | array hlength _ ih => exact .array hlength.symm fun i x y hx hy => ih i y x hy hx
  | object hkeys _ ih => exact .object (fun k => (hkeys k).symm) fun k x y hx hy => ih k y x hy hx

theorem trans (hR : ∀ {l m n}, R l m → R m n → R l n) (h : a.Agrees R b) (h' : b.Agrees R c) :
    a.Agrees R c := by
  induction h generalizing c with
  | null | bool | string => exact h'
  | number h =>
    cases h' with
    | number h' => exact .number (hR h h')
  | @array xs ys hlength _ ih =>
    cases h' with
    | @array _ zs hlength' hitems' =>
      refine .array (hlength.trans hlength') fun i x z hx hz => ?_
      obtain ⟨hi, -⟩ := List.getElem?_eq_some_iff.mp hx
      obtain ⟨y, hy⟩ : ∃ y, ys[i]? = some y := ⟨_, List.getElem?_eq_getElem (hlength ▸ hi)⟩
      exact ih i x _ hx hy (hitems' i _ z hy hz)
  | @object fs gs hkeys _ ih =>
    cases h' with
    | @object _ hs hkeys' hvalues' =>
      refine .object (fun k => (hkeys k).trans (hkeys' k)) fun k x z hx hz => ?_
      have hk : k ∈ Fields.keys gs :=
        (hkeys k).mp (Fields.isSome_get?_iff.mp (Option.isSome_of_eq_some hx))
      obtain ⟨y, hy⟩ := Option.isSome_iff_exists.mp (Fields.isSome_get?_iff.mpr hk)
      exact ih k x y hx hy (hvalues' k y z hy hz)

mutual

theorem refl (hR : ∀ n, R n n) : ∀ v : Json, v.Agrees R v
  | .null => .null
  | .bool b => .bool b
  | .number n => .number (hR n)
  | .string s => .string s
  | .array items => by
    refine .array rfl fun i x y hx hy => ?_
    cases hx.symm.trans hy
    exact reflItems hR items x (List.mem_of_getElem? hx)
  | .object fields => by
    refine .object (fun _ => Iff.rfl) fun k x y hx hy => ?_
    cases hx.symm.trans hy
    exact reflFields hR fields _ (Fields.mem_of_get? hx)

theorem reflItems (hR : ∀ n, R n n) : ∀ items : List Json, ∀ v ∈ items, v.Agrees R v
  | [] => nofun
  | v :: rest => List.forall_mem_cons.mpr ⟨refl hR v, reflItems hR rest⟩

theorem reflFields (hR : ∀ n, R n n) :
    ∀ fields : Fields, ∀ member ∈ fields, member.2.Agrees R member.2
  | [] => nofun
  | (_, v) :: rest => List.forall_mem_cons.mpr ⟨refl hR v, reflFields hR rest⟩

end

end Json.Agrees

/-! ## Counting members -/

/-- Two objects without repeated keys have the same keys if they have as many members and each key
of the first is one of the second. -/
theorem Fields.matched_iff {fs gs : Fields} (hfs : (keys fs).Nodup) (hgs : (keys gs).Nodup)
    {P : Json → Json → Prop} :
    (fs.length = gs.length ∧ ∀ member ∈ fs, ∃ y, get? gs member.1 = some y ∧ P member.2 y) ↔
      (∀ k, k ∈ keys fs ↔ k ∈ keys gs) ∧
        ∀ k x y, get? fs k = some x → get? gs k = some y → P x y := by
  constructor
  · rintro ⟨hlength, hmembers⟩
    have hsubset : keys fs ⊆ keys gs := by
      intro k hk
      obtain ⟨x, hx⟩ := Option.isSome_iff_exists.mp (isSome_get?_iff.mpr hk)
      obtain ⟨y, hy, -⟩ := hmembers _ (mem_of_get? hx)
      exact isSome_get?_iff.mp (Option.isSome_of_eq_some hy)
    have hcount : (keys gs).length ≤ (keys fs).length := by
      rw [keys, keys, List.length_map, List.length_map, hlength]
    have hperm : (keys fs).Perm (keys gs) := (hfs.subperm hsubset).perm_of_length_le hcount
    refine ⟨fun k => hperm.mem_iff, fun k x y hx hy => ?_⟩
    obtain ⟨y', hy', h⟩ := hmembers _ (mem_of_get? hx)
    cases hy.symm.trans hy'
    exact h
  · rintro ⟨hkeys, hvalues⟩
    have hperm : (keys fs).Perm (keys gs) := (List.perm_ext_iff_of_nodup hfs hgs).mpr hkeys
    refine ⟨?_, fun member hmember => ?_⟩
    · simpa only [keys, List.length_map] using hperm.length_eq
    · have hx := get?_of_mem hfs hmember
      have hk := (hkeys member.1).mp (isSome_get?_iff.mp (Option.isSome_of_eq_some hx))
      obtain ⟨y, hy⟩ := Option.isSome_iff_exists.mp (isSome_get?_iff.mpr hk)
      exact ⟨y, hy, hvalues _ _ y hx hy⟩

namespace Script

/-! ## What the comparison decides -/

theorem looseEq_iff_of_kind_ne {a b : Json} (h : a.kind ≠ b.kind) :
    looseEq a b = true ↔ a.Agrees Number.Equal b := by
  constructor
  · intro heq
    cases a <;> cases b <;> first | exact absurd rfl h | simp [looseEq] at heq
  · intro hagrees
    cases hagrees <;> exact absurd rfl h

theorem number_iff {m n : Number} (hm : m.WellFormed) (hn : n.WellFormed) :
    (m.toFloat == n.toFloat) = true ↔ m.Equal n :=
  Decimal.beq_iff_exactValue hm.isFinite_toFloat hn.isFinite_toFloat

mutual

theorem looseEq_iff {a b : Json} (ha : a.WellFormed) (hb : b.WellFormed) :
    looseEq a b = true ↔ a.Agrees Number.Equal b := by
  by_cases hkind : a.kind = b.kind
  case neg => exact looseEq_iff_of_kind_ne hkind
  match a, b, hkind with
  | .null, .null, _ => exact iff_of_true (by rw [looseEq]) .null
  | .bool x, .bool y, _ =>
    rw [looseEq, beq_iff_eq]
    constructor
    · rintro rfl
      exact .bool x
    · intro h
      cases h
      rfl
  | .number m, .number n, _ =>
    rw [looseEq, number_iff ha hb]
    constructor
    · exact .number
    · intro h
      cases h with
      | number h => exact h
  | .string s, .string t, _ =>
    rw [looseEq, beq_iff_eq]
    constructor
    · rintro rfl
      exact .string s
    · intro h
      cases h
      rfl
  | .array xs, .array ys, _ =>
    rw [looseEq, looseEqItems_iff ha hb]
    constructor
    · exact fun ⟨hlength, hitems⟩ => .array hlength hitems
    · intro h
      cases h with
      | array hlength hitems => exact ⟨hlength, hitems⟩
  | .object fs, .object gs, _ =>
    rw [looseEq, Bool.and_eq_true, beq_iff_eq, looseEqFields_iff ha.2 hb.2,
      Fields.matched_iff ha.1 hb.1]
    constructor
    · exact fun ⟨hkeys, hvalues⟩ => .object hkeys hvalues
    · intro h
      cases h with
      | object hkeys hvalues => exact ⟨hkeys, hvalues⟩

theorem looseEqItems_iff {xs ys : List Json} (hxs : itemsWellFormed xs) (hys : itemsWellFormed ys) :
    looseEqItems xs ys = true ↔ xs.length = ys.length ∧
      ∀ (i : Nat) x y, xs[i]? = some x → ys[i]? = some y → x.Agrees Number.Equal y := by
  match xs, ys with
  | [], [] => exact iff_of_true (by rw [looseEqItems]) ⟨rfl, fun i x y hx => by cases hx⟩
  | [], y :: ys => exact iff_of_false (by simp [looseEqItems]) (by simp)
  | x :: xs, [] => exact iff_of_false (by simp [looseEqItems]) (by simp)
  | x :: xs, y :: ys =>
    rw [looseEqItems, Bool.and_eq_true, looseEq_iff hxs.1 hys.1, looseEqItems_iff hxs.2 hys.2]
    constructor
    · rintro ⟨hhead, hlength, htail⟩
      refine ⟨congrArg (· + 1) hlength, fun i x' y' hx hy => ?_⟩
      cases i with
      | zero =>
        cases hx
        cases hy
        exact hhead
      | succ i => exact htail i x' y' hx hy
    · rintro ⟨hlength, hitems⟩
      exact ⟨hitems 0 x y rfl rfl, Nat.succ.inj hlength, fun i => hitems (i + 1)⟩

theorem looseEqFields_iff {fs gs : Fields} (hfs : fieldsWellFormed fs) (hgs : fieldsWellFormed gs) :
    looseEqFields fs gs = true ↔
      ∀ member ∈ fs, ∃ y, Fields.get? gs member.1 = some y ∧ member.2.Agrees Number.Equal y := by
  match fs with
  | [] => exact iff_of_true (by rw [looseEqFields]) nofun
  | (k, x) :: fs =>
    rw [looseEqFields, Bool.and_eq_true, List.forall_mem_cons, looseEqFields_iff hfs.2 hgs]
    refine and_congr ?_ Iff.rfl
    cases hy : Fields.get? gs k with
    | none => simp
    | some y =>
      have hwf : y.WellFormed := fieldsWellFormed_iff.mp hgs _ (Fields.mem_of_get? hy)
      simp [looseEq_iff hfs.1 hwf]

end

/-! ## An equivalence -/

theorem agrees_of_perm {fs gs : Fields} (hgs : (Fields.keys gs).Nodup) (h : fs.Perm gs) :
    (Json.object fs).Agrees Number.Equal (.object gs) := by
  refine .object (fun k => (h.map _).mem_iff) fun k x y hx hy => ?_
  have hmem : (k, x) ∈ gs := h.mem_iff.mp (Fields.mem_of_get? hx)
  cases (Fields.get?_of_mem hgs hmem).symm.trans hy
  exact .refl Number.equivalence_equal.refl x

theorem looseEq_congr {a a' b : Json} (ha : a.WellFormed) (ha' : a'.WellFormed) (hb : b.WellFormed)
    (h : a.Agrees Number.Equal a') :
    looseEq a b = looseEq a' b ∧ looseEq b a = looseEq b a' := by
  have hsymm := h.symm Number.equivalence_equal.symm
  have htrans {a b c : Json} : a.Agrees Number.Equal b → b.Agrees Number.Equal c →
      a.Agrees Number.Equal c := .trans Number.equivalence_equal.trans
  constructor
  · rw [Bool.eq_iff_iff, looseEq_iff ha hb, looseEq_iff ha' hb]
    exact ⟨htrans hsymm, htrans h⟩
  · rw [Bool.eq_iff_iff, looseEq_iff hb ha, looseEq_iff hb ha']
    exact ⟨(htrans · h), (htrans · hsymm)⟩

/-- **Equality of the language is an equivalence of values**: two values are equal exactly if they
agree up to numbers that count the same, members of objects in any order. So it is reflexive,
symmetric and transitive, it holds of values that are the same in JSON, an object may stand for any
other with its members in another order, and `!=` is its negation. -/
theorem looseEq_equivalence :
    (∀ a b : Json, a.WellFormed → b.WellFormed →
      (looseEq a b = true ↔ a.Agrees Number.Equal b)) ∧
    (Equivalence fun a b : { v : Json // v.WellFormed } => looseEq a b = true) ∧
    (∀ a b : Json, a.WellFormed → b.WellFormed → a.Agrees Number.Same b → looseEq a b = true) ∧
    (∀ (fs gs : Fields) (b : Json), (Json.object fs).WellFormed → b.WellFormed → fs.Perm gs →
      looseEq (.object fs) b = looseEq (.object gs) b ∧
        looseEq b (.object fs) = looseEq b (.object gs)) ∧
    ∀ (fetch : Fetcher) (l r : Code),
      eval fetch (.binary .ne l r) = eval fetch (.unary .not (.binary .eq l r)) := by
  refine ⟨fun a b => looseEq_iff, ⟨?_, ?_, ?_⟩, ?_, ?_, ?_⟩
  · rintro ⟨a, ha⟩
    exact (looseEq_iff ha ha).mpr (.refl Number.equivalence_equal.refl a)
  · rintro ⟨a, ha⟩ ⟨b, hb⟩ h
    exact (looseEq_iff hb ha).mpr (((looseEq_iff ha hb).mp h).symm Number.equivalence_equal.symm)
  · rintro ⟨a, ha⟩ ⟨b, hb⟩ ⟨c, hc⟩ h h'
    exact (looseEq_iff ha hc).mpr
      (((looseEq_iff ha hb).mp h).trans Number.equivalence_equal.trans ((looseEq_iff hb hc).mp h'))
  · intro a b ha hb h
    exact (looseEq_iff ha hb).mpr (h.mono fun _ _ => Number.Same.equal)
  · intro fs gs b hfs hb hperm
    have hkeys : (Fields.keys gs).Nodup := (hperm.map _).nodup_iff.mp hfs.1
    have hvalues : fieldsWellFormed gs := fieldsWellFormed_iff.mpr fun member hmember =>
      fieldsWellFormed_iff.mp hfs.2 member (hperm.mem_iff.mpr hmember)
    exact looseEq_congr hfs ⟨hkeys, hvalues⟩ hb (agrees_of_perm hkeys hperm)
  · intro fetch l r
    simp [eval, BinaryOp.apply, UnaryOp.apply, Run.lift, truthy]

/-- An object with its members in another order and its number as a float. -/
theorem looseEq_equivalence_otherOrder :
    ((Json.object [("b", .null), ("a", .array [.number (.int 1)])]).WellFormed ∧
      (Json.object [("a", .array [.number (.float 1.0 rfl)]), ("b", .null)]).WellFormed ∧
      List.Perm [("b", Json.null), ("a", .array [.number (.int 1)])]
        [("a", .array [.number (.int 1)]), ("b", .null)]) ∧
    looseEq (.object [("b", .null), ("a", .array [.number (.int 1)])])
      (.object [("a", .array [.number (.float 1.0 rfl)]), ("b", .null)]) = true := by
  have hfs : (Json.object [("b", .null), ("a", .array [.number (.int 1)])]).WellFormed := by
    simp [Fields.keys, count64]
  have hb : (Json.object [("a", .array [.number (.float 1.0 rfl)]), ("b", .null)]).WellFormed := by
    simp [Fields.keys]
  have hperm := List.Perm.swap ("a", Json.array [.number (.int 1)]) ("b", .null) []
  obtain ⟨-, -, -, hordered, -⟩ := looseEq_equivalence
  refine ⟨⟨hfs, hb, hperm⟩, ?_⟩
  rw [(hordered _ _ _ hfs hb hperm).1]
  rfl

end Script

end Montage
