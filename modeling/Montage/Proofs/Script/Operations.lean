import Montage.Script.Builtin
import Montage.Proofs.Decimal.Ordered

/-!
# Operators and functions run to an end

An operator or a built-in function on values yields a value or fails with an error of the language.
It does not fault: a part of a list lies within the list whatever its bounds are, the bounds of a
number are in order where they are not reversed, since a value never counts as NaN, and with as many
arguments as a function takes there is a case for them.
-/

namespace Montage.Script

variable {α β : Type}

/-- A computation on values that does not end in a fault. -/
def Faultless (c : Computed α) : Prop := ∀ f, c ≠ .error (.fault f)

theorem faultless_ok (a : α) : Faultless (.ok a) := nofun

theorem Faultless.bind {c : Computed α} {g : α → Computed β} (hc : Faultless c)
    (hg : ∀ a, c = .ok a → Faultless (g a)) : Faultless (c >>= g) := by
  rcases c with e | a
  · exact fun f h => hc f (congrArg Except.error (Except.error.inj h))
  · exact hg a rfl

theorem faultless_foldlM {g : β → α → Computed β} (hg : ∀ b a, Faultless (g b a)) (as : List α) :
    ∀ b, Faultless (as.foldlM g b) := by
  induction as with
  | nil => exact faultless_ok
  | cons a as ih => exact fun b => (hg b a).bind fun b' _ => ih b'

/-! ## Numbers -/

theorem isNaN_numeral? {cs : List Char} {x : Float} (h : Decimal.numeral? cs = some x) :
    x.isNaN = false := by
  unfold Decimal.numeral? at h
  dsimp only at h
  -- a fraction or none, and for each a text without digits or with some
  split at h
  all_goals
    split at h
    next => cases h
    next =>
      obtain ⟨e, _, h⟩ := Option.bind_eq_some_iff.mp h
      obtain ⟨hfinite, h⟩ := Option.ite_none_right_eq_some.mp h
      cases h
      exact Decimal.isNaN_of_isFinite hfinite

theorem isNaN_toNumber? {v : Json} {x : Float} (h : toNumber? v = some x) : x.isNaN = false := by
  have hzero : Float.isNaN 0 = false := by decide
  have hone : Float.isNaN 1 = false := by decide
  cases v with
  | null =>
    cases h
    exact hzero
  | bool b => cases b <;> cases h <;> assumption
  | number n =>
    cases h
    exact n.isNaN_toFloat
  | string s =>
    rw [toNumber?] at h
    split at h
    next =>
      cases h
      exact hzero
    next => exact isNaN_numeral? h
  | array | object => cases h

theorem numberArg_faultless (b : Builtin) (v : Json) : Faultless (numberArg b v) := by
  unfold numberArg
  split <;> nofun

theorem isNaN_numberArg {b : Builtin} {v : Json} {x : Float} (h : numberArg b v = .ok x) :
    x.isNaN = false := by
  unfold numberArg at h
  split at h
  next y hy =>
    cases h
    exact isNaN_toNumber? hy
  next => cases h

/-! ## Operators -/

theorem UnaryOp.apply_faultless (op : UnaryOp) (v : Json) : Faultless (op.apply v) := by
  unfold UnaryOp.apply
  split
  next => nofun
  next => split <;> nofun

theorem order_faultless (l r : Json) : Faultless (order l r) := by
  unfold order
  split
  next => nofun
  next => split <;> nofun

theorem arithmetic_faultless (op : BinaryOp) (compute : Float → Float → Json) (l r : Json) :
    Faultless (arithmetic op compute l r) := by
  unfold arithmetic
  split <;> nofun

theorem BinaryOp.apply_faultless (op : BinaryOp) (l r : Json) : Faultless (op.apply l r) := by
  unfold BinaryOp.apply
  split
  next => nofun
  next => nofun
  next => exact (order_faultless l r).bind fun _ _ => faultless_ok _
  next => exact (order_faultless l r).bind fun _ _ => faultless_ok _
  next => exact (order_faultless l r).bind fun _ _ => faultless_ok _
  next => exact (order_faultless l r).bind fun _ _ => faultless_ok _
  next =>
    split
    next => nofun
    next => nofun
    next => exact arithmetic_faultless _ _ _ _
  next => exact arithmetic_faultless _ _ _ _
  next => exact arithmetic_faultless _ _ _ _
  next => exact arithmetic_faultless _ _ _ _
  next => exact arithmetic_faultless _ _ _ _
  next => nofun
  next => nofun

/-! ## Parts of lists and texts -/

theorem bound_le (length : Nat) (x : Float) : bound length x ≤ length := by
  unfold bound
  dsimp only
  split
  next h => omega
  next => exact Nat.min_le_right _ _

theorem part_faultless (xs : List α) (start : Float) (stop : Option Float) :
    Faultless (part xs start stop) := by
  have hstop : (stop.map (bound xs.length)).getD xs.length ≤ xs.length := by
    cases stop with
    | none => exact Nat.le_refl _
    | some x => exact bound_le xs.length x
  have hwindow : ∃ ys, window? xs (bounds xs.length start stop).1 (bounds xs.length start stop).2 =
      some ys := by
    refine ⟨_, if_pos ⟨Nat.le_max_right _ _, ?_⟩⟩
    exact Nat.max_le.mpr ⟨hstop, bound_le xs.length start⟩
  obtain ⟨ys, hys⟩ := hwindow
  unfold part
  simp only [hys]
  nofun

/-! ## Functions -/

theorem extreme_faultless (b : Builtin) (better : Float → Float → Bool) (vs : List Json) :
    Faultless (extreme b better vs) := by
  refine Faultless.bind (faultless_foldlM (fun best v => ?_) vs none) fun _ _ => faultless_ok _
  refine (numberArg_faultless b v).bind fun x _ => ?_
  split <;> nofun

theorem merged_faultless (vs : List Json) : Faultless (merged vs) := by
  refine Faultless.bind (faultless_foldlM (fun fields v => ?_) vs []) fun _ _ => faultless_ok _
  split <;> nofun

theorem rounded_faultless (b : Builtin) (round : Decimal.Binary → Int) (v : Json) :
    Faultless (rounded b round v) :=
  (numberArg_faultless b v).bind fun _ _ => faultless_ok _

theorem wholeRange_faultless (start stop : Float) : Faultless (wholeRange start stop) := by
  unfold wholeRange
  dsimp only
  split <;> nofun

theorem slice_faultless (v : Json) (start : Float) (stop : Option Float) :
    Faultless (Builtin.apply.slice v start stop) := by
  unfold Builtin.apply.slice
  split
  next => exact (part_faultless _ _ _).bind fun _ _ => faultless_ok _
  next => exact (part_faultless _ _ _).bind fun _ _ => faultless_ok _
  next => nofun

theorem join_faultless (v : Json) (separator : String) :
    Faultless (Builtin.apply.join v separator) := by
  unfold Builtin.apply.join
  split
  next => exact faultless_ok _
  next =>
    intro f h
    cases h

/-- Bounds of which the upper is not below the lower are in order, because neither is NaN. -/
theorem clamp_faultless (v low high : Json) : Faultless (Builtin.apply .clamp [v, low, high]) := by
  rw [Builtin.apply]
  refine (numberArg_faultless _ v).bind fun x _ => ?_
  refine (numberArg_faultless _ low).bind fun l hlow => ?_
  refine (numberArg_faultless _ high).bind fun h hhigh => ?_
  split
  next =>
    intro f hf
    cases hf
  next hreversed =>
    have hle : l ≤ h :=
      Decimal.le_of_not_lt (isNaN_numberArg hlow) (isNaN_numberArg hhigh) hreversed
    rw [between?, if_pos hle]
    exact faultless_ok _

theorem Builtin.takes_iff {b : Builtin} {n : Nat} :
    b.takes n = true ↔ b.arity.1 ≤ n ∧ ∀ most ∈ b.arity.2, n ≤ most := by
  rw [takes, Bool.and_eq_true, decide_eq_true_eq, Option.all_eq_true]
  simp only [decide_eq_true_eq]
  rfl

theorem exists_elements {vs : List α} (hleast : 1 ≤ vs.length) (hmost : vs.length ≤ 3) :
    (∃ v, vs = [v]) ∨ (∃ v w, vs = [v, w]) ∨ ∃ v w u, vs = [v, w, u] := by
  rcases vs with _ | ⟨v, _ | ⟨w, _ | ⟨u, _ | ⟨t, vs⟩⟩⟩⟩
  · exact absurd hleast (by simp)
  · exact .inl ⟨v, rfl⟩
  · exact .inr (.inl ⟨v, w, rfl⟩)
  · exact .inr (.inr ⟨v, w, u, rfl⟩)
  · exact absurd hmost (by simp)

/-- **A function does not fault on as many arguments as it takes**, whatever they are. -/
theorem Builtin.apply_faultless {b : Builtin} {vs : List Json} (hplain : b.takesCallback = false)
    (hfetch : b ≠ .fetch) (hcount : b.takes vs.length = true) : Faultless (b.apply vs) := by
  obtain ⟨hleast, hmost⟩ := takes_iff.mp hcount
  cases b with
  | map | filter => cases hplain
  | fetch => exact absurd rfl hfetch
  | min | max => exact extreme_faultless _ _ _
  | merge => exact merged_faultless vs
  | concat =>
    obtain ⟨v, vs, rfl⟩ := List.exists_cons_of_length_pos hleast
    cases v <;> exact faultless_ok _
  | len | keys =>
    obtain ⟨v, rfl⟩ := List.length_eq_one_iff.mp (Nat.le_antisymm (hmost 1 rfl) hleast)
    cases v <;> nofun
  | abs | round =>
    obtain ⟨v, rfl⟩ := List.length_eq_one_iff.mp (Nat.le_antisymm (hmost 1 rfl) hleast)
    exact (numberArg_faultless _ v).bind fun _ _ => faultless_ok _
  | floor | ceil =>
    obtain ⟨v, rfl⟩ := List.length_eq_one_iff.mp (Nat.le_antisymm (hmost 1 rfl) hleast)
    exact rounded_faultless _ _ v
  | str | num =>
    obtain ⟨v, rfl⟩ := List.length_eq_one_iff.mp (Nat.le_antisymm (hmost 1 rfl) hleast)
    exact faultless_ok _
  | clamp =>
    have hlen : vs.length = 3 := Nat.le_antisymm (hmost 3 rfl) hleast
    obtain ⟨v, rfl⟩ | ⟨v, w, rfl⟩ | ⟨v, low, high, rfl⟩ :=
      exists_elements (hlen ▸ by decide) (Nat.le_of_eq hlen)
    · cases hlen
    · cases hlen
    · exact clamp_faultless v low high
  | range =>
    have hlen : vs.length ≤ 2 := hmost 2 rfl
    obtain ⟨stop, rfl⟩ | ⟨start, stop, rfl⟩ | ⟨v, w, u, rfl⟩ := exists_elements hleast (by omega)
    · exact (numberArg_faultless _ stop).bind fun x _ => wholeRange_faultless 0 x
    · refine (numberArg_faultless _ start).bind fun x _ => ?_
      exact (numberArg_faultless _ stop).bind fun y _ => wholeRange_faultless x y
    · exact absurd hlen (by simp)
  | join =>
    have hlen : vs.length ≤ 2 := hmost 2 rfl
    obtain ⟨v, rfl⟩ | ⟨v, separator, rfl⟩ | ⟨v, w, u, rfl⟩ := exists_elements hleast (by omega)
    · exact join_faultless v _
    · exact join_faultless v _
    · exact absurd hlen (by simp)
  | slice =>
    have hlen : 2 ≤ vs.length := hleast
    obtain ⟨v, rfl⟩ | ⟨v, start, rfl⟩ | ⟨v, start, stop, rfl⟩ :=
      exists_elements (by omega) (hmost 3 rfl)
    · exact absurd hlen (by simp)
    · exact (numberArg_faultless _ start).bind fun x _ => slice_faultless v x none
    · refine (numberArg_faultless _ start).bind fun x _ => ?_
      exact (numberArg_faultless _ stop).bind fun y _ => slice_faultless v x (some y)

end Montage.Script
