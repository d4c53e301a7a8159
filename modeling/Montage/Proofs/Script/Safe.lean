import Mathlib
import Montage.Script.Compile
import Montage.Proofs.Stateful
import Montage.Proofs.Script.Operations
import Montage.Proofs.Script.WellFormed

/-!
# A bound function never faults

On a frame of the right size, an expression that fits it runs to a value or to an error of the
language, and the frame keeps its size. What an expression needs for that it gets from its form: a
slot of the frame, as many arguments as a function takes, a callback where one is called. The
operators and functions on values give the rest.
-/

namespace Montage.Script

open Montage.Stateful

/-- A run on a frame of the given size does not fault and keeps the size, and its value has the
property. -/
def Safe {α : Type} (size : Nat) (x : Run α) (holds : α → Prop) : Prop :=
  ∀ ⦃m : Machine⦄, m.frame.length = size →
    (exec x m).2.frame.length = size ∧ (∀ a, (exec x m).1 = .ok a → holds a) ∧
      Faultless (exec x m).1

namespace Safe

variable {α β : Type} {size : Nat} {x : Run α} {holds : α → Prop} {holds' : β → Prop}

theorem pure {a : α} (h : holds a) : Safe size (Pure.pure a) holds := by
  intro m hm
  refine ⟨hm, fun b hb => ?_, nofun⟩
  cases hb
  exact h

theorem lift {c : Computed α} (h : Faultless c) : Safe size (Run.lift c) fun _ => True := by
  intro m hm
  refine ⟨?_, fun _ _ => trivial, ?_⟩
  · cases c <;> exact hm
  · cases c <;> exact h

theorem throw {e : EvalError} (h : ∀ f, e ≠ .fault f) :
    Safe size (MonadExcept.throw e : Run α) holds :=
  fun _ hm => ⟨hm, nofun, fun f hf => h f (Except.error.inj hf)⟩

theorem bind {f : α → Run β} (hx : Safe size x holds) (hf : ∀ a, holds a → Safe size (f a) holds') :
    Safe size (x >>= f) holds' := by
  intro m hm
  obtain ⟨hsize, hvalue, hfault⟩ := hx hm
  rcases h : exec x m with ⟨e | a, m'⟩
  · rw [exec_bind_error h]
    rw [h] at hsize hfault
    exact ⟨hsize, nofun, fun f hf => hfault f (congrArg Except.error (Except.error.inj hf))⟩
  · rw [exec_bind_ok h]
    rw [h] at hsize hvalue
    exact hf a (hvalue a rfl) hsize

theorem map (hx : Safe size x holds) (f : α → β) :
    Safe size (do return f (← x)) fun _ => True :=
  hx.bind fun _ _ => .pure trivial

theorem foldlM {f : β → α → Run β} (hf : ∀ b a, Safe size (f b a) fun _ => True) (as : List α) :
    ∀ b, Safe size (as.foldlM f b) fun _ => True := by
  induction as with
  | nil => exact fun b => .pure trivial
  | cons a as ih => exact fun b => (hf b a).bind fun b' _ => ih b'

end Safe

/-! ## Frames and requests -/

section

variable {size n : Nat}

theorem readSlot_safe (h : n < size) : Safe size (Run.readSlot n) fun _ => True := by
  intro m hm
  have hn : n < m.frame.length := hm ▸ h
  have hread : exec (Run.readSlot n) m = (.ok m.frame[n], m) := by
    unfold Run.readSlot
    rw [exec_bind_ok (exec_get m), List.getElem?_eq_getElem hn]
    rfl
  rw [hread]
  exact ⟨hm, fun _ _ => trivial, nofun⟩

theorem writeSlot_safe (h : n < size) (v : Json) : Safe size (Run.writeSlot n v) fun _ => True := by
  intro m hm
  have hwrite : exec (Run.writeSlot n v) m = (.ok (), { m with frame := m.frame.set n v }) :=
    exec_writeSlot v (hm ▸ h)
  rw [hwrite]
  exact ⟨(List.length_set ..).trans hm, fun _ _ => trivial, nofun⟩

theorem writeSlots_safe {slots : List Nat} (h : ∀ n ∈ slots, n < size) :
    ∀ vs, Safe size (Run.writeSlots slots vs) fun _ => True := by
  induction slots with
  | nil => exact fun vs => .pure trivial
  | cons n slots ih =>
    rintro (_ | ⟨v, vs⟩)
    · rw [writeSlots_nil]
      exact .pure trivial
    · rw [Run.writeSlots]
      rw [List.forall_mem_cons] at h
      exact (writeSlot_safe h.1 v).bind fun _ _ => ih h.2 vs

theorem request_safe (fetch : Fetcher) (url : String) (body : Json) :
    Safe size (Run.request fetch url body) fun _ => True := by
  have hnote : Safe size
      (modify fun m => { m with requests := m.requests ++ [⟨url, body⟩] } : Run Unit)
      fun _ => True :=
    fun _ hm => ⟨hm, fun _ _ => trivial, nofun⟩
  refine hnote.bind fun _ _ => ?_
  split
  next => exact .pure trivial
  next => exact .throw (by simp)

theorem fetchCall_safe (fetch : Fetcher) {vs : List Json}
    (hcount : Builtin.fetch.takes vs.length = true) :
    Safe size (Run.fetchCall fetch vs) fun _ => True := by
  obtain ⟨hleast, hmost⟩ := Builtin.takes_iff.mp hcount
  obtain ⟨url, rest, rfl⟩ := List.exists_cons_of_length_pos hleast
  have hrest : rest.length ≤ 1 := Nat.le_of_succ_le_succ (hmost 2 rfl)
  unfold Run.fetchCall
  simp only [if_pos hrest]
  split
  next => exact request_safe fetch _ _
  next => exact .throw (by simp)

end

/-! ## Expressions -/

section

variable {size : Nat} {fetch : Fetcher}

theorem evalArgs_safe {args : List Code}
    (h : ∀ e ∈ args, Safe size (eval fetch e) fun _ => True) :
    Safe size (evalArgs fetch args) fun vs => vs.length = args.length := by
  induction args with
  | nil =>
    rw [evalArgs]
    exact .pure rfl
  | cons e args ih =>
    rw [List.forall_mem_cons] at h
    rw [evalArgs]
    refine h.1.bind fun v _ => (ih h.2).bind fun vs hlen => .pure ?_
    rw [List.length_cons, hlen, List.length_cons]

theorem spreadItems_faultless (v : Json) : Faultless (spreadItems v) := by
  cases v <;> nofun

theorem listArg_faultless (b : Builtin) (v : Json) : Faultless (listArg b v) := by
  cases v <;> nofun

theorem evalItems_safe {items : List CodeItem}
    (h : ∀ item ∈ items, Safe size (eval fetch item.code) fun _ => True) :
    Safe size (evalItems fetch items) fun _ => True := by
  induction items with
  | nil =>
    rw [evalItems]
    exact .pure trivial
  | cons item items ih =>
    rw [List.forall_mem_cons] at h
    cases item with
    | one e =>
      rw [evalItems]
      exact h.1.bind fun v _ => (ih h.2).map _
    | spread e =>
      rw [evalItems]
      exact h.1.bind fun v _ => (Safe.lift (spreadItems_faultless v)).bind fun vs _ => (ih h.2).map _

theorem evalEntries_safe {entries : List CodeEntry}
    (h : ∀ entry ∈ entries, Safe size (eval fetch entry.code) fun _ => True) :
    ∀ fields, Safe size (evalEntries fetch fields entries) fun _ => True := by
  induction entries with
  | nil =>
    intro fields
    rw [evalEntries]
    exact .pure trivial
  | cons entry entries ih =>
    intro fields
    rw [List.forall_mem_cons] at h
    cases entry with
    | field key e =>
      rw [evalEntries]
      exact h.1.bind fun v _ => ih h.2 _
    | spread e =>
      rw [evalEntries]
      exact h.1.bind fun v _ => ih h.2 _

theorem evalCallback_safe {b : Builtin} {list body : Code} {slots : List Nat}
    (hlist : Safe size (eval fetch list) fun _ => True) (hslots : ∀ n ∈ slots, n < size)
    (hbody : Safe size (eval fetch body) fun _ => True) :
    Safe size (evalCallback fetch b [list, .arrow slots body]) fun _ => True := by
  rw [evalCallback]
  refine hlist.bind fun v _ => (Safe.lift (listArg_faultless b v)).bind fun items _ => ?_
  refine Safe.bind (Safe.foldlM (fun p item => ?_) items _) fun _ _ => .pure trivial
  exact (writeSlots_safe hslots _).bind fun _ _ => hbody.map _

/-- **An expression that fits the frame does not fault on it.** -/
theorem Code.Fits.safe {c : Code} (h : c.Fits size) : Safe size (eval fetch c) fun _ => True := by
  induction h with
  | literal v =>
    rw [eval]
    exact .pure trivial
  | slot h =>
    rw [eval]
    exact readSlot_safe h
  | array _ ih =>
    rw [eval]
    exact (evalItems_safe ih).map _
  | object _ ih =>
    rw [eval]
    exact (evalEntries_safe ih []).map _
  | member _ name isOptional ih =>
    rw [eval]
    refine ih.bind fun v _ => ?_
    split
    next =>
      split
      next => exact .pure trivial
      next => exact .throw (by simp)
    next => exact .pure trivial
  | index _ _ ihbase ihindex =>
    rw [eval]
    refine ihbase.bind fun v _ => ihindex.bind fun i _ => ?_
    split
    next =>
      split
      next => exact .pure trivial
      next => exact .throw (by simp)
    next => exact .pure trivial
  | unary op _ ih =>
    rw [eval]
    exact ih.bind fun v _ => .lift (op.apply_faultless v)
  | binary op _ _ ihleft ihright =>
    by_cases hand : op = .and
    · subst hand
      rw [eval]
      refine ihleft.bind fun l _ => ?_
      split
      next => exact ihright
      next => exact .pure trivial
    by_cases hor : op = .or
    · subst hor
      rw [eval]
      refine ihleft.bind fun l _ => ?_
      split
      next => exact .pure trivial
      next => exact ihright
    rw [eval]
    · refine ihleft.bind fun l _ => ihright.bind fun r _ => ?_
      exact .lift (op.apply_faultless l r)
    · exact hand
    · exact hor
  | ternary _ _ _ ihcondition ihyes ihno =>
    rw [eval]
    refine ihcondition.bind fun v _ => ?_
    split
    next => exact ihyes
    next => exact ihno
  | @call b args hplain hcount _ ih =>
    rw [eval, hplain, if_neg Bool.false_ne_true]
    refine (evalArgs_safe ih).bind fun vs hlen => ?_
    rw [← hlen] at hcount
    split
    next hfetch =>
      subst hfetch
      exact fetchCall_safe fetch hcount
    next hfetch => exact .lift (Builtin.apply_faultless hplain hfetch hcount)
  | callback hcallback _ _ _ hslots _ ihlist ihbody =>
    rw [eval, if_pos hcallback]
    exact evalCallback_safe ihlist hslots ihbody

end

/-! ## Functions -/

theorem evalBindings_safe {size : Nat} {fetch : Fetcher} {bindings : List (Nat × Code)}
    (h : ∀ binding ∈ bindings, binding.1 < size ∧ binding.2.Fits size) :
    Safe size (evalBindings fetch bindings) fun _ => True := by
  induction bindings with
  | nil =>
    rw [evalBindings]
    exact .pure trivial
  | cons binding bindings ih =>
    obtain ⟨slot, e⟩ := binding
    rw [List.forall_mem_cons] at h
    obtain ⟨⟨hslot, he⟩, hrest⟩ := h
    rw [evalBindings]
    exact he.safe.bind fun v _ => (writeSlot_safe hslot v).bind fun _ _ => ih hrest

theorem Program.WellFormed.body_safe {p : Program} (h : p.WellFormed) (fetch : Fetcher)
    (args : List Json) : Safe p.frameSize (p.body fetch args) fun _ => True := by
  have hparams : ∀ n ∈ p.paramSlots, n < p.frameSize := fun n hn =>
    h.below n (List.mem_append_left _ hn)
  have hbindings : ∀ binding ∈ p.bindings, binding.1 < p.frameSize ∧ binding.2.Fits p.frameSize := by
    intro binding hbinding
    refine ⟨h.below _ ?_, h.bindings binding hbinding⟩
    refine List.mem_append_right _ (List.mem_append_left _ (List.mem_flatMap.mpr ?_))
    exact ⟨binding, hbinding, List.mem_append_right _ (List.mem_singleton_self _)⟩
  refine (writeSlots_safe hparams args).bind fun _ _ => ?_
  exact (evalBindings_safe hbindings).bind fun _ _ => h.result.safe

theorem Program.WellFormed.call_faultless {p : Program} (h : p.WellFormed) (fetch : Fetcher)
    (args : List Json) : Faultless (p.call fetch args) := by
  have hsize : p.start.frame.length = p.frameSize := List.length_replicate
  exact (h.body_safe fetch args hsize).2.2

/-- **A compiled function never faults.** What compiles has the form that the evaluator relies on,
and so no call of it ends in a fault, whatever the arguments and the data source. -/
theorem compile_faultless {source : String} {p : Program} (h : compile source = .ok p) :
    p.WellFormed ∧
      ∀ (fetch : Fetcher) (args : List Json) (f : Fault), p.call fetch args ≠ .error (.fault f) := by
  obtain ⟨f, -, h⟩ := eq_ok_of_bind h
  have hform : p.WellFormed := wellFormed_of_bind (eq_ok_of_mapError h)
  exact ⟨hform, hform.call_faultless⟩

/-- A callback in a third slot slices texts from a bound that a parameter gives. -/
theorem compile_faultless_tails :
    let p : Program :=
      { params := ["s", "i"], paramSlots := [0, 1], bindings := [], frameSize := 3
        result := .call .map [.slot 0, .arrow [2] (.call .slice [.slot 2, .slot 1])] }
    compile "(s, i) => map(s, x => slice(x, i))" = .ok p ∧ p.WellFormed ∧
      ∀ fetch args f, p.call fetch args ≠ .error (.fault f) := by
  intro p
  have hcompile : compile "(s, i) => map(s, x => slice(x, i))" = .ok p := by cbv
  exact ⟨hcompile, compile_faultless hcompile⟩

end Montage.Script
