import Montage.Proofs.Script.Lexical
import Montage.Proofs.Stateful
import Montage.Script.Binder

/-!
# Runs on frames and evaluations by name

The slots of all that an expression can see lie below the next free slot, and running the expression
writes only from there on. A frame may therefore keep what it likes at and above that slot, in
particular what callbacks have left behind: `Represents` speaks about the slots below it only, and
`KeepsBelow` says that they stay as they are. `Simulates` relates a run on a frame to an evaluation
by name: the same outcome, the same requests, and a frame that is kept below the slot. It holds of
the primitive steps of a run, of two computations one after the other (`Simulates.bind`), and of a
callback that goes over a list (`simulates_each`).
-/

namespace Montage.Script

open Montage.Stateful

/-! ## Frames and environments -/

structure KeepsBelow (lo : Nat) (old new : List Json) : Prop where
  length_eq : new.length = old.length
  getElem?_eq : ∀ n < lo, new[n]? = old[n]?

theorem KeepsBelow.refl (lo : Nat) (frame : List Json) : KeepsBelow lo frame frame :=
  ⟨rfl, fun _ _ => rfl⟩

theorem KeepsBelow.trans {lo mid : Nat} {f g h : List Json} (hfg : KeepsBelow lo f g)
    (hgh : KeepsBelow mid g h) (hle : lo ≤ mid) : KeepsBelow lo f h := by
  refine ⟨hgh.length_eq.trans hfg.length_eq, fun n hn => ?_⟩
  rw [hgh.getElem?_eq n (by omega), hfg.getElem?_eq n hn]

theorem KeepsBelow.set (lo : Nat) (frame : List Json) (v : Json) :
    KeepsBelow lo frame (frame.set lo v) := by
  refine ⟨List.length_set, fun n hn => ?_⟩
  rw [List.getElem?_set_ne (by omega)]

/-- The frame has, in the slot of each name in scope, the value that the environment gives the name,
and all these slots lie below `next`. -/
def Represents (scope : Scope) (next : Nat) (frame : List Json) (env : Environment) : Prop :=
  ∀ x n, Fields.get? scope x = some n → n < next ∧ ∃ v, frame[n]? = some v ∧ Fields.get? env x = some v

theorem Represents.keep {scope : Scope} {lo mid : Nat} {old new : List Json} {env : Environment}
    (h : Represents scope lo old env) (hk : KeepsBelow lo old new) (hle : lo ≤ mid) :
    Represents scope mid new env := by
  intro x n hx
  obtain ⟨hn, v, hv, he⟩ := h x n hx
  exact ⟨by omega, v, by rw [hk.getElem?_eq n hn, hv], he⟩

theorem Represents.cons {scope : Scope} {lo : Nat} {frame : List Json} {env : Environment}
    {v : Json} (h : Represents scope lo frame env) (hv : frame[lo]? = some v) (x : String) :
    Represents ((x, lo) :: scope) (lo + 1) frame ((x, v) :: env) := by
  intro y n hy
  by_cases hxy : x = y
  · simp only [Fields.get?, hxy, if_true, Option.some.injEq] at hy ⊢
    exact ⟨by omega, v, hy ▸ hv, rfl⟩
  · simp only [Fields.get?, hxy, if_false] at hy ⊢
    obtain ⟨hn, w, hw, he⟩ := h y n hy
    exact ⟨by omega, w, hw, he⟩

/-! ## Simulation -/

section
variable {α β γ δ : Type} {R : α → β → Prop} {S : γ → δ → Prop} {lo mid hi : Nat}
  {frame : List Json} {x : Run α} {y : Asking β}

/-- The outcome of a run and the outcome of an evaluation by name that say the same. -/
inductive SameOutcome (R : α → β → Prop) : Except EvalError α → Except Stop β → Prop
  | ok {a : α} {b : β} (h : R a b) : SameOutcome R (.ok a) (.ok b)
  | failed (e : EvalError) : SameOutcome R (.error e) (.error (.failed e))

theorem SameOutcome.eq_mapError {r : Except EvalError α} {s : Except Stop α}
    (h : SameOutcome Eq r s) : s = r.mapError .failed := by
  cases h with
  | ok h => rw [h]; rfl
  | failed e => rfl

theorem SameOutcome.unique {r r' : Except EvalError α} {s : Except Stop α}
    (h : SameOutcome Eq r s) (h' : SameOutcome Eq r' s) : r = r' := by
  cases h with
  | ok hr =>
    cases h' with
    | ok hr' => rw [hr, hr']
  | failed e =>
    cases h'
    rfl

/-- How a run ends that has started on a frame, beside an evaluation by name. -/
structure SameEnd (R : α → β → Prop) (lo : Nat) (frame : List Json)
    (p : Except EvalError α × Machine) (q : Except Stop β × List Fetcher.Request) : Prop where
  outcome : SameOutcome R p.1 q.1
  requests : p.2.requests = q.2
  keeps : KeepsBelow lo frame p.2.frame

/-- On a frame that has the slots below `hi`, the run does what the evaluation by name does, and
writes only from slot `lo` on. -/
def Simulates (R : α → β → Prop) (lo hi : Nat) (frame : List Json) (x : Run α) (y : Asking β) :
    Prop :=
  hi ≤ frame.length → ∀ requests, SameEnd R lo frame (exec x ⟨frame, requests⟩) (exec y requests)

theorem simulates_pure {a : α} {b : β} (h : R a b) :
    Simulates R lo hi frame (pure a) (pure b) :=
  fun _ _ => ⟨.ok h, rfl, .refl lo frame⟩

theorem simulates_throw (e : EvalError) :
    Simulates R lo hi frame (throw e) (throw (.failed e)) :=
  fun _ _ => ⟨.failed e, rfl, .refl lo frame⟩

theorem simulates_lift (c : Computed α) :
    Simulates Eq lo hi frame (Run.lift c) (Asking.lift c) := by
  cases c with
  | ok a => exact simulates_pure rfl
  | error e => exact simulates_throw e

/-- One computation after the other: the second starts on whatever frame the first has left, which
still has all that lies below the slots the first writes. -/
theorem Simulates.bind {lo' : Nat} {f : α → Run γ} {g : β → Asking δ} (hlo : lo ≤ lo')
    (hhi : mid ≤ hi) (hx : Simulates R lo mid frame x y)
    (hf : ∀ a b frame', R a b → KeepsBelow lo frame frame' →
      Simulates S lo' hi frame' (f a) (g b)) :
    Simulates S lo hi frame (x >>= f) (y >>= g) := by
  intro hlen requests
  obtain ⟨hout, hreq, hkeep⟩ := hx (by omega) requests
  rcases hp : exec x ⟨frame, requests⟩ with ⟨r, frame', requests'⟩
  rcases hq : exec y requests with ⟨s, requests''⟩
  rw [hp, hq] at hout hreq
  rw [hp] at hkeep
  simp only at hout hreq hkeep
  subst hreq
  cases hout with
  | ok hab =>
    rw [exec_bind_ok hp, exec_bind_ok hq]
    obtain ⟨hout', hreq', hkeep'⟩ :=
      hf _ _ frame' hab hkeep (by rw [hkeep.length_eq]; exact hlen) requests'
    exact ⟨hout', hreq', hkeep.trans hkeep' hlo⟩
  | failed e =>
    rw [exec_bind_error hp, exec_bind_error hq]
    exact ⟨.failed e, rfl, hkeep⟩

theorem Simulates.andThen {lo' : Nat} {x : Run α} {y : Asking α} {f : α → Run γ} {g : α → Asking δ}
    (hlo : lo ≤ lo') (hhi : mid ≤ hi) (hx : Simulates Eq lo mid frame x y)
    (hf : ∀ a frame', KeepsBelow lo frame frame' → Simulates S lo' hi frame' (f a) (g a)) :
    Simulates S lo hi frame (x >>= f) (y >>= g) :=
  hx.bind hlo hhi fun a _ frame' hab hkeep => hab ▸ hf a frame' hkeep

end

/-! ## Requests -/

theorem simulates_request {lo hi : Nat} {frame : List Json} (fetch : Fetcher) (url : String)
    (body : Json) :
    Simulates Eq lo hi frame (Run.request fetch url body) (Asking.request fetch url body) := by
  intro _ requests
  unfold Run.request Asking.request
  rw [exec_bind_ok (exec_modify _ _), exec_bind_ok (exec_modify _ _)]
  rcases fetch url body with failure | v
  · exact ⟨.failed _, rfl, .refl lo frame⟩
  · exact ⟨.ok rfl, rfl, .refl lo frame⟩

theorem simulates_fetchCall {lo hi : Nat} {frame : List Json} (fetch : Fetcher) (vs : List Json) :
    Simulates Eq lo hi frame (Run.fetchCall fetch vs) (Asking.fetchCall fetch vs) := by
  rcases vs with _ | ⟨url, _ | ⟨body, _ | ⟨v, rest⟩⟩⟩
  · exact simulates_throw _
  · cases url
    case string url => exact simulates_request fetch url .null
    all_goals exact simulates_throw _
  · cases url
    case string url => exact simulates_request fetch url body
    all_goals exact simulates_throw _
  · have hmany : ¬(body :: v :: rest).length ≤ 1 := by simp
    simp only [Run.fetchCall, hmany, if_false]
    cases url <;> exact simulates_throw _

/-! ## Slots -/

theorem simulates_readSlot {scope : Scope} {env : Environment} {lo hi n : Nat} {frame : List Json}
    (h : Represents scope lo frame env) {x : String} (hx : Fields.get? scope x = some n) :
    ∃ v, Fields.get? env x = some v ∧
      Simulates Eq lo hi frame (Run.readSlot n) (pure v : Asking Json) := by
  obtain ⟨_, v, hv, he⟩ := h x n hx
  refine ⟨v, he, fun _ requests => ?_⟩
  have hread : exec (Run.readSlot n) ⟨frame, requests⟩ = (.ok v, ⟨frame, requests⟩) := by
    unfold Run.readSlot
    rw [exec_bind_ok (exec_get _), hv]
    rfl
  rw [hread]
  exact ⟨.ok rfl, rfl, .refl lo frame⟩

theorem exec_writeSlot {frame : List Json} {requests : List Fetcher.Request} {n : Nat} (v : Json)
    (h : n < frame.length) :
    exec (Run.writeSlot n v) ⟨frame, requests⟩ = (.ok (), ⟨frame.set n v, requests⟩) := by
  unfold Run.writeSlot
  rw [exec_bind_ok (exec_get _), if_pos h]
  rfl

/-! ## Callbacks -/

theorem reverse_collect (b : Builtin) (out : List Json) (item result : Json) (results : List Json) :
    (collect b out item result).reverse ++ results =
      out.reverse ++ Asking.keep b item result results := by
  unfold collect Asking.keep
  split
  · split <;> simp
  · simp

/-- A callback that goes over a list. Whatever one element leaves in the slots from `lo` on does not
reach the next, which writes them again. The results so far are in reverse. -/
theorem simulates_each (b : Builtin) {lo hi : Nat} {run : Json → Nat → Run Json}
    {callback : Json → Nat → Asking Json} (items : List Json) :
    ∀ (frame : List Json) (out : List Json) (i : Nat),
      (∀ frame', KeepsBelow lo frame frame' → ∀ item i,
        Simulates Eq lo hi frame' (run item i) (callback item i)) →
      Simulates (fun p results => p.1.reverse = out.reverse ++ results) lo hi frame
        (items.foldlM (fun (p : List Json × Nat) item => do
          let result ← run item p.2
          return (collect b p.1 item result, p.2 + 1)) (out, i))
        (Asking.each b callback i items) := by
  induction items with
  | nil =>
    intro frame out i _
    exact simulates_pure (by simp)
  | cons item rest ih =>
    intro frame out i hrun
    rw [List.foldlM_cons, Asking.each, bind_assoc]
    refine (hrun frame (.refl lo frame) item i).andThen (Nat.le_refl lo) (Nat.le_refl hi)
      fun result frame' hkeep => ?_
    rw [pure_bind]
    have hrest := ih frame' (collect b out item result) (i + 1)
      fun frame'' hkeep' => hrun frame'' (hkeep.trans hkeep' (Nat.le_refl lo))
    rw [← bind_pure (List.foldlM _ _ rest)]
    refine hrest.bind (Nat.le_refl lo) (Nat.le_refl hi) fun p results _ hp _ => ?_
    exact simulates_pure (by rw [hp, reverse_collect])

end Montage.Script
