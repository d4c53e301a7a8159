/-!
# Computations whose state survives an error

Runs of bound functions, evaluations by name and merges are all computations of one kind: they have
a state, they may fail, and what they have done to the state by then is not undone. `exec` runs such
a computation, and the lemmas say what each step of it does to the state.
-/

namespace Montage.Stateful

variable {ε σ α β : Type}

/-- Runs a computation from a state: its outcome, and the state in which it ends. -/
def exec (x : ExceptT ε (StateM σ) α) (s : σ) : Except ε α × σ := x.run.run s

@[simp] theorem exec_get (s : σ) : exec (get : ExceptT ε (StateM σ) σ) s = (.ok s, s) := rfl

@[simp] theorem exec_modify (f : σ → σ) (s : σ) :
    exec (modify f : ExceptT ε (StateM σ) PUnit) s = (.ok ⟨⟩, f s) := rfl

theorem exec_bind (x : ExceptT ε (StateM σ) α) (f : α → ExceptT ε (StateM σ) β) (s : σ) :
    exec (x >>= f) s =
      match exec x s with
      | (.ok a, t) => exec (f a) t
      | (.error e, t) => (.error e, t) := by
  show exec (ExceptT.bind x f) s = _
  unfold exec ExceptT.bind
  rcases h : x.run.run s with ⟨_ | a, t⟩
  all_goals
    show (ExceptT.bindCont f (x.run.run s).1).run (x.run.run s).2 = _
    rw [h]
    rfl

theorem exec_bind_ok {x : ExceptT ε (StateM σ) α} {f : α → ExceptT ε (StateM σ) β} {s t : σ} {a : α}
    (h : exec x s = (.ok a, t)) : exec (x >>= f) s = exec (f a) t := by
  rw [exec_bind, h]

theorem exec_bind_error {x : ExceptT ε (StateM σ) α} {f : α → ExceptT ε (StateM σ) β} {s t : σ}
    {e : ε} (h : exec x s = (.error e, t)) : exec (x >>= f) s = (.error e, t) := by
  rw [exec_bind, h]

end Montage.Stateful
