import Montage.Diagnostic

/-!
# Values with notes

A computation that gets around a problem goes on and notes it. What it yields is a value together
with the diagnostics noted on the way, in the order in which they came up.
-/

namespace Montage

/-- A value, and the problems noted on the way to it. -/
structure Noted (α : Type) where
  value : α
  notes : List Diagnostic

namespace Noted

instance : Monad Noted where
  pure a := ⟨a, []⟩
  bind x f := ⟨(f x.value).value, x.notes ++ (f x.value).notes⟩

/-- A value in spite of a problem. -/
def despite {α : Type} (a : α) (d : Diagnostic) : Noted α := ⟨a, [d]⟩

/-- Whether there was no problem. -/
def isClean {α : Type} (x : Noted α) : Bool := x.notes.isEmpty

variable {α β : Type}

@[simp] theorem value_pure (a : α) : (pure a : Noted α).value = a := rfl

@[simp] theorem notes_pure (a : α) : (pure a : Noted α).notes = [] := rfl

@[simp] theorem value_bind (x : Noted α) (f : α → Noted β) :
    (x >>= f).value = (f x.value).value := rfl

@[simp] theorem notes_bind (x : Noted α) (f : α → Noted β) :
    (x >>= f).notes = x.notes ++ (f x.value).notes := rfl

@[simp] theorem value_map (f : α → β) (x : Noted α) : (f <$> x).value = f x.value := rfl

@[simp] theorem notes_map (f : α → β) (x : Noted α) : (f <$> x).notes = x.notes := by
  show x.notes ++ [] = x.notes
  simp

end Noted

end Montage
