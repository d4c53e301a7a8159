/-!
# Blank characters

The characters that separate words in any script, and trimming them off both ends of a text.
-/

namespace Montage.Text

/-- Unicode's white space: the ASCII controls of layout, the no-break spaces, the spaces of
typography and the line and paragraph separators. -/
def isBlank (c : Char) : Bool :=
  let n := c.toNat
  (0x9 ≤ n && n ≤ 0xD) || n == 0x20 || n == 0x85 || n == 0xA0 || n == 0x1680 ||
    (0x2000 ≤ n && n ≤ 0x200A) || n == 0x2028 || n == 0x2029 || n == 0x202F || n == 0x205F ||
    n == 0x3000

/-- A list of characters without the blanks at its two ends. -/
def trimmed (cs : List Char) : List Char :=
  ((cs.dropWhile isBlank).reverse.dropWhile isBlank).reverse

/-- The inner characters are what blanks on the left and on the right leave, and there is no blank at
either end of them. -/
structure IsTrimmed (cs inner : List Char) : Prop where
  blanks : ∃ left right, cs = left ++ inner ++ right ∧ ∀ c ∈ left ++ right, isBlank c = true
  head : ∀ c ∈ inner.head?, isBlank c = false
  last : ∀ c ∈ inner.getLast?, isBlank c = false

theorem isBlank_of_head?_dropWhile {cs : List Char} :
    ∀ c ∈ (cs.dropWhile isBlank).head?, isBlank c = false := by
  intro c hc
  have h := List.head?_dropWhile_not isBlank cs
  rw [Option.mem_def.mp hc] at h
  exact h

theorem isTrimmed_trimmed (cs : List Char) : IsTrimmed cs (trimmed cs) := by
  let front := cs.dropWhile isBlank
  let right := (front.reverse.takeWhile isBlank).reverse
  have hfront : trimmed cs ++ right = front := by
    rw [trimmed, ← List.reverse_append, List.takeWhile_append_dropWhile, List.reverse_reverse]
  refine ⟨⟨cs.takeWhile isBlank, right, ?_, fun c hc => ?_⟩, fun c hc => ?_, fun c hc => ?_⟩
  · rw [List.append_assoc, hfront, List.takeWhile_append_dropWhile]
  · rw [List.mem_append, List.mem_reverse] at hc
    exact hc.elim (List.all_eq_true.mp List.all_takeWhile c)
      (List.all_eq_true.mp List.all_takeWhile c)
  · have hhead : c ∈ front.head? := by
      rw [← hfront, List.head?_append, Option.mem_def.mp hc]
      rfl
    exact isBlank_of_head?_dropWhile c hhead
  · rw [trimmed, List.getLast?_reverse] at hc
    exact isBlank_of_head?_dropWhile c hc

/-- A text without the blanks at its two ends. -/
def trim (s : String) : String := String.ofList (trimmed s.toList)

def isBlankText (s : String) : Bool := s.toList.all isBlank

end Montage.Text
