/-!
# Octets

How much room characters take in UTF-8.
-/

namespace Montage.Text

/-- How many octets the characters take in UTF-8. -/
def octets : List Char → Nat
  | [] => 0
  | c :: rest => c.utf8Size + octets rest

theorem utf8ByteSize_ofList (cs : List Char) : (String.ofList cs).utf8ByteSize = octets cs := by
  induction cs with
  | nil => rfl
  | cons c rest ih =>
    rw [String.ofList_cons, String.utf8ByteSize_append, String.utf8ByteSize_singleton, ih, octets]

theorem octets_append (cs more : List Char) : octets (cs ++ more) = octets cs + octets more := by
  rw [← utf8ByteSize_ofList, String.ofList_append, String.utf8ByteSize_append, utf8ByteSize_ofList,
    utf8ByteSize_ofList]

theorem octets_pos {cs : List Char} (h : cs ≠ []) : 0 < octets cs := by
  obtain ⟨c, cs, rfl⟩ := List.exists_cons_of_ne_nil h
  exact Nat.lt_of_lt_of_le c.utf8Size_pos (Nat.le_add_right _ _)

theorem eq_nil_of_octets {cs : List Char} (h : octets cs = 0) : cs = [] :=
  Classical.byContradiction fun hne => Nat.ne_of_gt (octets_pos hne) h

theorem octets_eq_length {cs : List Char} (h : ∀ c ∈ cs, c.utf8Size = 1) :
    octets cs = cs.length := by
  induction cs with
  | nil => rfl
  | cons c cs ih =>
    rw [octets, h c List.mem_cons_self, ih fun d hd => h d (List.mem_cons_of_mem c hd),
      List.length_cons, Nat.add_comm]

end Montage.Text
