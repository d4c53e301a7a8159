import Montage.Reference.Resolve

/-!
# What resolving notes

Resolving gets around two kinds of problems: a reference that is not defined, and a range that cannot
be applied. Only a token notes the first; taking parts of values and putting values into texts notes
no more than the second.
-/

namespace Montage

def NotesOnly (kinds : List Diagnostic.Kind) {α : Type} (x : Noted α) : Prop :=
  ∀ d ∈ x.notes, d.kind ∈ kinds

namespace NotesOnly

variable {α β : Type} {kinds : List Diagnostic.Kind} {x : Noted α}

theorem pure (a : α) : NotesOnly kinds (Pure.pure a) := nofun

theorem bind {f : α → Noted β} (hx : NotesOnly kinds x) (hf : ∀ a, NotesOnly kinds (f a)) :
    NotesOnly kinds (x >>= f) := by
  intro d hd
  rw [Noted.notes_bind, List.mem_append] at hd
  exact hd.elim (hx d) (hf x.value d)

theorem map (hx : NotesOnly kinds x) (f : α → β) : NotesOnly kinds (f <$> x) := by
  intro d hd
  rw [Noted.notes_map] at hd
  exact hx d hd

theorem despite (a : α) {d : Diagnostic} (hd : d.kind ∈ kinds) :
    NotesOnly kinds (Noted.despite a d) := by
  intro d' hd'
  rw [List.mem_singleton.mp hd']
  exact hd

theorem mono {more : List Diagnostic.Kind} (hx : NotesOnly kinds x) (hmore : kinds ⊆ more) :
    NotesOnly more x := fun d hd => hmore (hx d hd)

end NotesOnly

namespace Reference

/-! ## Parts of values -/

theorem partOr_notes (whole : List Json) (range : String) (part : Except RangeError (List Json)) :
    NotesOnly [.rangeInvalid] (partOr whole range part) := by
  cases part with
  | ok part => exact .pure part
  | error e => exact .despite whole List.mem_cons_self

theorem slice_notes (v : Json) (range : String) : NotesOnly [.rangeInvalid] (slice v range) := by
  unfold slice
  split
  · exact (partOr_notes _ _ _).map _
  · split
    · exact (partOr_notes _ _ _).bind fun _ => .pure _
    · exact .despite _ List.mem_cons_self
  · exact .despite _ List.mem_cons_self

theorem projection_notes (v : Json) (range : Option String) :
    NotesOnly [.rangeInvalid] (projection v range) := by
  unfold projection
  split
  · exact .pure _
  · split
    · exact (partOr_notes _ _ _).map _
    · exact .pure _
    · exact (partOr_notes _ _ _).map _
    · exact .pure _

/-! ## Tokens -/

/-- The kinds of problems that resolving gets around. -/
def kinds : List Diagnostic.Kind := [.referenceNotFound, .rangeInvalid]

theorem wholeValue_notes (pool : Pool) (t : Token) : NotesOnly kinds (wholeValue pool t) := by
  unfold wholeValue
  split
  · exact .despite _ List.mem_cons_self
  · split
    · exact ((slice_notes _ _).mono (List.subset_cons_self _ _)).map _
    · exact .pure _

theorem tokenText_notes (pool : Pool) (t : Token) : NotesOnly kinds (tokenText pool t) := by
  unfold tokenText
  split
  · exact ((projection_notes _ _).mono (List.subset_cons_self _ _)).map _
  · exact .despite _ List.mem_cons_self

theorem fill_notes (pool : Pool) (pieces : List Piece) : NotesOnly kinds (fill pool pieces) := by
  induction pieces with
  | nil => exact .pure []
  | cons piece rest ih =>
    cases piece with
    | char c => exact ih.map _
    | token t => exact (tokenText_notes pool t).bind fun _ => ih.bind fun _ => .pure _

theorem resolveText_notes (pool : Pool) (s : String) : NotesOnly kinds (resolveText pool s) := by
  unfold resolveText
  split
  · exact (wholeValue_notes pool _).map _
  · exact (fill_notes pool _).map _

/-! ## Values -/

mutual

theorem resolve_notes (pool : Pool) : ∀ v : Json, NotesOnly kinds (resolve pool v)
  | .string s => resolveText_notes pool s
  | .array items => (resolveItems_notes pool items).map _
  | .object fields => (resolveFields_notes pool fields).map _
  | .null => .pure _
  | .bool _ => .pure _
  | .number _ => .pure _

theorem resolveItems_notes (pool : Pool) :
    ∀ items : List Json, NotesOnly kinds (resolveItems pool items)
  | [] => .pure []
  | v :: rest =>
    (resolve_notes pool v).bind fun _ => (resolveItems_notes pool rest).bind fun _ => .pure _

theorem resolveFields_notes (pool : Pool) :
    ∀ fields : Fields, NotesOnly kinds (resolveFields pool fields)
  | [] => .pure []
  | (_, v) :: rest =>
    (resolve_notes pool v).bind fun _ => (resolveFields_notes pool rest).bind fun _ => .pure _

end

end Reference

end Montage
