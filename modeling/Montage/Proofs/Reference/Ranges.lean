import Mathlib
import Montage.Proofs.Reference.Notes
import Montage.Proofs.Reference.Occurrence

/-!
# Where ranges are reported

A range that cannot be applied to a value is noted by `slice`, once. A token that is a whole text is
cut by it, so the note is there. In a longer text a value is cut only if it is a list or has a list of
captions, and if no text for it is found first: there the notes are those of `slice`. Any other value
is put into the text whole, and its range is passed over without a note.
-/

namespace Montage.Reference

/-! ## Notes of a range -/

theorem partOr_notes_length (whole : List Json) (range : String)
    (part : Except RangeError (List Json)) : (partOr whole range part).notes.length ≤ 1 := by
  cases part with
  | ok part => exact Nat.zero_le 1
  | error e => exact Nat.le_refl 1

theorem notes_slice_array (items : List Json) (range : String) :
    (slice (.array items) range).notes = (sliceList items range).notes :=
  Noted.notes_map _ _

theorem notes_slice_captions {fields : Fields} {captions : List Json}
    (h : Fields.get? fields "captions" = some (.array captions)) (range : String) :
    (slice (.object fields) range).notes = (sliceCaptions captions range).notes := by
  rw [slice, h]
  exact List.append_nil _

theorem slice_notes_length (w : Json) (range : String) : (slice w range).notes.length ≤ 1 := by
  unfold slice
  split
  · rw [Noted.notes_map]
    exact partOr_notes_length _ _ _
  · split
    · rw [Noted.notes_bind, Noted.notes_pure, List.append_nil]
      exact partOr_notes_length _ _ _
    · exact Nat.le_refl 1
  · exact Nat.le_refl 1

/-! ## Values in texts -/

/-- Whether a value is cut to the range where it stands in a longer text. -/
def isCutInText (w : Json) : Bool :=
  (textPaths.findSome? fun path => (follow w path).filter isTelling).isNone &&
    match w.get? "captions", w with
    | some (.array _), _ => true
    | _, .array _ => true
    | _, _ => false

theorem notes_projection (w : Json) (range : String) :
    (projection w (some range)).notes = if isCutInText w then (slice w range).notes else [] := by
  rw [projection.eq_def, isCutInText.eq_def]
  cases textPaths.findSome? fun path => (follow w path).filter isTelling with
  | some found => rfl
  | none =>
    cases w with
    | array items => exact (Noted.notes_map _ _).trans (notes_slice_array items range).symm
    | object fields =>
      cases hcaptions : Fields.get? fields "captions" with
      | none => simp [Json.get?, hcaptions]
      | some captions =>
        cases captions with
        | array captions =>
          have hslice := notes_slice_captions hcaptions range
          simp [Json.get?, hcaptions, hslice]
        | _ => simp [Json.get?, hcaptions]
    | _ => rfl

/-! ## Texts -/

/-- What is noted of tokens that stand in a longer text. -/
def notesInText (pool : Pool) (ts : List Token) : List Diagnostic :=
  ts.flatMap fun t => (tokenText pool t).notes

theorem notes_fill (pool : Pool) (ps : List Piece) :
    (fill pool ps).notes = notesInText pool (ps.filterMap Piece.token?) := by
  induction ps with
  | nil => rfl
  | cons p rest ih =>
    cases p with
    | char c =>
      rw [fill, Noted.notes_map]
      exact ih
    | token t =>
      rw [fill, Noted.notes_bind, Noted.notes_bind, Noted.notes_pure, List.append_nil, ih]
      rfl

section

variable {pool : Pool} {t : Token} {range : String} {w : Json}

theorem notes_tokenText (hrange : t.range = some range) (hget : pool.get? t.key = some w) :
    (tokenText pool t).notes = if isCutInText w then (slice w range).notes else [] := by
  rw [tokenText, hget, hrange]
  exact (Noted.notes_map _ _).trans (notes_projection w range)

theorem notes_wholeValue (hrange : t.range = some range) (hget : pool.get? t.key = some w) :
    (wholeValue pool t).notes = (slice w range).notes := by
  rw [wholeValue, hget, hrange]
  exact Noted.notes_map _ _

end

theorem notesInText_split (pool : Pool) (before : List Located) (l : Located)
    (after : List Located) :
    notesInText pool ((before ++ l :: after).map (·.token)) =
      notesInText pool (before.map (·.token)) ++ (tokenText pool l.token).notes ++
        notesInText pool (after.map (·.token)) := by
  simp [notesInText]

theorem only_of_soleToken? {s : String} {t : Token} (hsole : soleToken? s = some t)
    {before after : List Located} {l : Located} (hscan : scan s = before ++ l :: after) :
    before = [] ∧ l.token = t ∧ after = [] := by
  have htokens := tokens_scan s
  rw [hscan, pieces_of_soleToken? hsole] at htokens
  cases before with
  | nil => simpa [Piece.token?] using htokens
  | cons => simp [Piece.token?] at htokens

/-- **A range that cannot be applied is noted in its place if the token is the whole text or the value
is cut where it stands in the text, and not otherwise.** The note is the one of `slice`, and there is
at most one. -/
theorem resolve_notes_range (pool : Pool) {s : String} {before after : List Located} {l : Located}
    {range : String} {w : Json} (hscan : scan s = before ++ l :: after)
    (hrange : l.token.range = some range) (hget : pool.get? l.token.key = some w) :
    (resolve pool (.string s)).notes =
        notesInText pool (before.map (·.token)) ++
          (if soleToken? s = some l.token ∨ isCutInText w then (slice w range).notes else []) ++
          notesInText pool (after.map (·.token)) ∧
      (slice w range).notes.length ≤ 1 ∧ ∀ d ∈ (slice w range).notes, d.kind = .rangeInvalid := by
  refine ⟨?_, slice_notes_length w range,
    fun d hd => List.mem_singleton.mp (slice_notes w range d hd)⟩
  rw [resolve, resolveText]
  cases hsole : soleToken? s with
  | some t =>
    obtain ⟨rfl, rfl, rfl⟩ := only_of_soleToken? hsole hscan
    rw [Noted.notes_map, notes_wholeValue hrange hget, if_pos (.inl rfl)]
    exact (List.append_nil _).symm
  | none =>
    have hcut : (none = some l.token ∨ isCutInText w) ↔ isCutInText w := by simp
    rw [Noted.notes_map, notes_fill, ← tokens_scan, hscan, notesInText_split,
      notes_tokenText hrange hget]
    simp only [hcut]

def numbered : Pool := ⟨[("n", .number (.int 5))]⟩

/-- What `slice` notes of a range on a number. -/
def numberNotCut : Diagnostic :=
  .rangeInvalid "first" "unrecognized range cannot be applied to a scalar value"

def numberToken : Token := ⟨['n'], some "first".toList⟩

theorem resolve_notes_range_number :
    (slice (.number (.int 5)) "first").notes = [numberNotCut] ∧
      (resolve numbered (.string "data:[n][first]")).notes = [numberNotCut] ∧
      (resolve numbered (.string "n=data:[n][first]")).notes = [] := by
  have hslice : (slice (.number (.int 5)) "first").notes = [numberNotCut] := rfl
  have hget : numbered.get? numberToken.key = some (.number (.int 5)) := by cbv
  have hrange : numberToken.range = some "first" := rfl
  have hcut : isCutInText (.number (.int 5)) = false := by decide
  have hwhole : scan "data:[n][first]" = [] ++ ⟨numberToken, 0, 15⟩ :: [] := by cbv
  have hpart : scan "n=data:[n][first]" = [] ++ ⟨numberToken, 2, 17⟩ :: [] := by cbv
  have hsole : soleToken? "data:[n][first]" = some numberToken := by cbv
  have hnone : soleToken? "n=data:[n][first]" = none := by cbv
  refine ⟨hslice, ?_, ?_⟩
  · rw [(resolve_notes_range numbered hwhole hrange hget).1, if_pos (.inl hsole), hslice]
    rfl
  · rw [(resolve_notes_range numbered hpart hrange hget).1, hnone, hcut]
    rfl

end Montage.Reference
