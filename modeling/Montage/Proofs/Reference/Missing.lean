import Montage.Proofs.Json.Fields
import Montage.Proofs.Reference.Notes
import Montage.Proofs.Reference.Occurrence
import Montage.Reference.Missing

/-!
# Missing keys in the notes

Looking for missing keys goes through the tokens of all texts. Resolving replaces a text that is one
token in another way than the tokens of longer texts, and leaves both ways what it does not find. The
keys that it notes on the way are the same, in the same order, each as often as it is used.
-/

namespace Montage

/-- The key that a problem says is not in the pool, as it stands in the message. -/
def Diagnostic.missingKey? (d : Diagnostic) : Option String :=
  if d.kind = .referenceNotFound then
    let quoted := d.message.toList.drop "reference \"".length
    some (.ofList (quoted.take (quoted.length - "\" is not defined".length)))
  else none

theorem Diagnostic.missingKey?_referenceNotFound (key : String) :
    (referenceNotFound key).missingKey? = some key := by
  have hquoted : (referenceNotFound key).message.toList.drop "reference \"".length =
      key.toList ++ "\" is not defined".toList := by
    dsimp only [referenceNotFound]
    rw [String.toList_append, String.toList_append, List.append_assoc]
    exact List.drop_left' rfl
  have hkind : (referenceNotFound key).kind = .referenceNotFound := rfl
  rw [missingKey?, if_pos hkind]
  dsimp only
  rw [hquoted, List.length_append, ← String.length_toList, Nat.add_sub_cancel_right,
    List.take_left, String.ofList_toList]

def missingKeys (notes : List Diagnostic) : List String := notes.filterMap (·.missingKey?)

theorem missingKeys_append (notes more : List Diagnostic) :
    missingKeys (notes ++ more) = missingKeys notes ++ missingKeys more :=
  List.filterMap_append

theorem missingKeys_withPreset (id : String) (notes : List Diagnostic) :
    missingKeys (notes.map (·.withPreset id)) = missingKeys notes :=
  List.filterMap_map

theorem missingKeys_eq_nil_iff (notes : List Diagnostic) :
    missingKeys notes = [] ↔ ∀ d ∈ notes, d.kind ≠ .referenceNotFound := by
  rw [missingKeys, List.filterMap_eq_nil_iff]
  refine forall₂_congr fun d _ => ?_
  rw [Diagnostic.missingKey?]
  split
  · rename_i hkind
    exact ⟨nofun, fun h => absurd hkind h⟩
  · rename_i hkind
    exact ⟨fun _ => hkind, fun _ => rfl⟩

namespace Reference

theorem missingKeys_of_notesOnly {α : Type} {x : Noted α} {kinds : List Diagnostic.Kind}
    (h : NotesOnly kinds x) (hkinds : .referenceNotFound ∉ kinds) : missingKeys x.notes = [] :=
  (missingKeys_eq_nil_iff x.notes).mpr fun d hd hkind => hkinds (hkind ▸ h d hd)

/-! ## Texts -/

/-- The keys that the pool does not have, out of those of some tokens. -/
def unknownKeys (pool : Pool) (keys : List String) : List String := keys.filter (!pool.contains ·)

theorem unknownKeys_append (pool : Pool) (keys more : List String) :
    unknownKeys pool (keys ++ more) = unknownKeys pool keys ++ unknownKeys pool more :=
  List.filter_append ..

theorem contains_eq_isSome (pool : Pool) (key : String) :
    pool.contains key = (pool.get? key).isSome := Fields.hasKey_eq_isSome pool.entries key

theorem unknownKeys_singleton (pool : Pool) (key : String) :
    unknownKeys pool [key] = if (pool.get? key).isSome then [] else [key] := by
  rw [unknownKeys, List.filter_cons, List.filter_nil, contains_eq_isSome]
  cases (pool.get? key).isSome <;> rfl

theorem missingKeys_notFound {α : Type} (a : α) (key : String) :
    missingKeys (Noted.despite a (.referenceNotFound key)).notes = [key] :=
  List.filterMap_cons_some (Diagnostic.missingKey?_referenceNotFound key)

theorem missingKeys_tokenText (pool : Pool) (t : Token) :
    missingKeys (tokenText pool t).notes = unknownKeys pool [t.key] := by
  rw [unknownKeys_singleton, tokenText]
  rcases pool.get? t.key with _ | v
  · exact missingKeys_notFound _ _
  · exact missingKeys_of_notesOnly ((projection_notes v t.range).map _) (by decide)

theorem missingKeys_wholeValue (pool : Pool) (t : Token) :
    missingKeys (wholeValue pool t).notes = unknownKeys pool [t.key] := by
  rw [unknownKeys_singleton, wholeValue]
  rcases pool.get? t.key with _ | v
  · exact missingKeys_notFound _ _
  rcases t.range with _ | range
  · rfl
  · exact missingKeys_of_notesOnly ((slice_notes v range).map _) (by decide)

def keysOf (ps : List Piece) : List String := (ps.filterMap Piece.token?).map (·.key)

theorem keysOf_token (t : Token) (rest : List Piece) :
    keysOf (.token t :: rest) = [t.key] ++ keysOf rest := rfl

theorem keysIn_string (s : String) : keysIn (.string s) = keysOf (pieces s.toList) := by
  rw [keysIn, keysOf, ← tokens_scan, List.map_map]
  rfl

theorem keysIn_of_soleToken? {s : String} {t : Token} (h : soleToken? s = some t) :
    keysIn (.string s) = [t.key] := by
  rw [keysIn_string, pieces_of_soleToken? h]
  rfl

theorem missingKeys_fill (pool : Pool) (ps : List Piece) :
    missingKeys (fill pool ps).notes = unknownKeys pool (keysOf ps) := by
  induction ps with
  | nil => rfl
  | cons p rest ih =>
    cases p with
    | char c =>
      rw [fill, Noted.notes_map]
      exact ih
    | token t =>
      rw [keysOf_token, unknownKeys_append, ← missingKeys_tokenText, ← ih, ← missingKeys_append,
        fill, Noted.notes_bind, Noted.notes_bind, Noted.notes_pure, List.append_nil]

theorem missingKeys_resolveText (pool : Pool) (s : String) :
    missingKeys (resolveText pool s).notes = unknownKeys pool (keysIn (.string s)) := by
  rw [resolveText]
  rcases hsole : soleToken? s with _ | t
  · rw [keysIn_string, Noted.notes_map]
    exact missingKeys_fill pool _
  · rw [keysIn_of_soleToken? hsole, Noted.notes_map]
    exact missingKeys_wholeValue pool t

/-! ## Values -/

mutual

theorem missingKeys_resolve (pool : Pool) : ∀ v : Json,
    missingKeys (resolve pool v).notes = unknownKeys pool (keysIn v)
  | .string s => missingKeys_resolveText pool s
  | .array items => by
    rw [resolve, Noted.notes_map, keysIn]
    exact missingKeys_resolveItems pool items
  | .object fields => by
    rw [resolve, Noted.notes_map, keysIn]
    exact missingKeys_resolveFields pool fields
  | .null | .bool _ | .number _ => rfl

theorem missingKeys_resolveItems (pool : Pool) : ∀ items : List Json,
    missingKeys (resolveItems pool items).notes = unknownKeys pool (keysInItems items)
  | [] => rfl
  | v :: rest => by
    rw [resolveItems, keysInItems, unknownKeys_append, ← missingKeys_resolve pool v,
      ← missingKeys_resolveItems pool rest, ← missingKeys_append, Noted.notes_bind,
      Noted.notes_bind, Noted.notes_pure, List.append_nil]

theorem missingKeys_resolveFields (pool : Pool) : ∀ fields : Fields,
    missingKeys (resolveFields pool fields).notes = unknownKeys pool (keysInFields fields)
  | [] => rfl
  | (_, v) :: rest => by
    rw [resolveFields, keysInFields, unknownKeys_append, ← missingKeys_resolve pool v,
      ← missingKeys_resolveFields pool rest, ← missingKeys_append, Noted.notes_bind,
      Noted.notes_bind, Noted.notes_pure, List.append_nil]

end

/-- The keys that are missing are those that resolving notes, each where it is first noted. -/
theorem missing_eq_eraseDups (pool : Pool) (v : Json) :
    missing pool v = (missingKeys (resolve pool v).notes).eraseDups := by
  rw [missingKeys_resolve]
  rfl

end Reference

end Montage
