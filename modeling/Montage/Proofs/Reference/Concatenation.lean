import Mathlib
import Montage.Proofs.Reference.Dependence

/-!
# Texts one behind the other

A text that is not one token as a whole is resolved piece by piece. Where two texts meet without a
token across the place, the pieces of both together are those of the first and then those of the
second, and so is what becomes of them. A token is therefore replaced by the same text wherever it
stands, and the characters around it stay.
-/

namespace Montage.Reference

open Montage.Text (octets octets_append octets_pos utf8ByteSize_ofList)

/-! ## Pieces -/

theorem bracketed?_eq_none_of_append {cs more : List Char} (h : bracketed? (cs ++ more) = none) :
    bracketed? cs = none := by
  rw [Option.eq_none_iff_forall_ne_some] at h ⊢
  rintro ⟨inside, rest⟩ hsome
  obtain ⟨hfits, rfl⟩ := bracketed?_eq_some_iff.mp hsome
  exact h (inside, rest ++ more) (bracketed?_eq_some_iff.mpr ⟨hfits, by simp⟩)

theorem token?_of_append {cs more rest : List Char} {t : Token}
    (h : token? (cs ++ more) = some (t, rest)) (hends : octets t.written ≤ octets cs) :
    ∃ between, rest = between ++ more ∧ token? cs = some (t, between) := by
  obtain ⟨hwell, heq, hnone⟩ := token?_eq_some_iff.mp h
  obtain ⟨between, rfl, rfl⟩ : ∃ between, cs = t.written ++ between ∧ rest = between ++ more := by
    rcases List.append_eq_append_iff.mp heq with ⟨across, hwritten, rfl⟩ | hinside
    · by_cases hacross : across = []
      · subst hacross
        exact ⟨[], by simpa using hwritten.symm, rfl⟩
      · have hpos := octets_pos hacross
        rw [hwritten, octets_append] at hends
        omega
    · exact hinside
  exact ⟨between, rfl, token?_eq_some_iff.mpr
    ⟨hwell, rfl, fun hrange => bracketed?_eq_none_of_append (hnone hrange)⟩⟩

theorem pieces_of_token?_eq_none {c : Char} {rest : List Char} (h : token? (c :: rest) = none) :
    pieces (c :: rest) = .char c :: pieces rest := by
  rw [pieces]
  split
  · rename_i hsome
    cases h.symm.trans hsome
  · rfl

/-- None of some tokens stands across the octet. -/
def NoneAcross (place : Nat) (located : List Located) : Prop :=
  ∀ l ∈ located, l.stop ≤ place ∨ place ≤ l.start

/-- If no token stands across the end of a text, the token that is read at its start with more
behind it is read there without. -/
theorem token?_of_noneAcross {cs more rest : List Char} {t : Token} {start : Nat} (hne : cs ≠ [])
    (h : NoneAcross (start + octets cs) (locate start (pieces (cs ++ more))))
    (htoken : token? (cs ++ more) = some (t, rest)) :
    ∃ between, rest = between ++ more ∧ token? cs = some (t, between) := by
  rw [pieces_of_token? htoken, locate] at h
  have hpos := octets_pos hne
  have hplace : start + octets t.written ≤ start + octets cs ∨ start + octets cs ≤ start :=
    h _ List.mem_cons_self
  exact token?_of_append htoken (by omega)

theorem pieces_append {cs more : List Char} {start : Nat}
    (h : NoneAcross (start + octets cs) (locate start (pieces (cs ++ more)))) :
    pieces (cs ++ more) = pieces cs ++ pieces more := by
  fun_induction pieces cs generalizing start with
  | case1 cs t rest htoken ih =>
    obtain ⟨hwell, rfl, -⟩ := token?_eq_some_iff.mp htoken
    -- a token is read there with more behind it, at first perhaps a longer one
    obtain ⟨t', rest', htoken', -⟩ := exists_token? hwell (rest ++ more)
    rw [← List.append_assoc] at htoken'
    obtain ⟨between, rfl, hsame⟩ :=
      token?_of_noneAcross (List.append_ne_nil_of_left_ne_nil t.written_ne_nil _) h htoken'
    cases htoken.symm.trans hsame
    rw [pieces_of_token? htoken', locate, octets_append, ← Nat.add_assoc] at h
    rw [pieces_of_token? htoken', ih fun l hl => h l (List.mem_cons_of_mem _ hl), List.cons_append]
  | case2 => rfl
  | case3 c rest htoken ih =>
    have htoken' : token? (c :: rest ++ more) = none := by
      rw [Option.eq_none_iff_forall_ne_some]
      rintro ⟨t, rest'⟩ hsome
      obtain ⟨between, -, hsame⟩ := token?_of_noneAcross (List.cons_ne_nil c rest) h hsome
      cases htoken.symm.trans hsame
    have hpieces : pieces (c :: rest ++ more) = .char c :: pieces (rest ++ more) :=
      pieces_of_token?_eq_none htoken'
    rw [hpieces, locate, octets, ← Nat.add_assoc] at h
    rw [hpieces, ih h, List.cons_append]

theorem noneAcross_iff_scan {a b : String} :
    NoneAcross a.utf8ByteSize (scan (a ++ b)) ↔
      NoneAcross (0 + octets a.toList) (locate 0 (pieces (a.toList ++ b.toList))) := by
  rw [scan, String.toList_append, Nat.zero_add, ← utf8ByteSize_ofList, String.ofList_toList]

theorem noneAcross_of_occurs {cs before behind : List Char} {t : Token}
    (h : OccursMaximally cs before t behind) :
    NoneAcross (0 + octets before) (locate 0 (pieces cs)) := by
  have hlocated : ⟨t, 0 + octets before, 0 + octets (before ++ t.written)⟩ ∈ locate 0 (pieces cs) :=
    mem_locate_pieces.mpr ⟨before, behind, h, rfl, rfl⟩
  obtain ⟨earlier, later, hsplit⟩ := List.append_of_mem hlocated
  have hpairs := (locate_pairwise (pieces cs) 0).1
  rw [hsplit, List.pairwise_append, List.pairwise_cons] at hpairs
  obtain ⟨-, ⟨hlater, -⟩, hearlier⟩ := hpairs
  intro l hl
  rw [hsplit, List.mem_append, List.mem_cons] at hl
  rcases hl with hl | rfl | hl
  · exact .inl (hearlier l hl _ List.mem_cons_self)
  · exact .inr (Nat.le_refl _)
  · have hstop := hlater l hl
    rw [octets_append] at hstop
    dsimp only at hstop
    exact .inr (by omega)

/-! ## Texts -/

instance : LawfulMonad Noted := LawfulMonad.mk' Noted
  (fun x => congrArg (Noted.mk x.value) (List.append_nil x.notes))
  (fun _ _ => rfl)
  (fun _ _ _ => congrArg (Noted.mk _) (List.append_assoc ..))

/-- What a text becomes that is not one token as a whole. -/
def template (pool : Pool) (s : String) : Noted String :=
  String.ofList <$> fill pool (pieces s.toList)

section

variable {pool : Pool}

theorem resolve_of_soleToken?_eq_none {s : String} (h : soleToken? s = none) :
    resolve pool (.string s) = .string <$> template pool s := by
  rw [resolve, resolveText, h, template, Functor.map_map]

theorem fill_append (ps qs : List Piece) :
    fill pool (ps ++ qs) = do return (← fill pool ps) ++ (← fill pool qs) := by
  induction ps with
  | nil => simp [fill]
  | cons p rest ih =>
    cases p <;>
      simp only [List.cons_append, fill, ih, map_eq_pure_bind, bind_assoc, pure_bind,
        List.append_assoc]

theorem template_append {a b : String} (h : NoneAcross a.utf8ByteSize (scan (a ++ b))) :
    template pool (a ++ b) = do return (← template pool a) ++ (← template pool b) := by
  rw [template, String.toList_append, pieces_append (noneAcross_iff_scan.mp h), fill_append,
    template, template]
  simp only [map_eq_pure_bind, bind_assoc, pure_bind, String.ofList_append]

theorem template_occurs {s : String} {before behind : List Char} {t : Token}
    (h : OccursMaximally s.toList before t behind) :
    template pool s = do
      return (← template pool (.ofList before)) ++ .ofList (← tokenText pool t) ++
        (← template pool (.ofList behind)) := by
  have hacross := noneAcross_of_occurs h
  obtain ⟨htext, htoken⟩ := occursMaximally_iff.mp h
  rw [htext, List.append_assoc] at hacross
  rw [template, htext, List.append_assoc, pieces_append hacross, pieces_of_token? htoken,
    fill_append, fill, template, template]
  simp only [map_eq_pure_bind, bind_assoc, pure_bind, String.ofList_append, String.toList_ofList,
    String.append_assoc]

theorem template_of_scan_eq_nil {s : String} (h : scan s = []) : template pool s = pure s := by
  have hkeys : keysOf (pieces s.toList) = [] := by
    rw [← keysIn_string, keysIn, h]
    rfl
  rw [template, fill_of_lacks (hkeys ▸ nofun), hkeys, flatMap_written_pieces]
  exact congrArg (Noted.mk · []) String.ofList_toList

end

/-- **Two texts put together become what they become apart**, with the notes of the first before
those of the second, as long as no token stands across the place where they meet and neither they
nor the whole are one token. For a text that is not one token becomes what is before a token, what
the token becomes, and what is behind it, and where there is no token it stays as it is. -/
theorem resolve_append (pool : Pool) :
    (∀ a b, NoneAcross a.utf8ByteSize (scan (a ++ b)) → soleToken? a = none → soleToken? b = none →
        soleToken? (a ++ b) = none →
        ∃ u w, (resolve pool (.string a)).value = .string u ∧
          (resolve pool (.string b)).value = .string w ∧
          resolve pool (.string (a ++ b)) = ⟨.string (u ++ w),
            (resolve pool (.string a)).notes ++ (resolve pool (.string b)).notes⟩) ∧
      (∀ s, soleToken? s = none → resolve pool (.string s) = .string <$> template pool s) ∧
      (∀ s before t behind, OccursMaximally s.toList before t behind →
        template pool s = do
          return (← template pool (.ofList before)) ++ .ofList (← tokenText pool t) ++
            (← template pool (.ofList behind))) ∧
      ∀ s, scan s = [] → template pool s = pure s := by
  refine ⟨fun a b hacross ha hb hab => ?_, fun s => resolve_of_soleToken?_eq_none,
    fun s before t behind => template_occurs, fun s => template_of_scan_eq_nil⟩
  rw [resolve_of_soleToken?_eq_none ha, resolve_of_soleToken?_eq_none hb,
    resolve_of_soleToken?_eq_none hab, template_append hacross]
  refine ⟨(template pool a).value, (template pool b).value, rfl, rfl, ?_⟩
  refine congrArg (Noted.mk (Json.string _)) ?_
  simp

def counting : Pool := ⟨[("n", .number (.int 3))]⟩

/-- The first text ends in a token, and the second one starts with a bracket, but with none that a
range could stand in. -/
theorem resolve_append_bracket :
    NoneAcross "é=data:[n]".utf8ByteSize (scan ("é=data:[n]" ++ "[x data:[gone]")) ∧
      resolve counting (.string ("é=data:[n]" ++ "[x data:[gone]")) =
        ⟨.string ("é=3" ++ "[x data:[gone]"), [.referenceNotFound "gone"]⟩ ∧
      template counting "é=data:[n]" = pure "é=3" := by
  have hscan : scan ("é=data:[n]" ++ "[x data:[gone]") =
      [⟨⟨['n'], none⟩, 3, 11⟩, ⟨⟨"gone".toList, none⟩, 14, 25⟩] := by cbv
  have hacross : NoneAcross "é=data:[n]".utf8ByteSize
      (scan ("é=data:[n]" ++ "[x data:[gone]")) := by
    rw [hscan]
    unfold NoneAcross
    decide
  have hfirst : resolve counting (.string "é=data:[n]") = ⟨.string "é=3", []⟩ := by cbv
  have hsecond : resolve counting (.string "[x data:[gone]") =
      ⟨.string "[x data:[gone]", [.referenceNotFound "gone"]⟩ := by cbv
  have hoccurs : OccursMaximally "é=data:[n]".toList "é=".toList ⟨['n'], none⟩ [] :=
    occursMaximally_iff.mpr ⟨rfl, by cbv⟩
  obtain ⟨hmeet, -, hpieces, hkept⟩ := resolve_append counting
  refine ⟨hacross, ?_, ?_⟩
  · obtain ⟨u, w, hu, hw, hboth⟩ := hmeet _ _ hacross (by cbv) (by cbv) (by cbv)
    rw [hfirst, Json.string.injEq] at hu
    rw [hsecond, Json.string.injEq] at hw
    rw [hboth, hfirst, hsecond, ← hu, ← hw]
    rfl
  · have htoken : tokenText counting ⟨['n'], none⟩ = pure ['3'] := by cbv
    rw [hpieces _ _ _ _ hoccurs, hkept (.ofList "é=".toList) (by cbv), hkept (.ofList []) (by cbv),
      htoken]
    rfl

end Montage.Reference
