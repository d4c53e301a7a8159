import Montage.Proofs.Merge.Valid
import Montage.Proofs.Pass.Run

/-!
# Passes and valid documents

A pass that starts from a valid document goes through valid documents as long as what its presets
contribute is sound, and the first entry whose contribution is not makes the document invalid.
-/

namespace Montage

open Scene

/-- What an entry comes to on a document is sound, if it becomes part of it. -/
def Host.SoundFor (host : Host) (d : Document) (e : Preset.Entry) : Prop :=
  ∀ c target notes, host.contribution d e = .ok (some c) →
    (merge d c e.type).1 = .ok ⟨.applied target, notes⟩ → c.Sound e.type

theorem attempt_valid_iff {d : Document} (host : Host) (e : Preset.Entry)
    (hd : d.validate = .ok ()) :
    (attempt host d e).value.document.validate = .ok () ↔ host.SoundFor d e := by
  rw [attempt_document, Host.SoundFor]
  rcases host.contribution d e with s | _ | c
  · exact ⟨fun _ _ _ _ => nofun, fun _ => hd⟩
  · exact ⟨fun _ _ _ _ => nofun, fun _ => hd⟩
  · dsimp only
    rw [merge_valid_iff c e.type hd]
    refine ⟨fun h c' target notes hc happlied => ?_, fun h target notes happlied => ?_⟩
    · cases hc
      exact h target notes happlied
    · exact h c target notes rfl happlied

/-- **A pass leaves a valid document, whichever of its entries it ends with, exactly if each of them
is sound for the document it finds.** -/
theorem generate_valid_iff (strict : Bool) (host : Host) {base : Document}
    (entries : List Preset.Entry) (hbase : base.validate = .ok ()) :
    (∀ done r, done <+: entries → generate strict host base done = .ok r →
      r.document.validate = .ok ()) ↔
      ∀ done e r, done ++ [e] <+: entries → e.disabled = false →
        generate strict host base done = .ok r → host.SoundFor r.document e := by
  refine ⟨fun h done e r hdone henabled hr => ?_, fun h done => ?_⟩
  · intro c target notes hc happlied
    have hvalid := h done r ((List.prefix_append done [e]).trans hdone) hr
    obtain ⟨_, happlied'⟩ := attempt_merged hc happlied
    obtain ⟨r', hr', hdocument⟩ := exists_generate_concat hr henabled happlied'
    have hvalid' := h (done ++ [e]) r' hdone hr'
    rw [hdocument, attempt_valid_iff host e hvalid] at hvalid'
    exact hvalid' c target notes hc happlied
  · intro r hdone hr
    -- the documents are valid one after another
    refine generate_invariant (P := fun d => d.validate = .ok ()) done.nil_prefix
      (generate_nil strict host base) hbase (fun mid e s _ hmid henabled hs hvalid => ?_) hr
    rw [attempt_valid_iff host e hvalid]
    exact h mid e s (hmid.trans hdone) henabled hs

/-- A host whose only preset brings a node `a` and, inside it, a node whose id is empty. -/
def blankInside : Host where
  registry := ⟨[("p", .native (.native fun _ _ => .ok (.object [("childrenData", .array [
    .object [("id", .string "a"), ("type", .string "scene"), ("childrenData", .array [
      .object [("id", .string ""), ("type", .string "atom")]])]])])))]⟩
  pool := {}
  fetch := .absent

/-- The entry that runs it is not sound, and leaves a document that is not valid. -/
theorem generate_blankInside :
    ({} : Document).validate = .ok () ∧ ¬ blankInside.SoundFor {} { presetId := "p", type := .full } ∧
      ∃ r, generate false blankInside {} [{ presetId := "p", type := .full }] = .ok r ∧
        r.document.validate =
          .error ⟨.validation, "node with componentId '' has an empty id"⟩ := by
  have hbase : ({} : Document).validate = .ok () := rfl
  refine ⟨hbase, fun hsound => ?_, _, rfl, rfl⟩
  have hvalid := (generate_valid_iff false blankInside [{ presetId := "p", type := .full }] hbase).mpr
    (fun done e r hdone _ hr => ?_) _ _ List.prefix_rfl rfl
  · cases hvalid
  · cases done with
    | nil =>
      obtain ⟨rfl, _⟩ := List.cons_prefix_cons.mp hdone
      cases hr
      exact hsound
    | cons e' done =>
      have hlength := hdone.length_le
      simp only [List.cons_append, List.length_cons, List.length_append, List.length_nil] at hlength
      omega

end Montage
