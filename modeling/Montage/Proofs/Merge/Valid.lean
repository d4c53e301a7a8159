import Montage.Proofs.Merge.Target
import Montage.Proofs.Scene.Valid

/-!
# What a merge does to a valid document

A merge checks the settings and the ids of the templates it puts into a document, and takes the nodes
inside the templates as they are. So what is left of a valid document is valid exactly if those have
ids, wherever they become part of it.
-/

namespace Montage

open Scene

/-- The nodes inside the templates of a contribution have ids, if these become nodes. -/
def Scene.Contribution.Sound (c : Contribution) (type : MergeType) : Prop :=
  type = .full ∨ type = .children → ∀ t ∈ c.output.children.getD [], Forest.Named t.children

theorem NodePatch.sound (p : NodePatch) (c : Contribution) : c.Sound p.type := by
  intro h
  cases p <;> rcases h with h | h <;> cases h

theorem named_full {templates : Option (List Template)} {children : Option (List Node)}
    {forest : Forest} (hforest : forest.Named)
    (h : templates.mapM Template.toNodes = .ok children) :
    Forest.Named (children.getD forest) ↔ ∀ t ∈ templates.getD [], Forest.Named t.children := by
  obtain ⟨rfl, rfl⟩ | ⟨ts, ns, rfl, rfl, hns⟩ := Template.mapM_toNodes h
  · exact ⟨fun _ t ht => absurd ht List.not_mem_nil, fun _ => hforest⟩
  · exact Template.named_toNodes hns

theorem named_patched {forest : Forest} {root : Node} {rest : Forest} (t : Template) (p : NodePatch)
    (hroot : forest = root :: rest) (h : forest.Named) :
    Forest.Named (forest.replace (forest.target root t).id (p.apply (forest.target root t) t)) := by
  have hkeeps : ∀ n : Node, n.own.HasId → (p.apply n t).own.HasId := fun n hn => by
    cases p <;> exact hn
  exact @Forest.every_patched Node.HasId _ _ _ t p hroot h hkeeps

/-- **A merge leaves a valid document valid exactly if the contribution is sound** or does not become
part of it. -/
theorem merge_valid_iff {d : Document} (c : Contribution) (type : MergeType)
    (hd : d.validate = .ok ()) :
    (merge d c type).2.validate = .ok () ↔
      ∀ target notes, (merge d c type).1 = .ok ⟨.applied target, notes⟩ → c.Sound type := by
  have hends := merge_ends d c type
  generalize (merge d c type).1 = outcome, (merge d c type).2 = after at hends
  obtain ⟨hconfig, hchildren⟩ := (Document.validate_eq_ok_iff d).mp hd
  cases hends with
  | emptyDocument | fullNodes | fullConfig | childrenNodes | noChildren | noTarget | noTemplate =>
    exact ⟨fun _ _ _ => nofun, fun _ => hd⟩
  | full htemplates hpatch =>
    rw [Document.validate_eq_ok_iff, named_full hchildren htemplates,
      and_iff_right (Config.validate_patch hpatch hconfig)]
    exact ⟨fun h _ _ _ _ => h, fun h => h _ _ rfl (.inl rfl)⟩
  | children hroot hadded hne hforest =>
    rw [Document.validate_eq_ok_iff, Forest.named_appendTo? hforest, and_iff_right hconfig,
      and_iff_right hchildren, Template.named_toNodes hadded]
    exact ⟨fun h _ _ _ _ => h, fun h => h _ _ rfl (.inr rfl)⟩
  | @patched p root target rest t hroot ht htarget =>
    subst htarget
    rw [Document.validate_eq_ok_iff]
    exact ⟨fun _ _ _ _ => p.sound c, fun _ => ⟨hconfig, named_patched t p hroot hchildren⟩⟩

end Montage
