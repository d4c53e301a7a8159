import Montage.Proofs.Stateful
import Montage.Merge

/-!
# How a merge ends

A merge is a computation on a document that reads, checks and writes in an order of its own in each
of the five ways. `Merges` lists all the ends it can come to, each with what has been found on the
way and with the document that is left, and `merge_ends` says that there are no others. What holds
of every merge is shown by going through the list.
-/

namespace Montage

open Scene Stateful

/-! ## Steps on a document -/

@[simp] theorem exec_lift {α : Type} (o : Outcome α) (d : Document) :
    exec (Merging.lift o) d = (o, d) := by
  cases o <;> rfl

theorem exec_mergeConfig (patch : Fields) (d : Document) :
    exec (Merging.mergeConfig patch) d =
      match d.config.patch patch with
      | .ok config => (.ok (), { d with config := config })
      | .error f => (.error f, d) := by
  unfold Merging.mergeConfig
  rw [exec_bind_ok (exec_get d)]
  rcases h : d.config.patch patch with f | config
  · have hconfig : d.mergeConfig patch = .error f := by rw [Document.mergeConfig, h]; rfl
    rw [exec_bind_error (by rw [exec_lift, hconfig])]
  · have hconfig : d.mergeConfig patch = .ok { d with config := config } := by
      rw [Document.mergeConfig, h]; rfl
    rw [exec_bind_ok (by rw [exec_lift, hconfig])]
    rfl

/-! ## Ends -/

def NodePatch.type : NodePatch → MergeType
  | .data => .data
  | .context => .context
  | .effects => .effects

/-- The ends of a merge: what is reported, and the document that is left. -/
inductive Merges (d : Document) (c : Contribution) : MergeType → Outcome MergeReport → Document → Prop
  | emptyDocument {type : MergeType} (htype : type ≠ .full) (hempty : d.children = []) :
    Merges d c type (.ok ⟨.skipped .emptyDocument, []⟩) d
  | fullNodes {f : Failure} (hchildren : c.output.children.mapM Template.toNodes = .error f) :
    Merges d c .full (.error f) d
  | fullConfig {children : Option (List Node)} {f : Failure}
    (hchildren : c.output.children.mapM Template.toNodes = .ok children)
    (hconfig : d.config.patch (c.output.config.getD []) = .error f) :
    Merges d c .full (.error f) d
  | full {children : Option (List Node)} {config : Config}
    (hchildren : c.output.children.mapM Template.toNodes = .ok children)
    (hconfig : d.config.patch (c.output.config.getD []) = .ok config) :
    Merges d c .full (.ok ⟨.applied none, []⟩)
      ⟨children.getD d.children, config, Fields.overlay d.style (c.output.style.getD [])⟩
  | childrenNodes {root : Node} {rest : Forest} {f : Failure} (hroot : d.children = root :: rest)
    (hadded : Template.toNodes (c.output.children.getD []) = .error f) :
    Merges d c .children (.error f) d
  | noChildren {root : Node} {rest : Forest} (hroot : d.children = root :: rest)
    (hadded : Template.toNodes (c.output.children.getD []) = .ok []) :
    Merges d c .children
      (.ok ⟨.skipped .noChildren, (d.children.attachment root c.options).2⟩) d
  | noTarget {root : Node} {rest : Forest} {added : List Node} (hroot : d.children = root :: rest)
    (hadded : Template.toNodes (c.output.children.getD []) = .ok added) (hne : added ≠ [])
    (hforest : Forest.appendTo? (d.children.attachment root c.options).1 added d.children = none) :
    Merges d c .children (.ok ⟨.skipped .noTarget, (d.children.attachment root c.options).2⟩) d
  | children {root : Node} {rest forest : Forest} {added : List Node}
    (hroot : d.children = root :: rest)
    (hadded : Template.toNodes (c.output.children.getD []) = .ok added) (hne : added ≠ [])
    (hforest :
      Forest.appendTo? (d.children.attachment root c.options).1 added d.children = some forest) :
    Merges d c .children
      (.ok ⟨.applied (some (d.children.attachment root c.options).1),
        (d.children.attachment root c.options).2⟩)
      { d with children := forest }
  | noTemplate {p : NodePatch} {root : Node} {rest : Forest} (hroot : d.children = root :: rest)
    (ht : (c.output.children.getD []).head? = none) :
    Merges d c p.type (.ok ⟨.skipped .noTemplate, []⟩) d
  | patched {p : NodePatch} {root target : Node} {rest : Forest} {t : Template}
    (hroot : d.children = root :: rest) (ht : (c.output.children.getD []).head? = some t)
    (htarget : d.children.target root t = target) :
    Merges d c p.type (.ok ⟨.applied (some target.id), []⟩)
      { d with children := d.children.replace target.id (p.apply target t) }

theorem mergeFull_ends (d : Document) (c : Contribution) :
    Merges d c .full (exec (mergeFull c) d).1 (exec (mergeFull c) d).2 := by
  unfold mergeFull
  rcases hchildren : c.output.children.mapM Template.toNodes with f | children
  · rw [exec_bind_error (exec_lift (.error f) d)]
    exact .fullNodes hchildren
  rw [exec_bind_ok (exec_lift (.ok children) d)]
  rcases hconfig : d.config.patch (c.output.config.getD []) with f | config
  · rw [exec_bind_error (by rw [exec_mergeConfig, hconfig])]
    exact .fullConfig hchildren hconfig
  rw [exec_bind_ok (by rw [exec_mergeConfig, hconfig])]
  have hend := Merges.full hchildren hconfig
  cases children <;> exact hend

theorem mergeChildren_ends (d : Document) (c : Contribution) {root : Node} {rest : Forest}
    (hroot : d.children = root :: rest) :
    Merges d c .children (exec (mergeChildren root c) d).1 (exec (mergeChildren root c) d).2 := by
  unfold mergeChildren
  rw [exec_bind_ok (exec_get d)]
  rcases hadded : Template.toNodes (c.output.children.getD []) with f | added
  · rw [exec_bind_error (exec_lift (.error f) d)]
    exact .childrenNodes hroot hadded
  rw [exec_bind_ok (exec_lift (.ok added) d)]
  split
  · rename_i hempty
    rw [List.isEmpty_iff] at hempty
    exact .noChildren hroot (hempty ▸ hadded)
  · rename_i hne
    rw [List.isEmpty_iff] at hne
    split
    · rename_i forest hforest
      exact .children hroot hadded hne hforest
    · rename_i hforest
      exact .noTarget hroot hadded hne hforest

theorem mergeIntoNode_ends (d : Document) (c : Contribution) {root : Node} {rest : Forest}
    (p : NodePatch) (hroot : d.children = root :: rest) :
    Merges d c p.type (exec (mergeIntoNode root c p) d).1 (exec (mergeIntoNode root c p) d).2 := by
  unfold mergeIntoNode
  rcases ht : (c.output.children.getD []).head? with _ | t
  · exact .noTemplate hroot ht
  · exact .patched hroot ht rfl

theorem merge_ends (d : Document) (c : Contribution) (type : MergeType) :
    Merges d c type (merge d c type).1 (merge d c type).2 := by
  have hmerge : merge d c type = exec (merging c type) d := rfl
  rw [hmerge]
  unfold merging
  rw [exec_bind_ok (exec_get d)]
  rcases hchildren : d.children with _ | ⟨root, rest⟩
  · cases type
    case full => exact mergeFull_ends d c
    all_goals exact .emptyDocument nofun hchildren
  · cases type
    case full => exact mergeFull_ends d c
    case children => exact mergeChildren_ends d c hchildren
    case data => exact mergeIntoNode_ends d c .data hchildren
    case context => exact mergeIntoNode_ends d c .context hchildren
    case effects => exact mergeIntoNode_ends d c .effects hchildren

end Montage
