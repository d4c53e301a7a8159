import Montage.Proofs.Merge.Target
import Montage.Proofs.Scene.Settings

/-!
# Merging twice

A full contribution puts its nodes in the place of those before and writes its settings and style
over what is there, so a second merge finds everything written already. Context and effects change
one node and put it in the place of every outermost node with its id. A second merge looks for its
node again and finds a copy of the changed one: if the template names it, this is the first node
with that id, and if the template names no node, it still names none and the copy is the first root.
-/

namespace Montage

open Scene

/-! ## Patching a node twice -/

theorem Scene.Context.patch_patch (c p : Context) : (c.patch p).patch p = c.patch p := by
  have htiming : p.timing.or (p.timing.or c.timing) = p.timing.or c.timing := by
    cases p.timing <;> rfl
  have hboundaries :
      p.boundaries.or (p.boundaries.or c.boundaries) = p.boundaries.or c.boundaries := by
    cases p.boundaries <;> rfl
  simp only [Context.patch, htiming, hboundaries, Fields.overlay_overlay]

theorem NodePatch.apply_apply {p : NodePatch} (hp : p ≠ .data) (n : Node) (t : Template) :
    p.apply (p.apply n t) t = p.apply n t := by
  cases p with
  | data => exact absurd rfl hp
  | context => simp only [NodePatch.apply, Context.patch_patch]
  | effects => rfl

/-! ## Finding the node again -/

theorem Scene.Forest.first?_replace (forest : Forest) (replacement : Node) :
    (forest.replace replacement.id replacement).first? replacement.id =
      (forest.first? replacement.id).map fun _ => replacement := by
  have hcontains : (fun n : Node => [replacement.id].contains n.id) =
      fun n => decide (n.id = replacement.id) := by
    funext n
    simp [eq_comm]
  rw [Forest.first?_eq_find?, Forest.first?_eq_find?, hcontains]
  exact Forest.find?_replaceIds forest

/-- Once the changed node has been put in place, it is the node that a template changes which has
changed the same node before. -/
theorem Scene.Forest.target_replace {forest : Forest} {root : Node} {rest : Forest}
    {t u : Template} (p : NodePatch) (hroot : forest = root :: rest)
    (hsame : forest.target root u = forest.target root t) :
    ∃ root' rest',
      forest.replace (forest.target root t).id (p.apply (forest.target root t) t) =
        root' :: rest' ∧
      Forest.target (root' :: rest') root' u = p.apply (forest.target root t) t := by
  have hcons : ∀ (id : String) (n : Node), forest.replace id n =
      Node.replaceIds [id] n root :: Forest.replaceIds [id] n rest := fun id n => by
    rw [hroot]
    rfl
  refine ⟨_, _, hcons _ _, ?_⟩
  rw [← hcons]
  have hid := p.id_apply (forest.target root t) t
  rcases hfirst : forest.first? u.id with _ | n
  · -- no node has the id of the template, and none has got it
    have htarget : forest.target root t = root := by
      rw [← hsame, Forest.target, hfirst, Option.getD_none]
    have hnone := Forest.every_patched t p hroot (Forest.first?_eq_none_iff.mp hfirst)
      fun n hn => (p.id_apply n t).symm ▸ hn
    rw [Forest.target, Forest.first?_eq_none_iff.mpr hnone, Option.getD_none, htarget]
    exact Node.replaceIds_of_mem (List.mem_singleton.mpr rfl)
  · have htarget : forest.target root t = n := by
      rw [← hsame, Forest.target, hfirst, Option.getD_some]
    have hagain := forest.first?_replace (p.apply (forest.target root t) t)
    rw [hid, htarget, Forest.id_of_first? hfirst, hfirst, Option.map_some] at hagain
    rw [Forest.target, htarget, Forest.id_of_first? hfirst, hagain, Option.getD_some]

/-! ## The second merge -/

theorem merge_patched_again {p : NodePatch} (hp : p ≠ .data) (d : Document) (c : Contribution) :
    merge (merge d c p.type).2 c p.type = merge d c p.type := by
  rcases hroot : d.children with _ | ⟨root, rest⟩
  · rw [merge_unpatched p (.inl hroot)]
  rcases ht : (c.output.children.getD []).head? with _ | t
  · rw [merge_unpatched p (.inr ht)]
  obtain ⟨root', rest', hroot', htarget'⟩ := Forest.target_replace (u := t) p hroot rfl
  have hid := p.id_apply (d.children.target root t) t
  rw [merge_patch d c p hroot ht, merge_patch _ c p hroot' ht]
  dsimp only
  rw [hroot', htarget', NodePatch.apply_apply hp, ← hroot', hid, ← hid, Forest.replace_replace]

theorem merge_full (d : Document) (c : Contribution) :
    merge d c .full =
      match c.output.children.mapM Template.toNodes, d.config.patch (c.output.config.getD []) with
      | .ok children, .ok config =>
        (.ok ⟨.applied none, []⟩,
          ⟨children.getD d.children, config, Fields.overlay d.style (c.output.style.getD [])⟩)
      | .ok _, .error f => (.error f, d)
      | .error f, _ => (.error f, d) := by
  have hends := merge_ends d c .full
  rw [← Prod.mk.eta (p := merge d c .full)]
  generalize (merge d c .full).1 = outcome, (merge d c .full).2 = after at hends ⊢
  generalize htype : MergeType.full = type at hends
  cases hends with
  | fullNodes hchildren => rw [hchildren]
  | fullConfig hchildren hconfig | full hchildren hconfig => rw [hchildren, hconfig]
  | emptyDocument hne => exact absurd htype.symm hne
  | @noTemplate p | @patched p => cases p <;> cases htype
  | childrenNodes | noChildren | noTarget | children => cases htype

theorem merge_full_again {d d' : Document} {c : Contribution} {r : MergeReport}
    (h : merge d c .full = (.ok r, d')) : merge d' c .full = (.ok r, d') := by
  rw [merge_full] at h
  rcases hchildren : c.output.children.mapM Template.toNodes with f | children <;>
    rw [hchildren] at h
  · cases h
  rcases hconfig : d.config.patch (c.output.config.getD []) with f | config <;> rw [hconfig] at h
  · cases h
  cases h
  rw [merge_full, hchildren, Config.patch_patch hconfig, Fields.overlay_overlay]
  cases children <;> rfl

/-- **A full contribution, a context or effects that have been merged change nothing when they are
merged again.** -/
theorem merge_again {d d' : Document} {c : Contribution} {type : MergeType} {r : MergeReport}
    (htype : type = .full ∨ type = .context ∨ type = .effects) (h : merge d c type = (.ok r, d')) :
    merge d' c type = (.ok r, d') := by
  rcases htype with rfl | rfl | rfl
  · exact merge_full_again h
  · have hagain := merge_patched_again (p := .context) nofun d c
    rw [NodePatch.type, h] at hagain
    exact hagain
  · have hagain := merge_patched_again (p := .effects) nofun d c
    rw [NodePatch.type, h] at hagain
    exact hagain

/-- No node has the id of the template, and both roots have the same id, so the first root is
changed and stands in both places afterwards. -/
theorem merge_again_rootsAlike :
    let root : String → Fields → Node := fun component extra =>
      ⟨"a", component, .scene, [], { extra := extra }, [], [⟨"b", "Text", .atom, [], {}, [], []⟩]⟩
    let d : Document := ⟨[root "Card" [("x", .ofNat 1)], root "Clip" []], {}, []⟩
    let c : Contribution :=
      { output :=
          { children :=
              some [{ id := "other", context := { extra := [("y", .null), ("x", .ofNat 2)] } }] } }
    let d' : Document := { d with
      children := List.replicate 2 (root "Card" [("x", .ofNat 2), ("y", .null)]) }
    merge d c .context = (.ok ⟨.applied (some "a"), []⟩, d') ∧
      merge d' c .context = (.ok ⟨.applied (some "a"), []⟩, d') := by
  intro root d c d'
  have h : merge d c .context = (.ok ⟨.applied (some "a"), []⟩, d') := rfl
  exact ⟨h, merge_again (.inr (.inl rfl)) h⟩

end Montage
