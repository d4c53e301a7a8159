import Montage.Proofs.Merge.Outcomes
import Montage.Proofs.Scene.Every
import Montage.Proofs.Scene.Replacement

/-!
# The node that a merge changes

A merge of data, context or effects looks for one node, changes a part of it, and puts it in the
place of every outermost node that has its id. The forest keeps its shape and all but the one part
of the one node exactly when there is nothing else to put in place: each other outermost node with
that id is already what the node becomes, as when there is none.
-/

namespace Montage

open Scene Stateful

/-! ## The target -/

/-- A position that a template is merged at, and the node there: the first that has the id or, where
no node has it, the first root. -/
inductive Scene.Forest.TargetAt (forest : Forest) (id : String) : List Nat → Node → Prop
  | first {p : List Nat} {n : Node} (h : forest.FirstAt (·.id = id) p n) : TargetAt forest id p n
  | root {n : Node} (hnone : ∀ p m, forest.at? p = some m → m.id ≠ id)
    (hn : forest.at? [0] = some n) : TargetAt forest id [0] n

namespace Scene.Forest.TargetAt

variable {forest : Forest} {id : String} {p q : List Nat} {n m : Node}

theorem at?_eq (h : forest.TargetAt id p n) : forest.at? p = some n := by
  cases h with
  | first h => exact h.here
  | root _ hn => exact hn

theorem unique (hp : forest.TargetAt id p n) (hq : forest.TargetAt id q m) : p = q ∧ n = m := by
  cases hp with
  | first hp =>
    cases hq with
    | first hq => exact hp.unique hq
    | root hnone _ => exact absurd hp.holds (hnone p n hp.here)
  | root hnone hn =>
    cases hq with
    | first hq => exact absurd hq.holds (hnone q m hq.here)
    | root _ hm => exact ⟨rfl, Option.some.inj (hn.symm.trans hm)⟩

theorem outermost (h : forest.TargetAt id p n) : Outermost [n.id] forest p n := by
  cases h with
  | first h =>
    have hid := h.holds
    subst hid
    exact h.outermost
  | root _ hn =>
    obtain ⟨m, hm, hmn⟩ := Option.bind_eq_some_iff.mp hn
    cases hmn
    exact .here hm (List.mem_singleton.mpr rfl)

end Scene.Forest.TargetAt

theorem Scene.Forest.first?_eq_find? (forest : Forest) (id : String) :
    forest.first? id = forest.flatten.find? fun n => [id].contains n.id :=
  List.head?_filter

theorem Scene.Forest.first?_eq_none_iff {forest : Forest} {id : String} :
    forest.first? id = none ↔ forest.Every (·.id ≠ id) := by
  rw [Forest.first?_eq_find?, List.find?_eq_none]
  simp [Forest.Every, Node.own]

theorem Scene.Forest.id_of_first? {forest : Forest} {id : String} {n : Node}
    (h : forest.first? id = some n) : n.id = id := by
  rw [Forest.first?_eq_find?] at h
  simpa using List.find?_some h

theorem Scene.Forest.target_at {forest : Forest} {root : Node} {rest : Forest} (t : Template)
    (hroot : forest = root :: rest) : ∃ p, forest.TargetAt t.id p (forest.target root t) := by
  have hcontains : ∀ n : Node, [t.id].contains n.id = true ↔ n.id = t.id := fun n => by
    rw [List.contains_iff_mem, List.mem_singleton]
  rcases hfirst : forest.first? t.id with _ | n
  · have hnone := hfirst
    rw [Forest.first?_eq_find?, List.find?_eq_none] at hnone
    refine ⟨[0], ?_⟩
    rw [Forest.target, hfirst, Option.getD_none]
    refine .root (fun p m hm hid => ?_) (by rw [hroot]; rfl)
    exact hnone m (Forest.mem_flatten_of_at? hm) ((hcontains m).mpr hid)
  · have hfind := hfirst
    rw [Forest.first?_eq_find?] at hfind
    obtain ⟨p, hp⟩ := Forest.firstAt_of_find? hfind
    refine ⟨p, ?_⟩
    rw [Forest.target, hfirst, Option.getD_some]
    refine .first ⟨hp.here, (hcontains n).mp hp.holds, fun q m hq hm hid => ?_⟩
    exact hp.before q m hq hm ((hcontains m).mpr hid)

/-! ## The change -/

def NodePatch.rest (p : NodePatch) (n : Node) : Node :=
  match p with
  | .data => { n.own with data := [] }
  | .context => { n.own with context := {} }
  | .effects => { n.own with effects := [] }

/-- Two forests have the same shape and differ at one position at most, and there at most in the
part that is changed. -/
structure NodePatch.ChangesOnly (p : NodePatch) (pos : List Nat) (before after : Forest) : Prop where
  there : (after.at? pos).map p.rest = (before.at? pos).map p.rest
  elsewhere : ∀ q, q ≠ pos → (after.at? q).map Node.own = (before.at? q).map Node.own

theorem NodePatch.rest_apply (p : NodePatch) (n : Node) (t : Template) :
    p.rest (p.apply n t) = p.rest n := by
  cases p <;> rfl

theorem NodePatch.id_apply (p : NodePatch) (n : Node) (t : Template) : (p.apply n t).id = n.id := by
  cases p <;> rfl

theorem NodePatch.children_apply (p : NodePatch) (n : Node) (t : Template) :
    (p.apply n t).children = n.children := by
  cases p <;> rfl

theorem Scene.Forest.target_mem {forest : Forest} {root : Node} {rest : Forest} (t : Template)
    (hroot : forest = root :: rest) : forest.target root t ∈ forest.flatten := by
  obtain ⟨p, hp⟩ := Forest.target_at t hroot
  exact Forest.mem_flatten_of_at? hp.at?_eq

/-- What the change keeps of the own parts of a node, putting the changed node in place keeps of the
own parts of all nodes: the nodes inside it come with it. -/
theorem Scene.Forest.every_patched {P : Node → Prop} {forest : Forest} {root : Node} {rest : Forest}
    (t : Template) (p : NodePatch) (hroot : forest = root :: rest) (h : forest.Every P)
    (hp : ∀ n : Node, P n.own → P (p.apply n t).own) :
    Forest.Every P
      (forest.replace (forest.target root t).id (p.apply (forest.target root t) t)) := by
  have htarget := h.of_mem (Forest.target_mem t hroot)
  refine Forest.every_replaceIds ?_ h
  rw [Node.every_iff] at htarget ⊢
  rw [NodePatch.children_apply]
  exact ⟨hp _ htarget.1, htarget.2⟩

theorem NodePatch.changesOnly_replace (p : NodePatch) {forest : Forest} {pos : List Nat} {n : Node}
    (t : Template) (hn : Forest.Outermost [n.id] forest pos n)
    (hothers : ∀ q m, Forest.Outermost [n.id] forest q m → q ≠ pos → m = p.apply n t) :
    p.ChangesOnly pos forest (forest.replace n.id (p.apply n t)) where
  there := by
    rw [hn.at?_replace, hn.at?_eq, Option.map_some, Option.map_some, p.rest_apply]
  elsewhere q hq := by
    refine Forest.own_at?_replaceIds fun r s m hqr hm => ?_
    subst hqr
    by_cases hr : r = pos
    · -- inside the target all is as before
      subst hr
      have hs : s ≠ [] := by
        rintro rfl
        exact hq (List.append_nil r)
      have hnm : n = m := Option.some.inj (hn.at?_eq.symm.trans hm.at?_eq)
      rw [← hnm, Node.at?_of_children_eq (p.children_apply n t) hs]
    · rw [hothers r m hm hr]

theorem NodePatch.eq_of_changesOnly_replace (p : NodePatch) {forest : Forest} {pos q : List Nat}
    {n m : Node} (t : Template) (hn : Forest.Outermost [n.id] forest pos n)
    (h : p.ChangesOnly pos forest (forest.replace n.id (p.apply n t)))
    (hm : Forest.Outermost [n.id] forest q m) (hq : q ≠ pos) : m = p.apply n t := by
  refine Node.ext_at fun s => ?_
  have hqs : q ++ s ≠ pos := by
    rintro rfl
    have hs : s = [] := hm.eq_nil_of_append hn
    rw [hs, List.append_nil] at hq
    exact hq rfl
  have hown := h.elsewhere (q ++ s) hqs
  rw [Forest.replace, hm.at?_replaceIds, hm.at?_append] at hown
  exact hown.symm

theorem merge_patch (d : Document) (c : Contribution) (p : NodePatch) {root : Node} {rest : Forest}
    {t : Template} (hroot : d.children = root :: rest)
    (ht : (c.output.children.getD []).head? = some t) :
    merge d c p.type =
      (.ok ⟨.applied (some (d.children.target root t).id), []⟩,
        { d with
          children :=
            d.children.replace (d.children.target root t).id
              (p.apply (d.children.target root t) t) }) := by
  have hmerge : merge d c p.type = exec (mergeIntoNode root c p) d := by
    have hmerging : merge d c p.type = exec (merging c p.type) d := rfl
    rw [hmerging, merging, exec_bind_ok (exec_get d), hroot]
    cases p <;> rfl
  rw [hmerge, mergeIntoNode, ht]
  rfl

theorem merge_unpatched {d : Document} {c : Contribution} (p : NodePatch)
    (h : d.children = [] ∨ (c.output.children.getD []).head? = none) :
    (merge d c p.type).2 = d := by
  have hends := merge_ends d c p.type
  generalize (merge d c p.type).1 = outcome, hafter : (merge d c p.type).2 = after at hends
  generalize htype : p.type = type at hends
  cases hends with
  | full | fullNodes | fullConfig => cases p <;> cases htype
  | children => cases p <;> cases htype
  | patched hroot ht =>
    rcases h with h | h
    · rw [h] at hroot
      cases hroot
    · rw [h] at ht
      cases ht
  | _ => rfl

/-- **Data, context and effects change one part of one node, and it is the only one exactly if no
other outermost node has its id and is not what it becomes.** -/
theorem merge_patch_changesOnly_iff (d : Document) (c : Contribution) (p : NodePatch) {t : Template}
    (hne : d.children ≠ []) (ht : (c.output.children.getD []).head? = some t) :
    ∃ pos n, d.children.TargetAt t.id pos n ∧
      (merge d c p.type).1 = .ok ⟨.applied (some n.id), []⟩ ∧
      (merge d c p.type).2.config = d.config ∧ (merge d c p.type).2.style = d.style ∧
      (merge d c p.type).2.children.at? pos = some (p.apply n t) ∧
      (p.ChangesOnly pos d.children (merge d c p.type).2.children ↔
        ∀ q m, Forest.Outermost [n.id] d.children q m → q ≠ pos → m = p.apply n t) := by
  obtain ⟨root, rest, hroot⟩ := List.exists_cons_of_ne_nil hne
  obtain ⟨pos, htarget⟩ := Forest.target_at t hroot
  have hn := htarget.outermost
  rw [merge_patch d c p hroot ht]
  refine ⟨pos, _, htarget, rfl, rfl, rfl, hn.at?_replace _, fun h q m hm hq => ?_, fun h => ?_⟩
  · exact p.eq_of_changesOnly_replace t hn h hm hq
  · exact p.changesOnly_replace t hn h

/-- Two cards have the id `a`, and the data of the first is put in the place of those of the
second. -/
theorem merge_patch_repeatedId :
    let card : Fields → Node := fun data => ⟨"a", "Card", .atom, data, {}, [], []⟩
    let d : Document := ⟨[card [("x", .ofNat 1)], card [("y", .ofNat 2)]], {}, []⟩
    let c : Contribution :=
      { output := { children := some [{ id := "a", data := [("z", .ofNat 3)] }] } }
    ∃ pos n, d.children.TargetAt "a" pos n ∧
      ¬ NodePatch.ChangesOnly .data pos d.children (merge d c .data).2.children := by
  intro card d c
  obtain ⟨pos, n, htarget, -, -, -, -, hiff⟩ :=
    merge_patch_changesOnly_iff d c .data (List.cons_ne_nil _ _) rfl
  have hfirst : d.children.TargetAt "a" [0] (card [("x", .ofNat 1)]) := by
    refine .first ⟨rfl, rfl, fun q m hq hm => ?_⟩
    obtain _ | ⟨i, q⟩ := q
    · cases hm
    · simp [List.cons_lt_cons_iff] at hq
  obtain ⟨rfl, rfl⟩ := hfirst.unique htarget
  refine ⟨[0], _, htarget, fun h => ?_⟩
  have hsecond : Forest.Outermost ["a"] d.children [1] (card [("y", .ofNat 2)]) :=
    .here rfl List.mem_cons_self
  have hdata := congrArg (·.data.length) (hiff.mp h [1] _ hsecond (by decide))
  exact absurd hdata (by decide)

end Montage
