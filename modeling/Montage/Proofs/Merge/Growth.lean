import Montage.Proofs.Merge.Target
import Montage.Proofs.Scene.Growth

/-!
# Merges of children

A merge of children looks for the node it is attached to among all nodes, takes the first root where
there is none, and then adds the nodes to the first node that has the id of what it has found. Both
searches come to the same node, so the nodes are added to it and to no other, and merges that are
attached to one id, one after another, add up at one node.
-/

namespace Montage

open Scene

def Scene.Attachment.wanted (a : Attachment) : String := a.attachedToId.getD defaultAttachmentId

def Scene.Contribution.templates (c : Contribution) : List Template := c.output.children.getD []

/-! ## One merge -/

/-- The node at a target comes first among the nodes that have its own id, also where that is not
the id that was looked for. -/
theorem Scene.Forest.TargetAt.firstAt {forest : Forest} {id : String} {p : List Nat} {n : Node}
    (h : forest.TargetAt id p n) : forest.FirstAt (·.id = n.id) p n := by
  cases h with
  | first h =>
    have hid := h.holds
    subst hid
    exact h
  | root _ hn =>
    refine ⟨hn, rfl, fun q m hq hm => ?_⟩
    obtain _ | ⟨i, q⟩ := q
    · cases hm
    · simp [List.cons_lt_cons_iff] at hq

theorem Scene.Forest.attachment_at {forest : Forest} {root : Node} {rest : Forest} (a : Attachment)
    (hroot : forest = root :: rest) :
    ∃ p n, forest.TargetAt a.wanted p n ∧
      ((n.id = a.wanted ∧ forest.attachment root a = (n.id, [])) ∨
        (forest.Every (·.id ≠ a.wanted) ∧
          forest.attachment root a = (n.id, [targetNotFound a.wanted n.id]))) := by
  obtain ⟨p, hp⟩ := Forest.target_at { id := a.wanted } hroot
  refine ⟨p, _, hp, ?_⟩
  rcases hfirst : forest.first? a.wanted with _ | n
  · right
    have htarget : forest.target root { id := a.wanted } = root := by
      rw [Forest.target, hfirst, Option.getD_none]
    have hattachment :
        forest.attachment root a = (root.id, [targetNotFound a.wanted root.id]) := by
      rw [Attachment.wanted] at hfirst
      rw [Forest.attachment, hfirst, Attachment.wanted]
    rw [htarget]
    exact ⟨Forest.first?_eq_none_iff.mp hfirst, hattachment⟩
  · left
    have htarget : forest.target root { id := a.wanted } = n := by
      rw [Forest.target, hfirst, Option.getD_some]
    have hattachment : forest.attachment root a = (n.id, []) := by
      rw [Attachment.wanted] at hfirst
      rw [Forest.attachment, hfirst]
    rw [htarget]
    exact ⟨Forest.id_of_first? hfirst, hattachment⟩

/-- Children whose templates are complete become nodes at the end of the node that the contribution
is attached to; without any the merge is skipped, and to add none changes nothing. -/
theorem merge_children {d : Document} {c : Contribution} {root : Node} {rest : Forest}
    {added : List Node} (hroot : d.children = root :: rest)
    (hadded : c.templates.map Template.toNode = added.map .ok) :
    ∃ p n notes after, d.children.TargetAt c.options.wanted p n ∧
      Forest.appendTo? n.id added d.children = some after ∧
      Grows added p n d.children.at? after.at? ∧
      merge d c .children =
        (.ok ⟨if added = [] then .skipped .noChildren else .applied (some n.id), notes⟩,
          { d with children := after }) ∧
      ((n.id = c.options.wanted ∧ notes = []) ∨
        (d.children.Every (·.id ≠ c.options.wanted) ∧
          notes = [targetNotFound c.options.wanted n.id])) := by
  obtain ⟨p, n, htarget, hattachment⟩ := Forest.attachment_at c.options hroot
  obtain ⟨after, hafter, hgrows⟩ := htarget.firstAt.exists_grows added
  have hadded' := Template.toNodes_eq_ok_iff.mpr hadded
  have hends := merge_ends d c .children
  refine ⟨p, n, (d.children.attachment root c.options).2, after, htarget, hafter, hgrows, ?_, ?_⟩
  · have htarget : (d.children.attachment root c.options).1 = n.id := by
      rcases hattachment with ⟨-, h⟩ | ⟨-, h⟩ <;> rw [h]
    rw [← Prod.eta (merge d c .children)]
    generalize (merge d c .children).1 = outcome, (merge d c .children).2 = document at hends ⊢
    generalize htype : MergeType.children = type at hends
    cases hends with
    | emptyDocument _ hempty =>
      rw [hempty] at hroot
      cases hroot
    | childrenNodes _ hnodes =>
      rw [Contribution.templates] at hadded'
      cases hadded'.symm.trans hnodes
    | noChildren hroot' hnodes =>
      cases hadded'.symm.trans hnodes
      cases hroot.symm.trans hroot'
      rw [if_pos rfl, Forest.appendTo?_nil hafter]
    | noTarget hroot' hnodes hne hforest =>
      cases hadded'.symm.trans hnodes
      cases hroot.symm.trans hroot'
      rw [htarget, hafter] at hforest
      cases hforest
    | children hroot' hnodes hne hforest =>
      cases hadded'.symm.trans hnodes
      cases hroot.symm.trans hroot'
      rw [htarget] at hforest ⊢
      cases hafter.symm.trans hforest
      rw [if_neg hne]
    | full | fullNodes | fullConfig => cases htype
    | @noTemplate p | @patched p => cases p <;> cases htype
  · rcases hattachment with ⟨hid, h⟩ | ⟨hnone, h⟩
    · exact .inl ⟨hid, by rw [h]⟩
    · exact .inr ⟨hnone, by rw [h]⟩

/-- **A merge of children adds the nodes of the templates, in their order, at the end of the first
node with the wanted id**, or of the first root if no node has it, which is noted. At every position
where there was a node its own parts are as before, and all other nodes have the same nodes inside
them. That the node to add to is missing when it comes to adding never happens. -/
theorem merge_children_grows (d : Document) (c : Contribution) :
    (d.children ≠ [] → c.templates ≠ [] → (∀ t ∈ c.templates, ∃ n, t.toNode = .ok n) →
      ∃ p n added notes after,
        d.children.TargetAt c.options.wanted p n ∧
        c.templates.map Template.toNode = added.map .ok ∧
        merge d c .children = (.ok ⟨.applied (some n.id), notes⟩, { d with children := after }) ∧
        Grows added p n d.children.at? after.at? ∧
        ((∃ m ∈ d.children.flatten, m.id = c.options.wanted) → notes = []) ∧
        ((∀ m ∈ d.children.flatten, m.id ≠ c.options.wanted) →
          notes = [targetNotFound c.options.wanted n.id])) ∧
    ∀ notes, (merge d c .children).1 ≠ .ok ⟨.skipped .noTarget, notes⟩ := by
  constructor
  · intro hne htemplates hcomplete
    obtain ⟨root, rest, hroot⟩ := List.exists_cons_of_ne_nil hne
    obtain ⟨added, hadded⟩ := Template.exists_nodes hcomplete
    have hsome : added ≠ [] := by
      rintro rfl
      exact htemplates (List.map_eq_nil_iff.mp hadded)
    obtain ⟨p, n, notes, after, htarget, -, hgrows, hmerge, hnotes⟩ := merge_children hroot hadded
    rw [if_neg hsome] at hmerge
    refine ⟨p, n, added, notes, after, htarget, hadded, hmerge, hgrows, fun hfound => ?_,
      fun hnone => ?_⟩
    · rcases hnotes with ⟨-, hnotes⟩ | ⟨hnone, -⟩
      · exact hnotes
      · obtain ⟨m, hm, hid⟩ := hfound
        exact absurd hid (hnone m hm)
    · rcases hnotes with ⟨hid, -⟩ | ⟨-, hnotes⟩
      · exact absurd hid (hnone n (Forest.mem_flatten_of_at? htarget.at?_eq))
      · exact hnotes
  · intro notes h
    have hends := merge_ends d c .children
    rw [h] at hends
    generalize (merge d c .children).2 = document at hends
    generalize MergeType.children = type at hends
    cases hends with
    | noTarget hroot hnodes hne _ =>
      obtain ⟨p, n, notes', after, -, -, -, hmerge, -⟩ :=
        merge_children hroot (Template.toNodes_eq_ok_iff.mp hnodes)
      rw [hmerge, if_neg hne] at h
      cases h

/-- The wanted id comes three times: twice further down, where the first is inside the node that
grows, and the node that is added has it as well. -/
theorem merge_children_grows_repeatedId :
    let base : List Node → Node := fun inner => ⟨"BaseScene", "", .layout, [], {}, [], inner⟩
    let d : Document :=
      ⟨[⟨"s", "Scene", .scene, [], {}, [], [base [base []]]⟩, base []], {}, []⟩
    let c : Contribution :=
      { output := { children := some [{ id := "BaseScene", type := some .layout }] } }
    (∃ p n added notes after,
        d.children.TargetAt "BaseScene" p n ∧
        c.templates.map Template.toNode = added.map .ok ∧
        merge d c .children = (.ok ⟨.applied (some n.id), notes⟩, { d with children := after }) ∧
        Grows added p n d.children.at? after.at? ∧ notes = []) ∧
      (merge d c .children).2.children =
        [⟨"s", "Scene", .scene, [], {}, [], [base [base [], base []]]⟩, base []] := by
  intro base d c
  have hcomplete : ∀ t ∈ c.templates, ∃ n, t.toNode = .ok n := by
    intro t ht
    obtain rfl := List.mem_singleton.mp ht
    exact ⟨base [], rfl⟩
  obtain ⟨p, n, added, notes, after, htarget, hadded, hmerge, hgrows, hfound, -⟩ :=
    (merge_children_grows d c).1 (List.cons_ne_nil _ _) (List.cons_ne_nil _ _) hcomplete
  have hbase : ∃ m ∈ d.children.flatten, m.id = c.options.wanted :=
    ⟨base [], List.mem_append_right _ List.mem_cons_self, rfl⟩
  exact ⟨⟨p, n, added, notes, after, htarget, hadded, hmerge, hgrows, hfound hbase⟩, rfl⟩

/-! ## Merges one after another -/

/-- The document after contributions have been merged one after another in the same way. -/
def mergeAll (d : Document) (type : MergeType) (cs : List Contribution) : Document :=
  cs.foldl (fun d c => (merge d c type).2) d

theorem merge_children_found {d : Document} {c : Contribution} {added : List Node}
    (hfound : ∃ m ∈ d.children.flatten, m.id = c.options.wanted)
    (hadded : c.templates.map Template.toNode = added.map .ok) :
    ∃ after, Forest.appendTo? c.options.wanted added d.children = some after ∧
      (merge d c .children).2 = { d with children := after } := by
  obtain ⟨m, hm, hid⟩ := hfound
  obtain ⟨root, rest, hroot⟩ := List.exists_cons_of_ne_nil (l := d.children) fun hnil => by
    rw [hnil] at hm
    cases hm
  obtain ⟨p, n, notes, after, -, hafter, -, hmerge, hnotes⟩ := merge_children hroot hadded
  rcases hnotes with ⟨hn, -⟩ | ⟨hnone, -⟩
  · exact ⟨after, hn ▸ hafter, congrArg Prod.snd hmerge⟩
  · exact absurd hid (hnone m hm)

theorem mergeAll_children {id : String} {cs : List Contribution} {d : Document}
    (hfound : ∃ m ∈ d.children.flatten, m.id = id)
    (hcs : ∀ c ∈ cs, c.options.wanted = id ∧ ∀ t ∈ c.templates, ∃ n, t.toNode = .ok n) :
    ∃ added after,
      (cs.flatMap Contribution.templates).map Template.toNode = added.map .ok ∧
      Forest.appendTo? id added d.children = some after ∧
      mergeAll d .children cs = { d with children := after } := by
  induction cs generalizing d with
  | nil =>
    rcases hafter : Forest.appendTo? id [] d.children with _ | after
    · obtain ⟨m, hm, hid⟩ := hfound
      exact absurd hid ((Forest.appendTo?_eq_none_iff d.children).mp hafter m hm)
    · rw [Forest.appendTo?_nil hafter] at hafter
      exact ⟨[], d.children, rfl, hafter, rfl⟩
  | cons c cs ih =>
    obtain ⟨⟨hwanted, hcomplete⟩, hcs⟩ := List.forall_mem_cons.mp hcs
    obtain ⟨added, hadded⟩ := Template.exists_nodes hcomplete
    rw [← hwanted] at hfound
    obtain ⟨mid, hmid, hmerge⟩ := merge_children_found hfound hadded
    rw [hwanted] at hmid
    -- the node that has grown is there for the merges that follow
    obtain ⟨more, after, hmore, hafter, hmerges⟩ :=
      ih (d := { d with children := mid }) (Forest.exists_id_of_appendTo? hmid) hcs
    refine ⟨added ++ more, after, ?_, ?_, ?_⟩
    · rw [List.flatMap_cons, List.map_append, hadded, hmore, List.map_append]
    · rw [← Forest.appendTo?_appendTo? more hmid]
      exact hafter
    · rw [mergeAll, List.foldl_cons, hmerge]
      exact hmerges

/-- **Children that are merged one after another, all attached to the id of some node, come to
stand as if they had been merged at once**: in their order at the end of the first node that has
the id. -/
theorem merge_children_accumulate {d : Document} {id : String} {cs : List Contribution}
    {c : Contribution} (hfound : ∃ m ∈ d.children.flatten, m.id = id)
    (hcs : ∀ c' ∈ cs, c'.options.wanted = id ∧ ∀ t ∈ c'.templates, ∃ n, t.toNode = .ok n)
    (hwanted : c.options.wanted = id)
    (htemplates : c.templates = cs.flatMap Contribution.templates) :
    mergeAll d .children cs = (merge d c .children).2 ∧
      ∃ p n added after, d.children.FirstAt (·.id = id) p n ∧
        c.templates.map Template.toNode = added.map .ok ∧
        Grows added p n d.children.at? after.at? ∧
        (merge d c .children).2 = { d with children := after } := by
  obtain ⟨added, after, hadded, hafter, hmerges⟩ := mergeAll_children hfound hcs
  rw [← htemplates] at hadded
  subst hwanted
  obtain ⟨after', hafter', hmerge⟩ := merge_children_found hfound hadded
  obtain rfl : after = after' := Option.some.inj (hafter.symm.trans hafter')
  obtain ⟨p, n, hfirst, hgrows⟩ := Forest.appendTo?_grows hafter
  exact ⟨hmerges.trans hmerge.symm, p, n, added, after, hfirst, hadded, hgrows, hmerge⟩

/-- The first contribution brings a node with the id that all are attached to, the second brings
none, and the third one whose id is already there. -/
theorem merge_children_accumulate_sameId :
    let node : String → List Node → Node := fun id inner => ⟨id, "", .layout, [], {}, [], inner⟩
    let d : Document := ⟨[node "s" [node "a" [node "b" []]], node "a" []], {}, []⟩
    let added : List String → Contribution := fun ids =>
      { output := { children := some (ids.map fun id => { id := id, type := some .layout }) }
        options := { attachedToId := some "a" } }
    mergeAll d .children [added ["a", "c"], added [], added ["b"]] =
        (merge d (added ["a", "c", "b"]) .children).2 ∧
      (merge d (added ["a", "c", "b"]) .children).2.children =
        [node "s" [node "a" [node "b" [], node "a" [], node "c" [], node "b" []]],
          node "a" []] := by
  intro node d added
  have hfound : ∃ m ∈ d.children.flatten, m.id = "a" :=
    ⟨node "a" [], List.mem_append_right _ List.mem_cons_self, rfl⟩
  have hcomplete : ∀ ids : List String, (∀ id ∈ ids, Text.isBlankText id = false) →
      ∀ t ∈ (added ids).templates, ∃ n, t.toNode = .ok n := by
    intro ids hids t ht
    obtain ⟨id, hid, rfl⟩ := List.mem_map.mp ht
    exact ⟨node id [], by rw [Template.toNode, if_neg (by rw [hids id hid]; decide)]; rfl⟩
  have hcs : ∀ c ∈ [added ["a", "c"], added [], added ["b"]],
      c.options.wanted = "a" ∧ ∀ t ∈ c.templates, ∃ n, t.toNode = .ok n := by
    simp only [List.forall_mem_cons]
    exact ⟨⟨rfl, hcomplete _ (by decide)⟩, ⟨rfl, hcomplete _ (by decide)⟩,
      ⟨rfl, hcomplete _ (by decide)⟩, nofun⟩
  exact ⟨(merge_children_accumulate hfound hcs rfl rfl).1, rfl⟩

end Montage
