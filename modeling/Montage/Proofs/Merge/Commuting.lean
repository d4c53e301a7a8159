import Montage.Proofs.Merge.Target

/-!
# Merges that do not meet

Where no two nodes have the same id, a merge of data, context or effects changes one part of the
node at one position and nothing else: it keeps the shape of the forest and the id of every node, so
a merge that follows finds its target where it was before. Two such merges commute as soon as they
change different nodes or different parts, also if one of the nodes is inside the other.
-/

namespace Montage

open Scene

/-! ## One merge -/

theorem NodePatch.own_apply (p : NodePatch) (n : Node) (t : Template) :
    (p.apply n t).own = p.apply n.own t := by
  cases p <;> rfl

/-- The own parts of a node at a position after a merge that changes the node at `pos`. -/
def NodePatch.change (p : NodePatch) (t : Template) (pos q : List Nat) (n : Node) : Node :=
  if q = pos then p.apply n t else n

/-- After the merge the node at one position is changed, and all else is as before. -/
def NodePatch.Changes (p : NodePatch) (t : Template) (pos : List Nat) (before after : Forest) :
    Prop :=
  ∀ q, (after.at? q).map Node.own = ((before.at? q).map Node.own).map (p.change t pos q)

theorem Scene.Forest.IdsDiffer.changes {forest : Forest} {pos : List Nat} {n : Node} {t : Template}
    (p : NodePatch) (h : forest.IdsDiffer) (hn : forest.TargetAt t.id pos n) :
    p.Changes t pos forest (forest.replace n.id (p.apply n t)) := by
  have hat := hn.at?_eq
  have hothers : ∀ q m, Forest.Outermost [n.id] forest q m → q ≠ pos → m = p.apply n t := by
    intro q m hm hq
    have hid := List.mem_singleton.mp hm.mem
    refine absurd (h q pos n.id ?_ ?_) hq
    · rw [hm.at?_eq, Option.map_some, hid]
    · rw [hat, Option.map_some]
  have honly := p.changesOnly_replace t hn.outermost hothers
  intro q
  by_cases hq : q = pos
  · subst hq
    rw [hn.outermost.at?_replace, hat]
    simp [NodePatch.change, NodePatch.own_apply]
  · have hsame : p.change t pos q = id := by
      funext m
      simp [NodePatch.change, hq]
    rw [honly.elsewhere q hq, hsame, Option.map_id, id]

theorem NodePatch.Changes.ids {p : NodePatch} {t : Template} {pos : List Nat}
    {before after : Forest} (h : p.Changes t pos before after) (q : List Nat) :
    (after.at? q).map Node.id = (before.at? q).map Node.id := by
  have hown : ∀ n : Node, n.id = n.own.id := fun _ => rfl
  have hchange : ∀ n : Node, (p.change t pos q n).id = n.id := fun n => by
    rw [NodePatch.change]
    split
    · exact p.id_apply n t
    · rfl
  have hq := congrArg (Option.map Node.id) (h q)
  simpa [Option.map_map, Function.comp_def, hchange, ← hown] using hq

theorem Scene.Forest.TargetAt.of_ids {before after : Forest} {id : String} {pos : List Nat}
    {n : Node} (hids : ∀ q, (after.at? q).map Node.id = (before.at? q).map Node.id)
    (h : before.TargetAt id pos n) : ∃ m, after.TargetAt id pos m := by
  have hfound : ∀ q m, after.at? q = some m → ∃ k, before.at? q = some k ∧ k.id = m.id := by
    intro q m hm
    have hq := hids q
    rw [hm, Option.map_some] at hq
    exact Option.map_eq_some_iff.mp hq.symm
  have hpos := hids pos
  rw [h.at?_eq, Option.map_some] at hpos
  obtain ⟨m, hm, hmid⟩ := Option.map_eq_some_iff.mp hpos
  refine ⟨m, ?_⟩
  cases h with
  | first h =>
    refine .first ⟨hm, hmid.trans h.holds, fun q k hq hk hid => ?_⟩
    obtain ⟨k', hk', hsame⟩ := hfound q k hk
    exact h.before q k' hq hk' (hsame.trans hid)
  | root hnone hn =>
    refine .root (fun q k hk hid => ?_) hm
    obtain ⟨k', hk', hsame⟩ := hfound q k hk
    exact hnone q k' hk' (hsame.trans hid)

/-- The position of the node that a contribution changes: the first with the id of its first
template, or the first root. -/
def Scene.Document.ChangedAt (d : Document) (c : Contribution) (pos : List Nat) : Prop :=
  ∃ t n, (c.output.children.getD []).head? = some t ∧ d.children.TargetAt t.id pos n

theorem merge_changes {d : Document} {c : Contribution} (p : NodePatch) {t : Template}
    {pos : List Nat} {n : Node} (hids : d.children.IdsDiffer)
    (ht : (c.output.children.getD []).head? = some t) (hn : d.children.TargetAt t.id pos n) :
    ∃ after, (merge d c p.type).2 = { d with children := after } ∧
      p.Changes t pos d.children after := by
  rcases hroot : d.children with _ | ⟨root, rest⟩
  · have hat := hn.at?_eq
    rw [hroot] at hat
    cases pos <;> cases hat
  obtain ⟨pos', htarget⟩ := Forest.target_at t hroot
  obtain ⟨-, hsame⟩ := htarget.unique hn
  rw [merge_patch d c p hroot ht, hsame, ← hroot]
  exact ⟨_, rfl, hids.changes p hn⟩

/-! ## Two merges -/

theorem NodePatch.apply_comm {p₁ p₂ : NodePatch} (h : p₁ ≠ p₂) (n : Node) (t₁ t₂ : Template) :
    p₂.apply (p₁.apply n t₁) t₂ = p₁.apply (p₂.apply n t₂) t₁ := by
  cases p₁ <;> cases p₂ <;> first | rfl | exact absurd rfl h

theorem NodePatch.change_comm {p₁ p₂ : NodePatch} {t₁ t₂ : Template} {pos₁ pos₂ : List Nat}
    (h : p₁ ≠ p₂ ∨ pos₁ ≠ pos₂) (q : List Nat) (n : Node) :
    p₂.change t₂ pos₂ q (p₁.change t₁ pos₁ q n) = p₁.change t₁ pos₁ q (p₂.change t₂ pos₂ q n) := by
  unfold NodePatch.change
  by_cases h₁ : q = pos₁
  · by_cases h₂ : q = pos₂
    · have hp : p₁ ≠ p₂ := h.resolve_right fun hne => hne (h₁.symm.trans h₂)
      simp only [if_pos h₁, if_pos h₂, NodePatch.apply_comm hp]
    · simp only [if_pos h₁, if_neg h₂]
  · simp only [if_neg h₁]

theorem NodePatch.Changes.comm {p₁ p₂ : NodePatch} {t₁ t₂ : Template} {pos₁ pos₂ : List Nat}
    {before mid₁ mid₂ after₁ after₂ : Forest} (h : p₁ ≠ p₂ ∨ pos₁ ≠ pos₂)
    (h₁ : p₁.Changes t₁ pos₁ before mid₁) (h₁₂ : p₂.Changes t₂ pos₂ mid₁ after₁)
    (h₂ : p₂.Changes t₂ pos₂ before mid₂) (h₂₁ : p₁.Changes t₁ pos₁ mid₂ after₂) :
    after₁ = after₂ := by
  refine Forest.ext_at fun q => ?_
  rw [h₁₂ q, h₁ q, h₂₁ q, h₂ q]
  cases (before.at? q).map Node.own with
  | none => rfl
  | some n => exact congrArg some (NodePatch.change_comm h q n)

/-- **Merges of data, context or effects commute** if no two nodes have the same id and the merges
change different nodes or different parts. -/
theorem merge_comm {d : Document} {c₁ c₂ : Contribution} {p₁ p₂ : NodePatch}
    (hids : (d.children.flatten.map Node.id).Nodup)
    (h : p₁ ≠ p₂ ∨ ∀ pos, d.ChangedAt c₁ pos → ¬ d.ChangedAt c₂ pos) :
    (merge (merge d c₁ p₁.type).2 c₂ p₂.type).2 = (merge (merge d c₂ p₂.type).2 c₁ p₁.type).2 := by
  have hdiffer := Forest.idsDiffer_of_nodup hids
  rcases hroot : d.children with _ | ⟨root, rest⟩
  · rw [merge_unpatched p₁ (.inl hroot), merge_unpatched p₂ (.inl hroot),
      merge_unpatched p₁ (.inl hroot)]
  rcases ht₁ : (c₁.output.children.getD []).head? with _ | t₁
  · rw [merge_unpatched p₁ (.inr ht₁), merge_unpatched p₁ (.inr ht₁)]
  rcases ht₂ : (c₂.output.children.getD []).head? with _ | t₂
  · rw [merge_unpatched p₂ (.inr ht₂), merge_unpatched p₂ (.inr ht₂)]
  obtain ⟨pos₁, hn₁⟩ := Forest.target_at t₁ hroot
  obtain ⟨pos₂, hn₂⟩ := Forest.target_at t₂ hroot
  have hne : p₁ ≠ p₂ ∨ pos₁ ≠ pos₂ := h.imp_right fun h heq =>
    h pos₁ ⟨t₁, _, ht₁, hn₁⟩ ⟨t₂, _, ht₂, heq ▸ hn₂⟩
  obtain ⟨mid₁, hd₁, hmid₁⟩ := merge_changes p₁ hdiffer ht₁ hn₁
  obtain ⟨mid₂, hd₂, hmid₂⟩ := merge_changes p₂ hdiffer ht₂ hn₂
  -- the second merge finds its node where it was
  have hdiffer₁ : Forest.IdsDiffer mid₁ := fun q r id hq hr =>
    hdiffer q r id (hmid₁.ids q ▸ hq) (hmid₁.ids r ▸ hr)
  have hdiffer₂ : Forest.IdsDiffer mid₂ := fun q r id hq hr =>
    hdiffer q r id (hmid₂.ids q ▸ hq) (hmid₂.ids r ▸ hr)
  obtain ⟨m₂, hm₂⟩ := hn₂.of_ids hmid₁.ids
  obtain ⟨m₁, hm₁⟩ := hn₁.of_ids hmid₂.ids
  rw [hd₁, hd₂]
  obtain ⟨after₁, hafter₁, hchange₁⟩ :=
    merge_changes (d := { d with children := mid₁ }) p₂ hdiffer₁ ht₂ hm₂
  obtain ⟨after₂, hafter₂, hchange₂⟩ :=
    merge_changes (d := { d with children := mid₂ }) p₁ hdiffer₂ ht₁ hm₁
  rw [hafter₁, hafter₂, hmid₁.comm hne hchange₁ hmid₂ hchange₂]

/-- A card and the text inside it both get data: the card that is put in place has the text inside
it that it was found with, changed or not. -/
theorem merge_comm_inside :
    let text : Fields → Node := fun data => ⟨"t", "Text", .atom, data, {}, [], []⟩
    let card : Fields → Fields → Node := fun data inner =>
      ⟨"c", "Card", .layout, data, {}, [], [text inner]⟩
    let d : Document := ⟨[card [("x", .ofNat 1)] []], {}, []⟩
    let data : String → Json → Contribution := fun id v =>
      { output := { children := some [{ id := id, data := [("x", v)] }] } }
    (merge (merge d (data "c" .null) .data).2 (data "t" (.ofNat 2)) .data).2 =
        (merge (merge d (data "t" (.ofNat 2)) .data).2 (data "c" .null) .data).2 ∧
      (merge (merge d (data "c" .null) .data).2 (data "t" (.ofNat 2)) .data).2.children =
        [card [("x", .null)] [("x", .ofNat 2)]] := by
  intro text card d data
  have hcard : d.children.TargetAt "c" [0] (card [("x", .ofNat 1)] []) := by
    refine .first ⟨rfl, rfl, fun q m hq hm => ?_⟩
    obtain _ | ⟨i, q⟩ := q
    · cases hm
    · simp [List.cons_lt_cons_iff] at hq
  have htext : d.children.TargetAt "t" [0, 0] (text []) := by
    refine .first ⟨rfl, rfl, fun q m hq hm => ?_⟩
    obtain _ | ⟨i, _ | ⟨j, q⟩⟩ := q
    · cases hm
    · obtain rfl : i = 0 := by simpa [List.cons_lt_cons_iff] using hq
      cases hm
      decide
    · simp [List.cons_lt_cons_iff] at hq
  have hids : (d.children.flatten.map Node.id).Nodup := by decide
  have hapart : ∀ pos, d.ChangedAt (data "c" .null) pos →
      ¬ d.ChangedAt (data "t" (.ofNat 2)) pos := by
    rintro pos ⟨t₁, n₁, ht₁, hn₁⟩ ⟨t₂, n₂, ht₂, hn₂⟩
    cases ht₁
    cases ht₂
    have hpos := (hn₁.unique hcard).1.symm.trans (hn₂.unique htext).1
    cases hpos
  exact ⟨@merge_comm d _ _ .data .data hids (.inr hapart), rfl⟩

end Montage
