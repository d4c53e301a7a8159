import Montage.Proofs.Scene.Position

/-!
# Replacement by position

What is replaced are the outermost nodes that have one of the ids: those that no other such node
stands around. At their positions stands the replacement with all that is inside it, and all other
nodes keep their own parts. Replacing again finds the replacement where it was put.
-/

namespace Montage.Scene

variable {ids : List String} {replacement : Node}

/-! ## Equations -/

theorem Forest.replaceIds_eq_map (forest : Forest) :
    Forest.replaceIds ids replacement forest = forest.map (Node.replaceIds ids replacement) := by
  induction forest with
  | nil => rfl
  | cons n rest ih => rw [Forest.replaceIds, ih, List.map_cons]

theorem Node.replaceIds_of_mem {n : Node} (hid : n.id ∈ ids) :
    Node.replaceIds ids replacement n = replacement := by
  cases n
  rw [Node.replaceIds, if_pos (List.contains_iff_mem.mpr hid)]

theorem Node.replaceIds_of_not_mem {n : Node} (hid : n.id ∉ ids) :
    Node.replaceIds ids replacement n =
      { n with children := Forest.replaceIds ids replacement n.children } := by
  cases n
  rw [Node.replaceIds, if_neg (mt List.contains_iff_mem.mp hid)]

theorem Forest.getElem?_replaceIds {forest : Forest} {i : Nat} {n : Node}
    (hn : forest[i]? = some n) :
    (Forest.replaceIds ids replacement forest)[i]? = some (Node.replaceIds ids replacement n) := by
  rw [Forest.replaceIds_eq_map, List.getElem?_map, hn, Option.map_some]

/-! ## Outermost nodes -/

/-- A position at which there is a node with one of the ids while no node on the way down has one,
and the node there. -/
inductive Forest.Outermost (ids : List String) : Forest → List Nat → Node → Prop
  | here {forest : Forest} {i : Nat} {n : Node} (hn : forest[i]? = some n) (hid : n.id ∈ ids) :
    Outermost ids forest [i] n
  | inside {forest : Forest} {i : Nat} {m n : Node} {p : List Nat} (hm : forest[i]? = some m)
    (hid : m.id ∉ ids) (hn : Outermost ids m.children p n) : Outermost ids forest (i :: p) n

namespace Forest.Outermost

variable {forest : Forest} {p q : List Nat} {n m : Node}

theorem mem (h : Outermost ids forest p n) : n.id ∈ ids := by
  induction h with
  | here _ hid => exact hid
  | inside _ _ _ ih => exact ih

theorem ne_nil (h : Outermost ids forest p n) : p ≠ [] := by
  cases h <;> exact List.cons_ne_nil _ _

theorem at?_append (h : Outermost ids forest p n) (q : List Nat) :
    forest.at? (p ++ q) = n.at? q := by
  induction h with
  | here hn _ => exact Forest.at?_of_getElem? hn q
  | @inside forest i m n p hm _ hn ih =>
    rw [List.cons_append, Forest.at?_of_getElem? hm]
    obtain ⟨j, p, rfl⟩ := List.exists_cons_of_ne_nil hn.ne_nil
    exact ih

theorem at?_eq (h : Outermost ids forest p n) : forest.at? p = some n := by
  have happend := h.at?_append []
  rwa [List.append_nil] at happend

theorem at?_replaceIds (h : Outermost ids forest p n) (q : List Nat) :
    Forest.at? (Forest.replaceIds ids replacement forest) (p ++ q) = replacement.at? q := by
  induction h with
  | here hn hid =>
    rw [List.cons_append, Forest.at?_of_getElem? (Forest.getElem?_replaceIds hn),
      Node.replaceIds_of_mem hid, List.nil_append]
  | @inside forest i m n p hm hid hn ih =>
    rw [List.cons_append, Forest.at?_of_getElem? (Forest.getElem?_replaceIds hm),
      Node.replaceIds_of_not_mem hid]
    obtain ⟨j, p, rfl⟩ := List.exists_cons_of_ne_nil hn.ne_nil
    exact ih

theorem at?_replace {id : String} (h : Outermost [id] forest p n) (replacement : Node) :
    (forest.replace id replacement).at? p = some replacement := by
  have happend : (forest.replace id replacement).at? (p ++ []) = _ := h.at?_replaceIds []
  rwa [List.append_nil] at happend

theorem eq_nil_of_append (h : Outermost ids forest p n) (hq : Outermost ids forest (p ++ q) m) :
    q = [] := by
  induction h with
  | here hn hid =>
    cases hq with
    | here => rfl
    | inside hm hid' _ =>
      cases hn.symm.trans hm
      exact absurd hid hid'
  | @inside forest i m n p hm hid hn ih =>
    obtain ⟨j, p, rfl⟩ := List.exists_cons_of_ne_nil hn.ne_nil
    cases hq with
    | inside hm' _ hq =>
      cases hm.symm.trans hm'
      exact ih hq

end Forest.Outermost

/-- On the way to a node that has one of the ids, or at its end, there is an outermost one. -/
theorem Forest.exists_outermost {forest : Forest} {p : List Nat} {n : Node}
    (hn : forest.at? p = some n) (hid : n.id ∈ ids) :
    ∃ q s m, p = q ++ s ∧ Outermost ids forest q m := by
  induction p generalizing forest with
  | nil => cases hn
  | cons i p ih =>
    obtain ⟨k, hk, hn⟩ := Option.bind_eq_some_iff.mp hn
    by_cases hkid : k.id ∈ ids
    · exact ⟨[i], p, k, rfl, .here hk hkid⟩
    cases p with
    | nil =>
      cases hn
      exact absurd hid hkid
    | cons j p =>
      obtain ⟨q, s, m, hp, hm⟩ := ih hn
      exact ⟨i :: q, s, m, by rw [hp, List.cons_append], .inside hk hkid hm⟩

theorem Forest.FirstAt.outermost {forest : Forest} {id : String} {p : List Nat} {n : Node}
    (h : forest.FirstAt (·.id = id) p n) : Outermost [id] forest p n := by
  obtain ⟨q, s, m, rfl, hm⟩ := exists_outermost h.here (List.mem_singleton.mpr h.holds)
  cases s with
  | nil =>
    rw [List.append_nil] at h ⊢
    cases h.here.symm.trans hm.at?_eq
    exact hm
  | cons i s =>
    have hbefore : q ++ [] < q ++ i :: s := List.append_left_lt (List.nil_lt_cons i s)
    rw [List.append_nil] at hbefore
    exact absurd (List.mem_singleton.mp hm.mem) (h.before q m hbefore hm.at?_eq)

/-- The own parts of a node stay what they are unless it is, or is inside, an outermost node from
which the replacement differs there. -/
theorem Forest.own_at?_replaceIds {forest : Forest} {p : List Nat}
    (h : ∀ q s m, p = q ++ s → Outermost ids forest q m →
      (replacement.at? s).map Node.own = (m.at? s).map Node.own) :
    (Forest.at? (Forest.replaceIds ids replacement forest) p).map Node.own =
      (forest.at? p).map Node.own := by
  induction p generalizing forest with
  | nil => rfl
  | cons i p ih =>
    rcases hm : forest[i]? with _ | m
    · rw [Forest.at?, Forest.at?, Forest.replaceIds_eq_map, List.getElem?_map, hm]
      rfl
    rw [Forest.at?_of_getElem? hm, Forest.at?_of_getElem? (Forest.getElem?_replaceIds hm)]
    by_cases hid : m.id ∈ ids
    · rw [Node.replaceIds_of_mem hid]
      exact h [i] p m rfl (.here hm hid)
    rw [Node.replaceIds_of_not_mem hid]
    cases p with
    | nil => rfl
    | cons j p =>
      refine ih fun q s k hp hk => ?_
      exact h (i :: q) s k (by rw [hp, List.cons_append]) (.inside hm hid hk)

/-! ## Replacing again -/

mutual

theorem Node.replaceIds_replaceIds {next : Node} (h : replacement.id ∈ ids) : ∀ n : Node,
    Node.replaceIds ids next (Node.replaceIds ids replacement n) = Node.replaceIds ids next n
  | ⟨id, componentId, type, data, context, effects, children⟩ => by
    by_cases hid : id ∈ ids
    · rw [Node.replaceIds, if_pos (List.contains_iff_mem.mpr hid), Node.replaceIds_of_mem h,
        Node.replaceIds, if_pos (List.contains_iff_mem.mpr hid)]
    · simp [Node.replaceIds, hid, Forest.replaceIds_replaceIds h children]

theorem Forest.replaceIds_replaceIds {next : Node} (h : replacement.id ∈ ids) : ∀ forest : Forest,
    Forest.replaceIds ids next (Forest.replaceIds ids replacement forest) =
      Forest.replaceIds ids next forest
  | [] => rfl
  | n :: rest => by
    rw [Forest.replaceIds, Forest.replaceIds, Forest.replaceIds, Node.replaceIds_replaceIds h,
      Forest.replaceIds_replaceIds h]

end

theorem Forest.replace_replace (forest : Forest) (next : Node) :
    (forest.replace replacement.id replacement).replace replacement.id next =
      forest.replace replacement.id next :=
  Forest.replaceIds_replaceIds (List.mem_singleton.mpr rfl) forest

mutual

theorem Node.find?_replaceIds : ∀ n : Node,
    (Node.replaceIds [replacement.id] replacement n).flatten.find? (·.id = replacement.id) =
      (n.flatten.find? (·.id = replacement.id)).map fun _ => replacement
  | ⟨id, componentId, type, data, context, effects, children⟩ => by
    by_cases hid : id = replacement.id
    · rw [Node.replaceIds_of_mem (List.mem_singleton.mpr hid), Node.flatten_eq, Node.flatten_eq]
      simp [hid]
    · rw [Node.replaceIds_of_not_mem (mt List.mem_singleton.mp hid), Node.flatten_eq,
        Node.flatten_eq]
      simp [hid, Forest.find?_replaceIds children]

theorem Forest.find?_replaceIds : ∀ forest : Forest,
    (Forest.replaceIds [replacement.id] replacement forest).flatten.find?
        (·.id = replacement.id) =
      (forest.flatten.find? (·.id = replacement.id)).map fun _ => replacement
  | [] => rfl
  | n :: rest => by
    rw [Forest.replaceIds, Forest.flatten, Forest.flatten, List.find?_append, List.find?_append,
      Node.find?_replaceIds n, Forest.find?_replaceIds rest]
    cases n.flatten.find? (·.id = replacement.id) <;> simp

end

end Montage.Scene
