import Montage.Proofs.Scene.Every

/-!
# Growth by position

Nodes are added at the end of one node: the first from top to bottom that has the id. They come
behind the nodes that are inside it, so no node changes its position, and the node that has grown is
still the first with the id, also if nodes inside the added ones have it. What is added to it later
comes behind what was added before.
-/

namespace Montage.Scene

variable {id : String} {added : List Node}

/-- Nodes by position, before and after some have been added at the end of the node `n` at position
`p`: that node has them behind its own, and at every position that is not one of an added node the
own parts are as before. -/
structure Grows (added : List Node) (p : List Nat) (n : Node)
    (before after : List Nat → Option Node) : Prop where
  here : before p = some n
  grown : after p = some { n with children := n.children ++ added }
  kept : ∀ q, (∀ i s, q ≠ p ++ (n.children.length + i) :: s) →
    (after q).map Node.own = (before q).map Node.own

/-! ## One level -/

theorem Node.grows_here (n : Node) :
    Grows added [] n n.at? { n with children := n.children ++ added : Node }.at? where
  here := rfl
  grown := rfl
  kept q hq := by
    cases q with
    | nil => rfl
    | cons i s =>
      have hi : i < n.children.length := Nat.lt_of_not_le fun hle => by
        refine hq (i - n.children.length) s ?_
        rw [List.nil_append, Nat.add_sub_cancel' hle]
      rw [Node.at?, Node.at?, List.getElem?_append_left hi]

theorem Grows.inside {n m : Node} {children : List Node} {i : Nat} {p : List Nat}
    (h : Grows added (i :: p) m (Forest.at? n.children) (Forest.at? children)) :
    Grows added (i :: p) m n.at? { n with children := children : Node }.at? where
  here := h.here
  grown := h.grown
  kept q hq := by
    cases q with
    | nil => rfl
    | cons j q => exact h.kept (j :: q) hq

theorem Grows.head {n n' m : Node} {p : List Nat} (h : Grows added p m n.at? n'.at?)
    (rest : Forest) :
    Grows added (0 :: p) m (Forest.at? (n :: rest)) (Forest.at? (n' :: rest)) where
  here := h.here
  grown := h.grown
  kept q hq := by
    match q with
    | [] => rfl
    | 0 :: q => exact h.kept q fun i s hs => hq i s (by rw [hs, List.cons_append])
    | (j + 1) :: q => rfl

theorem Grows.tail {rest rest' : Forest} {m : Node} {i : Nat} {p : List Nat}
    (h : Grows added (i :: p) m rest.at? rest'.at?) (n : Node) :
    Grows added ((i + 1) :: p) m (Forest.at? (n :: rest)) (Forest.at? (n :: rest')) where
  here := h.here
  grown := h.grown
  kept q hq := by
    match q with
    | [] => rfl
    | 0 :: q => rfl
    | (j + 1) :: q =>
      refine h.kept (j :: q) fun k s hs => hq k s ?_
      rw [List.cons_append, List.cons.injEq] at hs ⊢
      exact ⟨congrArg (· + 1) hs.1, hs.2⟩

/-! ## The node that grows -/

mutual

theorem Node.appendTo?_eq_none_iff : ∀ n : Node,
    n.appendTo? id added = none ↔ ∀ m ∈ n.flatten, m.id ≠ id
  | ⟨nodeId, componentId, type, data, context, effects, children⟩ => by
    rw [Node.appendTo?, Node.flatten_eq, List.forall_mem_cons]
    split
    next hid => exact ⟨nofun, fun h => absurd hid h.1⟩
    next hid =>
      rw [Option.map_eq_none_iff, Forest.appendTo?_eq_none_iff children]
      exact ⟨fun h => ⟨hid, h⟩, And.right⟩

theorem Forest.appendTo?_eq_none_iff : ∀ forest : Forest,
    Forest.appendTo? id added forest = none ↔ ∀ m ∈ forest.flatten, m.id ≠ id
  | [] => ⟨fun _ => nofun, fun _ => rfl⟩
  | n :: rest => by
    rw [Forest.appendTo?, Forest.flatten, List.forall_mem_append,
      ← Node.appendTo?_eq_none_iff n, ← Forest.appendTo?_eq_none_iff rest]
    split
    next hn => rw [hn]; exact ⟨nofun, nofun⟩
    next hn => rw [Option.map_eq_none_iff, hn]; exact ⟨fun h => ⟨rfl, h⟩, And.right⟩

end

mutual

theorem Node.appendTo?_grows : ∀ {n n' : Node}, n.appendTo? id added = some n' →
    ∃ p m, (m.id = id ∧ ∀ q k, q < p → n.at? q = some k → k.id ≠ id) ∧
      Grows added p m n.at? n'.at?
  | ⟨nodeId, componentId, type, data, context, effects, children⟩, n', h => by
    rw [Node.appendTo?] at h
    split at h
    next hid =>
      cases h
      exact ⟨[], _, ⟨hid, fun q k hq => absurd hq (List.not_lt_nil q)⟩, Node.grows_here _⟩
    next hid =>
      obtain ⟨children', hchildren, rfl⟩ := Option.map_eq_some_iff.mp h
      obtain ⟨p, m, hfirst, hgrows⟩ := Forest.appendTo?_grows hchildren
      obtain _ | ⟨i, p⟩ := p
      · cases hfirst.here
      refine ⟨i :: p, m, ⟨hfirst.holds, fun q k hq hk => ?_⟩, hgrows.inside⟩
      cases q with
      | nil =>
        cases hk
        exact hid
      | cons j q => exact hfirst.before (j :: q) k hq hk

theorem Forest.appendTo?_grows : ∀ {forest forest' : Forest},
    Forest.appendTo? id added forest = some forest' →
      ∃ p m, forest.FirstAt (·.id = id) p m ∧ Grows added p m forest.at? forest'.at?
  | n :: rest, forest', h => by
    rw [Forest.appendTo?] at h
    split at h
    next n' hn =>
      cases h
      obtain ⟨p, m, ⟨hid, hbefore⟩, hgrows⟩ := Node.appendTo?_grows hn
      refine ⟨0 :: p, m, ⟨hgrows.here, hid, fun q k hq hk => ?_⟩, hgrows.head rest⟩
      obtain _ | ⟨_ | j, q⟩ := q
      · cases hk
      · exact hbefore q k (by simpa [List.cons_lt_cons_iff] using hq) hk
      · simp [List.cons_lt_cons_iff] at hq
    next hn =>
      obtain ⟨rest', hrest, rfl⟩ := Option.map_eq_some_iff.mp h
      obtain ⟨p, m, hfirst, hgrows⟩ := Forest.appendTo?_grows hrest
      obtain _ | ⟨i, p⟩ := p
      · cases hfirst.here
      refine ⟨(i + 1) :: p, m, ⟨hfirst.here, hfirst.holds, fun q k hq hk => ?_⟩, hgrows.tail n⟩
      obtain _ | ⟨_ | j, q⟩ := q
      · cases hk
      · exact (Node.appendTo?_eq_none_iff n).mp hn k (Node.mem_flatten_of_at? hk)
      · exact hfirst.before (j :: q) k (by simpa [List.cons_lt_cons_iff] using hq) hk

end

theorem Forest.FirstAt.exists_grows {forest : Forest} {p : List Nat} {n : Node}
    (h : forest.FirstAt (·.id = id) p n) (added : List Node) :
    ∃ forest', Forest.appendTo? id added forest = some forest' ∧
      Grows added p n forest.at? forest'.at? := by
  rcases hforest : Forest.appendTo? id added forest with _ | forest'
  · have hnone := (Forest.appendTo?_eq_none_iff forest).mp hforest
    exact absurd h.holds (hnone n (Forest.mem_flatten_of_at? h.here))
  · obtain ⟨q, m, hfirst, hgrows⟩ := Forest.appendTo?_grows hforest
    obtain ⟨rfl, rfl⟩ := hfirst.unique h
    exact ⟨forest', rfl, hgrows⟩

theorem Forest.exists_id_of_appendTo? {forest forest' : Forest}
    (h : Forest.appendTo? id added forest = some forest') : ∃ m ∈ forest'.flatten, m.id = id := by
  obtain ⟨p, m, hfirst, hgrows⟩ := Forest.appendTo?_grows h
  exact ⟨_, Forest.mem_flatten_of_at? hgrows.grown, hfirst.holds⟩

/-! ## Growing again -/

mutual

theorem Node.appendTo?_appendTo? (more : List Node) : ∀ {n n' : Node},
    n.appendTo? id added = some n' → n'.appendTo? id more = n.appendTo? id (added ++ more)
  | ⟨nodeId, componentId, type, data, context, effects, children⟩, n', h => by
    rw [Node.appendTo?] at h ⊢
    split at h
    next hid =>
      cases h
      rw [Node.appendTo?, if_pos hid, if_pos hid, List.append_assoc]
    next hid =>
      obtain ⟨children', hchildren, rfl⟩ := Option.map_eq_some_iff.mp h
      rw [Node.appendTo?, if_neg hid, if_neg hid, Forest.appendTo?_appendTo? more hchildren]

/-- What is added to a forest that has grown is added to the node that had grown, behind what was
added before. -/
theorem Forest.appendTo?_appendTo? (more : List Node) : ∀ {forest forest' : Forest},
    Forest.appendTo? id added forest = some forest' →
      Forest.appendTo? id more forest' = Forest.appendTo? id (added ++ more) forest
  | n :: rest, forest', h => by
    rw [Forest.appendTo?] at h ⊢
    rcases hn : n.appendTo? id added with _ | n'
    · rw [hn] at h
      obtain ⟨rest', hrest, rfl⟩ := Option.map_eq_some_iff.mp h
      have hnone : ∀ ns : List Node, n.appendTo? id ns = none := fun ns =>
        (Node.appendTo?_eq_none_iff n).mpr ((Node.appendTo?_eq_none_iff n).mp hn)
      rw [Forest.appendTo?, hnone, hnone, Forest.appendTo?_appendTo? more hrest]
    · rw [hn] at h
      cases h
      rw [Forest.appendTo?, Node.appendTo?_appendTo? more hn]
      rcases hagain : n.appendTo? id (added ++ more) with _ | n''
      · have hnone := (Node.appendTo?_eq_none_iff n).mp hagain
        rw [(Node.appendTo?_eq_none_iff n).mpr hnone] at hn
        cases hn
      · rfl

end

mutual

theorem Node.appendTo?_nil : ∀ {n n' : Node}, n.appendTo? id [] = some n' → n' = n
  | ⟨nodeId, componentId, type, data, context, effects, children⟩, n', h => by
    rw [Node.appendTo?] at h
    split at h
    next =>
      cases h
      rw [List.append_nil]
    next =>
      obtain ⟨children', hchildren, rfl⟩ := Option.map_eq_some_iff.mp h
      rw [Forest.appendTo?_nil hchildren]

theorem Forest.appendTo?_nil : ∀ {forest forest' : Forest},
    Forest.appendTo? id [] forest = some forest' → forest' = forest
  | n :: rest, forest', h => by
    rw [Forest.appendTo?] at h
    split at h
    next n' hn =>
      cases h
      rw [Node.appendTo?_nil hn]
    next =>
      obtain ⟨rest', hrest, rfl⟩ := Option.map_eq_some_iff.mp h
      rw [Forest.appendTo?_nil hrest]

end

end Montage.Scene
