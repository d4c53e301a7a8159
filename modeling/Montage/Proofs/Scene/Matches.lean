import Montage.Proofs.Scene.Replacement

/-!
# Search and replacement

A forest in which nodes have been replaced has the replacement at the positions of the outermost
nodes that were found, and elsewhere the nodes that were there. So searching it for the same ids
finds what is found in the replacement, once for each of these positions. Where nothing was found
nothing is replaced, and a second replacement changes nothing if the replacement is found itself or
has nothing in it that is.
-/

namespace Montage.Scene

variable {ids : List String} {replacement : Node}

/-! ## Positions outside -/

/-- An outermost node stands at the position or around it. -/
def Forest.Covers (ids : List String) (forest : Forest) (p : List Nat) : Prop :=
  ∃ q n, Forest.Outermost ids forest q n ∧ q <+: p

/-- In a forest with replacements the replacement stands at the positions of the outermost nodes. At
the positions outside of these all is as before: which nodes there are, how many stand side by side,
and what their own parts are. -/
structure Forest.Replaced (ids : List String) (replacement : Node) (before after : Forest) :
    Prop where
  roots : after.length = before.length
  put : ∀ p n, Forest.Outermost ids before p n → after.at? p = some replacement
  own : ∀ p, ¬ before.Covers ids p → (after.at? p).map Node.own = (before.at? p).map Node.own
  siblings : ∀ p, ¬ before.Covers ids p →
    (after.at? p).map (·.children.length) = (before.at? p).map (·.children.length)

theorem Forest.at?_replaceIds {forest : Forest} {p : List Nat} (h : ¬ forest.Covers ids p) :
    Forest.at? (Forest.replaceIds ids replacement forest) p =
      (forest.at? p).map fun n =>
        { n with children := Forest.replaceIds ids replacement n.children } := by
  induction p generalizing forest with
  | nil => rfl
  | cons i p ih =>
    rcases hm : forest[i]? with _ | m
    · rw [Forest.at?, Forest.at?, Forest.replaceIds_eq_map, List.getElem?_map, hm]
      rfl
    -- a node that is on the way down has none of the ids, or it would be an outermost one
    have hid : m.id ∉ ids := fun hid =>
      h ⟨[i], m, .here hm hid, List.cons_prefix_cons.mpr ⟨rfl, List.nil_prefix⟩⟩
    rw [Forest.at?_of_getElem? hm, Forest.at?_of_getElem? (Forest.getElem?_replaceIds hm),
      Node.replaceIds_of_not_mem hid]
    cases p with
    | nil => rfl
    | cons j p =>
      refine ih ?_
      rintro ⟨q, n, hn, hq⟩
      exact h ⟨i :: q, n, .inside hm hid hn, List.cons_prefix_cons.mpr ⟨rfl, hq⟩⟩

theorem Forest.replaced_replaceIds (ids : List String) (replacement : Node) (forest : Forest) :
    forest.Replaced ids replacement (Forest.replaceIds ids replacement forest) where
  roots := by
    rw [Forest.replaceIds_eq_map]
    exact List.length_map _
  put p n hn := by
    have happend : Forest.at? (Forest.replaceIds ids replacement forest) (p ++ []) = _ :=
      hn.at?_replaceIds []
    rwa [List.append_nil] at happend
  own p hp := by
    rw [Forest.at?_replaceIds hp, Option.map_map]
    rfl
  siblings p hp := by
    rw [Forest.at?_replaceIds hp, Option.map_map]
    congr 1
    funext n
    show (Forest.replaceIds ids replacement n.children).length = n.children.length
    rw [Forest.replaceIds_eq_map]
    exact List.length_map _

/-! ## The outermost nodes in a list -/

mutual

def Node.ways (ids : List String) : Node → List (List Nat)
  | ⟨id, _, _, _, _, _, children⟩ =>
    if ids.contains id then [[]] else Forest.waysFrom ids 0 children

/-- The positions of the outermost nodes that have one of the ids, where the first root has the
place `i` at its level. -/
def Forest.waysFrom (ids : List String) (i : Nat) : Forest → List (List Nat)
  | [] => []
  | n :: rest => (n.ways ids).map (i :: ·) ++ Forest.waysFrom ids (i + 1) rest

end

theorem Node.ways_of_mem {n : Node} (hid : n.id ∈ ids) : n.ways ids = [[]] := by
  cases n
  rw [Node.ways, if_pos (List.contains_iff_mem.mpr hid)]

theorem Node.ways_of_not_mem {n : Node} (hid : n.id ∉ ids) :
    n.ways ids = Forest.waysFrom ids 0 n.children := by
  cases n
  rw [Node.ways, if_neg (mt List.contains_iff_mem.mp hid)]

theorem Forest.outermost_cons_iff {forest : Forest} {i : Nat} {p : List Nat} :
    (∃ n, Forest.Outermost ids forest (i :: p) n) ↔ ∃ m, forest[i]? = some m ∧
      (m.id ∈ ids ∧ p = [] ∨ m.id ∉ ids ∧ ∃ n, Forest.Outermost ids m.children p n) := by
  constructor
  · rintro ⟨n, hn⟩
    cases hn with
    | here hn hid => exact ⟨n, hn, .inl ⟨hid, rfl⟩⟩
    | inside hm hid hn => exact ⟨_, hm, .inr ⟨hid, n, hn⟩⟩
  · rintro ⟨m, hm, ⟨hid, rfl⟩ | ⟨hid, n, hn⟩⟩
    · exact ⟨m, .here hm hid⟩
    · exact ⟨n, .inside hm hid hn⟩

theorem Forest.outermost_iff_cons {forest : Forest} {p : List Nat} :
    (∃ j q, p = (0 + j) :: q ∧ ∃ n, Forest.Outermost ids forest (j :: q) n) ↔
      ∃ n, Forest.Outermost ids forest p n := by
  constructor
  · rintro ⟨j, q, rfl, hn⟩
    rwa [Nat.zero_add]
  · rintro ⟨n, hn⟩
    obtain ⟨j, q, rfl⟩ := List.exists_cons_of_ne_nil hn.ne_nil
    exact ⟨j, q, by rw [Nat.zero_add], n, hn⟩

mutual

theorem Node.mem_ways_iff : ∀ {n : Node} {p : List Nat},
    p ∈ n.ways ids ↔
      n.id ∈ ids ∧ p = [] ∨ n.id ∉ ids ∧ ∃ m, Forest.Outermost ids n.children p m
  | ⟨id, componentId, type, data, context, effects, children⟩, p => by
    by_cases hid : id ∈ ids
    · rw [Node.ways_of_mem hid]
      simp [hid]
    · rw [Node.ways_of_not_mem hid, Forest.mem_waysFrom_iff, Forest.outermost_iff_cons]
      simp [hid]

theorem Forest.mem_waysFrom_iff : ∀ {i : Nat} {forest : Forest} {p : List Nat},
    p ∈ Forest.waysFrom ids i forest ↔
      ∃ j q, p = (i + j) :: q ∧ ∃ n, Forest.Outermost ids forest (j :: q) n
  | i, [], p => by
    simp [Forest.waysFrom, Forest.outermost_cons_iff]
  | i, n :: rest, p => by
    rw [Forest.waysFrom, List.mem_append, List.mem_map, Forest.mem_waysFrom_iff]
    constructor
    · rintro (⟨q, hq, rfl⟩ | ⟨j, q, rfl, hn⟩)
      · exact ⟨0, q, rfl, Forest.outermost_cons_iff.mpr ⟨n, rfl, Node.mem_ways_iff.mp hq⟩⟩
      · obtain ⟨m, hm, hcase⟩ := Forest.outermost_cons_iff.mp hn
        refine ⟨j + 1, q, by rw [Nat.add_right_comm, Nat.add_assoc], ?_⟩
        exact Forest.outermost_cons_iff.mpr ⟨m, hm, hcase⟩
    · rintro ⟨j, q, rfl, hn⟩
      obtain ⟨m, hm, hcase⟩ := Forest.outermost_cons_iff.mp hn
      cases j with
      | zero =>
        cases hm
        exact .inl ⟨q, Node.mem_ways_iff.mpr hcase, rfl⟩
      | succ j =>
        refine .inr ⟨j, q, by rw [Nat.add_right_comm, Nat.add_assoc], ?_⟩
        exact Forest.outermost_cons_iff.mpr ⟨m, hm, hcase⟩

end

mutual

theorem Node.nodup_ways : ∀ n : Node, (n.ways ids).Nodup
  | ⟨id, componentId, type, data, context, effects, children⟩ => by
    rw [Node.ways]
    split
    · exact List.pairwise_singleton _ _
    · exact Forest.nodup_waysFrom 0 children

theorem Forest.nodup_waysFrom : ∀ (i : Nat) (forest : Forest),
    (Forest.waysFrom ids i forest).Nodup
  | _, [] => .nil
  | i, n :: rest => by
    rw [Forest.waysFrom, List.nodup_append]
    refine ⟨?_, Forest.nodup_waysFrom (i + 1) rest, ?_⟩
    · exact List.Pairwise.map (i :: ·) (fun a b hne heq => hne (List.cons.inj heq).2)
        (Node.nodup_ways n)
    · -- the roots behind have greater places
      rintro _ hfirst _ hrest rfl
      obtain ⟨q, -, rfl⟩ := List.mem_map.mp hfirst
      obtain ⟨j, q', heq, -⟩ := Forest.mem_waysFrom_iff.mp hrest
      have hplace := (List.cons.inj heq).1
      omega

end

/-! ## Search after replacement -/

theorem Forest.findIds_cons (n : Node) (rest : Forest) :
    Forest.findIds (n :: rest) ids = n.flatten.filter (ids.contains ·.id) ++ rest.findIds ids := by
  rw [Forest.findIds, Forest.flatten, List.filter_append, Forest.findIds]

theorem Forest.findIds_singleton (n : Node) :
    Forest.findIds [n] ids = n.flatten.filter (ids.contains ·.id) := by
  rw [Forest.findIds_cons]
  exact List.append_nil _

mutual

theorem Node.filter_replaceIds : ∀ n : Node,
    (Node.replaceIds ids replacement n).flatten.filter (ids.contains ·.id) =
      (n.ways ids).flatMap fun _ => Forest.findIds [replacement] ids
  | ⟨id, componentId, type, data, context, effects, children⟩ => by
    by_cases hid : id ∈ ids
    · rw [Node.replaceIds_of_mem hid, Node.ways_of_mem hid, ← Forest.findIds_singleton]
      simp
    · -- the node itself is not found, so what is found is inside it
      have hnot : ¬ ids.contains id = true := mt List.contains_iff_mem.mp hid
      rw [Node.replaceIds, if_neg hnot, Node.ways, if_neg hnot, Node.flatten_eq, List.filter_cons,
        if_neg hnot]
      exact Forest.findIds_replaceIds 0 children

theorem Forest.findIds_replaceIds : ∀ (i : Nat) (forest : Forest),
    Forest.findIds (Forest.replaceIds ids replacement forest) ids =
      (Forest.waysFrom ids i forest).flatMap fun _ => Forest.findIds [replacement] ids
  | _, [] => rfl
  | i, n :: rest => by
    rw [Forest.replaceIds, Forest.findIds_cons, Node.filter_replaceIds n,
      Forest.findIds_replaceIds (i + 1) rest, Forest.waysFrom, List.flatMap_append,
      List.flatMap_map]

end

/-! ## Nothing to replace -/

theorem Forest.Outermost.mem_findIds {forest : Forest} {p : List Nat} {n : Node}
    (h : Forest.Outermost ids forest p n) : n ∈ forest.findIds ids :=
  List.mem_filter.mpr ⟨Forest.mem_flatten_of_at? h.at?_eq, List.contains_iff_mem.mpr h.mem⟩

theorem Forest.replaceIds_of_findIds_eq_nil {forest : Forest} (h : forest.findIds ids = []) :
    Forest.replaceIds ids replacement forest = forest := by
  refine Forest.ext_at fun p => Forest.own_at?_replaceIds fun q s m _ hm => ?_
  have hmem := hm.mem_findIds
  rw [h] at hmem
  cases hmem

/-- **Search and replacement agree.** A replacement puts a node at the positions of the outermost
nodes that are found and leaves all else as it was. In the forest that comes of it, what is found in
the replacement is found, once for each of these positions. Where nothing is found nothing changes,
and replacing again changes nothing if the replacement has one of the ids itself or has no node with
one in it. -/
theorem replaceIds_matches (ids : List String) (replacement : Node) (forest : Forest) :
    forest.Replaced ids replacement (Forest.replaceIds ids replacement forest) ∧
    (∃ ways : List (List Nat), ways.Nodup ∧
      (∀ p, p ∈ ways ↔ ∃ n, Forest.Outermost ids forest p n) ∧
      Forest.findIds (Forest.replaceIds ids replacement forest) ids =
        ways.flatMap fun _ => Forest.findIds [replacement] ids) ∧
    (forest.findIds ids = [] → Forest.replaceIds ids replacement forest = forest) ∧
    (replacement.id ∈ ids ∨ Forest.findIds [replacement] ids = [] →
      Forest.replaceIds ids replacement (Forest.replaceIds ids replacement forest) =
        Forest.replaceIds ids replacement forest) := by
  refine ⟨Forest.replaced_replaceIds ids replacement forest,
    ⟨Forest.waysFrom ids 0 forest, Forest.nodup_waysFrom 0 forest, fun p => ?_,
      Forest.findIds_replaceIds 0 forest⟩, Forest.replaceIds_of_findIds_eq_nil, ?_⟩
  · rw [Forest.mem_waysFrom_iff, Forest.outermost_iff_cons]
  · rintro (hid | hnone)
    · exact Forest.replaceIds_replaceIds hid forest
    · refine Forest.replaceIds_of_findIds_eq_nil ?_
      rw [Forest.findIds_replaceIds 0, hnone]
      simp

/-- Two outermost nodes are replaced, and a third one is gone with the one that it was inside of. -/
theorem replaceIds_matches_inside :
    let leaf : String → Node := fun id => ⟨id, "Text", .atom, [], {}, [], []⟩
    let row : String → Node → Node := fun id inner => ⟨id, "Row", .layout, [], {}, [], [inner]⟩
    let forest : Forest := [⟨"s", "Scene", .scene, [], {}, [], [row "a" (leaf "b"), leaf "b"]⟩]
    let replacement : Node := row "b" (leaf "a")
    let after := Forest.replaceIds ["a", "b"] replacement forest
    forest.findIds ["a", "b"] = [row "a" (leaf "b"), leaf "b", leaf "b"] ∧
      after.findIds ["a", "b"] = [replacement, leaf "a", replacement, leaf "a"] ∧
      Forest.replaceIds ["a", "b"] replacement after = after ∧
      Forest.replaceIds ["c"] replacement forest = forest := by
  intro leaf row forest replacement after
  exact ⟨rfl, rfl, (replaceIds_matches _ replacement forest).2.2.2 (.inl (by decide)),
    (replaceIds_matches ["c"] replacement forest).2.2.1 rfl⟩

end Montage.Scene
