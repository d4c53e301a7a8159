import Montage.Scene.Forest

/-!
# Positions

A position is the way down to a node: which of the nodes side by side to take at each level. In the
order of lists of numbers, positions come in the order in which a forest is gone through from top to
bottom, and a forest is known when the own parts of the node at each position are.
-/

namespace Montage.Scene

/-! ## Nodes by position -/

/-- A node's own parts: all but the nodes inside it. -/
def Node.own (n : Node) : Node := { n with children := [] }

def Node.at? (n : Node) : List Nat → Option Node
  | [] => some n
  | i :: p => n.children[i]?.bind (·.at? p)

/-- The node at a position of a forest. -/
def Forest.at? (forest : Forest) : List Nat → Option Node
  | [] => none
  | i :: p => forest[i]?.bind (·.at? p)

@[simp] theorem Node.at?_nil (n : Node) : n.at? [] = some n := rfl

@[simp] theorem Node.at?_cons (n : Node) (i : Nat) (p : List Nat) :
    n.at? (i :: p) = Forest.at? n.children (i :: p) := rfl

@[simp] theorem Forest.at?_nil (forest : Forest) : forest.at? [] = none := rfl

theorem Forest.at?_of_getElem? {forest : Forest} {i : Nat} {n : Node} (hn : forest[i]? = some n)
    (p : List Nat) : forest.at? (i :: p) = n.at? p := by
  rw [Forest.at?, hn, Option.bind_some]

theorem Node.at?_of_children_eq {n m : Node} (hchildren : n.children = m.children) {p : List Nat}
    (hp : p ≠ []) : n.at? p = m.at? p := by
  obtain ⟨i, p, rfl⟩ := List.exists_cons_of_ne_nil hp
  rw [Node.at?_cons, Node.at?_cons, hchildren]

theorem Node.eq_of_own {a b : Node} (hown : a.own = b.own) (hchildren : a.children = b.children) :
    a = b := by
  have hnode : ∀ n : Node, n = { n.own with children := n.children } := fun n => by cases n; rfl
  rw [hnode a, hnode b, hown, hchildren]

mutual

theorem Node.ext_at : ∀ {a b : Node},
    (∀ p, (a.at? p).map Node.own = (b.at? p).map Node.own) → a = b
  | ⟨id, componentId, type, data, context, effects, children⟩, b, h => by
    have hchildren : children = b.children :=
      Forest.ext_at fun p => by
        cases p with
        | nil => rfl
        | cons i p => exact h (i :: p)
    exact Node.eq_of_own (Option.some.inj (h [])) hchildren

theorem Forest.ext_at : ∀ {a b : Forest},
    (∀ p, (a.at? p).map Node.own = (b.at? p).map Node.own) → a = b
  | [], [], _ => rfl
  | [], m :: _, h => nomatch h [0]
  | n :: _, [], h => nomatch h [0]
  | n :: rest, m :: rest', h => by
    have hhead : n = m := Node.ext_at fun p => h (0 :: p)
    have htail : rest = rest' :=
      Forest.ext_at fun p => by
        cases p with
        | nil => rfl
        | cons i p => exact h ((i + 1) :: p)
    rw [hhead, htail]

end

/-! ## The order of positions -/

theorem Node.flatten_eq (n : Node) : n.flatten = n :: Forest.flatten n.children := by
  cases n
  rw [Node.flatten]

theorem Node.flatten_subset {n : Node} {forest : Forest} (hn : n ∈ forest) :
    ∀ m ∈ n.flatten, m ∈ forest.flatten := by
  intro m hm
  induction forest with
  | nil => cases hn
  | cons k rest ih =>
    rw [Forest.flatten, List.mem_append]
    rcases List.mem_cons.mp hn with rfl | hn
    · exact .inl hm
    · exact .inr (ih hn)

theorem Node.mem_flatten_of_at? {n m : Node} {p : List Nat} (h : n.at? p = some m) :
    m ∈ n.flatten := by
  induction p generalizing n with
  | nil =>
    cases h
    rw [Node.flatten_eq]
    exact List.mem_cons_self
  | cons i p ih =>
    obtain ⟨k, hk, h⟩ := Option.bind_eq_some_iff.mp h
    rw [Node.flatten_eq]
    exact List.mem_cons_of_mem _ (Node.flatten_subset (List.mem_of_getElem? hk) m (ih h))

theorem Forest.mem_flatten_of_at? {forest : Forest} {m : Node} {p : List Nat}
    (h : forest.at? p = some m) : m ∈ forest.flatten := by
  cases p with
  | nil => cases h
  | cons i p =>
    obtain ⟨k, hk, h⟩ := Option.bind_eq_some_iff.mp h
    exact Node.flatten_subset (List.mem_of_getElem? hk) m (Node.mem_flatten_of_at? h)

/-- The first position at which there is a node with a property, and the node there. -/
structure Forest.FirstAt (forest : Forest) (has : Node → Prop) (p : List Nat) (n : Node) : Prop where
  here : forest.at? p = some n
  holds : has n
  before : ∀ q m, q < p → forest.at? q = some m → ¬ has m

theorem Forest.FirstAt.unique {forest : Forest} {has : Node → Prop} {p q : List Nat} {n m : Node}
    (hp : forest.FirstAt has p n) (hq : forest.FirstAt has q m) : p = q ∧ n = m := by
  have hpq : p = q :=
    Std.Trichotomous.trichotomous p q (fun h => hq.before p n h hp.here hp.holds)
      fun h => hp.before q m h hq.here hq.holds
  subst hpq
  exact ⟨rfl, Option.some.inj (hp.here.symm.trans hq.here)⟩

mutual

theorem Node.firstAt_of_find? {f : Node → Bool} {m : Node} : ∀ {n : Node},
    n.flatten.find? f = some m →
      ∃ p, n.at? p = some m ∧ ∀ q k, q < p → n.at? q = some k → ¬ f k
  | ⟨id, componentId, type, data, context, effects, children⟩, h => by
    rw [Node.flatten_eq, List.find?_cons] at h
    split at h
    · cases h
      exact ⟨[], rfl, fun q k hq => absurd hq (List.not_lt_nil q)⟩
    · rename_i hself
      obtain ⟨p, hp⟩ := Forest.firstAt_of_find? h
      obtain _ | ⟨i, p⟩ := p
      · cases hp.here
      refine ⟨i :: p, hp.here, fun q k hq hk => ?_⟩
      cases q with
      | nil =>
        cases hk
        rw [hself]
        exact Bool.false_ne_true
      | cons j q => exact hp.before (j :: q) k hq hk

theorem Forest.firstAt_of_find? {f : Node → Bool} {m : Node} : ∀ {forest : Forest},
    forest.flatten.find? f = some m → ∃ p, forest.FirstAt (fun n => f n) p m
  | [], h => nomatch h
  | n :: rest, h => by
    have hm := List.find?_some h
    rw [Forest.flatten, List.find?_append, Option.or_eq_some_iff] at h
    rcases h with h | ⟨hnone, h⟩
    · obtain ⟨p, hp, hbefore⟩ := Node.firstAt_of_find? h
      refine ⟨0 :: p, hp, hm, fun q k hq hk => ?_⟩
      obtain _ | ⟨_ | j, q⟩ := q
      · cases hk
      · exact hbefore q k (by simpa [List.cons_lt_cons_iff] using hq) hk
      · simp [List.cons_lt_cons_iff] at hq
    · obtain ⟨p, hp⟩ := Forest.firstAt_of_find? h
      obtain _ | ⟨i, p⟩ := p
      · cases hp.here
      refine ⟨(i + 1) :: p, hp.here, hm, fun q k hq hk => ?_⟩
      obtain _ | ⟨_ | j, q⟩ := q
      · cases hk
      · exact List.find?_eq_none.mp hnone k (Node.mem_flatten_of_at? hk)
      · exact hp.before (j :: q) k (by simpa [List.cons_lt_cons_iff] using hq) hk

end

/-! ## Distinct ids -/

def Forest.IdsDiffer (forest : Forest) : Prop :=
  ∀ p q id, (forest.at? p).map Node.id = some id → (forest.at? q).map Node.id = some id → p = q

theorem Node.id_mem_of_at? {n : Node} {p : List Nat} {id : String}
    (h : (n.at? p).map Node.id = some id) : id ∈ n.flatten.map Node.id := by
  obtain ⟨m, hm, rfl⟩ := Option.map_eq_some_iff.mp h
  exact List.mem_map_of_mem (Node.mem_flatten_of_at? hm)

theorem Forest.id_mem_of_at? {forest : Forest} {p : List Nat} {id : String}
    (h : (forest.at? p).map Node.id = some id) : id ∈ forest.flatten.map Node.id := by
  obtain ⟨m, hm, rfl⟩ := Option.map_eq_some_iff.mp h
  exact List.mem_map_of_mem (Forest.mem_flatten_of_at? hm)

mutual

theorem Node.position_unique : ∀ {n : Node}, (n.flatten.map Node.id).Nodup → ∀ {p q id},
    (n.at? p).map Node.id = some id → (n.at? q).map Node.id = some id → p = q
  | ⟨id, componentId, type, data, context, effects, children⟩, h, p, q, i, hp, hq => by
    rw [Node.flatten_eq, List.map_cons, List.nodup_cons] at h
    obtain ⟨hself, hchildren⟩ := h
    cases p with
    | nil =>
      cases q with
      | nil => rfl
      | cons j q =>
        cases hp
        have hmem : (Node.mk id componentId type data context effects children).id ∈
            (Forest.flatten children).map Node.id := Forest.id_mem_of_at? (p := j :: q) hq
        exact absurd hmem hself
    | cons i p =>
      cases q with
      | nil =>
        cases hq
        have hmem : (Node.mk id componentId type data context effects children).id ∈
            (Forest.flatten children).map Node.id := Forest.id_mem_of_at? (p := i :: p) hp
        exact absurd hmem hself
      | cons j q => exact Forest.idsDiffer_of_nodup hchildren _ _ _ hp hq

theorem Forest.idsDiffer_of_nodup : ∀ {forest : Forest}, (forest.flatten.map Node.id).Nodup →
    forest.IdsDiffer
  | [], _, p, q, id, hp, _ => by
    cases p <;> cases hp
  | n :: rest, h, p, q, id, hp, hq => by
    rw [Forest.flatten, List.map_append, List.nodup_append] at h
    obtain ⟨hn, hrest, hdisjoint⟩ := h
    match p, q with
    | [], _ => cases hp
    | _, [] => cases hq
    | 0 :: p, 0 :: q => rw [Node.position_unique hn hp hq]
    | 0 :: p, (j + 1) :: q =>
      exact absurd rfl (hdisjoint _ (Node.id_mem_of_at? (p := p) hp) _
        (Forest.id_mem_of_at? (p := j :: q) hq))
    | (i + 1) :: p, 0 :: q =>
      exact absurd rfl (hdisjoint _ (Node.id_mem_of_at? (p := q) hq) _
        (Forest.id_mem_of_at? (p := i :: p) hp))
    | (i + 1) :: p, (j + 1) :: q =>
      have heq := Forest.idsDiffer_of_nodup hrest (i :: p) (j :: q) id hp hq
      rw [List.cons.injEq] at heq
      rw [heq.1, heq.2]

end

end Montage.Scene
