import Montage.Proofs.Except
import Montage.Proofs.Scene.Position
import Montage.Scene.Template

/-!
# What holds of every node

A property of the own parts of nodes that holds at every depth, followed through the operations that
a merge is made of: none of them changes the own parts of a node that it leaves where it is.
-/

namespace Montage.Scene

variable {P : Node → Prop}

/-- The own parts of a node and of all nodes inside it have the property. -/
def Node.Every (P : Node → Prop) (n : Node) : Prop := ∀ m ∈ n.flatten, P m.own

def Forest.Every (P : Node → Prop) (forest : Forest) : Prop := ∀ m ∈ forest.flatten, P m.own

theorem Node.every_iff (n : Node) : n.Every P ↔ P n.own ∧ Forest.Every P n.children := by
  rw [Node.Every, Node.flatten_eq, List.forall_mem_cons, Forest.Every]

theorem Forest.every_nil : Forest.Every P [] := nofun

theorem Forest.every_cons (n : Node) (rest : Forest) :
    Forest.Every P (n :: rest) ↔ n.Every P ∧ Forest.Every P rest := by
  rw [Forest.Every, Forest.flatten, List.forall_mem_append, Node.Every, Forest.Every]

theorem Forest.every_append (a b : Forest) :
    Forest.Every P (a ++ b) ↔ Forest.Every P a ∧ Forest.Every P b := by
  induction a with
  | nil => exact ⟨fun h => ⟨Forest.every_nil, h⟩, And.right⟩
  | cons n rest ih => rw [List.cons_append, Forest.every_cons, Forest.every_cons, ih, and_assoc]

mutual

theorem Node.Every.of_mem : ∀ {n m : Node}, n.Every P → m ∈ n.flatten → m.Every P
  | ⟨id, componentId, type, data, context, effects, children⟩, m, h, hm => by
    rw [Node.flatten_eq] at hm
    rcases List.mem_cons.mp hm with rfl | hm
    · exact h
    · exact Forest.Every.of_mem ((Node.every_iff _).mp h).2 hm

theorem Forest.Every.of_mem : ∀ {forest : Forest} {m : Node},
    forest.Every P → m ∈ forest.flatten → m.Every P
  | [], _, _, hm => nomatch hm
  | n :: rest, m, h, hm => by
    rw [Forest.every_cons] at h
    rw [Forest.flatten, List.mem_append] at hm
    rcases hm with hm | hm
    · exact Node.Every.of_mem h.1 hm
    · exact Forest.Every.of_mem h.2 hm

end

/-! ## What the operations keep -/

theorem Template.toNodes_cons {t : Template} {ts : List Template} {ns : List Node}
    (h : Template.toNodes (t :: ts) = .ok ns) :
    ∃ n rest, t.toNode = .ok n ∧ Template.toNodes ts = .ok rest ∧ ns = n :: rest := by
  rw [Template.toNodes, List.mapM_cons] at h
  obtain ⟨n, hn, h⟩ := eq_ok_of_bind h
  obtain ⟨rest, hrest, h⟩ := eq_ok_of_bind h
  cases h
  exact ⟨n, rest, hn, hrest, rfl⟩

theorem Template.toNodes_eq_ok_iff {ts : List Template} {ns : List Node} :
    Template.toNodes ts = .ok ns ↔ ts.map Template.toNode = ns.map .ok := by
  induction ts generalizing ns with
  | nil =>
    cases ns with
    | nil => exact ⟨fun _ => rfl, fun _ => rfl⟩
    | cons => exact ⟨nofun, nofun⟩
  | cons t ts ih =>
    constructor
    · intro h
      obtain ⟨n, rest, hn, hrest, rfl⟩ := Template.toNodes_cons h
      rw [List.map_cons, List.map_cons, hn, ih.mp hrest]
    · intro h
      obtain _ | ⟨n, rest⟩ := ns
      · cases h
      obtain ⟨hn, hrest⟩ := List.cons.inj h
      have htail := ih.mpr hrest
      rw [Template.toNodes] at htail ⊢
      rw [List.mapM_cons, hn, ok_bind, htail, ok_bind]
      rfl

theorem Template.exists_nodes {ts : List Template} (h : ∀ t ∈ ts, ∃ n, t.toNode = .ok n) :
    ∃ ns : List Node, ts.map Template.toNode = ns.map .ok := by
  induction ts with
  | nil => exact ⟨[], rfl⟩
  | cons t ts ih =>
    obtain ⟨⟨n, hn⟩, hts⟩ := List.forall_mem_cons.mp h
    obtain ⟨ns, hns⟩ := ih hts
    exact ⟨n :: ns, by rw [List.map_cons, List.map_cons, hn, hns]⟩

theorem Template.mapM_toNodes {templates : Option (List Template)} {children : Option (List Node)}
    (h : templates.mapM Template.toNodes = .ok children) :
    (templates = none ∧ children = none) ∨
      ∃ ts ns, templates = some ts ∧ children = some ns ∧ Template.toNodes ts = .ok ns := by
  cases templates with
  | none =>
    cases h
    exact .inl ⟨rfl, rfl⟩
  | some ts =>
    rw [Option.mapM_some] at h
    obtain ⟨ns, hns, h⟩ := eq_ok_of_bind h
    cases h
    exact .inr ⟨ts, ns, rfl, rfl, hns⟩

theorem Template.every_toNodes {ts : List Template} {ns : List Node}
    (h : Template.toNodes ts = .ok ns) (hts : ∀ t ∈ ts, ∀ n, t.toNode = .ok n → n.Every P) :
    Forest.Every P ns := by
  induction ts generalizing ns with
  | nil =>
    cases h
    exact Forest.every_nil
  | cons t ts ih =>
    obtain ⟨n, rest, hn, hrest, rfl⟩ := Template.toNodes_cons h
    rw [List.forall_mem_cons] at hts
    rw [Forest.every_cons]
    exact ⟨hts.1 n hn, ih hrest hts.2⟩

mutual

theorem Node.every_replaceIds {ids : List String} {replacement : Node}
    (hreplacement : replacement.Every P) : ∀ {n : Node}, n.Every P →
      (Node.replaceIds ids replacement n).Every P
  | ⟨id, componentId, type, data, context, effects, children⟩, h => by
    rw [Node.replaceIds]
    split
    · exact hreplacement
    · rw [Node.every_iff] at h ⊢
      exact ⟨h.1, Forest.every_replaceIds hreplacement h.2⟩

theorem Forest.every_replaceIds {ids : List String} {replacement : Node}
    (hreplacement : replacement.Every P) : ∀ {forest : Forest}, forest.Every P →
      Forest.Every P (Forest.replaceIds ids replacement forest)
  | [], _ => Forest.every_nil
  | n :: rest, h => by
    rw [Forest.every_cons] at h
    rw [Forest.replaceIds, Forest.every_cons]
    exact ⟨Node.every_replaceIds hreplacement h.1, Forest.every_replaceIds hreplacement h.2⟩

end

mutual

theorem Node.every_appendTo? {id : String} {added : List Node} : ∀ {n n' : Node},
    n.appendTo? id added = some n' → (n'.Every P ↔ n.Every P ∧ Forest.Every P added)
  | ⟨nodeId, componentId, type, data, context, effects, children⟩, n', h => by
    rw [Node.appendTo?] at h
    split at h
    · cases h
      rw [Node.every_iff, Node.every_iff, Forest.every_append, and_assoc]
      exact Iff.rfl
    · obtain ⟨children', hchildren, rfl⟩ := Option.map_eq_some_iff.mp h
      rw [Node.every_iff, Node.every_iff, Forest.every_appendTo? hchildren, and_assoc]
      exact Iff.rfl

theorem Forest.every_appendTo? {id : String} {added : List Node} : ∀ {forest forest' : Forest},
    Forest.appendTo? id added forest = some forest' →
      (forest'.Every P ↔ forest.Every P ∧ Forest.Every P added)
  | n :: rest, forest', h => by
    rw [Forest.appendTo?] at h
    rcases hn : n.appendTo? id added with _ | n'
    · rw [hn] at h
      obtain ⟨rest', hrest, rfl⟩ := Option.map_eq_some_iff.mp h
      rw [Forest.every_cons, Forest.every_cons, Forest.every_appendTo? hrest, and_assoc]
    · rw [hn] at h
      cases h
      rw [Forest.every_cons, Forest.every_cons, Node.every_appendTo? hn]
      exact ⟨fun h => ⟨⟨h.1.1, h.2⟩, h.1.2⟩, fun h => ⟨⟨h.1.1, h.2⟩, h.1.2⟩⟩

end

end Montage.Scene
