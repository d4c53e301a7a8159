import Montage.Proofs.Scene.Every
import Montage.Scene.Document

/-!
# Valid documents

A document is valid if its settings are and no node at any depth has a blank id. What becomes of
the ids is followed through each of the operations that a merge is made of.
-/

namespace Montage.Scene

/-! ## Nodes with ids -/

/-- A node and all nodes inside it have ids. -/
def Node.Named (n : Node) : Prop := ∀ m ∈ n.flatten, Text.isBlankText m.id = false

def Forest.Named (forest : Forest) : Prop := ∀ m ∈ forest.flatten, Text.isBlankText m.id = false

def Node.HasId (n : Node) : Prop := Text.isBlankText n.id = false

theorem Node.named_iff (n : Node) :
    n.Named ↔ Text.isBlankText n.id = false ∧ Forest.Named n.children := @Node.every_iff HasId n

theorem Forest.named_nil : Forest.Named [] := nofun

theorem Forest.named_cons (n : Node) (rest : Forest) :
    Forest.Named (n :: rest) ↔ n.Named ∧ Forest.Named rest :=
  @Forest.every_cons Node.HasId n rest

/-! ## Validity -/

theorem checks_ok_iff (a b : Outcome Unit) :
    (a >>= fun _ => b) = .ok () ↔ a = .ok () ∧ b = .ok () := by
  rcases a with f | _
  · exact ⟨nofun, nofun⟩
  · exact ⟨fun h => ⟨rfl, h⟩, And.right⟩

mutual

theorem Node.validate_eq_ok_iff : ∀ n : Node, n.validate = .ok () ↔ n.Named
  | ⟨id, componentId, type, data, context, effects, children⟩ => by
    rw [Node.named_iff, Node.validate, ← Node.validateAll_eq_ok_iff children]
    rcases hid : Text.isBlankText id with _ | _
    · rw [if_neg Bool.false_ne_true]
      exact ⟨fun h => ⟨rfl, h⟩, And.right⟩
    · rw [if_pos rfl]
      exact ⟨nofun, nofun⟩

theorem Node.validateAll_eq_ok_iff : ∀ forest : Forest,
    Node.validateAll forest = .ok () ↔ forest.Named
  | [] => ⟨fun _ => Forest.named_nil, fun _ => rfl⟩
  | n :: rest => by
    rw [Forest.named_cons, Node.validateAll, checks_ok_iff, Node.validate_eq_ok_iff n,
      Node.validateAll_eq_ok_iff rest]

end

theorem Document.validate_eq_ok_iff (d : Document) :
    d.validate = .ok () ↔ d.config.validate = .ok () ∧ d.children.Named := by
  rw [Document.validate, checks_ok_iff, Node.validateAll_eq_ok_iff]

theorem Config.validate_patch {c c' : Config} {p : Fields} (hpatch : c.patch p = .ok c')
    (hc : c.validate = .ok ()) : c'.validate = .ok () := by
  rw [Config.patch] at hpatch
  split at hpatch
  · cases hpatch
    exact hc
  · generalize Except.mapError _ _ = read at hpatch
    rcases read with f | patched
    · cases hpatch
    rcases hvalid : patched.validate with f | _
    · simp only [bind, Except.bind, hvalid] at hpatch
      cases hpatch
    · simp only [bind, Except.bind, hvalid] at hpatch
      cases hpatch
      exact hvalid

/-! ## What the operations do to ids -/

theorem Template.toNode_ok {t : Template} {n : Node} (h : t.toNode = .ok n) :
    Text.isBlankText n.id = false ∧ n.children = t.children := by
  rw [Template.toNode] at h
  split at h
  · cases h
  · rename_i hid
    rcases htype : t.type with _ | type
    · rw [htype] at h
      cases h
    · rw [htype] at h
      cases h
      exact ⟨Bool.eq_false_iff.mpr hid, rfl⟩

/-- The ids of complete templates have been looked at, those of the nodes inside them have not. -/
theorem Template.named_toNodes {ts : List Template} {ns : List Node}
    (h : Template.toNodes ts = .ok ns) :
    Forest.Named ns ↔ ∀ t ∈ ts, Forest.Named t.children := by
  induction ts generalizing ns with
  | nil =>
    cases h
    exact ⟨fun _ t ht => absurd ht List.not_mem_nil, fun _ => Forest.named_nil⟩
  | cons t ts ih =>
    obtain ⟨n, rest, hn, hrest, rfl⟩ := Template.toNodes_cons h
    obtain ⟨hid, hchildren⟩ := Template.toNode_ok hn
    rw [Forest.named_cons, Node.named_iff, hchildren, ih hrest, List.forall_mem_cons]
    exact and_congr_left fun _ => and_iff_right hid

theorem Forest.named_appendTo? {id : String} {added : List Node} {forest forest' : Forest}
    (h : Forest.appendTo? id added forest = some forest') :
    forest'.Named ↔ forest.Named ∧ Forest.Named added :=
  @Forest.every_appendTo? Node.HasId _ _ _ _ h

end Montage.Scene
