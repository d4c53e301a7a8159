import Montage.Proofs.Merge.Growth
import Montage.Proofs.Merge.Repeated

/-!
# Contexts merged one after another

To write one context over another is to take the timing and the boundaries that come last and to
write members over members, so contexts act on each other like the texts of a list that are joined:
it does not matter which are joined first, and the empty context does nothing. Merges of contexts
into one node are therefore one merge of all that they bring. This holds for the document as a
whole, also where the node that is changed is put in the place of others with its id: each merge
finds the node again that the one before has changed.
-/

namespace Montage

open Scene

/-! ## Contexts over contexts -/

namespace Scene.Context

theorem patch_assoc (a : Context) {b : Context} (c : Context) (hb : (Fields.keys b.extra).Nodup) :
    (a.patch b).patch c = a.patch (b.patch c) := by
  simp only [patch, Option.or_assoc, Fields.overlay_assoc _ _ hb]

theorem patch_empty (a : Context) : a.patch {} = a := rfl

theorem empty_patch {a : Context} (ha : (Fields.keys a.extra).Nodup) : patch {} a = a := by
  have hextra : Fields.overlay [] a.extra = a.extra := Fields.overlay_eq_append ha
  simp only [patch, Option.or_none, hextra]

/-- Contexts in one: each is written over those before it. -/
def combined (cs : List Context) : Context := cs.foldl patch {}

end Scene.Context

/-! ## Merges of contexts -/

/-- The contribution is merged at a position, into the node there, and brings a context. -/
def Scene.Contribution.BringsContext (c : Contribution) (forest : Forest) (p : List Nat) (n : Node)
    (x : Context) : Prop :=
  ∃ t, c.templates.head? = some t ∧ forest.TargetAt t.id p n ∧ t.context = x

def Scene.Node.withContext (n : Node) (x : Context) : Node :=
  { n with context := n.context.patch x }

/-- The document with a context written over that of a node, which then stands in the place of each
outermost node with its id. -/
def Scene.Document.withContext (d : Document) (n : Node) (x : Context) : Document :=
  { d with children := d.children.replace n.id (n.withContext x) }

theorem Scene.Node.withContext_withContext (n : Node) {x : Context} (y : Context)
    (hx : (Fields.keys x.extra).Nodup) :
    (n.withContext x).withContext y = n.withContext (x.patch y) := by
  simp only [Node.withContext, Context.patch_assoc n.context y hx]

theorem Scene.Forest.TargetAt.target_eq {forest : Forest} {root n : Node} {rest : Forest}
    {t : Template} {p : List Nat} (h : forest.TargetAt t.id p n) (hroot : forest = root :: rest) :
    forest.target root t = n := by
  obtain ⟨q, hq⟩ := Forest.target_at t hroot
  exact (hq.unique h).2

variable {d : Document} {c : Contribution} {p : List Nat} {n : Node} {x y : Context}

theorem Scene.Contribution.BringsContext.exists_root (h : c.BringsContext d.children p n x) :
    ∃ root rest, d.children = root :: rest := by
  obtain ⟨t, -, htarget, -⟩ := h
  refine List.exists_cons_of_ne_nil fun hnil => ?_
  have hmem := Forest.mem_flatten_of_at? htarget.at?_eq
  rw [hnil] at hmem
  cases hmem

theorem merge_context (h : c.BringsContext d.children p n x) :
    merge d c .context = (.ok ⟨.applied (some n.id), []⟩, d.withContext n x) := by
  obtain ⟨root, rest, hroot⟩ := h.exists_root
  obtain ⟨t, ht, htarget, rfl⟩ := h
  have hmerge := merge_patch d c .context hroot ht
  rw [htarget.target_eq hroot] at hmerge
  exact hmerge

/-- Where a context has been merged into the same node before, the two are merged as one. -/
theorem merge_withContext (hx : (Fields.keys x.extra).Nodup)
    (h : c.BringsContext d.children p n y) :
    (merge (d.withContext n x) c .context).2 = d.withContext n (x.patch y) := by
  obtain ⟨root, rest, hroot⟩ := h.exists_root
  obtain ⟨t, ht, htarget, rfl⟩ := h
  have htarget := htarget.target_eq hroot
  have htarget₀ : d.children.target root { t with context := x } = n := htarget
  obtain ⟨root', rest', hroot', htarget'⟩ :=
    Forest.target_replace (t := { t with context := x }) (u := t) .context hroot rfl
  rw [htarget₀] at hroot' htarget'
  have hchildren : (d.withContext n x).children = root' :: rest' := hroot'
  have hmerge := merge_patch (d.withContext n x) c .context hchildren ht
  rw [hchildren, htarget', ← hchildren] at hmerge
  calc (merge (d.withContext n x) c .context).2
      = { d with
          children :=
            (d.children.replace (n.withContext x).id (n.withContext x)).replace
              (n.withContext x).id ((n.withContext x).withContext t.context) } :=
        congrArg Prod.snd hmerge
    _ = d.withContext n (x.patch t.context) := by
        rw [Forest.replace_replace, Node.withContext_withContext n t.context hx]
        rfl

theorem mergeAll_withContext {cs : List Contribution} {xs : List Context}
    (hcs : List.Forall₂ (fun c x => c.BringsContext d.children p n x) cs xs) :
    ∀ {x : Context}, (Fields.keys x.extra).Nodup →
      mergeAll (d.withContext n x) .context cs = d.withContext n (xs.foldl Context.patch x) := by
  induction hcs with
  | nil => exact fun _ => rfl
  | cons hc _ ih =>
    intro x hx
    rw [mergeAll, List.foldl_cons, merge_withContext hx hc]
    exact ih (Fields.nodup_keys_overlay _ hx)

theorem mergeAll_context {cs : List Contribution} {xs : List Context} (hne : cs ≠ [])
    (hcs : List.Forall₂ (fun c x => c.BringsContext d.children p n x) cs xs) :
    mergeAll d .context cs = d.withContext n (Context.combined xs) := by
  cases hcs with
  | nil => exact absurd rfl hne
  | @cons c x cs xs hc hcs =>
    have hpatch : n.context.patch (Context.patch {} x) = n.context.patch x := by
      rw [← Context.patch_assoc (b := {}) _ _ List.nodup_nil, Context.patch_empty]
    have hfirst : d.withContext n x = d.withContext n (Context.patch {} x) := by
      rw [Document.withContext, Document.withContext, Node.withContext, Node.withContext, hpatch]
    rw [mergeAll, List.foldl_cons, merge_context hc, hfirst]
    exact mergeAll_withContext hcs (Fields.nodup_keys_overlay _ List.nodup_nil)

/-- **Contexts that are written over one another form a monoid, and it acts on documents.** Which of
three is written first does not matter, also for the order of the members; the empty context is a
unit on both sides; to write a context twice is to write it once. And contexts that are merged into
one node one after another come to the same document as one that combines them all. -/
theorem contexts_act :
    (∀ a b c : Context, (Fields.keys b.extra).Nodup →
      (a.patch b).patch c = a.patch (b.patch c)) ∧
    (∀ a : Context, a.patch {} = a ∧ ((Fields.keys a.extra).Nodup → Context.patch {} a = a)) ∧
    (∀ a b : Context, (a.patch b).patch b = a.patch b) ∧
    ∀ (d : Document) (p : List Nat) (n : Node) (cs : List Contribution) (xs : List Context)
      (c : Contribution), cs ≠ [] →
      List.Forall₂ (fun c x => c.BringsContext d.children p n x) cs xs →
      c.BringsContext d.children p n (Context.combined xs) →
      (merge d c .context).1 = .ok ⟨.applied (some n.id), []⟩ ∧
        mergeAll d .context cs = (merge d c .context).2 := by
  refine ⟨fun a b c hb => a.patch_assoc c hb, fun a => ⟨a.patch_empty, Context.empty_patch⟩,
    Context.patch_patch, fun d p n cs xs c hne hcs hc => ?_⟩
  rw [merge_context hc]
  exact ⟨rfl, mergeAll_context hne hcs⟩

/-- Two roots have the same id, and the first template names no node. The members come in the order
in which the run first has them, and the timing is that of the second contribution as a whole. -/
theorem contexts_act_rootsAlike :
    let node : Context → Node := fun x => ⟨"a", "Card", .scene, [], x, [], []⟩
    let d : Document := ⟨[node { extra := [("x", .ofNat 1)] }, node {}], {}, []⟩
    let bring : String → Context → Contribution := fun id x =>
      { output := { children := some [{ id := id, context := x }] } }
    let first : Context :=
      { timing := some { fitDurationTo := some "b" }, extra := [("z", .null), ("y", .ofNat 2)] }
    let second : Context := { timing := some {}, extra := [("y", .ofNat 3), ("x", .ofNat 4)] }
    (merge d (bring "a" (first.patch second)) .context).1 = .ok ⟨.applied (some "a"), []⟩ ∧
      mergeAll d .context [bring "none" first, bring "a" second] =
        (merge d (bring "a" (first.patch second)) .context).2 ∧
      (mergeAll d .context [bring "none" first, bring "a" second]).children =
        List.replicate 2 (node
          { timing := some {}, extra := [("x", .ofNat 4), ("z", .null), ("y", .ofNat 3)] }) := by
  intro node d bring first second
  let n : Node := node { extra := [("x", .ofNat 1)] }
  have hfirst : d.children.TargetAt "a" [0] n := by
    refine .first ⟨rfl, rfl, fun q m hq hm => ?_⟩
    obtain _ | ⟨i, q⟩ := q
    · cases hm
    · simp [List.cons_lt_cons_iff] at hq
  have hroot : d.children.TargetAt "none" [0] n := by
    refine .root (fun p m hm => ?_) rfl
    have hmem : m ∈ [n, node {}] := Forest.mem_flatten_of_at? hm
    have hid : m.id = "a" := by
      simp only [List.mem_cons, List.not_mem_nil, or_false] at hmem
      rcases hmem with rfl | rfl <;> rfl
    rw [hid]
    decide
  have hrun : List.Forall₂ (fun c x => c.BringsContext d.children [0] n x)
      [bring "none" first, bring "a" second] [first, second] :=
    .cons ⟨_, rfl, hroot, rfl⟩ (.cons ⟨_, rfl, hfirst, rfl⟩ .nil)
  obtain ⟨hreport, hdocument⟩ := contexts_act.2.2.2 d [0] n _ _ (bring "a" (first.patch second))
    (List.cons_ne_nil _ _) hrun ⟨_, rfl, hfirst, rfl⟩
  exact ⟨hreport, hdocument, rfl⟩

end Montage
