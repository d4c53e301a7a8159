import Montage.Proofs.Json.Parts
import Montage.Proofs.Scene.Position
import Montage.Proofs.Scene.Wire

/-!
# What a document carries over

A document that has been read and is written again has lost nothing that is free in form: the style,
the data of nodes and of effects, and the members of settings, contexts and timings that are no
parts of them. It may have been written otherwise before, its records as lists of their parts and a
single effect without a list around it, and parts may have been missing. The statement therefore
looks at both values by the parts of their records, and at their nodes by position.
-/

namespace Montage.Scene

open Decode

/-! ## Carrying over -/

/-- What is written has the parts first, and behind them all other members of the value, as they
were. -/
def CarriesBesides (parts : List String) (v w : Json) : Prop :=
  ∃ members own, v = .object members ∧
    w = .object (own ++ members.filter fun member => !parts.contains member.1) ∧
    (Fields.keys own).Sublist parts

/-- The members besides the parts of a context and of its timing are written again. -/
structure Context.Carries (v w : Json) : Prop where
  besides : CarriesBesides parts v w
  timing : ∀ t, v.get? "timing" = some t → t ≠ .null →
    ∃ u, w.get? "timing" = some u ∧ CarriesBesides Timing.parts t u

def Effect.parts : List String := ["id", "componentId", "data"]

/-- The data of an effect is written again. -/
def Effect.Carries (v w : Json) : Prop :=
  w.get? "data" = some ((v.part? parts "data").getD (.object []))

/-- The effects in a value: none in `null`, and a single one is an object or the list of its parts,
which begins with a text, its id. -/
def Effect.listed : Json → List Json
  | .null => []
  | .array (.string id :: rest) => [.array (.string id :: rest)]
  | .array items => items
  | v => [v]

/-- The data of a node and of its effects and the members besides the parts of its context are
written again. -/
structure Node.Carries (v w : Json) : Prop where
  data : w.get? "data" = some ((v.part? parts "data").getD (.object []))
  context : ∃ x, w.get? "context" = some x ∧
    Context.Carries ((v.part? parts "context").getD (.object [])) x
  effects : ∃ items, w.get? "effects" = some (.array items) ∧
    List.Forall₂ Effect.Carries (Effect.listed ((v.part? parts "effects").getD .null)) items

def inside? (parts : List String) (v : Json) (i : Nat) : Option Json :=
  match v.part? parts "childrenData" with
  | some (.array items) => items[i]?
  | _ => none

def Node.writtenAt? (v : Json) : List Nat → Option Json
  | [] => some v
  | i :: p => (inside? parts v i).bind (writtenAt? · p)

/-- What is written of the node at a position of a document. -/
def Document.writtenAt? (v : Json) : List Nat → Option Json
  | [] => none
  | i :: p => (inside? parts v i).bind (Node.writtenAt? · p)

/-- What is free in form is written again: the style, the settings besides their parts, and all that
the node at each position carries. -/
structure Document.Carries (v w : Json) : Prop where
  style : w.get? "style" = some ((v.part? parts "style").getD (.object []))
  config : ∃ x, w.get? "config" = some x ∧
    CarriesBesides Config.parts ((v.part? parts "config").getD (.object [])) x
  nodes : ∀ p, Option.Rel Node.Carries (writtenAt? v p) (writtenAt? w p)

/-! ## Records with members besides -/

theorem carriesBesides_overlay {parts : List String} {members own : Fields}
    (hkeys : (Fields.keys members).Nodup) (hparts : parts.Nodup)
    (hown : (Fields.keys own).Sublist parts) :
    CarriesBesides parts (.object members)
      (.object (Fields.overlay own (members.filter fun member => !parts.contains member.1))) := by
  have hbesides : Besides parts (members.filter fun member => !parts.contains member.1) :=
    besides_filter hkeys
  have hdistinct : (Fields.keys
      (own ++ members.filter fun member => !parts.contains member.1)).Nodup := by
    rw [Fields.keys_append, List.nodup_append]
    refine ⟨hparts.sublist hown, hbesides.1, fun key hkey key' hkey' heq => ?_⟩
    rw [heq] at hkey
    exact hbesides.2 key' hkey' (hown.subset hkey)
  exact ⟨members, own, rfl, by rw [Fields.overlay_eq_append hdistinct], hown⟩

theorem Timing.carries {v : Json} {t : Timing} (hv : v.WellFormed) (h : ofJson v = .ok t) :
    CarriesBesides parts v t.toJson := by
  obtain ⟨⟨t, extra⟩, ht, h⟩ := eq_ok_of_bind h
  cases h
  obtain ⟨members, rfl, -, rfl⟩ := exists_members_of_openRecord ht
  refine carriesBesides_overlay hv.1 (by decide) ?_
  rw [Fields.keys_append, Fields.keys_append]
  exact ((keys_member? _ _ _).append (keys_member? _ _ _)).append (keys_member? _ _ _)

theorem Config.carries {v : Json} {c : Config} (hv : v.WellFormed) (h : ofJson v = .ok c) :
    CarriesBesides parts v c.toJson := by
  obtain ⟨⟨c, extra⟩, hc, h⟩ := eq_ok_of_bind h
  cases h
  obtain ⟨members, rfl, -, rfl⟩ := exists_members_of_openRecord hc
  exact carriesBesides_overlay hv.1 (by decide) (List.Sublist.refl _)

theorem Context.sets_timing : Sets read "timing" (·.timing) fun v t =>
    optional Timing.ofJson v = .ok t where
  reads h := by
    obtain ⟨t, ht, h⟩ := eq_ok_of_bind h
    cases h
    exact ht
  keeps hother h := by
    rw [read, if_neg hother] at h
    split at h
    · obtain ⟨b, -, h⟩ := eq_ok_of_bind h
      cases h
      rfl
    · cases h
      rfl

theorem Context.carries {v : Json} {c : Context} (hv : v.WellFormed) (h : ofJson v = .ok c) :
    Carries v c.toJson := by
  obtain ⟨⟨c, extra⟩, hc, h⟩ := eq_ok_of_bind h
  cases h
  obtain ⟨members, rfl, hread, rfl⟩ := exists_members_of_openRecord hc
  refine ⟨carriesBesides_overlay hv.1 (by decide) ?_, fun t ht hnull => ?_⟩
  · rw [Fields.keys_append]
    exact (keys_member? _ _ _).append (keys_member? _ _ _)
  · have hget : Fields.get? members "timing" = some t := ht
    have htiming := sets_timing.foldlM hv.1 hread
    rw [hget] at htiming
    obtain ⟨timing, hsome, htiming⟩ := exists_of_optional hnull htiming
    refine ⟨timing.toJson, ?_, Timing.carries ?_ htiming⟩
    · have hbesides : Besides parts (members.filter fun member => !parts.contains member.1) :=
        besides_filter hv.1
      have hpart : "timing" ∈ parts := by decide
      have hnone := hbesides.get?_eq_none hpart
      rw [toJson, Json.get?, Fields.get?_overlay, hnone, Option.none_or, Fields.get?_append]
      dsimp only at hsome ⊢
      rw [hsome]
      rfl
    · exact fieldsWellFormed_iff.mp hv.2 _ (Fields.mem_of_get? hget)

/-! ## Effects -/

theorem Effect.sets_data : Sets Draft.read "data" (·.data) fun v data =>
    Decode.fields v = .ok data where
  reads h := by
    obtain ⟨data, hdata, h⟩ := eq_ok_of_bind h
    cases h
    exact hdata
  keeps hother h := by
    unfold Draft.read at h
    rw [if_neg hother] at h
    repeat' split at h
    case isFalse =>
      cases h
      rfl
    all_goals
      obtain ⟨_, -, h⟩ := eq_ok_of_bind h
      cases h
      rfl

theorem Effect.carries {v : Json} {e : Effect} (hv : v.WellFormed) (h : ofJson v = .ok e) :
    Carries v e.toJson := by
  obtain ⟨missing, d, hd, h⟩ := exists_draft_of_record h
  obtain ⟨id, -, h⟩ := eq_ok_of_bind h
  obtain ⟨componentId, -, h⟩ := eq_ok_of_bind h
  cases h
  have hkeys : (Fields.keys (v.membersOf parts)).Nodup := v.nodup_keys_membersOf (by decide) hv
  exact congrArg some (object_eq_of_fields (sets_data.foldlM hkeys hd))

theorem Effect.eq_of_ofJson_array {v : Json} {rest : List Json} {e : Effect}
    (h : ofJson (.array (v :: rest)) = .ok e) : ∃ id, v = .string id := by
  obtain ⟨d, hd, -⟩ := eq_ok_of_bind h
  obtain ⟨d', hd', -⟩ := eq_ok_of_bind hd
  obtain ⟨id, hid, -⟩ := eq_ok_of_bind hd'
  cases v with
  | string s => exact ⟨s, rfl⟩
  | _ => cases hid

theorem Effect.forall₂_listed {v : Json} {effects : List Effect} (h : listOfJson v = .ok effects) :
    List.Forall₂ (fun x e => ofJson x = .ok e) (listed v) effects := by
  unfold listOfJson at h
  rcases hlist : Decode.list ofJson v with _ | effects' <;> rw [hlist] at h
  · rcases hone : ofJson v with _ | effect <;> rw [hone] at h
    · cases v <;> cases h
      exact .nil
    · cases h
      cases v with
      | object members => exact .cons hone .nil
      | array items =>
        cases items with
        | nil => cases hlist
        | cons v rest =>
          obtain ⟨id, rfl⟩ := eq_of_ofJson_array hone
          exact .cons hone .nil
      | _ => cases hone
  · cases h
    cases v with
    | array items =>
      have hitems := forall₂_of_mapM hlist
      have hlisted : listed (.array items) = items := by
        cases hitems with
        | nil => rfl
        | @cons x _ _ _ hx _ =>
          cases x with
          | string id => cases hx
          | _ => rfl
      rw [hlisted]
      exact hitems
    | _ => cases hlist

theorem Effect.wellFormed_listed {v : Json} (hv : v.WellFormed) : ∀ x ∈ listed v, x.WellFormed := by
  unfold listed
  split
  · simp
  · simpa using hv
  · exact itemsWellFormed_iff.mp hv
  · simpa using hv

theorem Effect.forall₂_carries {v : Json} {effects : List Effect} (hv : v.WellFormed)
    (h : listOfJson v = .ok effects) :
    List.Forall₂ Carries (listed v) (effects.map toJson) := by
  have hread := (List.forall₂_and_left _ _).mpr ⟨wellFormed_listed hv, forall₂_listed h⟩
  exact List.forall₂_map_right_iff.mpr (hread.imp fun _ _ hx => Effect.carries hx.1 hx.2)

/-! ## Nodes -/

def Node.Draft.readPart (d : Draft) (part : String) (v : Json) : Decoded Draft :=
  if part = "childrenData" then do return { d with children := ← listOfJson v }
  else d.read part v

theorem Node.readMembers_eq (members : Fields) :
    ∀ d, readMembers d members =
      members.foldlM (fun d member => d.readPart member.1 member.2) d := by
  induction members with
  | nil =>
    intro d
    rw [readMembers]
    rfl
  | cons member rest ih =>
    intro d
    obtain ⟨part, v⟩ := member
    rw [readMembers, List.foldlM_cons, Draft.readPart]
    split
    · rw [bind_assoc]
      exact bind_congr fun children => ih _
    · exact bind_congr fun d => ih d

theorem Node.readPlaces_eq (parts : List String) :
    ∀ (items : List Json) (d : Draft), readPlaces d parts items =
      (parts.zip items).foldlM (fun d member => d.readPart member.1 member.2) d := by
  induction parts with
  | nil =>
    intro items d
    rw [readPlaces]
    · rfl
    all_goals simp
  | cons part parts ih =>
    intro items d
    cases items with
    | nil =>
      rw [readPlaces]
      · rfl
      all_goals simp
    | cons v rest =>
      rw [readPlaces, List.zip_cons_cons, List.foldlM_cons, Draft.readPart]
      split
      · rw [bind_assoc]
        exact bind_congr fun children => ih rest _
      · exact bind_congr fun d => ih rest d

theorem Node.ofJson_eq_record (v : Json) :
    ofJson v = Decode.record "Node" parts Draft.readPart {} Draft.finish v := by
  cases v with
  | object members =>
    rw [ofJson, readMembers_eq]
    rfl
  | array items =>
    rw [ofJson, readPlaces_eq]
    rfl
  | _ =>
    rw [ofJson]
    · rfl
    all_goals simp

theorem Node.Draft.keeps_parts {d d' : Draft} {part : String} {v : Json}
    (h : d.readPart part v = .ok d') :
    (part ≠ "data" → d'.data = d.data) ∧ (part ≠ "context" → d'.context = d.context) ∧
      (part ≠ "effects" → d'.effects = d.effects) ∧
      (part ≠ "childrenData" → d'.children = d.children) := by
  unfold readPart read at h
  repeat' split at h
  case isFalse =>
    cases h
    exact ⟨fun _ => rfl, fun _ => rfl, fun _ => rfl, fun _ => rfl⟩
  all_goals
    obtain ⟨_, -, h⟩ := eq_ok_of_bind h
    cases h
    simp [*]

theorem Node.Draft.sets_data : Sets readPart "data" (·.data) fun v data =>
    Decode.fields v = .ok data where
  reads h := by
    obtain ⟨data, hdata, h⟩ := eq_ok_of_bind h
    cases h
    exact hdata
  keeps hother h := (keeps_parts h).1 hother

theorem Node.Draft.sets_context : Sets readPart "context" (·.context) fun v c =>
    Context.ofJson v = .ok c where
  reads h := by
    obtain ⟨c, hc, h⟩ := eq_ok_of_bind h
    cases h
    exact hc
  keeps hother h := (keeps_parts h).2.1 hother

theorem Node.Draft.sets_effects : Sets readPart "effects" (·.effects) fun v effects =>
    Effect.listOfJson v = .ok effects where
  reads h := by
    obtain ⟨effects, heffects, h⟩ := eq_ok_of_bind h
    cases h
    exact heffects
  keeps hother h := (keeps_parts h).2.2.1 hother

theorem Node.Draft.sets_children : Sets readPart "childrenData" (·.children) fun v ns =>
    listOfJson v = .ok ns where
  reads h := by
    obtain ⟨ns, hns, h⟩ := eq_ok_of_bind h
    cases h
    exact hns
  keeps hother h := (keeps_parts h).2.2.2 hother

structure Node.ReadFrom (v : Json) (n : Node) : Prop where
  data : .object n.data = (v.part? parts "data").getD (.object [])
  context : (v.part? parts "context").elim (n.context = {}) fun x =>
    Context.ofJson x = .ok n.context
  effects : (v.part? parts "effects").elim (n.effects = []) fun x =>
    Effect.listOfJson x = .ok n.effects
  children : (v.part? parts "childrenData").elim (n.children = []) fun x =>
    listOfJson x = .ok n.children

theorem Node.readFrom_of_ofJson {v : Json} {n : Node} (hv : v.WellFormed) (h : ofJson v = .ok n) :
    ReadFrom v n := by
  rw [ofJson_eq_record] at h
  obtain ⟨missing, d, hd, h⟩ := exists_draft_of_record h
  obtain ⟨id, -, h⟩ := eq_ok_of_bind h
  obtain ⟨type, -, h⟩ := eq_ok_of_bind h
  cases h
  have hkeys : (Fields.keys (v.membersOf parts)).Nodup := v.nodup_keys_membersOf (by decide) hv
  exact ⟨object_eq_of_fields (Draft.sets_data.foldlM hkeys hd),
    Draft.sets_context.foldlM hkeys hd, Draft.sets_effects.foldlM hkeys hd,
    Draft.sets_children.foldlM hkeys hd⟩

theorem Node.get?_toJson (n : Node) :
    n.toJson.get? "data" = some (.object n.data) ∧
      n.toJson.get? "context" = some n.context.toJson ∧
      n.toJson.get? "effects" = some (.array (n.effects.map Effect.toJson)) ∧
      n.toJson.get? "childrenData" = some (.array (toItems n.children)) := by
  cases n
  rw [toJson]
  exact ⟨rfl, rfl, rfl, rfl⟩

theorem Node.carries {v : Json} {n : Node} (hv : v.WellFormed) (h : ofJson v = .ok n) :
    Carries v n.toJson := by
  have hread := readFrom_of_ofJson hv h
  obtain ⟨hdata, hcontext, heffects, -⟩ := n.get?_toJson
  refine ⟨hread.data ▸ hdata, ⟨_, hcontext, ?_⟩, ⟨_, heffects, ?_⟩⟩
  · have hc := hread.context
    cases hpart : v.part? parts "context" with
    | none =>
      rw [hpart] at hc
      have hc : n.context = {} := hc
      rw [hc]
      exact Context.carries ⟨List.nodup_nil, trivial⟩ rfl
    | some x =>
      rw [hpart] at hc
      exact Context.carries (Json.wellFormed_of_part? hv hpart) hc
  · have he := hread.effects
    cases hpart : v.part? parts "effects" with
    | none =>
      rw [hpart] at he
      have he : n.effects = [] := he
      rw [he]
      exact .nil
    | some x =>
      rw [hpart] at he
      exact Effect.forall₂_carries (Json.wellFormed_of_part? hv hpart) he

/-! ## Positions -/

theorem Node.forall₂_ofItems {items : List Json} {ns : List Node} (h : ofItems items = .ok ns) :
    List.Forall₂ (fun v n => ofJson v = .ok n) items ns := by
  induction items generalizing ns with
  | nil =>
    rw [ofItems] at h
    cases h
    exact .nil
  | cons v rest ih =>
    rw [ofItems] at h
    obtain ⟨n, hn, h⟩ := eq_ok_of_bind h
    obtain ⟨ns, hns, h⟩ := eq_ok_of_bind h
    cases h
    exact .cons hn (ih hns)

theorem Node.toItems_eq_map (ns : List Node) : toItems ns = ns.map toJson := by
  induction ns with
  | nil => rw [toItems, List.map_nil]
  | cons n rest ih => rw [toItems, List.map_cons, ih]

theorem rel_getElem? {α β : Type} {R : α → β → Prop} {as : List α} {bs : List β}
    (h : List.Forall₂ R as bs) (i : Nat) : Option.Rel R as[i]? bs[i]? := by
  induction h generalizing i with
  | nil => exact .none
  | cons hab _ ih =>
    cases i with
    | zero => exact .some hab
    | succ i => exact ih i

theorem rel_bind {α β α' β' : Type} {R : α → β → Prop} {S : α' → β' → Prop} {a : Option α}
    {b : Option β} {f : α → Option α'} {g : β → Option β'} (h : Option.Rel R a b)
    (hfg : ∀ x y, R x y → Option.Rel S (f x) (g y)) : Option.Rel S (a.bind f) (b.bind g) := by
  cases h with
  | none => exact .none
  | some hab => exact hfg _ _ hab

/-- A node has been read from what is written of it. -/
def Node.IsRead (v : Json) (n : Node) : Prop := v.WellFormed ∧ ofJson v = .ok n

theorem rel_inside? {parts : List String} {v : Json} {ns : List Node} (hv : v.WellFormed)
    (h : (v.part? parts "childrenData").elim (ns = []) fun x => Node.listOfJson x = .ok ns)
    (i : Nat) : Option.Rel Node.IsRead (inside? parts v i) ns[i]? := by
  cases hpart : v.part? parts "childrenData" with
  | none =>
    rw [hpart] at h
    have h : ns = [] := h
    rw [inside?, hpart, h]
    exact .none
  | some x =>
    rw [hpart] at h
    have hx : x.WellFormed := Json.wellFormed_of_part? hv hpart
    cases x with
    | array items =>
      have hitems : Node.ofItems items = .ok ns := by
        rw [← Node.listOfJson]
        exact h
      have hread := (List.forall₂_and_left _ _).mpr
        ⟨itemsWellFormed_iff.mp hx, Node.forall₂_ofItems hitems⟩
      rw [inside?, hpart]
      exact rel_getElem? hread i
    | _ =>
      dsimp only [Option.elim] at h
      rw [Node.listOfJson] at h
      · cases h
      all_goals simp

theorem Node.rel_writtenAt? (p : List Nat) :
    ∀ {v : Json} {n : Node}, IsRead v n → Option.Rel IsRead (writtenAt? v p) (n.at? p) := by
  induction p with
  | nil => exact fun h => .some h
  | cons i p ih =>
    intro v n h
    exact rel_bind (rel_inside? h.1 (readFrom_of_ofJson h.1 h.2).children i) fun _ _ => ih

theorem Node.inside?_toJson (n : Node) (i : Nat) :
    inside? parts n.toJson i = n.children[i]?.map toJson := by
  have hpart : n.toJson.part? parts "childrenData" = some (.array (toItems n.children)) := by
    cases n
    rw [toJson]
    rfl
  rw [inside?, hpart, toItems_eq_map]
  exact List.getElem?_map

theorem Node.writtenAt?_toJson (p : List Nat) :
    ∀ n : Node, writtenAt? n.toJson p = (n.at? p).map toJson := by
  induction p with
  | nil => exact fun _ => rfl
  | cons i p ih =>
    intro n
    rw [writtenAt?, inside?_toJson, Node.at?]
    cases n.children[i]? with
    | none => rfl
    | some m => exact ih m

/-! ## Documents -/

namespace Document

theorem keeps_parts {d d' : Document} {part : String} {v : Json} (h : d.read part v = .ok d') :
    (part ≠ "childrenData" → d'.children = d.children) ∧ (part ≠ "config" → d'.config = d.config) ∧
      (part ≠ "style" → d'.style = d.style) := by
  unfold read at h
  repeat' split at h
  case isFalse =>
    cases h
    exact ⟨fun _ => rfl, fun _ => rfl, fun _ => rfl⟩
  all_goals
    obtain ⟨_, -, h⟩ := eq_ok_of_bind h
    cases h
    simp [*]

theorem sets_children : Sets read "childrenData" (·.children) fun v ns =>
    Node.listOfJson v = .ok ns where
  reads h := by
    obtain ⟨ns, hns, h⟩ := eq_ok_of_bind h
    cases h
    exact hns
  keeps hother h := (keeps_parts h).1 hother

theorem sets_config : Sets read "config" (·.config) fun v c => Config.ofJson v = .ok c where
  reads h := by
    obtain ⟨c, hc, h⟩ := eq_ok_of_bind h
    cases h
    exact hc
  keeps hother h := (keeps_parts h).2.1 hother

theorem sets_style : Sets read "style" (·.style) fun v style => Decode.fields v = .ok style where
  reads h := by
    obtain ⟨style, hstyle, h⟩ := eq_ok_of_bind h
    cases h
    exact hstyle
  keeps hother h := (keeps_parts h).2.2 hother

theorem rel_writtenAt? {v : Json} {d : Document} (hv : v.WellFormed)
    (h : (v.part? parts "childrenData").elim (d.children = []) fun x =>
      Node.listOfJson x = .ok d.children) :
    ∀ p, Option.Rel Node.IsRead (writtenAt? v p) (d.children.at? p)
  | [] => .none
  | i :: p => rel_bind (rel_inside? hv h i) fun _ _ => Node.rel_writtenAt? p

theorem writtenAt?_toJson (d : Document) :
    ∀ p, writtenAt? d.toJson p = (d.children.at? p).map Node.toJson
  | [] => rfl
  | i :: p => by
    have hinside : inside? parts d.toJson i = d.children[i]?.map Node.toJson := by
      have hpart : d.toJson.part? parts "childrenData" =
          some (.array (Node.toItems d.children)) := rfl
      rw [inside?, hpart, Node.toItems_eq_map]
      exact List.getElem?_map
    rw [writtenAt?, hinside, Forest.at?]
    cases d.children[i]? with
    | none => rfl
    | some n => exact Node.writtenAt?_toJson p n

/-- **What is free in form in a document is written again as it was read**: the style, the members
besides the parts of the settings, and at each position the data of the node and of its effects and
the members besides the parts of its context and of its timing, all with their values and in their
order. Members besides come behind the parts, and there is a node at a position of what is written
exactly if there was one in what has been read. -/
theorem carries_toJson {v : Json} {d : Document} (hv : v.WellFormed) (h : ofJson v = .ok d) :
    Carries v d.toJson := by
  obtain ⟨missing, draft, hread, h⟩ := exists_draft_of_record h
  cases h
  have hkeys : (Fields.keys (v.membersOf parts)).Nodup := v.nodup_keys_membersOf (by decide) hv
  have hchildren := sets_children.foldlM hkeys hread
  have hconfig := sets_config.foldlM hkeys hread
  have hstyle := object_eq_of_fields (sets_style.foldlM hkeys hread)
  refine ⟨congrArg some hstyle, ⟨d.config.toJson, rfl, ?_⟩, fun p => ?_⟩
  · cases hpart : v.part? parts "config" with
    | none =>
      have hdefault := hconfig
      rw [← Json.part?, hpart] at hdefault
      have hdefault : d.config = {} := hdefault
      rw [hdefault]
      exact Config.carries ⟨List.nodup_nil, trivial⟩ rfl
    | some x =>
      rw [← Json.part?, hpart] at hconfig
      exact Config.carries (Json.wellFormed_of_part? hv hpart) hconfig
  · rw [writtenAt?_toJson]
    have hrel := rel_writtenAt? hv hchildren p
    generalize writtenAt? v p = written, d.children.at? p = there at hrel ⊢
    cases hrel with
    | none => exact .none
    | some hread => exact .some (Node.carries hread.1 hread.2)

/-- The document and the node inside are lists of their parts, and the effect is a list as well, not
a list of effects. The timing is read from the middle of the members besides. -/
theorem carries_toJson_lists :
    let effect : Json := .array [.string "e", .string "Fade", .object [("z", .null)]]
    let timing : Json := .object [("ease", .string "in"), ("start", .ofNat 1), ("by", .null)]
    let context : Json := .object [("y", .ofNat 2), ("timing", timing), ("x", .ofNat 1)]
    let inner : Json := .array [.string "b", .string "Card", .string "atom", .object [("k", .null)]]
    let node : Json := .object [("effects", effect), ("childrenData", .array [inner]),
      ("type", .string "scene"), ("context", context), ("id", .string "a")]
    let v : Json :=
      .array [.array [node], .object [("b", .null), ("fps", .ofNat 24), ("a", .null)]]
    v.WellFormed ∧ ∃ d, ofJson v = .ok d ∧ Carries v d.toJson ∧
      writtenAt? v [0, 0] = some inner ∧
      ∃ w, writtenAt? d.toJson [0, 0] = some w ∧ Node.Carries inner w := by
  intro effect timing context inner node v
  have hv : v.WellFormed := by
    simp [v, node, inner, context, timing, effect, Fields.keys, Json.ofNat, count64]
  obtain ⟨d, hd⟩ : ∃ d, ofJson v = .ok d := by
    dsimp only [v, node, inner, context, timing, effect]
    exact ⟨_, rfl⟩
  have hcarries := carries_toJson hv hd
  have hinner : writtenAt? v [0, 0] = some inner := rfl
  refine ⟨hv, d, hd, hcarries, hinner, ?_⟩
  have hrel := hcarries.nodes [0, 0]
  rw [hinner] at hrel
  generalize writtenAt? d.toJson [0, 0] = o at hrel ⊢
  cases hrel with
  | some h => exact ⟨_, rfl, h⟩

end Document

end Montage.Scene
