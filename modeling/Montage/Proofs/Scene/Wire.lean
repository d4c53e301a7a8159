import Montage.Proofs.Json.WellFormed
import Montage.Proofs.Scene.Every
import Montage.Scene.Contribution
import Montage.Scene.Document

/-!
# Documents as data

Writing a document leaves out what is not there, writes the members that a record keeps besides its
own parts next to these, and writes a float that is not finite as `null`. So a document is read back
as it was if the floats in it are finite, no member besides hides a part, and nothing that is there is
`null`. A document that has been read from data is of this form.
-/

namespace Montage.Scene

open Decode

/-! ## Timings -/

/-- What is written of a timing is read back as it was. -/
structure Timing.Faithful (t : Timing) : Prop where
  start : ∀ x ∈ t.start, x.isFinite = true
  duration : ∀ x ∈ t.duration, x.isFinite = true
  extra : Besides parts t.extra

theorem Timing.keeps_read : Keeps read fun t =>
    (∀ x ∈ t.start, x.isFinite = true) ∧ ∀ x ∈ t.duration, x.isFinite = true := by
  intro t part v t' hv ht h
  unfold read at h
  split at h
  · obtain ⟨x, hx, h⟩ := eq_ok_of_bind h
    cases h
    exact ⟨gives_float.optional v x hv hx, ht.2⟩
  split at h
  · obtain ⟨x, hx, h⟩ := eq_ok_of_bind h
    cases h
    exact ⟨ht.1, gives_float.optional v x hv hx⟩
  split at h
  · obtain ⟨x, -, h⟩ := eq_ok_of_bind h
    cases h
    exact ht
  · cases h
    exact ht

theorem Timing.gives_ofJson : Gives ofJson Faithful := by
  intro v t hv h
  obtain ⟨⟨t, extra⟩, ht, h⟩ := eq_ok_of_bind h
  cases h
  have hempty : ∀ x ∈ (none : Option Float), x.isFinite = true := by
    intro x hx
    cases hx
  have ⟨⟨hstart, hduration⟩, hextra⟩ := keeps_read.openRecord ⟨hempty, hempty⟩ v _ hv ht
  exact ⟨hstart, hduration, hextra⟩

theorem Timing.read_of_not_mem (t : Timing) (part : String) (v : Json) (h : part ∉ parts) :
    t.read part v = .ok t := by
  simp only [parts, List.mem_cons, List.not_mem_nil, or_false, not_or] at h
  rw [read, if_neg h.1, if_neg h.2.1, if_neg h.2.2]

theorem Timing.foldlM_read {start duration : Option Float} (fitDurationTo : Option String)
    (hstart : ∀ x ∈ start, x.isFinite = true) (hduration : ∀ x ∈ duration, x.isFinite = true) :
    (Json.member? "start" Json.ofFloat start ++ Json.member? "duration" Json.ofFloat duration ++
      Json.member? "fitDurationTo" .string fitDurationTo).foldlM
        (fun t member => read t member.1 member.2) {} =
      .ok { start := start, duration := duration, fitDurationTo := fitDurationTo } := by
  have h₁ : (Json.member? "start" Json.ofFloat start).foldlM
      (fun t member => read t member.1 member.2) {} = .ok { start := start } := by
    cases start with
    | none => rfl
    | some x =>
      have hx := optional_ok (ofFloat_ne_null (hstart x rfl)) (float_ofFloat (hstart x rfl))
      simp [Json.member?, read, hx]
  have h₂ : (Json.member? "duration" Json.ofFloat duration).foldlM
      (fun t member => read t member.1 member.2) { start := start } =
        .ok { start := start, duration := duration } := by
    cases duration with
    | none => rfl
    | some x =>
      have hx := optional_ok (ofFloat_ne_null (hduration x rfl)) (float_ofFloat (hduration x rfl))
      simp [Json.member?, read, hx]
  rw [List.foldlM_append, List.foldlM_append, h₁, ok_bind, h₂, ok_bind]
  cases fitDurationTo <;> rfl

theorem Timing.ofJson_toJson {t : Timing} (h : t.Faithful) : ofJson t.toJson = .ok t := by
  have hread := foldlM_read t.fitDurationTo h.start h.duration
  rw [toJson, ofJson, openRecord_overlay read_of_not_mem (by decide) ?_ h.extra hread]
  · rfl
  · rw [Fields.keys_append, Fields.keys_append]
    exact ((keys_member? _ _ _).append (keys_member? _ _ _)).append (keys_member? _ _ _)

/-! ## Contexts -/

structure Context.Faithful (c : Context) : Prop where
  timing : ∀ t ∈ c.timing, t.Faithful
  boundaries : c.boundaries ≠ some .null
  extra : Besides parts c.extra

theorem Context.keeps_read : Keeps read fun c =>
    (∀ t ∈ c.timing, t.Faithful) ∧ c.boundaries ≠ some .null := by
  intro c part v c' hv hc h
  unfold read at h
  split at h
  · obtain ⟨t, ht, h⟩ := eq_ok_of_bind h
    cases h
    exact ⟨Timing.gives_ofJson.optional v t hv ht, hc.2⟩
  split at h
  · obtain ⟨b, hb, h⟩ := eq_ok_of_bind h
    cases h
    refine ⟨hc.1, ?_⟩
    rintro rfl
    cases v <;> cases hb
  · cases h
    exact hc

theorem Context.faithful_empty : ({} : Context).Faithful where
  timing t ht := by cases ht
  boundaries := nofun
  extra := besides_nil parts

theorem Context.gives_ofJson : Gives ofJson Faithful := by
  intro v c hv h
  obtain ⟨⟨c, extra⟩, hc, h⟩ := eq_ok_of_bind h
  cases h
  have ⟨⟨htiming, hboundaries⟩, hextra⟩ := keeps_read.openRecord
    ⟨faithful_empty.timing, faithful_empty.boundaries⟩ v _ hv hc
  exact ⟨htiming, hboundaries, hextra⟩

theorem Context.read_of_not_mem (c : Context) (part : String) (v : Json) (h : part ∉ parts) :
    c.read part v = .ok c := by
  simp only [parts, List.mem_cons, List.not_mem_nil, or_false, not_or] at h
  rw [read, if_neg h.1, if_neg h.2]

theorem Context.foldlM_read {timing : Option Timing} {boundaries : Option Json}
    (htiming : ∀ t ∈ timing, t.Faithful) (hboundaries : boundaries ≠ some .null) :
    (Json.member? "timing" Timing.toJson timing ++ Json.member? "boundaries" id boundaries).foldlM
        (fun c member => read c member.1 member.2) {} =
      .ok { timing := timing, boundaries := boundaries } := by
  have h₁ : (Json.member? "timing" Timing.toJson timing).foldlM
      (fun c member => read c member.1 member.2) {} = .ok { timing := timing } := by
    cases timing with
    | none => rfl
    | some t =>
      have ht : optional Timing.ofJson t.toJson = .ok (some t) :=
        optional_ok nofun (Timing.ofJson_toJson (htiming t rfl))
      simp [Json.member?, read, ht]
  rw [List.foldlM_append, h₁, ok_bind]
  cases boundaries with
  | none => rfl
  | some b =>
    cases b
    case null => exact absurd rfl hboundaries
    all_goals rfl

theorem Context.ofJson_toJson {c : Context} (h : c.Faithful) : ofJson c.toJson = .ok c := by
  have hread := foldlM_read h.timing h.boundaries
  rw [toJson, ofJson, openRecord_overlay read_of_not_mem (by decide) ?_ h.extra hread]
  · rfl
  · rw [Fields.keys_append]
    exact (keys_member? _ _ _).append (keys_member? _ _ _)

theorem Context.faithful_patch {c p : Context} (hc : c.Faithful) (hp : p.Faithful) :
    (c.patch p).Faithful where
  timing t ht := (Option.or_eq_some_iff.mp ht).elim (hp.timing t) fun h => hc.timing t h.2
  boundaries h := (Option.or_eq_some_iff.mp h).elim hp.boundaries fun h => hc.boundaries h.2
  extra := hc.extra.overlay hp.extra

/-! ## Settings -/

/-- What is written of settings is read back as it was. -/
structure Config.Faithful (c : Config) : Prop where
  duration : c.duration.isFinite = true
  fps : c.fps.isFinite = true
  extra : Besides parts c.extra

theorem Config.keeps_read : Keeps read fun c =>
    c.duration.isFinite = true ∧ c.fps.isFinite = true := by
  intro c part v c' hv hc h
  unfold read at h
  split at h
  · obtain ⟨x, hx, h⟩ := eq_ok_of_bind h
    cases h
    exact ⟨gives_float v x hv hx, hc.2⟩
  split at h
  · obtain ⟨x, -, h⟩ := eq_ok_of_bind h
    cases h
    exact hc
  split at h
  · obtain ⟨x, -, h⟩ := eq_ok_of_bind h
    cases h
    exact hc
  split at h
  · obtain ⟨x, hx, h⟩ := eq_ok_of_bind h
    cases h
    exact ⟨hc.1, gives_float v x hv hx⟩
  · cases h
    exact hc

theorem Config.faithful_default : ({} : Config).Faithful where
  duration := by decide
  fps := by decide
  extra := besides_nil parts

theorem Config.gives_ofJson : Gives ofJson Faithful := by
  intro v c hv h
  obtain ⟨⟨c, extra⟩, hc, h⟩ := eq_ok_of_bind h
  cases h
  have ⟨⟨hduration, hfps⟩, hextra⟩ := keeps_read.openRecord
    ⟨faithful_default.duration, faithful_default.fps⟩ v _ hv hc
  exact ⟨hduration, hfps, hextra⟩

theorem Config.read_of_not_mem (c : Config) (part : String) (v : Json) (h : part ∉ parts) :
    c.read part v = .ok c := by
  simp only [parts, List.mem_cons, List.not_mem_nil, or_false, not_or] at h
  rw [read, if_neg h.1, if_neg h.2.1, if_neg h.2.2.1, if_neg h.2.2.2]

theorem Config.ofJson_toJson {c : Config} (h : c.Faithful) : ofJson c.toJson = .ok c := by
  have hread : [("duration", Json.ofFloat c.duration), ("width", .ofNat c.width.toNat),
      ("height", .ofNat c.height.toNat), ("fps", .ofFloat c.fps)].foldlM
        (fun c member => read c member.1 member.2) ({} : Config) =
      .ok { duration := c.duration, width := c.width, height := c.height, fps := c.fps } := by
    simp [read, float_ofFloat h.duration, float_ofFloat h.fps, natural32_ofNat]
  rw [toJson, toFields, ofJson, openRecord_overlay read_of_not_mem (by decide) ?_ h.extra hread]
  · rfl
  · exact List.Sublist.refl _

theorem Config.isFinite_of_validate {c : Config} (h : c.validate = .ok ()) :
    c.duration.isFinite = true ∧ c.fps.isFinite = true := by
  rw [validate] at h
  split at h
  · cases h
  split at h
  · cases h
  split at h
  · cases h
  · rename_i hduration _ hfps
    simp only [Bool.or_eq_true, Bool.not_eq_true', not_or, Bool.not_eq_false] at hduration hfps
    exact ⟨hduration.1, hfps.1⟩

/-- A patch is read as data, and what it leaves is checked, whatever it holds. -/
theorem Config.faithful_patch {c c' : Config} {p : Fields} (hpatch : c.patch p = .ok c')
    (hc : c.Faithful) : c'.Faithful := by
  rw [patch] at hpatch
  split at hpatch
  · cases hpatch
    exact hc
  obtain ⟨c₁, hread, hpatch⟩ := eq_ok_of_bind hpatch
  obtain ⟨_, hvalid, hpatch⟩ := eq_ok_of_bind hpatch
  cases hpatch
  obtain ⟨hduration, hfps⟩ := isFinite_of_validate hvalid
  have hparts : parts.Nodup := by decide
  have hkeys : (Fields.keys (Fields.overlay c.toFields p)).Nodup :=
    Fields.nodup_keys_overlay p (Fields.nodup_keys_overlay c.extra hparts)
  obtain ⟨⟨c₂, extra⟩, hopen, hread⟩ := eq_ok_of_bind (eq_ok_of_mapError hread)
  cases hread
  exact ⟨hduration, hfps, besides_of_openRecord hkeys hopen⟩

/-! ## Effects -/

theorem Effect.ofJson_toJson (e : Effect) : ofJson e.toJson = .ok e := rfl

theorem Effect.listOfJson_map_toJson (effects : List Effect) :
    listOfJson (.array (effects.map toJson)) = .ok effects := by
  have hlist : Decode.list ofJson (.array (effects.map toJson)) = .ok effects := by
    rw [Decode.list]
    induction effects with
    | nil => rfl
    | cons e rest ih =>
      rw [List.map_cons, List.mapM_cons, ofJson_toJson, ok_bind, ih]
      rfl
  unfold listOfJson
  rw [hlist]

/-! ## Nodes -/

/-- What is written of a node and the nodes inside it is read back as it was. -/
def Node.Faithful (n : Node) : Prop := n.Every (·.context.Faithful)

def Forest.Faithful (forest : Forest) : Prop := forest.Every (·.context.Faithful)

structure Node.Draft.Faithful (d : Draft) : Prop where
  context : d.context.Faithful
  children : Forest.Faithful d.children

theorem Node.Draft.faithful_empty : ({} : Draft).Faithful :=
  ⟨Context.faithful_empty, Forest.every_nil⟩

theorem Node.Draft.keeps_read : Keeps read Draft.Faithful := by
  intro d part v d' hv hd h
  by_cases hpart : part = "context"
  · subst hpart
    obtain ⟨context, hcontext, h⟩ := eq_ok_of_bind h
    cases h
    exact ⟨Context.gives_ofJson v context hv hcontext, hd.children⟩
  · unfold read at h
    rw [if_neg hpart] at h
    -- the other parts are neither the context nor the nodes inside
    repeat' split at h
    case isFalse =>
      cases h
      exact hd
    all_goals
      obtain ⟨_, -, h⟩ := eq_ok_of_bind h
      cases h
      exact ⟨hd.context, hd.children⟩

theorem Node.faithful_finish {missing : String → DecodeError} {d : Node.Draft} {n : Node}
    (hd : d.Faithful) (h : d.finish missing = .ok n) : n.Faithful := by
  obtain ⟨id, -, h⟩ := eq_ok_of_bind h
  obtain ⟨type, -, h⟩ := eq_ok_of_bind h
  cases h
  exact (Node.every_iff _).mpr ⟨hd.context, hd.children⟩

mutual

theorem Node.faithful_ofJson : ∀ {v : Json} {n : Node}, v.WellFormed → ofJson v = .ok n → n.Faithful
  | .object members, n, hv, h => by
    rw [ofJson] at h
    obtain ⟨d, hd, h⟩ := eq_ok_of_bind h
    exact faithful_finish (faithful_readMembers hv.2 Draft.faithful_empty hd) h
  | .array items, n, hv, h => by
    rw [ofJson] at h
    obtain ⟨d, hd, h⟩ := eq_ok_of_bind h
    obtain ⟨m, hm, h⟩ := eq_ok_of_bind h
    split at h
    · cases h
    · cases h
      exact faithful_finish (faithful_readPlaces hv Draft.faithful_empty hd) hm
  | .null, _, _, h | .bool _, _, _, h | .number _, _, _, h | .string _, _, _, h => by
    rw [ofJson] at h
    · cases h
    all_goals nofun

theorem Node.faithful_readMembers : ∀ {members : Fields} {d d' : Draft}, fieldsWellFormed members →
    d.Faithful → readMembers d members = .ok d' → d'.Faithful
  | [], d, d', _, hd, h => by
    rw [readMembers] at h
    cases h
    exact hd
  | (part, v) :: rest, d, d', hv, hd, h => by
    rw [readMembers] at h
    split at h
    · obtain ⟨children, hchildren, h⟩ := eq_ok_of_bind h
      have hd' : Draft.Faithful { d with children := children } :=
        ⟨hd.context, faithful_listOfJson hv.1 hchildren⟩
      exact faithful_readMembers hv.2 hd' h
    · obtain ⟨mid, hmid, h⟩ := eq_ok_of_bind h
      exact faithful_readMembers hv.2 (Draft.keeps_read _ _ _ _ hv.1 hd hmid) h

theorem Node.faithful_readPlaces : ∀ {parts : List String} {items : List Json} {d d' : Draft},
    itemsWellFormed items → d.Faithful → readPlaces d parts items = .ok d' → d'.Faithful
  | part :: parts, v :: rest, d, d', hv, hd, h => by
    rw [readPlaces] at h
    split at h
    · obtain ⟨children, hchildren, h⟩ := eq_ok_of_bind h
      have hd' : Draft.Faithful { d with children := children } :=
        ⟨hd.context, faithful_listOfJson hv.1 hchildren⟩
      exact faithful_readPlaces hv.2 hd' h
    · obtain ⟨mid, hmid, h⟩ := eq_ok_of_bind h
      exact faithful_readPlaces hv.2 (Draft.keeps_read _ _ _ _ hv.1 hd hmid) h
  | [], _, d, d', _, hd, h => by
    rw [readPlaces] at h
    · cases h
      exact hd
    all_goals nofun
  | _ :: _, [], d, d', _, hd, h => by
    rw [readPlaces] at h
    · cases h
      exact hd
    all_goals nofun

theorem Node.faithful_listOfJson : ∀ {v : Json} {ns : List Node}, v.WellFormed →
    listOfJson v = .ok ns → Forest.Faithful ns
  | .array items, ns, hv, h => by
    rw [listOfJson] at h
    exact faithful_ofItems hv h
  | .null, _, _, h | .bool _, _, _, h | .number _, _, _, h | .string _, _, _, h
  | .object _, _, _, h => by
    rw [listOfJson] at h
    · cases h
    all_goals nofun

theorem Node.faithful_ofItems : ∀ {items : List Json} {ns : List Node}, itemsWellFormed items →
    ofItems items = .ok ns → Forest.Faithful ns
  | [], ns, _, h => by
    rw [ofItems] at h
    cases h
    exact Forest.every_nil
  | v :: rest, ns, hv, h => by
    rw [ofItems] at h
    obtain ⟨n, hn, h⟩ := eq_ok_of_bind h
    obtain ⟨ns, hns, h⟩ := eq_ok_of_bind h
    cases h
    exact (Forest.every_cons _ _).mpr ⟨faithful_ofJson hv.1 hn, faithful_ofItems hv.2 hns⟩

end

theorem NodeType.ofJson_toJson (t : NodeType) : ofJson t.toJson = .ok t := by
  cases t <;> rfl

mutual

theorem Node.ofJson_toJson : ∀ {n : Node}, n.Faithful → ofJson n.toJson = .ok n
  | ⟨id, componentId, type, data, context, effects, children⟩, h => by
    obtain ⟨hcontext, hchildren⟩ := (Node.every_iff _).mp h
    have hcontext : Context.ofJson context.toJson = .ok context := Context.ofJson_toJson hcontext
    have hitems : listOfJson (.array (toItems children)) = .ok children := by
      rw [listOfJson]
      exact ofItems_toItems hchildren
    rw [toJson, ofJson]
    simp [readMembers, Draft.read, hcontext, hitems, NodeType.ofJson_toJson, Decode.string,
      Decode.fields, Effect.listOfJson_map_toJson, Draft.finish, Decode.required]

theorem Node.ofItems_toItems : ∀ {ns : List Node}, Forest.Faithful ns →
    ofItems (toItems ns) = .ok ns
  | [], _ => by rw [toItems, ofItems]
  | n :: rest, h => by
    obtain ⟨hn, hrest⟩ := (Forest.every_cons n rest).mp h
    rw [toItems, ofItems, ofJson_toJson hn, ok_bind, ofItems_toItems hrest]
    rfl

end

/-! ## Documents -/

/-- What is written of a document is read back as it was. -/
structure Document.Faithful (d : Document) : Prop where
  children : Forest.Faithful d.children
  config : d.config.Faithful

theorem Document.keeps_read : Keeps read Faithful := by
  intro d part v d' hv hd h
  unfold read at h
  split at h
  · obtain ⟨children, hchildren, h⟩ := eq_ok_of_bind h
    cases h
    exact ⟨Node.faithful_listOfJson hv hchildren, hd.config⟩
  split at h
  · obtain ⟨config, hconfig, h⟩ := eq_ok_of_bind h
    cases h
    exact ⟨hd.children, Config.gives_ofJson v config hv hconfig⟩
  split at h
  · obtain ⟨style, -, h⟩ := eq_ok_of_bind h
    cases h
    exact ⟨hd.children, hd.config⟩
  · cases h
    exact hd

theorem Document.gives_ofJson : Gives ofJson Faithful := by
  refine keeps_read.record ⟨Forest.every_nil, Config.faithful_default⟩ fun missing d a hd h => ?_
  cases h
  exact hd

/-- What is written of a document is read back as it was but for the settings, which are read from
what is written of them. -/
theorem Document.ofJson_toJson_eq {d : Document} (hchildren : Forest.Faithful d.children) :
    ofJson d.toJson = (do return { d with config := ← Config.ofJson d.config.toJson }) := by
  obtain ⟨children, config, style⟩ := d
  have hitems : Node.listOfJson (.array (Node.toItems children)) = .ok children := by
    rw [Node.listOfJson]
    exact Node.ofItems_toItems hchildren
  rw [toJson, ofJson, Decode.record]
  dsimp only
  cases hconfig : Config.ofJson config.toJson with
  | error e => simp [Document.read, hitems, hconfig, error_bind]
  | ok c => simp [Document.read, hitems, hconfig, Decode.fields]

theorem Document.ofJson_toJson {d : Document} (h : d.Faithful) : ofJson d.toJson = .ok d := by
  rw [ofJson_toJson_eq h.children, Config.ofJson_toJson h.config]
  rfl

/-! ## Contributions -/

/-- The nodes that come of a template are faithful. -/
structure Template.Faithful (t : Template) : Prop where
  context : t.context.Faithful
  children : Forest.Faithful t.children

theorem Template.keeps_read : Keeps read Faithful := by
  intro t part v t' hv ht h
  by_cases hcontext : part = "context"
  · subst hcontext
    obtain ⟨context, hcontext, h⟩ := eq_ok_of_bind h
    cases h
    exact ⟨Context.gives_ofJson v context hv hcontext, ht.children⟩
  by_cases hchildren : part = "childrenData"
  · subst hchildren
    obtain ⟨children, hchildren, h⟩ := eq_ok_of_bind h
    cases h
    exact ⟨ht.context, Node.faithful_listOfJson hv hchildren⟩
  · unfold read at h
    rw [if_neg hcontext, if_neg hchildren] at h
    repeat' split at h
    case isFalse =>
      cases h
      exact ht
    all_goals
      obtain ⟨_, -, h⟩ := eq_ok_of_bind h
      cases h
      exact ⟨ht.context, ht.children⟩

theorem Template.gives_ofJson : Gives ofJson Faithful := by
  refine keeps_read.record ⟨Context.faithful_empty, Forest.every_nil⟩ fun missing t a ht h => ?_
  cases h
  exact ht

theorem Template.faithful_toNode {t : Template} {n : Node} (ht : t.Faithful)
    (h : t.toNode = .ok n) : n.Faithful := by
  rw [toNode] at h
  split at h
  · cases h
  split at h
  · cases h
  · cases h
    exact (Node.every_iff _).mpr ⟨ht.context, ht.children⟩

theorem Template.faithful_toNodes {ts : List Template} {ns : List Node}
    (hts : ∀ t ∈ ts, t.Faithful) (h : toNodes ts = .ok ns) : Forest.Faithful ns :=
  every_toNodes h fun t ht _ hn => faithful_toNode (hts t ht) hn

/-- The templates of a fragment are faithful; its settings and style may be any members. -/
def Fragment.Faithful (f : Fragment) : Prop := ∀ t ∈ f.children.getD [], t.Faithful

theorem Fragment.keeps_read : Keeps read Faithful := by
  intro f part v f' hv hf h
  unfold read at h
  split at h
  · obtain ⟨templates, htemplates, h⟩ := eq_ok_of_bind h
    cases h
    have hts := Template.gives_ofJson.list.optional v templates hv htemplates
    cases templates with
    | none => exact nofun
    | some ts => exact hts ts rfl
  split at h
  · obtain ⟨_, -, h⟩ := eq_ok_of_bind h
    cases h
    exact hf
  split at h
  · obtain ⟨_, -, h⟩ := eq_ok_of_bind h
    cases h
    exact hf
  · cases h
    exact hf

theorem Fragment.gives_ofJson : Gives ofJson Faithful := by
  refine keeps_read.record nofun fun missing f a hf h => ?_
  cases h
  exact hf

theorem Contribution.gives_ofJson : Gives ofJson (·.output.Faithful) := by
  have hkeeps : Keeps Draft.read fun d => ∀ f ∈ d.output, f.Faithful := by
    intro d part v d' hv hd h
    unfold Draft.read at h
    split at h
    · obtain ⟨output, houtput, h⟩ := eq_ok_of_bind h
      cases h
      intro f hf
      cases hf
      exact Fragment.gives_ofJson v output hv houtput
    split at h
    · obtain ⟨_, -, h⟩ := eq_ok_of_bind h
      cases h
      exact hd
    · cases h
      exact hd
  refine hkeeps.record nofun fun missing d c hd h => ?_
  obtain ⟨output, houtput, h⟩ := eq_ok_of_bind h
  cases h
  rcases hdraft : d.output with _ | f
  · rw [hdraft] at houtput
    cases houtput
  · rw [hdraft] at houtput
    cases houtput
    exact hd output hdraft

theorem Contribution.gives_ofResult {v : Json} {c : Contribution} (hv : v.WellFormed)
    (h : ofResult v = .ok (some c)) : c.output.Faithful := by
  unfold ofResult at h
  split at h
  · cases h
  split at h
  · split at h
    · split at h
      · cases h
      · obtain ⟨c', hc, h⟩ := eq_ok_of_bind h
        cases h
        exact gives_ofJson _ c hv (eq_ok_of_mapError hc)
    · obtain ⟨f, hf, h⟩ := eq_ok_of_bind h
      cases h
      exact Fragment.gives_ofJson _ f hv (eq_ok_of_mapError hf)
  · cases h

end Montage.Scene
