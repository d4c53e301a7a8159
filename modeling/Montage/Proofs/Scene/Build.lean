import Montage.Proofs.Scene.Settings
import Montage.Proofs.Scene.Valid
import Montage.Scene.Build

/-!
# Built documents as data

The members that are added to the settings of a document while it is built are written next to the
parts of the settings. A member with the name of a part takes the place of that part in what is
written, and what is read is another document or none. This is all that can go wrong: a document
that has been built without such members is read back as it was.
-/

namespace Montage.Scene

open Decode

/-! ## Nodes -/

/-- A node that has been read from data, or built in steps, with finite times, out of such nodes. -/
inductive Node.Built : Node → Prop
  | read {v : Json} {n : Node} (hv : v.WellFormed) (hread : ofJson v = .ok n) : n.Built
  | build {id componentId : String} {type : NodeType} {steps : List NodeStep} {n : Node}
    (hbuild : build id componentId type steps = .ok n)
    (htimes : ∀ start duration, .timing start duration ∈ steps →
      start.isFinite = true ∧ duration.isFinite = true)
    (hchildren : ∀ child, .child child ∈ steps → child.Built) : n.Built

/-- What a step adds to a node is read back. -/
def NodeStep.Faithful : NodeStep → Prop
  | .timing start duration => start.isFinite = true ∧ duration.isFinite = true
  | .child n => n.Faithful
  | .data _ _ | .fitDurationTo _ | .effect _ => True

theorem Timing.faithful_empty : ({} : Timing).Faithful where
  start x hx := by cases hx
  duration x hx := by cases hx
  extra := besides_nil parts

theorem Node.faithful_changeTiming {n : Node} {change : Timing → Timing} (hn : n.Faithful)
    (hchange : ∀ t : Timing, t.Faithful → (change t).Faithful) :
    (n.changeTiming change).Faithful := by
  obtain ⟨hcontext, hchildren⟩ := (Node.every_iff n).mp hn
  refine (Node.every_iff _).mpr ⟨⟨?_, hcontext.boundaries, hcontext.extra⟩, hchildren⟩
  intro t ht
  cases ht
  refine hchange _ ?_
  cases htiming : n.context.timing with
  | none => exact Timing.faithful_empty
  | some t => exact hcontext.timing t htiming

theorem Node.faithful_after {n : Node} {step : NodeStep} (hn : n.Faithful)
    (hstep : step.Faithful) : (n.after step).Faithful := by
  cases step with
  | data | effect => exact (Node.every_iff _).mpr ((Node.every_iff n).mp hn)
  | timing start duration =>
    rw [after]
    refine faithful_changeTiming hn fun t ht => ⟨?_, ?_, ht.extra⟩
    · rintro x ⟨⟩
      exact hstep.1
    · rintro x ⟨⟩
      exact hstep.2
  | fitDurationTo =>
    rw [after]
    exact faithful_changeTiming hn fun t ht => ⟨ht.start, ht.duration, ht.extra⟩
  | child c =>
    obtain ⟨hcontext, hchildren⟩ := (Node.every_iff n).mp hn
    refine (Node.every_iff _).mpr ⟨hcontext, (Forest.every_append _ _).mpr ⟨hchildren, ?_⟩⟩
    exact (Forest.every_cons _ _).mpr ⟨hstep, Forest.every_nil⟩

theorem Node.faithful_foldl_after {steps : List NodeStep} (hsteps : ∀ step ∈ steps, step.Faithful) :
    ∀ {n : Node}, n.Faithful → (steps.foldl after n).Faithful := by
  induction steps with
  | nil => exact fun hn => hn
  | cons step rest ih =>
    intro n hn
    rw [List.forall_mem_cons] at hsteps
    exact ih hsteps.2 (faithful_after hn hsteps.1)

theorem Node.eq_of_checked {n built : Node} (h : n.checked = .ok built) : built = n := by
  rw [checked] at h
  split at h
  · cases h
  · obtain ⟨_, -, h⟩ := eq_ok_of_bind h
    cases h
    rfl

theorem Node.Built.faithful {n : Node} (h : n.Built) : n.Faithful := by
  induction h with
  | read hv hread => exact Node.faithful_ofJson hv hread
  | build hbuild htimes _ ih =>
    rw [Node.eq_of_checked hbuild]
    refine Node.faithful_foldl_after (fun step hstep => ?_)
      ((Node.every_iff _).mpr ⟨Context.faithful_empty, Forest.every_nil⟩)
    cases step with
    | timing start duration => exact htimes start duration hstep
    | child c => exact ih c hstep
    | data | fitDurationTo | effect => trivial

/-! ## Documents -/

/-- The member that a step adds to the settings. -/
def DocumentStep.member? : DocumentStep → Option (String × Json)
  | .configField key value => some (key, value)
  | .style _ _ | .child _ => none

theorem DocumentStep.mem_keys_member? {steps : List DocumentStep} {key : String} :
    key ∈ Fields.keys (steps.filterMap member?) ↔ ∃ value, .configField key value ∈ steps := by
  rw [Fields.keys, List.map_filterMap, List.mem_filterMap]
  constructor
  · rintro ⟨step, hstep, hkey⟩
    cases step with
    | configField k value =>
      cases hkey
      exact ⟨value, hstep⟩
    | style | child => cases hkey
  · rintro ⟨value, hstep⟩
    exact ⟨_, hstep, rfl⟩

namespace Document

theorem config_foldl_after (steps : List DocumentStep) :
    ∀ d : Document, (steps.foldl after d).config =
      { d.config with
        extra := Fields.overlay d.config.extra (steps.filterMap DocumentStep.member?) } := by
  induction steps with
  | nil => exact fun _ => rfl
  | cons step rest ih =>
    intro d
    rw [List.foldl_cons, ih]
    cases step <;> rfl

theorem faithful_children_foldl_after {steps : List DocumentStep}
    (hnodes : ∀ n, .child n ∈ steps → n.Faithful) :
    ∀ {d : Document}, Forest.Faithful d.children →
      Forest.Faithful (steps.foldl after d).children := by
  induction steps with
  | nil => exact fun hd => hd
  | cons step rest ih =>
    intro d hd
    have hrest := fun n hn => hnodes n (List.mem_cons_of_mem _ hn)
    cases step with
    | configField | style => exact ih hrest hd
    | child n =>
      refine ih hrest ((Forest.every_append _ _).mpr ⟨hd, ?_⟩)
      exact (Forest.every_cons _ _).mpr ⟨hnodes n List.mem_cons_self, Forest.every_nil⟩

theorem ofJson_of_load {v : Json} {d : Document} (h : load v = .ok d) : ofJson v = .ok d := by
  obtain ⟨d', hd, h⟩ := eq_ok_of_bind h
  obtain ⟨_, -, h⟩ := eq_ok_of_bind h
  cases h
  exact eq_ok_of_mapError hd

/-- What is read from what is written of a document differs from it in the settings only, and these
have none of the members that have the name of a part. -/
theorem besides_of_ofJson_toJson {d d' : Document} (hchildren : Forest.Faithful d.children)
    (hkeys : (Fields.keys d.config.extra).Nodup) (h : ofJson d.toJson = .ok d') :
    d'.children = d.children ∧ d'.style = d.style ∧
      d'.config.extra = d.config.extra.filter fun member => !Config.parts.contains member.1 := by
  rw [ofJson_toJson_eq hchildren] at h
  obtain ⟨c, hc, h⟩ := eq_ok_of_bind h
  cases h
  obtain ⟨_, hopen, hc⟩ := eq_ok_of_bind hc
  obtain ⟨_, -, hopen⟩ := eq_ok_of_bind hopen
  cases hopen
  cases hc
  exact ⟨rfl, rfl, Config.filter_toFields hkeys⟩

theorem load_toJson_iff {d : Document} (hvalid : d.validate = .ok ())
    (hchildren : Forest.Faithful d.children) (hkeys : (Fields.keys d.config.extra).Nodup) :
    load d.toJson = .ok d ↔ ∀ key ∈ Fields.keys d.config.extra, key ∉ Config.parts := by
  constructor
  · intro h key hkey
    obtain ⟨-, -, hextra⟩ := besides_of_ofJson_toJson hchildren hkeys (ofJson_of_load h)
    rw [hextra] at hkey
    exact (besides_filter hkeys).2 key hkey
  · intro h
    obtain ⟨hduration, hfps⟩ :=
      Config.isFinite_of_validate ((validate_eq_ok_iff d).mp hvalid).1
    have hread : ofJson d.toJson = .ok d :=
      ofJson_toJson ⟨hchildren, hduration, hfps, hkeys, h⟩
    rw [load, hread]
    show (do d.validate; return d) = _
    rw [hvalid]
    rfl

/-- **A document that has been built is read back from what is written of it exactly if no member that
was added to its settings has the name of a part of the settings.** Whatever else is read in its place
has the same nodes and the same style, and its settings lack these members. -/
theorem load_build_iff {width height : UInt32} {fps duration : Float} {steps : List DocumentStep}
    {d : Document} (hbuild : build width height fps duration steps = .ok d)
    (hnodes : ∀ n, .child n ∈ steps → n.Built) :
    (load d.toJson = .ok d ↔ ∀ key value, .configField key value ∈ steps → key ∉ Config.parts) ∧
      ∀ d', load d.toJson = .ok d' → d'.children = d.children ∧ d'.style = d.style ∧
        d'.config.extra =
          d.config.extra.filter fun member => !Config.parts.contains member.1 := by
  obtain ⟨_, hvalid, hd⟩ := eq_ok_of_bind hbuild
  cases hd
  have hconfig := config_foldl_after steps (bare width height fps duration)
  generalize hextra : Fields.overlay (bare width height fps duration).config.extra
    (steps.filterMap DocumentStep.member?) = extra at hconfig
  have hkeys : (Fields.keys extra).Nodup := hextra ▸ Fields.nodup_keys_overlay _ List.nodup_nil
  have hmem : ∀ key, key ∈ Fields.keys extra ↔ ∃ value, .configField key value ∈ steps := by
    intro key
    rw [← hextra, Fields.mem_keys_overlay, DocumentStep.mem_keys_member?]
    exact or_iff_right List.not_mem_nil
  have hchildren : Forest.Faithful (steps.foldl after (bare width height fps duration)).children :=
    faithful_children_foldl_after (fun n hn => (hnodes n hn).faithful) Forest.every_nil
  refine ⟨?_, fun d' h => besides_of_ofJson_toJson hchildren (hconfig ▸ hkeys) (ofJson_of_load h)⟩
  rw [load_toJson_iff hvalid hchildren (hconfig ▸ hkeys), hconfig]
  simp only [hmem]
  exact ⟨fun h key value hstep => h key ⟨value, hstep⟩, fun h key ⟨value, hstep⟩ => h key value hstep⟩

/-- A scene that is shown for as long as another node, or else for three seconds. -/
def fittedScene : Node :=
  ⟨"BaseScene", "Scene", .scene, [],
    { timing := some { start := some 0, duration := some 3, fitDurationTo := some "intro" } }, [], []⟩

def themed : List DocumentStep := [.configField "theme" (.string "dark"), .child fittedScene]

/-- The duration that is written is the member with its name, a text, and cannot be read. Without that
member the document is read back. -/
theorem load_build_hiddenDuration :
    Node.build "BaseScene" "Scene" .scene [.timing 0 3, .fitDurationTo "intro"] = .ok fittedScene ∧
      (∃ d, build 1920 1080 30 10 (themed ++ [.configField "duration" (.string "soon")]) = .ok d ∧
        load d.toJson = .error ⟨.decoding, "invalid type: string \"soon\", expected f64"⟩ ∧
        ¬ load d.toJson = .ok d) ∧
      ∃ d, build 1920 1080 30 10 themed = .ok d ∧ load d.toJson = .ok d := by
  have hscene : Node.build "BaseScene" "Scene" .scene [.timing 0 3, .fitDurationTo "intro"] =
    .ok fittedScene := rfl
  have hbuilt : fittedScene.Built := by
    refine .build hscene (fun start duration h => ?_) (by simp)
    simp only [List.mem_cons, NodeStep.timing.injEq, List.not_mem_nil, or_false, reduceCtorEq] at h
    obtain ⟨rfl, rfl⟩ := h
    decide
  refine ⟨hscene, ?_, ?_⟩
  · obtain ⟨d, hd, hload⟩ : ∃ d,
        build 1920 1080 30 10 (themed ++ [.configField "duration" (.string "soon")]) = .ok d ∧
          load d.toJson = .error ⟨.decoding, "invalid type: string \"soon\", expected f64"⟩ :=
      ⟨_, rfl, rfl⟩
    refine ⟨d, hd, hload, (load_build_iff hd ?_).1.not.mpr fun h => ?_⟩
    · simpa [themed] using hbuilt
    · exact h "duration" (.string "soon") (by simp) (by decide)
  · obtain ⟨d, hd⟩ : ∃ d, build 1920 1080 30 10 themed = .ok d := ⟨_, rfl⟩
    refine ⟨d, hd, (load_build_iff hd ?_).1.mpr ?_⟩
    · simpa [themed] using hbuilt
    · simp [themed, Config.parts]

end Document

end Montage.Scene
