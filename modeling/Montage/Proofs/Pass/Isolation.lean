import Montage.Proofs.Json.Fields
import Montage.Proofs.Merge.Atomic
import Montage.Proofs.Pass.Run

/-!
# Entries of a lenient pass do not disturb one another

A lenient pass has no memory but the document. What an entry does depends on the document it finds,
so a pass over two lists is a pass over the first and then one over the second, and its report is
made up of the reports of its entries, each on its own. An entry that fails leaves the document as
it finds it: nothing of it reaches a later entry, and without it the pass is the same but for the
problems that the entry notes.
-/

namespace Montage

open Scene

/-! ## One pass after another -/

/-- The report of a pass and of another one that starts from its document. -/
def Report.andThen (r s : Report) : Report :=
  ⟨s.document, r.notes ++ s.notes, r.applied + s.applied⟩

@[simp] theorem Report.andThen_document (r s : Report) : (r.andThen s).document = s.document := rfl

theorem Report.andThen_assoc (r s t : Report) :
    (r.andThen s).andThen t = r.andThen (s.andThen t) := by
  simp only [andThen, List.append_assoc, Nat.add_assoc]

theorem Report.andThen_empty (r : Report) : r.andThen { document := r.document } = r := by
  simp only [andThen, List.append_nil, Nat.add_zero]

/-- A step adds to the report and looks at nothing of it but the document. -/
theorem Report.lenientStep_eq_andThen (host : Host) (r : Report) (e : Preset.Entry) :
    r.lenientStep host e =
      r.andThen (({ document := r.document } : Report).lenientStep host e) := by
  unfold lenientStep
  dsimp only
  split <;> simp [andThen, note, withDocument, count]

theorem Report.foldl_lenientStep (host : Host) (entries : List Preset.Entry) :
    ∀ r : Report, entries.foldl (lenientStep host) r =
      r.andThen (entries.foldl (lenientStep host) { document := r.document }) := by
  induction entries with
  | nil => exact fun r => r.andThen_empty.symm
  | cons e entries ih =>
    intro r
    rw [List.foldl_cons, List.foldl_cons, ih (r.lenientStep host e), r.lenientStep_eq_andThen,
      ih (lenientStep host { document := r.document } e), andThen_assoc, andThen_document]

variable (host : Host)

theorem lenientPass_append (base : Document) (entries more : List Preset.Entry) :
    lenientPass host base (entries ++ more) =
      (lenientPass host base entries).andThen
        (lenientPass host (lenientPass host base entries).document more) := by
  unfold lenientPass
  rw [List.filter_append, List.foldl_append, Report.foldl_lenientStep]

theorem lenientPass_cons (base : Document) (e : Preset.Entry) (entries : List Preset.Entry) :
    lenientPass host base (e :: entries) =
      (lenientPass host base [e]).andThen
        (lenientPass host (lenientPass host base [e]).document entries) :=
  lenientPass_append host base [e] entries

/-! ## Turns -/

/-- The turn of an entry in a pass: the entry, and the document that it finds. -/
structure Turn where
  entry : Preset.Entry
  found : Document

/-- The turns of a pass. Every entry finds the document that the entries before it leave. -/
def turns : Document → List Preset.Entry → List Turn
  | _, [] => []
  | d, e :: entries => ⟨e, d⟩ :: turns (lenientPass host d [e]).document entries

def Turn.notes (t : Turn) : List Diagnostic := (lenientPass host t.found [t.entry]).notes

/-- Whether an entry fails on a document: its preset is not there, does not compile or fails when it
runs, or what it contributes cannot be merged. -/
def Host.fails (d : Document) (e : Preset.Entry) : Bool :=
  match host.contribution d e with
  | .error _ => true
  | .ok none => false
  | .ok (some c) => (merge d c e.type).1 matches .error _

def Turn.succeeds (t : Turn) : Bool := !t.entry.disabled && !host.fails t.found t.entry

theorem turns_append (base : Document) (entries more : List Preset.Entry) :
    turns host base (entries ++ more) =
      turns host base entries ++ turns host (lenientPass host base entries).document more := by
  induction entries generalizing base with
  | nil => rfl
  | cons e entries ih =>
    rw [List.cons_append, turns, turns, ih, lenientPass_cons host base e entries, List.cons_append,
      Report.andThen_document]

theorem map_entry_turns (base : Document) (entries : List Preset.Entry) :
    (turns host base entries).map Turn.entry = entries := by
  induction entries generalizing base with
  | nil => rfl
  | cons e entries ih => exact congrArg (e :: ·) (ih _)

theorem notes_lenientPass (base : Document) (entries : List Preset.Entry) :
    (lenientPass host base entries).notes = (turns host base entries).flatMap (·.notes host) := by
  induction entries generalizing base with
  | nil => rfl
  | cons e entries ih =>
    rw [lenientPass_cons, turns, List.flatMap_cons, ← ih]
    rfl

/-! ## Entries that fail -/

theorem attempt_of_fails {d : Document} {e : Preset.Entry} (h : host.fails d e = true) :
    ∃ s, (attempt host d e).value = ⟨d, .error s⟩ := by
  rw [attempt_value]
  unfold Host.fails at h
  rcases hc : host.contribution d e with s | _ | c
  · exact ⟨s, rfl⟩
  · rw [hc] at h
    cases h
  · rw [hc] at h
    dsimp only at h ⊢
    rcases hmerge : merge d c e.type with ⟨f | report, after⟩
    · have hatomic := (merge_atomic d c e.type).1 f
      rw [hmerge] at hatomic
      refine ⟨.ofMerge f, ?_⟩
      rw [mergeResult, hmerge, ← hatomic rfl]
      rfl
    · rw [hmerge] at h
      cases h

theorem lenientPass_disabled {d : Document} {e : Preset.Entry} (h : e.disabled = true) :
    lenientPass host d [e] = { document := d } := by
  unfold lenientPass
  rw [List.filter_cons_of_neg (by simp [h])]
  rfl

theorem lenientPass_enabled {d : Document} {e : Preset.Entry} (h : e.disabled = false) :
    lenientPass host d [e] = ({ document := d } : Report).lenientStep host e := by
  unfold lenientPass
  rw [List.filter_cons_of_pos (by simp [h])]
  rfl

theorem Turn.notes_disabled {t : Turn} (h : t.entry.disabled = true) : t.notes host = [] := by
  rw [notes, lenientPass_disabled host h]

theorem Turn.notes_enabled {t : Turn} (h : t.entry.disabled = false) :
    t.notes host = ((attempt host t.found t.entry).notes ++
      match (attempt host t.found t.entry).value.outcome with
      | .ok _ => []
      | .error s => [s.diagnostic]).map (·.withPreset t.entry.presetId) := by
  rw [notes, lenientPass_enabled host h, Report.lenientStep]
  dsimp only
  rcases (attempt host t.found t.entry).value.outcome with s | applied
  · rw [List.map_append]
    rfl
  · rw [List.append_nil]
    rfl

theorem lenientPass_of_not_succeeds {t : Turn} (h : t.succeeds host = false) :
    lenientPass host t.found [t.entry] = ⟨t.found, t.notes host, 0⟩ := by
  obtain ⟨e, d⟩ := t
  have hends : ∃ notes, lenientPass host d [e] = ⟨d, notes, 0⟩ := by
    rcases hdisabled : e.disabled with _ | _
    · have hfails : host.fails d e = true := by simpa [Turn.succeeds, hdisabled] using h
      obtain ⟨s, hs⟩ := attempt_of_fails host hfails
      rw [lenientPass_enabled host hdisabled, Report.lenientStep]
      dsimp only
      rw [hs]
      exact ⟨_, rfl⟩
    · exact ⟨[], lenientPass_disabled host hdisabled⟩
  obtain ⟨notes, hnotes⟩ := hends
  rw [Turn.notes, hnotes]

/-- Without the entries that are not run or fail, a pass comes to the same document and counts the
same contributions, and its problems are those of the entries that stay. -/
theorem lenientPass_succeeding (base : Document) (entries : List Preset.Entry) :
    lenientPass host base (((turns host base entries).filter (·.succeeds host)).map Turn.entry) =
      { lenientPass host base entries with
        notes := ((turns host base entries).filter (·.succeeds host)).flatMap (·.notes host) } := by
  induction entries generalizing base with
  | nil => rfl
  | cons e entries ih =>
    rw [lenientPass_cons host base e entries, turns]
    cases hsucceeds : Turn.succeeds host ⟨e, base⟩
    · have hpass := lenientPass_of_not_succeeds host hsucceeds
      dsimp only at hpass
      rw [List.filter_cons_of_neg (by simp [hsucceeds]), hpass, ih base]
      simp [Report.andThen]
    · rw [List.filter_cons_of_pos hsucceeds, List.map_cons, List.flatMap_cons, lenientPass_cons, ih]
      rfl

/-! ## What a preset sees -/

def ownSettings (props : Json) : Fields :=
  match props.get? "config" with
  | some (.object config) => config
  | _ => []

/-- What a preset sees under `config` are the settings of the document, with the host's own settings
written over them; all else is the host's. -/
theorem propsFor_eq_object (props : Json) (d : Document) :
    ∃ members config, propsFor props d = .object members ∧
      Fields.get? members "config" = some (.object config) ∧
      (∀ key, Fields.get? config key =
        (Fields.get? (ownSettings props).reverse key).or (Fields.get? d.config.toFields key)) ∧
      ∀ key ≠ "config", Fields.get? members key = props.get? key := by
  have hown : ∃ own : Fields, (∀ key, Fields.get? own key = props.get? key) ∧
      propsFor props d = .object (Fields.insert own "config"
        (.object (match Fields.get? own "config" with
          | some (.object config) => Fields.overlay d.config.toFields config
          | _ => d.config.toFields))) := by
    cases props with
    | object fields => exact ⟨fields, fun _ => rfl, rfl⟩
    | _ => exact ⟨[], fun _ => rfl, rfl⟩
  obtain ⟨own, hget, hprops⟩ := hown
  refine ⟨_, Fields.overlay d.config.toFields (ownSettings props), hprops, ?_, fun key => ?_,
    fun key hkey => ?_⟩
  · rw [Fields.get?_insert, if_pos rfl, hget, ownSettings]
    split <;> rfl
  · exact Fields.get?_overlay _ _ _
  · rw [Fields.get?_insert, if_neg (Ne.symm hkey), hget]

/-! ## Isolation -/

/-- **The entries of a lenient pass do not disturb one another.** The pass always comes to a report.
Its problems are those of its entries, and without the entries that are not run or fail nothing is
missing but their problems. More entries are a pass of their own on the document it leaves; and the
next preset sees the settings of that document under `config`, with the host's own over them. -/
theorem generate_isolated (base : Document) (entries : List Preset.Entry) :
    ∃ r, generate false host base entries = .ok r ∧
      r.notes = (turns host base entries).flatMap (·.notes host) ∧
      generate false host base
          (((turns host base entries).filter (·.succeeds host)).map Turn.entry) =
        .ok { r with
          notes := ((turns host base entries).filter (·.succeeds host)).flatMap (·.notes host) } ∧
      (∀ more, turns host base (entries ++ more) =
          turns host base entries ++ turns host r.document more ∧
        ∃ s, generate false host r.document more = .ok s ∧
          generate false host base (entries ++ more) =
            .ok ⟨s.document, r.notes ++ s.notes, r.applied + s.applied⟩) ∧
      ∃ members config,
        Fields.get? members "config" = some (.object config) ∧
        (∀ key, Fields.get? config key = (Fields.get? (ownSettings host.props).reverse key).or
          (Fields.get? r.document.config.toFields key)) ∧
        (∀ key ≠ "config", Fields.get? members key = host.props.get? key) ∧
        ∀ e p f, host.registry.get? e.presetId = some p → p.function = .ok f →
          (attempt host r.document e).value =
            match f.invoke host.fetch (Reference.resolve host.pool e.input).value
              (.object members) with
            | .error failure => ⟨r.document, .error (.ofInvoke failure)⟩
            | .ok c => (mergeResult r.document e.type c).value := by
  obtain ⟨members, config, hprops, hconfig, hkeys, hothers⟩ :=
    propsFor_eq_object host.props (lenientPass host base entries).document
  refine ⟨lenientPass host base entries, rfl, notes_lenientPass host base entries,
    congrArg Except.ok (lenientPass_succeeding host base entries), fun more => ⟨?_, ?_⟩, members,
    config, hconfig, hkeys, hothers, fun e p f hp hf => ?_⟩
  · exact turns_append host base entries more
  · exact ⟨_, rfl, congrArg Except.ok (lenientPass_append host base entries more)⟩
  · rw [attempt_value, Host.contribution, hp, ← hprops]
    dsimp only
    rw [hf]
    dsimp only
    cases f.invoke host.fetch (Reference.resolve host.pool e.input).value
      (propsFor host.props (lenientPass host base entries).document) <;> rfl

/-- A host whose settings have a frame rate, with a preset that sets the background, one that fails,
and one that writes its props into the style. -/
def sixtyFrames : Host where
  registry := ⟨[("red", .native (.native fun _ _ =>
      .ok (.object [("style", .object [("bg", .string "red")])]))),
    ("bad", .native (.native fun _ _ => .error ⟨.execution, "no"⟩)),
    ("seen", .native (.native fun _ props =>
      .ok (.object [("style", .object [("props", props)])])))]⟩
  pool := {}
  fetch := .absent
  props := .object [("config", .object [("fps", .ofNat 60)])]

/-- Of an entry that fails, one that is disabled and one that sets the background only the last is
needed, and a preset behind them sees the frame rate of the host. -/
theorem generate_isolated_sixtyFrames :
    let bad : Preset.Entry := { presetId := "bad", type := .full }
    let red : Preset.Entry := { presetId := "red", type := .full }
    ∃ r s : Report, generate false sixtyFrames {} [bad, red.disable, red] = .ok r ∧
      generate false sixtyFrames {} [red] = .ok s ∧ r = { s with notes := r.notes } ∧
      r.notes.map (·.message) = ["execution error: no"] ∧ s.notes = [] ∧
      ∃ members config, Fields.get? members "config" = some (.object config) ∧
        Fields.get? config "fps" = some (.ofNat 60) ∧
        (attempt sixtyFrames r.document { presetId := "seen", type := .full }).value.document.style =
          [("bg", .string "red"), ("props", .object members)] := by
  intro bad red
  obtain ⟨r, hr, -, hsucceeding, -, members, config, hconfig, hkeys, -, hsees⟩ :=
    generate_isolated sixtyFrames {} [bad, red.disable, red]
  cases hr
  refine ⟨_, _, rfl, hsucceeding, rfl, rfl, rfl, members, config, hconfig, ?_, ?_⟩
  · exact (hkeys "fps").trans rfl
  · rw [hsees { presetId := "seen", type := .full } _ _ rfl rfl]
    rfl

end Montage
