import Montage.Proofs.Merge.Outcomes
import Montage.Proofs.Scene.Settings

/-!
# Settings merged one patch after another

To merge settings is to write them as data, to write the patch over that, and to read and check what
has come of it. Between two patches the settings are so read and written once more: whole numbers
become floats, and members that are no parts come behind the parts. None of this can be told
afterwards, so two patches are one. A patch that is refused leaves no trace.
-/

namespace Montage

open Scene Stateful

theorem exec_mergeConfig_eq_ok_iff {d d' : Document} {p : Fields} :
    exec (Merging.mergeConfig p) d = (.ok (), d') ↔
      ∃ c, d.config.patch p = .ok c ∧ d' = { d with config := c } := by
  rw [exec_mergeConfig]
  cases d.config.patch p with
  | error f => simp
  | ok c => simp [eq_comm]

/-- **Two patches of the settings that succeed one after the other are one patch, the first overlaid
by the second**, also in the order of the members. A patch that succeeds changes the parts and
members it names and nothing else, and if it has any, the settings are valid afterwards. A patch
that fails changes nothing. -/
theorem mergeConfig_compose {v : Json} {d : Document} {p : Fields} (hv : v.WellFormed)
    (hread : Config.ofJson v = .ok d.config) (hp : (Fields.keys p).Nodup) :
    (∀ q d₁ d₂, exec (Merging.mergeConfig p) d = (.ok (), d₁) →
      exec (Merging.mergeConfig q) d₁ = (.ok (), d₂) →
      exec (Merging.mergeConfig (Fields.overlay p q)) d = (.ok (), d₂)) ∧
    (∀ d₁, exec (Merging.mergeConfig p) d = (.ok (), d₁) →
      Config.KeepsBut (Fields.keys p) d.config d₁.config ∧ d₁.children = d.children ∧
        d₁.style = d.style ∧ (p ≠ [] → d₁.config.validate = .ok ())) ∧
    ∀ f d₁, exec (Merging.mergeConfig p) d = (.error f, d₁) → d₁ = d := by
  have hfaithful : d.config.Faithful := Config.gives_ofJson v d.config hv hread
  refine ⟨fun q d₁ d₂ h₁ h₂ => ?_, fun d₁ h => ?_, fun f d₁ h => ?_⟩
  · obtain ⟨c₁, hc₁, rfl⟩ := exec_mergeConfig_eq_ok_iff.mp h₁
    obtain ⟨c₂, hc₂, rfl⟩ := exec_mergeConfig_eq_ok_iff.mp h₂
    exact exec_mergeConfig_eq_ok_iff.mpr
      ⟨c₂, Config.patch_overlay hfaithful hp hc₁ hc₂, rfl⟩
  · obtain ⟨c, hc, rfl⟩ := exec_mergeConfig_eq_ok_iff.mp h
    exact ⟨Config.keepsBut_of_patch hfaithful hc, rfl, rfl,
      fun hne => ((Config.patch_eq_ok_iff hne).mp hc).2⟩
  · rw [exec_mergeConfig] at h
    cases hpatch : d.config.patch p with
    | ok c =>
      rw [hpatch] at h
      cases h
    | error e =>
      rw [hpatch] at h
      cases h
      rfl

/-- The second patch brings a part that the first one names as well, and writes a new member behind
those of the first. On the way the duration has become a float. -/
theorem mergeConfig_compose_mood :
    let v : Json := .object [("theme", .string "dark"), ("duration", .ofNat 10)]
    let p : Fields := [("mood", .null), ("duration", .ofNat 12), ("width", .ofNat 640)]
    let q : Fields := [("title", .string "x"), ("theme", .string "light"), ("width", .ofNat 320)]
    v.WellFormed ∧ (Fields.keys p).Nodup ∧ ∃ d : Document, Config.ofJson v = .ok d.config ∧
      ∃ d₁, exec (Merging.mergeConfig p) d = (.ok (), d₁) ∧
      ∃ d₂, exec (Merging.mergeConfig q) d₁ = (.ok (), d₂) ∧
      exec (Merging.mergeConfig (Fields.overlay p q)) d = (.ok (), d₂) ∧
      d₂.config.width = 320 ∧
      d₂.config.extra = [("theme", .string "light"), ("mood", .null), ("title", .string "x")] := by
  intro v p q
  have hv : v.WellFormed := by simp [v, Fields.keys, Json.ofNat, count64]
  have hp : (Fields.keys p).Nodup := by decide
  obtain ⟨c, hread, c₁, hc₁, c₂, hc₂, hwidth, hextra⟩ : ∃ c, Config.ofJson v = .ok c ∧
      ∃ c₁, c.patch p = .ok c₁ ∧ ∃ c₂, c₁.patch q = .ok c₂ ∧ c₂.width = 320 ∧
        c₂.extra = [("theme", .string "light"), ("mood", .null), ("title", .string "x")] := by
    dsimp only [v, p, q]
    exact ⟨_, rfl, _, rfl, _, rfl, rfl, rfl⟩
  have h₁ : exec (Merging.mergeConfig p) { config := c } = (.ok (), { config := c₁ }) :=
    exec_mergeConfig_eq_ok_iff.mpr ⟨c₁, hc₁, rfl⟩
  have h₂ : exec (Merging.mergeConfig q) { config := c₁ } = (.ok (), { config := c₂ }) :=
    exec_mergeConfig_eq_ok_iff.mpr ⟨c₂, hc₂, rfl⟩
  have hcompose := (mergeConfig_compose (d := { config := c }) hv hread hp).1 q _ _ h₁ h₂
  exact ⟨hv, hp, _, hread, _, h₁, _, h₂, hcompose, hwidth, hextra⟩

end Montage
