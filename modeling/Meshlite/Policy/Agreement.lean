import Meshlite.Policy.Meshctl

/-!
# Agreement of the three policy evaluators

`Engine.Evaluate` looks the pair up and falls back to the default for every pair
it does not find. The two scans over the exported rules fall back only for a
source without a rule. They differ on the unlisted destinations of a source that
has a rule, when the default allows.
-/

namespace Meshlite.Policy

/-- The three evaluators give one answer for the pair, whatever iteration orders
the export to the agents (`order`) and to `meshctl` (`order'`) met. -/
def Engine.EvaluatorsAgree (e : Engine) (src dst : String) : Prop :=
  ∀ (order order' : e.RangeOrder) (cache : Tls.PolicyCache),
    (e.evaluate src dst = .allow ↔ (Sigil.pushedCache order cache).isAllowed src dst = true) ∧
    (e.evaluate src dst = .allow ↔
      Meshctl.isAllowed (Meshctl.responseOf order') src dst = true)

/-- The default shadowed by a rule of the source that does not list the destination. -/
def PolicyConfig.Shadowed (p : PolicyConfig) (src dst : String) : Prop :=
  p.defaultAllow = true ∧ p.Names src ∧ ¬ p.Permits src dst

theorem evaluate_iff_exports {cfg : MeshConfig} {src dst : String} :
    ((newEngine cfg).evaluate src dst = .allow ↔ (newEngine cfg).Exports src dst) ↔
      ¬ cfg.policy.Shadowed src dst := by
  rw [Engine.evaluate_eq_allow, Engine.Exports, newEngine_lists, mem_newEngine_allow,
    PolicyConfig.Shadowed]
  change (_ ∨ cfg.policy.defaultAllow = true ↔ _ ∨ _ ∧ cfg.policy.defaultAllow = true) ↔ _
  tauto

/-- The evaluators agree exactly where no rule of the source shadows an allowing default. -/
theorem evaluators_agree_iff (cfg : MeshConfig) (src dst : String) :
    (newEngine cfg).EvaluatorsAgree src dst ↔ ¬ cfg.policy.Shadowed src dst := by
  rw [← evaluate_iff_exports]
  constructor
  · intro h
    rw [← Sigil.isAllowed_pushedCache (.listed _) .new]
    exact (h (.listed _) (.listed _) .new).1
  · intro h order order' cache
    rw [Sigil.isAllowed_pushedCache, Meshctl.isAllowed_responseOf]
    exact ⟨h, h⟩

/-- `default_allow: true` and one rule `alpha → [beta]`. -/
def shadowingConfig : MeshConfig where
  mesh := { name := "demo", clusterId := "cluster-1" }
  policy :=
    { mtlsMode := "enforce"
      defaultAllow := true
      allow := .of [{ fromSvc := "alpha", toSvcs := .of ["beta"] }] }

theorem shadowingConfig_disagrees :
    ¬ (newEngine shadowingConfig).EvaluatorsAgree "alpha" "gamma" := by
  intro h
  have hcache := (h (.listed _) (.listed _) .new).1
  exact absurd (hcache.mp (by decide)) (by decide)

end Meshlite.Policy
