import Meshlite.Policy.Rearrangement

/-!
# The snapshot of the rules as a policy

`Rules()` writes the allow map out again as rules, in whatever order the maps are iterated.
Sources that several rules of `mesh.yaml` share come out as one rule, and an engine built
from the snapshot holds the same pairs.
-/

namespace Meshlite.Policy

section Snapshot

variable {cfg : MeshConfig} (order : (newEngine cfg).RangeOrder)

theorem mem_rules_sources {src : String} :
    src ∈ ((newEngine cfg).rules order).map AllowRule.fromSvc ↔ cfg.policy.Names src := by
  rw [Engine.rules_sources, Engine.mem_sources, mem_newEngine_allow]

theorem rules_dests {rule : AllowRule} (h : rule ∈ (newEngine cfg).rules order) :
    rule.toSvcs.elems.Nodup ∧
      ∀ dst, dst ∈ rule.toSvcs.elems ↔ cfg.policy.Permits rule.fromSvc dst := by
  obtain ⟨hsrc, helems⟩ := Engine.mem_rules order h
  rw [helems]
  refine ⟨Engine.dests_nodup order hsrc, fun dst => ?_⟩
  rw [Engine.mem_dests order hsrc, newEngine_lists]

theorem listsPair_rules {src dst : String} :
    ListsPair ((newEngine cfg).rules order) src dst ↔
      ListsPair cfg.policy.allow.elems src dst := by
  unfold ListsPair
  rw [Engine.exists_mem_rules, newEngine_lists]
  rfl

end Snapshot

/-- Whatever order the maps are iterated in, the snapshot has one rule for each source of
`policy.allow`, with the destinations that rules of this source name, each once; and an engine
built from it with the same default decides every pair as before. -/
theorem rules_rebuild (cfg : MeshConfig) (order : (newEngine cfg).RangeOrder) :
    (((newEngine cfg).rules order).map AllowRule.fromSvc).Nodup ∧
    (∀ src, src ∈ ((newEngine cfg).rules order).map AllowRule.fromSvc ↔
      ∃ rule ∈ cfg.policy.allow.elems, rule.fromSvc = src) ∧
    (∀ rule ∈ (newEngine cfg).rules order, rule.toSvcs.elems.Nodup ∧
      ∀ dst, dst ∈ rule.toSvcs.elems ↔
        ∃ given ∈ cfg.policy.allow.elems,
          given.fromSvc = rule.fromSvc ∧ dst ∈ given.toSvcs.elems) ∧
    ∀ cfg' : MeshConfig, cfg'.policy.allow.elems = (newEngine cfg).rules order →
      cfg'.policy.defaultAllow = cfg.policy.defaultAllow →
      ∀ src dst, (newEngine cfg').evaluate src dst = (newEngine cfg).evaluate src dst := by
  refine ⟨?_, fun src => mem_rules_sources order, fun rule hrule => rules_dests order hrule, ?_⟩
  · rw [Engine.rules_sources]
    exact Engine.sources_nodup order
  · intro cfg' hallow hdefault src dst
    apply Decision.eq_of_allow_iff
    rw [evaluate_newEngine, evaluate_newEngine, hallow, hdefault, listsPair_rules]

/-- The policy with the snapshot of the split rule as its rules. -/
def rejoinedRule : MeshConfig where
  mesh := splitRule.mesh
  policy :=
    { mtlsMode := "enforce"
      defaultAllow := false
      allow := .of ((newEngine splitRule).rules (.listed _)) }

theorem rejoinedRule_rebuild :
    { fromSvc := "alpha", toSvcs := .of ["beta", "gamma"] } ∈ rejoinedRule.policy.allow.elems ∧
      ["beta", "gamma"].Nodup ∧
      (newEngine rejoinedRule).evaluate "alpha" "gamma" =
        (newEngine splitRule).evaluate "alpha" "gamma" :=
  have hrule : { fromSvc := "alpha", toSvcs := .of ["beta", "gamma"] } ∈
      (newEngine splitRule).rules (.listed _) := by decide
  have h := rules_rebuild splitRule (.listed _)
  ⟨hrule, (h.2.2.1 _ hrule).1, h.2.2.2 rejoinedRule rfl rfl "alpha" "gamma"⟩

end Meshlite.Policy
