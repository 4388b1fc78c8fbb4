import Meshlite.Policy.Engine
import Mathlib.Logic.Relation

/-!
# What the order of the rules does not decide

The allow map holds the pairs the rules list and nothing of their order, so the decision
is that of the pairs. Two rule lists that differ by permuting, repeating and splitting rules
list the same pairs.
-/

namespace Meshlite.Policy

/-- One rearrangement of a rule list. Splitting a rule spreads its destinations over any
number of rules of its source. -/
inductive Rearranges : List AllowRule → List AllowRule → Prop
  | permute {rules rules'} (h : rules.Perm rules') : Rearranges rules rules'
  | duplicate {rule rules} (h : rule ∈ rules) : Rearranges rules (rule :: rules)
  | split {rule before after} (parts : List AllowRule)
      (hfrom : ∀ part ∈ parts, part.fromSvc = rule.fromSvc)
      (hto : ∀ dst, dst ∈ rule.toSvcs.elems ↔ ∃ part ∈ parts, dst ∈ part.toSvcs.elems) :
      Rearranges (before ++ rule :: after) (before ++ parts ++ after)

/-- The rules list the pair. -/
def ListsPair (rules : List AllowRule) (src dst : String) : Prop :=
  ∃ r ∈ rules, r.fromSvc = src ∧ dst ∈ r.toSvcs.elems

section Pairs

variable {rules rules' : List AllowRule} {src dst : String}

theorem listsPair_append :
    ListsPair (rules ++ rules') src dst ↔ ListsPair rules src dst ∨ ListsPair rules' src dst := by
  simp only [ListsPair, List.mem_append, or_and_right, exists_or]

theorem listsPair_cons {rule : AllowRule} : ListsPair (rule :: rules) src dst ↔
    (rule.fromSvc = src ∧ dst ∈ rule.toSvcs.elems) ∨ ListsPair rules src dst :=
  List.exists_mem_cons_iff _ _ _

theorem listsPair_parts {rule : AllowRule} {parts : List AllowRule}
    (hfrom : ∀ part ∈ parts, part.fromSvc = rule.fromSvc)
    (hto : ∀ dst, dst ∈ rule.toSvcs.elems ↔ ∃ part ∈ parts, dst ∈ part.toSvcs.elems) :
    ListsPair parts src dst ↔ rule.fromSvc = src ∧ dst ∈ rule.toSvcs.elems := by
  rw [hto]
  constructor
  · rintro ⟨part, hpart, hsrc, hdst⟩
    exact ⟨(hfrom part hpart).symm.trans hsrc, part, hpart, hdst⟩
  · rintro ⟨hsrc, part, hpart, hdst⟩
    exact ⟨part, hpart, (hfrom part hpart).trans hsrc, hdst⟩

theorem Rearranges.listsPair (h : Rearranges rules rules') :
    ListsPair rules src dst ↔ ListsPair rules' src dst := by
  induction h with
  | permute hperm => simp only [ListsPair, hperm.mem_iff]
  | duplicate hmem =>
    rw [listsPair_cons]
    constructor
    · exact Or.inr
    · rintro (hpair | hpair)
      · exact ⟨_, hmem, hpair⟩
      · exact hpair
  | split parts hfrom hto =>
    rw [listsPair_append, listsPair_cons, listsPair_append, listsPair_append,
      listsPair_parts hfrom hto, or_assoc]

/-- Any number of rearrangements, done or undone, leave the pairs as they are. -/
theorem listsPair_rearranged (h : Relation.EqvGen Rearranges rules rules') :
    ListsPair rules src dst ↔ ListsPair rules' src dst := by
  induction h with
  | rel _ _ h => exact h.listsPair
  | refl => exact Iff.rfl
  | symm _ _ _ ih => exact ih.symm
  | trans _ _ _ _ _ ih₁ ih₂ => exact ih₁.trans ih₂

end Pairs

theorem evaluate_newEngine {cfg : MeshConfig} {src dst : String} :
    (newEngine cfg).evaluate src dst = .allow ↔
      cfg.policy.defaultAllow = true ∨ ListsPair cfg.policy.allow.elems src dst := by
  rw [Engine.evaluate_eq_allow, newEngine_lists, or_comm]
  rfl

theorem Decision.eq_of_allow_iff {d d' : Decision} (h : d = .allow ↔ d' = .allow) : d = d' := by
  cases d <;> cases d' <;> simp_all

/-- The engine allows a pair exactly if the default does or a rule of the source lists the
destination, so no rearrangement of the rules changes its decision. -/
theorem evaluate_decides (cfg : MeshConfig) (src dst : String) :
    ((newEngine cfg).evaluate src dst = .allow ↔
      cfg.policy.defaultAllow = true ∨
        ∃ rule ∈ cfg.policy.allow.elems, rule.fromSvc = src ∧ dst ∈ rule.toSvcs.elems) ∧
    ∀ cfg' : MeshConfig, cfg'.policy.defaultAllow = cfg.policy.defaultAllow →
      Relation.EqvGen Rearranges cfg.policy.allow.elems cfg'.policy.allow.elems →
      (newEngine cfg').evaluate src dst = (newEngine cfg).evaluate src dst := by
  refine ⟨evaluate_newEngine, ?_⟩
  intro cfg' hdefault hrules
  apply Decision.eq_of_allow_iff
  rw [evaluate_newEngine, evaluate_newEngine, hdefault, listsPair_rearranged hrules]

/-- `alpha → [beta, gamma]`, deny by default. -/
def wholeRule : MeshConfig where
  mesh := { name := "demo", clusterId := "cluster-1" }
  policy :=
    { mtlsMode := "enforce"
      defaultAllow := false
      allow := .of [{ fromSvc := "alpha", toSvcs := .of ["beta", "gamma"] }] }

/-- The rule split in two, its halves swapped and one of them repeated. -/
def splitRule : MeshConfig where
  mesh := { name := "demo", clusterId := "cluster-1" }
  policy :=
    { mtlsMode := "enforce"
      defaultAllow := false
      allow := .of [{ fromSvc := "alpha", toSvcs := .of ["gamma"] },
        { fromSvc := "alpha", toSvcs := .of ["gamma"] },
        { fromSvc := "alpha", toSvcs := .of ["beta"] }] }

theorem splitRule_rearranged :
    Relation.EqvGen Rearranges wholeRule.policy.allow.elems splitRule.policy.allow.elems := by
  let halves : List AllowRule :=
    [{ fromSvc := "alpha", toSvcs := .of ["gamma"] }, { fromSvc := "alpha", toSvcs := .of ["beta"] }]
  have hsplit : Rearranges ([] ++ { fromSvc := "alpha", toSvcs := .of ["beta", "gamma"] } :: [])
      ([] ++ halves ++ []) := by
    apply Rearranges.split halves
    · simp [halves]
    · simp [halves, or_comm]
  have hdup : Rearranges halves splitRule.policy.allow.elems := .duplicate List.mem_cons_self
  exact .trans _ halves _ (.rel _ _ hsplit) (.rel _ _ hdup)

theorem splitRule_decides :
    (newEngine wholeRule).evaluate "alpha" "gamma" = .allow ∧
      (newEngine splitRule).evaluate "alpha" "gamma" =
        (newEngine wholeRule).evaluate "alpha" "gamma" :=
  have h := evaluate_decides wholeRule "alpha" "gamma"
  ⟨h.1.mpr (by decide), h.2 splitRule rfl splitRule_rearranged⟩

end Meshlite.Policy
