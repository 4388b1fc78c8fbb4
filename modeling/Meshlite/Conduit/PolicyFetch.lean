import Meshlite.Conduit.ClusterClient

/-!
# What survives a fetch

Conduit reads back the policy Sigil serves unless some source has no destination,
whose slice is sent as `null`, or the body is long enough to be chunked.
-/

namespace Meshlite.Conduit

open Bytes Policy

/-- Every source that a rule names has some rule that lists a destination. -/
def EverySourceListed (p : PolicyConfig) : Prop :=
  ∀ rule ∈ p.allow.elems, ∃ rule' ∈ p.allow.elems,
    rule'.fromSvc = rule.fromSvc ∧ rule'.toSvcs.elems ≠ []

instance (p : PolicyConfig) : Decidable (EverySourceListed p) :=
  inferInstanceAs (Decidable (∀ rule ∈ p.allow.elems, ∃ rule' ∈ p.allow.elems,
    rule'.fromSvc = rule.fromSvc ∧ rule'.toSvcs.elems ≠ []))

theorem everySourceListed_iff {cfg : MeshConfig} (order : (newEngine cfg).RangeOrder) :
    EverySourceListed cfg.policy ↔ ∀ src ∈ order.sources, order.dests src ≠ [] := by
  have hdest : ∀ src ∈ order.sources, order.dests src ≠ [] ↔ ∃ dst, cfg.policy.Permits src dst := by
    intro src hsrc
    rw [← List.length_pos_iff, List.length_pos_iff_exists_mem]
    simp only [Engine.mem_dests order ((Engine.mem_sources order).mp hsrc), newEngine_lists]
  constructor
  · intro h src hsrc
    obtain ⟨rule, hrule, rfl⟩ := mem_newEngine_allow.mp ((Engine.mem_sources order).mp hsrc)
    obtain ⟨rule', hrule', hfrom, hto⟩ := h rule hrule
    obtain ⟨dst, hdst⟩ := List.exists_mem_of_ne_nil _ hto
    exact (hdest _ hsrc).mpr ⟨dst, rule', hrule', hfrom, hdst⟩
  · intro h rule hrule
    have hsrc : rule.fromSvc ∈ order.sources :=
      (Engine.mem_sources order).mpr (mem_newEngine_allow.mpr ⟨rule, hrule, rfl⟩)
    obtain ⟨dst, rule', hrule', hfrom, hdst⟩ := (hdest _ hsrc).mp (h _ hsrc)
    exact ⟨rule', hrule', hfrom, List.ne_nil_of_mem hdst⟩

/-- Conduit decodes the served policy into what the engine holds. -/
def FetchesPolicy (fromSlice : Bytes → Except String Json) (header : Sigil.HeaderLines)
    {e : Engine} (order : e.RangeOrder) : Prop :=
  ∃ snap, fetchPolicy fromSlice (.ok (Sigil.getPolicy header e order)) = .ok snap ∧ snap.Carries e

/-- The served policy is decoded into the engine's exactly when every source has a
destination and the body fits the buffer of `net/http`. -/
theorem fetches_policy_iff (cfg : MeshConfig) (order : (newEngine cfg).RangeOrder)
    (header : Sigil.HeaderLines) (fromSlice : Bytes → Except String Json)
    (hread : Reads fromSlice (Sigil.policyResp (newEngine cfg) order).encode)
    (hshape : NoHexStructure fromSlice) :
    FetchesPolicy fromSlice header order ↔
      EverySourceListed cfg.policy ∧ Sigil.policySize (newEngine cfg) ≤ 2048 := by
  constructor
  · rintro ⟨snap, hfetch, -⟩
    by_cases hsize : Sigil.policySize (newEngine cfg) ≤ 2048
    · refine ⟨(everySourceListed_iff order).mpr fun src hsrc hnil => ?_, hsize⟩
      exact fetchPolicy_nil_ne_ok order header hread hsize hsrc hnil snap hfetch
    · exact absurd hfetch (fetchPolicy_chunked_ne_ok order header hshape hsize snap)
  · rintro ⟨hlisted, hsize⟩
    have hdests := (everySourceListed_iff order).mp hlisted
    exact ⟨_, fetchPolicy_ok order header hread hdests hsize, snapshotOf_carries order⟩

def demoMesh : MeshMeta := { name := "demo", clusterId := "cluster-1" }

/-- `alpha → [beta]`, deny by default. -/
def servedConfig : MeshConfig where
  mesh := demoMesh
  policy :=
    { mtlsMode := "enforce"
      defaultAllow := false
      allow := .of [{ fromSvc := "alpha", toSvcs := .of ["beta"] }] }

/-- `alpha → []`, deny by default. -/
def emptyRuleConfig : MeshConfig where
  mesh := demoMesh
  policy :=
    { mtlsMode := "enforce"
      defaultAllow := false
      allow := .of [{ fromSvc := "alpha", toSvcs := .of [] }] }

/-- The parser on the bodies of the given values; other texts are refused. -/
def parserOf (values : List Json) (bytes : Bytes) : Except String Json :=
  match values.find? fun v => Sigil.jsonBody v = bytes with
  | some v => .ok v
  | none => .error "expected value"

theorem parserOf_reads (v : Json) (values : List Json) : Reads (parserOf (v :: values)) v := by
  simp [Reads, parserOf]

theorem parserOf_reads_second {u v : Json} (h : Sigil.jsonBody u ≠ Sigil.jsonBody v) :
    Reads (parserOf [u, v]) v := by
  simp [Reads, parserOf, h]

theorem parserOf_noHexStructure {values : List Json}
    (h : ∀ v ∈ values, ∃ fields, v = .obj fields) : NoHexStructure (parserOf values) := by
  intro b rest j hb hj
  have hbrace : ¬ Sigil.IsHexDigit 0x7b := by unfold Sigil.IsHexDigit; decide
  unfold parserOf at hj
  cases hf : values.find? fun v => Sigil.jsonBody v = b :: rest with
  | none => simp [hf] at hj
  | some v =>
    obtain ⟨fields, rfl⟩ := h v (List.mem_of_find?_eq_some hf)
    have hbody : Sigil.jsonBody (.obj fields) = b :: rest := by
      simpa using List.find?_some hf
    have hhead : 0x7b = b := (List.cons.inj hbody).1
    exact absurd (hhead ▸ hb) hbrace

def contentType : Sigil.HeaderLines where
  lines := [utf8 "Content-Type: application/json", utf8 "Connection: close"]
  clean := by decide

def listedOrder (cfg : MeshConfig) : (newEngine cfg).RangeOrder := .listed _

def servedJson (cfg : MeshConfig) : Json := (Sigil.policyResp _ (listedOrder cfg)).encode

theorem servedConfig_fetched :
    FetchesPolicy (parserOf [servedJson servedConfig]) contentType (listedOrder servedConfig) :=
  (fetches_policy_iff servedConfig (listedOrder servedConfig) contentType _ (parserOf_reads _ [])
    (parserOf_noHexStructure (by simp [Sigil.PolicyResp.encode]))).mpr
    ⟨by decide, by decide⟩

/-- The rule without a destination makes Conduit refuse the whole policy. -/
theorem emptyRule_not_fetched :
    Reads (parserOf [servedJson emptyRuleConfig]) (servedJson emptyRuleConfig) ∧
      ¬ FetchesPolicy (parserOf [servedJson emptyRuleConfig]) contentType
        (listedOrder emptyRuleConfig) := by
  refine ⟨parserOf_reads _ [], ?_⟩
  rintro ⟨snap, hfetch, -⟩
  have hsrc : "alpha" ∈ (listedOrder emptyRuleConfig).sources := by decide
  exact fetchPolicy_nil_ne_ok (listedOrder emptyRuleConfig) contentType (parserOf_reads _ [])
    (by decide) hsrc (by decide) snap hfetch

end Meshlite.Conduit
