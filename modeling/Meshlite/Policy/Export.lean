import Meshlite.Library.Json
import Meshlite.Policy.Engine
import Meshlite.Policy.PolicyCache

/-!
# How the policy leaves Sigil

The engine is exported twice: as a `PolicyBundle` for the gRPC streams, and as
the JSON body of `GET /api/v1/policy`. Both copy `Rules()`, `DefaultAllow()` and
`MTLSMode()`.
-/

namespace Meshlite

/-- What a first-match scan of the exported rules permits: the listed pairs, and
everything from a source without a rule when the default allows. -/
def Policy.Engine.Exports (e : Policy.Engine) (src dst : String) : Prop :=
  e.allow.Lists src dst ∨ src ∉ e.allow ∧ e.defaultAllow = true

namespace Sigil

open Policy

/-- The conversion loop of `OnConnect` and of `POST /api/v1/config`. -/
def protoRules (rules : List AllowRule) : List Proto.AllowRule :=
  rules.map fun r => { fromService := r.fromSvc, toServices := r.toSvcs.elems }

/-- The current policy state, ready to push. -/
structure PolicySnapshot where
  rules : List Proto.AllowRule
  defaultAllow : Bool
  mtlsMode : String
  deriving DecidableEq, Repr

/-- The payload that `PushPolicy` and `BroadcastPolicy` build from a snapshot. -/
def PolicySnapshot.bundle (snap : PolicySnapshot) : Proto.PolicyBundle where
  rules := snap.rules
  defaultAllow := snap.defaultAllow
  mtlsMode := snap.mtlsMode

/-- The snapshot taken of an engine that does not change meanwhile. -/
def snapshot (e : Engine) (order : e.RangeOrder) : PolicySnapshot where
  rules := protoRules (e.rules order)
  defaultAllow := e.defaultAllow
  mtlsMode := e.mtlsMode

/-- The struct `policyResp` of `GET /api/v1/policy`. -/
structure PolicyResp where
  mtlsMode : String
  defaultAllow : Bool
  rules : List AllowRule

def policyResp (e : Engine) (order : e.RangeOrder) : PolicyResp where
  mtlsMode := e.mtlsMode
  defaultAllow := e.defaultAllow
  rules := e.rules order

/-- `encoding/json` on a `[]string`: a `nil` slice is `null`. -/
def encodeStrings : Slice String → Json
  | .nil => .null
  | .of xs => .arr (xs.map .str)

def encodeRule (r : AllowRule) : Json :=
  .obj [("from", .str r.fromSvc), ("to", encodeStrings r.toSvcs)]

/-- The value `writeJSON` encodes; `Rules` allocates its slice, so it is an array. -/
def PolicyResp.encode (r : PolicyResp) : Json :=
  .obj [("mtls_mode", .str r.mtlsMode), ("default_allow", .bool r.defaultAllow),
    ("rules", .arr (r.rules.map encodeRule))]

section Bundle

variable {e : Engine} (order : e.RangeOrder)

/-- The cache of an agent that applied the bundle of `e`. -/
def pushedCache (cache : Tls.PolicyCache) : Tls.PolicyCache :=
  Tls.applyPolicyBundle (snapshot e order).bundle cache

theorem pushedCache_rules (cache : Tls.PolicyCache) :
    (pushedCache order cache).rules = order.sources.map fun src =>
      { fromService := src, toServices := order.dests src } := by
  simp [pushedCache, Tls.applyPolicyBundle, Tls.PolicyCache.update, snapshot,
    PolicySnapshot.bundle, protoRules, Engine.rules, Function.comp_def, Engine.exported_elems]

@[simp] theorem pushedCache_defaultAllow (cache : Tls.PolicyCache) :
    (pushedCache order cache).defaultAllow = e.defaultAllow := rfl

@[simp] theorem pushedCache_mtlsMode (cache : Tls.PolicyCache) :
    (pushedCache order cache).mtlsMode = e.mtlsMode := rfl

theorem pushedCache_sources_nodup (cache : Tls.PolicyCache) :
    ((pushedCache order cache).rules.map Tls.AllowRule.fromService).Nodup := by
  rw [pushedCache_rules, List.map_map]
  simpa [Function.comp_def] using Engine.sources_nodup order

end Bundle

theorem isAllowed_pushedCache {e : Engine} (order : e.RangeOrder) (cache : Tls.PolicyCache)
    (src dst : String) :
    (pushedCache order cache).isAllowed src dst = true ↔ e.Exports src dst := by
  rw [Tls.PolicyCache.isAllowed,
    FirstMatch.scan_iff _ _ _ (pushedCache_sources_nodup order cache), pushedCache_rules,
    pushedCache_defaultAllow, Engine.Exports]
  refine or_congr ?_ (and_congr_left' ?_)
  · simp only [List.mem_map, exists_exists_and_eq_and, Engine.mem_sources]
    constructor
    · rintro ⟨s, hs, rfl, hd⟩
      exact (Engine.mem_dests order hs).mp hd
    · rintro ⟨dsts, hl, hd⟩
      have hs : src ∈ e.allow := AList.lookup_isSome.mp (by rw [hl]; rfl)
      exact ⟨src, hs, rfl, (Engine.mem_dests order hs).mpr ⟨dsts, hl, hd⟩⟩
  · simp only [List.forall_mem_map, Engine.mem_sources]
    constructor
    · intro h hs
      exact h src hs rfl
    · rintro h s hs rfl
      exact h hs

end Sigil

end Meshlite
