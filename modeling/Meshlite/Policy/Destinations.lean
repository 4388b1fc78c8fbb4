import Meshlite.Conduit.ClusterClient

/-!
# The check that does not know the source

The gateway asks whether any rule lists the destination, the agents ask for one source.
The rules of an engine name each source once, and no policy names every source there
could be, so the first check is the second over all sources.
-/

namespace Meshlite.Tls.PolicyCache

/-- No source has two rules. -/
def DistinctSources (self : PolicyCache) : Prop := (self.rules.map AllowRule.fromService).Nodup

variable {self : PolicyCache} {destination : String}

theorem isAllowedDestination_iff : self.isAllowedDestination destination = true ↔
    (∃ rule ∈ self.rules, destination ∈ rule.toServices) ∨ self.defaultAllow = true := by
  simp [isAllowedDestination]

theorem exists_isAllowed_iff (h : self.DistinctSources) :
    (∃ source, self.isAllowed source destination = true) ↔
      self.isAllowedDestination destination = true := by
  rw [isAllowedDestination_iff]
  exact FirstMatch.exists_scan_iff _ _ _ h

/-- The rules are those some engine exports, in whatever order its maps are iterated. -/
def ExportedRules (self : PolicyCache) : Prop :=
  ∃ (e : Policy.Engine) (order : e.RangeOrder),
    self.rules = (e.rules order).map fun r =>
      { fromService := r.fromSvc, toServices := r.toSvcs.elems }

theorem exportedRules_pushed {e : Policy.Engine} (order : e.RangeOrder) (cache : PolicyCache) :
    (Sigil.pushedCache order cache).ExportedRules := by
  refine ⟨e, order, ?_⟩
  rw [Sigil.pushedCache_rules, Policy.Engine.rules, List.map_map]
  simp [Function.comp_def, Policy.Engine.exported_elems]

theorem exportedRules_fetched {e : Policy.Engine} (order : e.RangeOrder) (cache : PolicyCache) :
    (cache.update (Conduit.snapshotOf order).rules e.defaultAllow e.mtlsMode).ExportedRules := by
  refine ⟨e, order, ?_⟩
  rw [update, Conduit.snapshotOf, Policy.Engine.rules, List.map_map]
  simp [Function.comp_def, Policy.Engine.exported_elems]

theorem ExportedRules.distinctSources (h : self.ExportedRules) : self.DistinctSources := by
  obtain ⟨e, order, hrules⟩ := h
  rw [DistinctSources, hrules, List.map_map]
  exact Policy.Engine.rules_sources order ▸ Policy.Engine.sources_nodup order

/-- With distinct sources, which exported rules have, the destination check admits exactly
what the pair check admits from some source. -/
theorem isAllowedDestination_projects (self : PolicyCache) (destination : String) :
    (self.ExportedRules → self.DistinctSources) ∧
    (self.DistinctSources →
      (self.isAllowedDestination destination = true ↔
        ∃ source, self.isAllowed source destination = true)) :=
  ⟨ExportedRules.distinctSources, fun h => (exists_isAllowed_iff h).symm⟩

/-- `alpha → [beta]` and a source without destinations, deny by default. -/
def twoSources : Policy.Engine :=
  Policy.newEngine
    { mesh := { name := "demo", clusterId := "cluster-1" }
      policy :=
        { mtlsMode := "enforce"
          defaultAllow := false
          allow := .of [{ fromSvc := "alpha", toSvcs := .of ["beta"] },
            { fromSvc := "gamma", toSvcs := .of [] }] } }

/-- The cache of an agent and the cache of a gateway. -/
def twoSourcesCaches : List PolicyCache :=
  [Sigil.pushedCache (.listed twoSources) .new,
    PolicyCache.new.update (Conduit.snapshotOf (.listed twoSources)).rules
      twoSources.defaultAllow twoSources.mtlsMode]

theorem twoSourcesCaches_exported : ∀ cache ∈ twoSourcesCaches, cache.ExportedRules := by
  simp [twoSourcesCaches, exportedRules_pushed, exportedRules_fetched]

theorem twoSources_projects : ∀ cache ∈ twoSourcesCaches,
    (cache.isAllowedDestination "beta" = true ↔
      ∃ source, cache.isAllowed source "beta" = true) ∧
    ¬ ∃ source, cache.isAllowed source "alpha" = true := by
  intro cache hcache
  have hdistinct : cache.DistinctSources :=
    (isAllowedDestination_projects cache "beta").1 (twoSourcesCaches_exported cache hcache)
  have halpha : ∀ cache ∈ twoSourcesCaches, ¬ cache.isAllowedDestination "alpha" = true := by
    decide +kernel
  refine ⟨(isAllowedDestination_projects cache "beta").2 hdistinct, fun hsource => ?_⟩
  exact halpha cache hcache
    (((isAllowedDestination_projects cache "alpha").2 hdistinct).mpr hsource)

end Meshlite.Tls.PolicyCache
