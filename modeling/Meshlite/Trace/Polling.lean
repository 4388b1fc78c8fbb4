import Meshlite.Trace.Performance

/-!
# Polling an unchanged store

The edges come out of a map in any order and are sorted by a sort that is not stable. An
answer is therefore determined only as far as the comparison tells the edges apart, and
neither comparison looks at the leg.
-/

namespace Meshlite.Trace

open Grouping Sorting

/-- All polls of the store show the same edges in the same order. -/
structure Store.Steady (s : Store) : Prop where
  topology : ∀ now now' t t', s.Shows now t → s.Shows now' t' → t.edges = t'.edges
  performance : ∀ now now' p p', s.Reports now p → s.Reports now' p' → p.edges = p'.edges

/-- Any two edges of the store differ in what `f` says of them. -/
def Store.Separates {β : Type} (s : Store) (f : EdgeState → β) : Prop :=
  ∀ k k' e e', s.edges.lookup k = some e → s.edges.lookup k' = some e' → k ≠ k' → f e ≠ f e'

section Ties

variable {β γ : Type} [DecidableEq γ] {m : AList fun _ : String => EdgeState}
variable {view : EdgeState → γ} {f : EdgeState → β}

/-- Edges shown under keys of their own have one sorted arrangement exactly if no two tie. -/
theorem arrangement_unique_iff {le : γ → γ → Prop} [DecidableRel le] [IsTrans γ le]
    [Std.Total le] (keyOf : γ → String) (hkey : ∀ k e, m.lookup k = some e → keyOf (view e) = k)
    (htie : ∀ e e', le (view e) (view e') ∧ le (view e') (view e) ↔ f e = f e') :
    (∀ xs ys, Arranges le (m.entries.map fun e => view e.2) xs →
        Arranges le (m.entries.map fun e => view e.2) ys → xs = ys) ↔
      ∀ k k' e e', m.lookup k = some e → m.lookup k' = some e' → k ≠ k' → f e ≠ f e' := by
  have hnodup : (m.entries.map fun e => view e.2).Nodup :=
    Scheme.nodup_map_entries (f := fun _ e => view e) keyOf hkey
  rw [unique_iff hnodup]
  have hmem : ∀ a, a ∈ m.entries.map (fun e => view e.2) ↔
      ∃ k e, m.lookup k = some e ∧ view e = a := fun a =>
    Scheme.mem_map_entries (f := fun _ e => view e)
  constructor
  · intro h k k' e e' hk hk' hne hf
    obtain ⟨hle, hge⟩ := (htie e e').mpr hf
    have hview := h _ ((hmem _).mpr ⟨k, e, hk, rfl⟩) _ ((hmem _).mpr ⟨k', e', hk', rfl⟩) hle hge
    rw [← hkey k e hk, ← hkey k' e' hk', hview] at hne
    exact hne rfl
  · intro h a ha b hb hab hba
    obtain ⟨k, e, hk, rfl⟩ := (hmem a).mp ha
    obtain ⟨k', e', hk', rfl⟩ := (hmem b).mp hb
    by_cases hne : k = k'
    · subst hne
      rw [Option.some.inj (hk.symm.trans hk')]
    · exact absurd ((htie e e').mp ⟨hab, hba⟩) (h k k' e e' hk hk' hne)

end Ties

section Views

variable {s : Store}

theorem Store.shows_edges_iff {edges : List Edge} : (∃ now t, s.Shows now t ∧ t.edges = edges) ↔
    Arranges (fun a b => b.less a = false) (s.edges.entries.map fun e => e.2.edge) edges := by
  constructor
  · rintro ⟨now, t, h, rfl⟩
    exact ⟨h.edges, h.edges_sorted⟩
  · intro h
    have hshows := s.shows_topology 0
    exact ⟨0, { s.topology 0 with edges := edges },
      ⟨hshows.nodes, hshows.nodes_sorted, h.perm, h.sorted, rfl⟩, rfl⟩

theorem Store.reports_edges_iff {edges : List PerformanceEdge} :
    (∃ now p, s.Reports now p ∧ p.edges = edges) ↔
      Arranges (fun a b => b.less a = false) (s.edges.entries.map fun e => e.2.performance)
        edges := by
  constructor
  · rintro ⟨now, p, h, rfl⟩
    exact h.edges
  · intro h
    exact ⟨0, ⟨edges, 0⟩, ⟨h, rfl⟩, rfl⟩

theorem Edge.tie_iff {e e' : EdgeState} :
    e'.edge.less e.edge = false ∧ e.edge.less e'.edge = false ↔
      (e.source, e.target) = (e'.source, e'.target) := by
  rw [Edge.less_eq_false_iff, Edge.less_eq_false_iff, ← le_antisymm_iff]
  exact toLex_inj

theorem PerformanceEdge.tie_iff {e e' : EdgeState} :
    e'.performance.less e.performance = false ∧ e.performance.less e'.performance = false ↔
      percentile e.latencies (99 / 100) = percentile e'.latencies (99 / 100) := by
  rw [PerformanceEdge.less_eq_false_iff, PerformanceEdge.less_eq_false_iff, and_comm,
    ← le_antisymm_iff]
  exact Iff.rfl

theorem Store.steady_iff : s.Steady ↔
    (∀ xs ys,
      Arranges (fun a b => b.less a = false) (s.edges.entries.map fun e => e.2.edge) xs →
      Arranges (fun a b => b.less a = false) (s.edges.entries.map fun e => e.2.edge) ys →
      xs = ys) ∧
    ∀ xs ys,
      Arranges (fun a b => b.less a = false) (s.edges.entries.map fun e => e.2.performance) xs →
      Arranges (fun a b => b.less a = false) (s.edges.entries.map fun e => e.2.performance) ys →
      xs = ys := by
  constructor
  · rintro ⟨htopology, hperformance⟩
    constructor
    · intro xs ys hxs hys
      obtain ⟨now, t, ht, rfl⟩ := shows_edges_iff.mpr hxs
      obtain ⟨now', t', ht', rfl⟩ := shows_edges_iff.mpr hys
      exact htopology now now' t t' ht ht'
    · intro xs ys hxs hys
      obtain ⟨now, p, hp, rfl⟩ := reports_edges_iff.mpr hxs
      obtain ⟨now', p', hp', rfl⟩ := reports_edges_iff.mpr hys
      exact hperformance now now' p p' hp hp'
  · rintro ⟨htopology, hperformance⟩
    constructor
    · intro now now' t t' ht ht'
      exact htopology _ _ (shows_edges_iff.mp ⟨now, t, ht, rfl⟩)
        (shows_edges_iff.mp ⟨now', t', ht', rfl⟩)
    · intro now now' p p' hp hp'
      exact hperformance _ _ hp.edges hp'.edges

end Views

/-- After any sequence of calls all polls show the same lists exactly if no two edges join the
same services and no two have the same 99th percentile. -/
theorem polls_steady_iff (m : ℤ) (calls : List Call) :
    (Store.addAll m calls).Steady ↔
      (Store.addAll m calls).Separates (fun e => (e.source, e.target)) ∧
        (Store.addAll m calls).Separates fun e => percentile e.latencies (99 / 100) := by
  have hkey : ∀ k e, (Store.addAll m calls).edges.lookup k = some e → joinKey e.triple = k := by
    intro k e h
    rw [edges_addAll] at h
    exact joinKey_of_lookup h
  rw [Store.steady_iff]
  exact and_congr
    (arrangement_unique_iff (fun e : Edge => joinKey e.triple) hkey fun _ _ => Edge.tie_iff)
    (arrangement_unique_iff (fun pe : PerformanceEdge => joinKey pe.triple) hkey
      fun _ _ => PerformanceEdge.tie_iff)

/-- One pair of services, with calls inside the cluster and across clusters. -/
def twoLegs : List Call :=
  [{ record := { sourceService := "alpha", destinationService := "beta", latencyMs := 10 } },
    { record := { sourceService := "alpha", destinationService := "beta", latencyMs := 50,
                  leg := "cross_cluster" } }]

/-- Either leg may come first. -/
theorem twoLegs_reordered : ¬ ∀ m calls, (Store.addAll m calls).Steady := by
  intro h
  have hshows := Store.shows_topology (Store.addAll 10 twoLegs) 0
  have hsame := (Store.steady_iff.mp (h 10 twoLegs)).1 _ _ ⟨hshows.edges, hshows.edges_sorted⟩
    ⟨(List.reverse_perm _).trans hshows.edges, by decide +kernel⟩
  revert hsame
  decide +kernel

end Meshlite.Trace
