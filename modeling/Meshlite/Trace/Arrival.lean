import Meshlite.Trace.Counts
import Mathlib.Data.List.DropRight

/-!
# The order in which records arrive

Records of one edge come from several agents, so their order is an accident. The
counters and the percentiles do not show it. The cluster of a node and the time an edge
was last seen are those of the last record, the names and the cluster of an edge those
of the first one, whatever the timestamps say.
-/

namespace Meshlite.Trace

open Grouping

/-- The record has the service at one of its ends. -/
def TelemetryRecord.Touches (r : TelemetryRecord) (id : String) : Prop :=
  id = r.sourceService ∨ id = r.destinationService

instance (r : TelemetryRecord) (id : String) : Decidable (r.Touches id) :=
  inferInstanceAs (Decidable (_ ∨ _))

/-- The cluster of the last record with the service. -/
def lastCluster (records : List TelemetryRecord) (id : String) : Option String :=
  (records.filter (·.Touches id)).getLast?.map TelemetryRecord.clusterId

/-- The names and the cluster of the first record of the edge. -/
def firstNames (records : List TelemetryRecord) (k : String) :
    Option ((String × String × String) × String) :=
  (records.filter (edgeKey · = k)).head?.map fun r => (r.triple, r.clusterId)

/-- The timestamp of the last record of the edge. -/
def lastTimestamp (records : List TelemetryRecord) (k : String) : Option Timestamp :=
  (records.filter (edgeKey · = k)).getLast?.map TelemetryRecord.timestamp

/-- The positive latencies of the records, in the order of arrival. -/
def positiveLatencies (records : List TelemetryRecord) : List ℚ :=
  (records.map TelemetryRecord.latencyMs).filter (0 < ·)

/-- No edge has more positive latencies than its window holds. -/
def FitsWindow (records : List TelemetryRecord) : Prop :=
  ∀ k, (positiveLatencies (records.filter (edgeKey · = k))).length ≤ latencyWindow

/-- What an edge counts, under the key it is joined to. -/
def Edge.counts (e : Edge) : String × ℕ × (Outcome → ℕ) × ℚ × ℚ × ℚ :=
  (joinKey e.triple, e.requests, e.counter, e.p50Ms, e.p95Ms, e.p99Ms)

/-- The edge without the latency that came last. -/
def Edge.compared (e : Edge) : Edge := { e with lastLatencyMs := 0 }

/-- The summary without the time it was made. -/
def Summary.compared (s : Summary) : Summary := { s with generatedAt := 0 }

theorem Edge.counts_key (e : Edge) : e.counts.1 = joinKey e.triple := rfl

theorem Edge.compared_key (e : Edge) : joinKey e.compared.triple = joinKey e.triple := rfl

theorem Edge.compared_eq_iff {a b : Edge} : a.compared = b.compared ↔
    ((a.triple, a.clusterId) = (b.triple, b.clusterId) ∧ a.lastSeen = b.lastSeen) ∧
      a.counts = b.counts := by
  obtain ⟨⟩ := a
  obtain ⟨⟩ := b
  simp only [Edge.compared, Edge.counts, Edge.triple, Edge.mk.injEq, Prod.mk.injEq]
  constructor
  · rintro ⟨rfl, rfl, rfl, rfl, rfl, rfl, rfl, rfl, rfl, rfl, rfl, rfl, -, rfl⟩
    simp
    rfl
  · rintro ⟨⟨⟨⟨rfl, rfl, rfl⟩, rfl⟩, rfl⟩, -, rfl, hcounter, rfl, rfl, rfl⟩
    have h := fun o => congrFun hcounter o
    have hallow := h .allow
    have hdeny := h .deny
    have htls := h .tlsReject
    have herror := h .error
    simp only [Edge.counter] at hallow hdeny htls herror
    simp [hallow, hdeny, htls, herror]

section Latencies

variable {e : EdgeState} {r : TelemetryRecord} {o : Outcome} {ms : ℚ}

@[simp] theorem EdgeState.count_latencies : (e.count o).latencies = e.latencies := by
  cases o <;> rfl

@[simp] theorem EdgeState.count_clusterId : (e.count o).clusterId = e.clusterId := by
  cases o <;> rfl

@[simp] theorem EdgeState.count_lastSeen : (e.count o).lastSeen = e.lastSeen := by
  cases o <;> rfl

@[simp] theorem EdgeState.sample_clusterId : (e.sample ms).clusterId = e.clusterId := by
  unfold EdgeState.sample
  split <;> rfl

@[simp] theorem EdgeState.sample_lastSeen : (e.sample ms).lastSeen = e.lastSeen := by
  unfold EdgeState.sample
  split <;> rfl

@[simp] theorem EdgeState.add_clusterId : (e.add r).clusterId = e.clusterId := by
  simp [EdgeState.add]

@[simp] theorem EdgeState.add_lastSeen : (e.add r).lastSeen = r.timestamp := by
  simp [EdgeState.add]

theorem EdgeState.add_latencies (h : e.latencies.length ≤ latencyWindow) :
    (e.add r).latencies = (e.latencies ++ positiveLatencies [r]).rtake latencyWindow := by
  rw [EdgeState.add, EdgeState.count_latencies, List.rtake.eq_1]
  simp only [EdgeState.sample]
  by_cases hpos : 0 < r.latencyMs
  · have hsingle : positiveLatencies [r] = [r.latencyMs] := by simp [positiveLatencies, hpos]
    rw [hsingle, if_pos hpos]
  · have hnone : positiveLatencies [r] = [] := by simp [positiveLatencies, hpos]
    rw [hnone, if_neg hpos, List.append_nil, Nat.sub_eq_zero_of_le h]
    rfl

end Latencies

section Recent

variable {α : Type*}

theorem length_rtake_le (l : List α) (n : ℕ) : (l.rtake n).length ≤ n := by
  rw [List.rtake, List.length_drop]
  omega

theorem rtake_rtake_append (l l' : List α) (n : ℕ) :
    (l.rtake n ++ l').rtake n = (l ++ l').rtake n := by
  simp only [List.rtake, List.drop_append, List.drop_drop, List.length_append, List.length_drop]
  congr 2 <;> omega

end Recent

theorem positiveLatencies_append (l l' : List TelemetryRecord) :
    positiveLatencies (l ++ l') = positiveLatencies l ++ positiveLatencies l' := by
  simp [positiveLatencies]

section Total

variable {own own' : List TelemetryRecord} {e e' : EdgeState}

theorem names_of_total (h : edgeScheme.total own = some e) :
    own.head?.map (fun r => (r.triple, r.clusterId)) = some (e.triple, e.clusterId) := by
  refine Scheme.total_induct (g := edgeScheme) (P := fun own e =>
    own.head?.map (fun r => (r.triple, r.clusterId)) = some (e.triple, e.clusterId)) ?_ ?_ h
  · intro r
    change some (r.triple, r.clusterId) =
      some (((EdgeState.new r).add r).triple, ((EdgeState.new r).add r).clusterId)
    rw [EdgeState.add_triple, EdgeState.add_clusterId]
    rfl
  · intro own r e ih
    change _ = some ((e.add r).triple, (e.add r).clusterId)
    rw [EdgeState.add_triple, EdgeState.add_clusterId, ← ih]
    cases own with
    | nil => cases ih
    | cons r₀ own => rfl

theorem lastSeen_of_total (h : edgeScheme.total own = some e) :
    own.getLast?.map TelemetryRecord.timestamp = some e.lastSeen := by
  refine Scheme.total_induct (g := edgeScheme) (P := fun own e =>
    own.getLast?.map TelemetryRecord.timestamp = some e.lastSeen) ?_ ?_ h
  · intro r
    exact congrArg some EdgeState.add_lastSeen.symm
  · intro own r e _
    rw [List.getLast?_append]
    exact congrArg some EdgeState.add_lastSeen.symm

/-- The window holds the latest of the latencies. -/
theorem recent_of_total (h : edgeScheme.total own = some e) :
    e.latencies = (positiveLatencies own).rtake latencyWindow := by
  refine Scheme.total_induct (g := edgeScheme) (P := fun own e =>
    e.latencies = (positiveLatencies own).rtake latencyWindow) ?_ ?_ h
  · intro r
    exact EdgeState.add_latencies (Nat.zero_le _)
  · intro own r e ih
    have hlength : e.latencies.length ≤ latencyWindow := ih ▸ length_rtake_le _ _
    rw [positiveLatencies_append, ← rtake_rtake_append, ← ih]
    exact EdgeState.add_latencies hlength

theorem latencies_of_total (h : edgeScheme.total own = some e)
    (hfits : (positiveLatencies own).length ≤ latencyWindow) :
    e.latencies = positiveLatencies own := by
  rw [recent_of_total h, List.rtake, Nat.sub_eq_zero_of_le hfits, List.drop_zero]

theorem percentile_perm {values values' : List ℚ} (h : values.Perm values') (pct : ℚ) :
    percentile values pct = percentile values' pct := by
  have hsort : values.insertionSort (· ≤ ·) = values'.insertionSort (· ≤ ·) :=
    (((List.perm_insertionSort _ _).trans h).trans
      (List.perm_insertionSort _ _).symm).eq_of_pairwise'
        (List.pairwise_insertionSort _ _) (List.pairwise_insertionSort _ _)
  rw [percentile, percentile, hsort]

theorem counts_of_total (hperm : own.Perm own') (h : edgeScheme.total own = some e)
    (h' : edgeScheme.total own' = some e')
    (hkey : joinKey e.triple = joinKey e'.triple)
    (hfits : (positiveLatencies own).length ≤ latencyWindow) :
    e.edge.counts = e'.edge.counts := by
  obtain ⟨-, hrequests, hcounter⟩ := edge_of_total h
  obtain ⟨-, hrequests', hcounter'⟩ := edge_of_total h'
  have hlatencies : (positiveLatencies own).Perm (positiveLatencies own') :=
    (hperm.map _).filter _
  have hown := latencies_of_total h hfits
  have hown' := latencies_of_total h' (hlatencies.length_eq ▸ hfits)
  rw [← hown, ← hown'] at hlatencies
  have hreq : e.edge.requests = e'.edge.requests := by
    rw [EdgeState.edge_requests, EdgeState.edge_requests, hrequests, hrequests', hperm.length_eq]
  have hcount : e.edge.counter = e'.edge.counter := by
    funext o
    rw [EdgeState.edge_counter, EdgeState.edge_counter, hcounter, hcounter', hperm.countP_eq]
  rw [Edge.counts, Edge.counts, EdgeState.edge_triple, EdgeState.edge_triple, hkey, hreq, hcount]
  simp only [EdgeState.edge, percentile_perm hlatencies]

end Total

section Orders

variable {recs recs' : List TelemetryRecord} {k id : String} {r : TelemetryRecord}

/-- A node has the cluster of the last record with its service. -/
theorem lookup_nodesOf_last : (nodesOf recs).lookup id =
    (lastCluster recs id).map fun cluster => ⟨id, cluster⟩ := by
  rw [lastCluster]
  induction recs using List.reverseRecOn with
  | nil => rfl
  | append_singleton recs r ih =>
    rw [nodesOf_snoc, lookup_addNodes, List.filter_append]
    by_cases htouch : r.Touches id
    · have hsingle : [r].filter (·.Touches id) = [r] := by simp [htouch]
      rw [hsingle, List.getLast?_append]
      split_ifs with hdst hsrc
      · rw [hdst]
        rfl
      · rw [hsrc]
        rfl
      · exact absurd htouch (not_or.mpr ⟨hsrc, hdst⟩)
    · have hnone : [r].filter (·.Touches id) = [] := by simp [htouch]
      obtain ⟨hsrc, hdst⟩ := not_or.mp htouch
      rw [hnone, List.append_nil, if_neg hdst, if_neg hsrc, ih]

theorem lastCluster_isSome (hperm : recs.Perm recs') (id : String) :
    (lastCluster recs id).isSome = (lastCluster recs' id).isSome := by
  have hfilter := hperm.filter (·.Touches id)
  rw [lastCluster, lastCluster, Option.isSome_map, Option.isSome_map, Bool.eq_iff_iff,
    List.getLast?_isSome, List.getLast?_isSome, Ne, Ne, ← List.length_eq_zero_iff,
    ← List.length_eq_zero_iff, hfilter.length_eq]

theorem lookup_edgesOf_cases (hperm : recs.Perm recs') (k : String) :
    ((edgesOf recs).lookup k = none ∧ (edgesOf recs').lookup k = none) ∨
      ∃ e e', (edgesOf recs).lookup k = some e ∧ (edgesOf recs').lookup k = some e' := by
  have hiff : ((edgesOf recs).lookup k).isSome ↔ ((edgesOf recs').lookup k).isSome := by
    rw [edgesOf, edgesOf, Scheme.lookup_putAll_isSome, Scheme.lookup_putAll_isSome]
    simp only [hperm.mem_iff]
  cases h : (edgesOf recs).lookup k with
  | none =>
    rw [h] at hiff
    cases h' : (edgesOf recs').lookup k with
    | none => exact Or.inl ⟨rfl, rfl⟩
    | some e' =>
      rw [h'] at hiff
      exact absurd (hiff.mpr rfl) (by simp)
  | some e =>
    rw [h] at hiff
    obtain ⟨e', h'⟩ := Option.isSome_iff_exists.mp (hiff.mp rfl)
    exact Or.inr ⟨e, e', rfl, h'⟩

theorem lookup_counts_eq (hperm : recs.Perm recs') (hfits : FitsWindow recs) (k : String) :
    ((edgesOf recs).lookup k).map (fun e => e.edge.counts) =
      ((edgesOf recs').lookup k).map fun e => e.edge.counts := by
  rcases lookup_edgesOf_cases hperm k with ⟨h, h'⟩ | ⟨e, e', h, h'⟩
  · rw [h, h']
  · have hkey := (joinKey_of_lookup h).trans (joinKey_of_lookup h').symm
    rw [h, h', Option.map_some, Option.map_some, Option.some.injEq]
    rw [edgesOf, Scheme.lookup_putAll] at h h'
    exact counts_of_total (hperm.filter _) h h' hkey (hfits k)

/-- An edge is the same in both orders exactly if its first records have the same names and
cluster and its last records the same timestamp. -/
theorem lookup_compared_iff (hperm : recs.Perm recs') (hfits : FitsWindow recs) (k : String) :
    ((edgesOf recs).lookup k).map (fun e => e.edge.compared) =
        ((edgesOf recs').lookup k).map (fun e => e.edge.compared) ↔
      firstNames recs k = firstNames recs' k ∧ lastTimestamp recs k = lastTimestamp recs' k := by
  have hcounts := lookup_counts_eq hperm hfits k
  have htotal : ∀ recs, (edgesOf recs).lookup k = edgeScheme.total (recs.filter (edgeKey · = k)) :=
    fun recs => Scheme.lookup_putAll recs k
  rcases lookup_edgesOf_cases hperm k with ⟨h, h'⟩ | ⟨e, e', h, h'⟩
  · have hempty : ∀ recs, (edgesOf recs).lookup k = none → recs.filter (edgeKey · = k) = [] := by
      intro recs hnone
      rw [htotal] at hnone
      by_contra hne
      have hsome := Scheme.total_isSome (g := edgeScheme) hne
      rw [hnone] at hsome
      cases hsome
    rw [h, h', firstNames, firstNames, lastTimestamp, lastTimestamp, hempty recs h, hempty recs' h']
    exact iff_of_true rfl ⟨rfl, rfl⟩
  · rw [h, h', Option.map_some, Option.map_some, Option.some.injEq] at hcounts ⊢
    rw [htotal] at h h'
    rw [firstNames, firstNames, lastTimestamp, lastTimestamp, names_of_total h, names_of_total h',
      lastSeen_of_total h, lastSeen_of_total h', Option.some.injEq, Option.some.injEq,
      Edge.compared_eq_iff]
    exact and_iff_left hcounts

end Orders

/-- Two stores and their answers agree, except for times of their own and last latencies. -/
structure Agree (s s' : Summary) (t t' : Topology) : Prop where
  summary : s.compared = s'.compared
  nodes : t.nodes = t'.nodes
  edges : (t.edges.map Edge.compared).Perm (t'.edges.map Edge.compared)

/-- What two stores and their answers agree on in any case. -/
structure AgreeOnCounts (s s' : Summary) (t t' : Topology) : Prop where
  summary : s.compared = s'.compared
  ids : t.nodes.map Node.id = t'.nodes.map Node.id
  counts : (t.edges.map Edge.counts).Perm (t'.edges.map Edge.counts)

/-- Every service comes last in the same cluster. -/
def SameLastClusters (recs recs' : List TelemetryRecord) : Prop :=
  ∀ id, lastCluster recs id = lastCluster recs' id

/-- Every edge comes first with the same names and cluster and last with the same timestamp. -/
def SameEnds (recs recs' : List TelemetryRecord) : Prop :=
  ∀ k, firstNames recs k = firstNames recs' k ∧ lastTimestamp recs k = lastTimestamp recs' k

section Answers

variable {m m' : ℤ} {calls calls' : List Call} {now now' : Timestamp} {t t' : Topology}

theorem perm_records (hperm : (calls.map Call.record).Perm (calls'.map Call.record))
    (htime : ∀ c ∈ calls, c.record.timestamp ≠ 0) : (records calls).Perm (records calls') := by
  have hown : ∀ calls : List Call, (∀ r ∈ calls.map Call.record, r.timestamp ≠ 0) →
      records calls = (calls.map Call.record).map (normalizeRecord 0) := by
    intro calls htime
    rw [records, List.map_map]
    refine List.map_congr_left fun c hc => ?_
    have hc := htime c.record (List.mem_map_of_mem hc)
    simp only [Call.normalized, normalizeRecord, Function.comp_apply, if_neg hc]
  have htimes : ∀ r ∈ calls.map Call.record, r.timestamp ≠ 0 := by
    intro r hr
    obtain ⟨c, hc, rfl⟩ := List.mem_map.mp hr
    exact htime c hc
  rw [hown calls htimes, hown calls' fun r hr => htimes r (hperm.mem_iff.mpr hr)]
  exact hperm.map _

theorem perm_edges_iff {β : Type} {f : Edge → β} (keyOf : β → String)
    (hkey : ∀ e : Edge, keyOf (f e) = joinKey e.triple)
    (ht : (Store.addAll m calls).Shows now t) (ht' : (Store.addAll m' calls').Shows now' t') :
    (t.edges.map f).Perm (t'.edges.map f) ↔
      ∀ k, ((edgesOf (records calls)).lookup k).map (fun e => f e.edge) =
        ((edgesOf (records calls')).lookup k).map fun e => f e.edge := by
  have hsame : ∀ recs k e, (edgesOf recs).lookup k = some e → keyOf (f e.edge) = k := by
    intro recs k e hlookup
    rw [hkey, EdgeState.edge_triple]
    exact joinKey_of_lookup hlookup
  have hedges := ht.edges
  have hedges' := ht'.edges
  rw [edges_addAll] at hedges hedges'
  exact Scheme.perm_map_iff hedges hedges' keyOf (hsame _) (hsame _)

theorem perm_nodes_iff {β : Type} {f : Node → β} (keyOf : β → String)
    (hkey : ∀ n : Node, keyOf (f n) = n.id)
    (ht : (Store.addAll m calls).Shows now t) (ht' : (Store.addAll m' calls').Shows now' t') :
    (t.nodes.map f).Perm (t'.nodes.map f) ↔
      ∀ id, ((nodesOf (records calls)).lookup id).map (fun n => f n.node) =
        ((nodesOf (records calls')).lookup id).map fun n => f n.node := by
  have hsame : ∀ recs id n, (nodesOf recs).lookup id = some n → keyOf (f n.node) = id := by
    intro recs id n hlookup
    rw [hkey]
    exact id_of_lookup_nodesOf hlookup
  have hnodes := ht.nodes
  have hnodes' := ht'.nodes
  rw [nodes_addAll] at hnodes hnodes'
  exact Scheme.perm_map_iff hnodes hnodes' keyOf (hsame _) (hsame _)

theorem Store.Shows.nodup_ids (h : (Store.addAll m calls).Shows now t) :
    (t.nodes.map Node.id).Nodup := by
  rw [(h.nodes.map Node.id).nodup_iff, List.map_map, nodes_addAll]
  have hkey : ∀ k n, (nodesOf (records calls)).lookup k = some n → n.node.id = k :=
    fun _ _ hlookup => id_of_lookup_nodesOf hlookup
  exact Scheme.nodup_map_entries (f := fun _ (n : NodeState) => n.node.id) (fun id => id) hkey

theorem ids_eq (hperm : (records calls).Perm (records calls'))
    (ht : (Store.addAll m calls).Shows now t) (ht' : (Store.addAll m' calls').Shows now' t') :
    t.nodes.map Node.id = t'.nodes.map Node.id := by
  have hids : (t.nodes.map Node.id).Perm (t'.nodes.map Node.id) := by
    rw [perm_nodes_iff id (fun _ => rfl) ht ht']
    intro id
    have hsome := lastCluster_isSome hperm id
    rw [lookup_nodesOf_last, lookup_nodesOf_last]
    cases hlast : lastCluster (records calls) id with
    | none =>
      rw [hlast] at hsome
      rw [Option.not_isSome_iff_eq_none.mp (Bool.eq_false_iff.mp hsome.symm)]
    | some cluster =>
      rw [hlast] at hsome
      obtain ⟨cluster', hlast'⟩ := Option.isSome_iff_exists.mp hsome.symm
      rw [hlast']
      rfl
  have hsorted := fun t : Topology => List.pairwise_map (f := Node.id) (l := t.nodes)
    (R := fun a b => ¬ b < a)
  exact hids.eq_of_pairwise (fun a b _ _ hab hba => le_antisymm (not_lt.mp hab) (not_lt.mp hba))
    ((hsorted t).mpr ht.nodes_sorted) ((hsorted t').mpr ht'.nodes_sorted)

theorem nodes_eq_iff (ht : (Store.addAll m calls).Shows now t)
    (ht' : (Store.addAll m' calls').Shows now' t') :
    t.nodes = t'.nodes ↔ SameLastClusters (records calls) (records calls') := by
  have hperm : t.nodes = t'.nodes ↔ t.nodes.Perm t'.nodes := by
    refine ⟨fun h => h ▸ List.Perm.refl _, fun h => ?_⟩
    refine h.eq_of_pairwise (fun a b ha hb hab hba => ?_) ht.nodes_sorted ht'.nodes_sorted
    have hid : a.id = b.id := le_antisymm (not_lt.mp hab) (not_lt.mp hba)
    exact List.inj_on_of_nodup_map ht'.nodup_ids (h.mem_iff.mp ha) hb hid
  have hshown := perm_nodes_iff (f := id) Node.id (fun _ => rfl) ht ht'
  rw [List.map_id, List.map_id] at hshown
  rw [hperm, hshown]
  refine forall_congr' fun id => ?_
  rw [lookup_nodesOf_last, lookup_nodesOf_last, Option.map_map, Option.map_map]
  have hinj : Function.Injective ((fun n : NodeState => n.node) ∘ fun cluster => ⟨id, cluster⟩) :=
    fun a b hab => congrArg Node.clusterId hab
  exact (Option.map_injective hinj).eq_iff

theorem summary_eq (hrecs : (records calls).Perm (records calls'))
    (ht : (Store.addAll m calls).Shows now t) (ht' : (Store.addAll m' calls').Shows now' t')
    (hnodes : t.nodes.length = t'.nodes.length) (hedges : t.edges.length = t'.edges.length) :
    (Store.addAll m calls).summary.compared = (Store.addAll m' calls').summary.compared := by
  have htotal : (Store.addAll m calls).summary.totalRequests =
      (Store.addAll m' calls').summary.totalRequests := by
    have hlength := hrecs.length_eq
    rw [records, records, List.length_map, List.length_map] at hlength
    rw [totalRequests_addAll, totalRequests_addAll, hlength]
  have hcounter : ∀ o, (Store.addAll m calls).summary.counter o =
      (Store.addAll m' calls').summary.counter o := by
    intro o
    rw [counter_addAll, counter_addAll, hrecs.countP_eq]
  have hactive := ht.active
  have hactive' := ht'.active
  simp only [Summary.compared, Summary.mk.injEq]
  exact ⟨htotal, hcounter .allow, hcounter .deny, hcounter .tlsReject, hcounter .error,
    by rw [hactive.1, hactive'.1, hedges], by rw [hactive.2, hactive'.2, hnodes], trivial⟩

theorem perm_counts (hrecs : (records calls).Perm (records calls'))
    (hfits : FitsWindow (records calls)) (ht : (Store.addAll m calls).Shows now t)
    (ht' : (Store.addAll m' calls').Shows now' t') :
    (t.edges.map Edge.counts).Perm (t'.edges.map Edge.counts) := by
  rw [perm_edges_iff Prod.fst Edge.counts_key ht ht']
  exact lookup_counts_eq hrecs hfits

theorem perm_compared_iff (hrecs : (records calls).Perm (records calls'))
    (hfits : FitsWindow (records calls)) (ht : (Store.addAll m calls).Shows now t)
    (ht' : (Store.addAll m' calls').Shows now' t') :
    (t.edges.map Edge.compared).Perm (t'.edges.map Edge.compared) ↔
      SameEnds (records calls) (records calls') := by
  have hkeyOf : ∀ e : Edge, (fun e : Edge => joinKey e.triple) e.compared = joinKey e.triple :=
    Edge.compared_key
  rw [perm_edges_iff (fun e : Edge => joinKey e.triple) hkeyOf ht ht']
  exact forall_congr' (lookup_compared_iff hrecs hfits)

end Answers

/-- Two orders of the same records, each with a timestamp of its own and none beyond the
window of its edge: the counters, the ids and the percentiles agree, and everything does
exactly if each service comes last in the same cluster and each edge has first records of
the same names and cluster and last records of the same timestamp. -/
theorem arrival_order (m m' : ℤ) (calls calls' : List Call)
    (hperm : (calls.map Call.record).Perm (calls'.map Call.record))
    (htime : ∀ c ∈ calls, c.record.timestamp ≠ 0) (hfits : FitsWindow (records calls))
    (now now' : Timestamp) (t t' : Topology) (ht : (Store.addAll m calls).Shows now t)
    (ht' : (Store.addAll m' calls').Shows now' t') :
    AgreeOnCounts (Store.addAll m calls).summary (Store.addAll m' calls').summary t t' ∧
      (Agree (Store.addAll m calls).summary (Store.addAll m' calls').summary t t' ↔
        SameLastClusters (records calls) (records calls') ∧
          SameEnds (records calls) (records calls')) := by
  have hrecs := perm_records hperm htime
  have hids := ids_eq hrecs ht ht'
  have hcounts := perm_counts hrecs hfits ht ht'
  have hedges := perm_compared_iff hrecs hfits ht ht'
  have hsummary := summary_eq hrecs ht ht' (by simpa using congrArg List.length hids)
    (by simpa using hcounts.length_eq)
  refine ⟨⟨hsummary, hids, hcounts⟩, fun h => ?_, fun ⟨hnodes, hends⟩ => ?_⟩
  · exact ⟨(nodes_eq_iff ht ht').mp h.nodes, hedges.mp h.edges⟩
  · exact ⟨hsummary, (nodes_eq_iff ht ht').mpr hnodes, hedges.mpr hends⟩

theorem fitsWindow_of_length {recs : List TelemetryRecord} (h : recs.length ≤ latencyWindow) :
    FitsWindow recs := by
  intro k
  have hown : (positiveLatencies (recs.filter (edgeKey · = k))).length ≤
      (recs.filter (edgeKey · = k)).length :=
    (List.length_filter_le _ _).trans (List.length_map _).le
  exact hown.trans ((List.length_filter_le _ _).trans h)

/-- One edge reported from two clusters, the later report first. -/
def eastFirst : List Call :=
  [{ record := { sourceService := "alpha", destinationService := "beta", clusterId := "east",
                 timestamp := 2 } },
    { record := { sourceService := "alpha", destinationService := "beta", clusterId := "west",
                  timestamp := 1 } }]

theorem eastFirst_reversed :
    AgreeOnCounts (Store.addAll 10 eastFirst).summary (Store.addAll 10 eastFirst.reverse).summary
        ((Store.addAll 10 eastFirst).topology 0) ((Store.addAll 10 eastFirst.reverse).topology 0) ∧
      ¬ Agree (Store.addAll 10 eastFirst).summary (Store.addAll 10 eastFirst.reverse).summary
        ((Store.addAll 10 eastFirst).topology 0)
        ((Store.addAll 10 eastFirst.reverse).topology 0) := by
  obtain ⟨hcounts, hagree⟩ := arrival_order 10 10 eastFirst eastFirst.reverse (by decide)
    (by decide) (fitsWindow_of_length (by decide)) 0 0 _ _ (Store.shows_topology _ 0)
    (Store.shows_topology _ 0)
  refine ⟨hcounts, fun h => ?_⟩
  have hcluster := (hagree.mp h).1 "alpha"
  revert hcluster
  decide +kernel

/-- In the other order both nodes are in another cluster, the edge is too, and it was last
seen earlier. -/
theorem arrival_order_shows :
    ¬ ∀ (m : ℤ) (calls calls' : List Call),
      (calls.map Call.record).Perm (calls'.map Call.record) →
      (∀ c ∈ calls, c.record.timestamp ≠ 0) → FitsWindow (records calls) →
      ∀ now now' t t', (Store.addAll m calls).Shows now t → (Store.addAll m calls').Shows now' t' →
        Agree (Store.addAll m calls).summary (Store.addAll m calls').summary t t' := by
  intro h
  have hnodes := (h 10 eastFirst eastFirst.reverse (by decide) (by decide)
    (fitsWindow_of_length (by decide)) 0 0 _ _ (Store.shows_topology _ 0)
    (Store.shows_topology _ 0)).nodes
  revert hnodes
  decide +kernel

end Meshlite.Trace
