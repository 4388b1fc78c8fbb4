import Meshlite.Trace.Store

/-!
# What the store counts

The summary, the edges and the nodes after any sequence of calls, as functions of the
normalized records: a counter of the summary is the sum of that counter over the edges,
and what `Topology` shows of the edges is a group-by of the records if their keys tell
them apart.
-/

namespace Meshlite.Trace

open Grouping

/-- The counter of the outcome. -/
def Summary.counter (s : Summary) : Outcome → ℕ
  | .allow => s.allowed
  | .deny => s.denied
  | .tlsReject => s.tlsFailures
  | .error => s.errors

def EdgeState.counter (e : EdgeState) : Outcome → ℕ
  | .allow => e.allowCount
  | .deny => e.denyCount
  | .tlsReject => e.tlsRejects
  | .error => e.errorCount

def Edge.counter (e : Edge) : Outcome → ℕ
  | .allow => e.allowCount
  | .deny => e.denyCount
  | .tlsReject => e.tlsRejects
  | .error => e.errorCount

/-- Where a record belongs: its services and its leg. -/
def TelemetryRecord.triple (r : TelemetryRecord) : String × String × String :=
  (r.sourceService, r.destinationService, r.leg)

def EdgeState.triple (e : EdgeState) : String × String × String := (e.source, e.target, e.leg)

def Edge.triple (e : Edge) : String × String × String := (e.source, e.target, e.leg)

/-- The triple as the edge map joins it. -/
def joinKey (t : String × String × String) : String := t.1 ++ "|" ++ t.2.1 ++ "|" ++ t.2.2

theorem edgeKey_eq (r : TelemetryRecord) : edgeKey r = joinKey r.triple := rfl

section Edge

variable {e : EdgeState} {r : TelemetryRecord} {o : Outcome}

@[simp] theorem EdgeState.edge_requests : e.edge.requests = e.requests := rfl

@[simp] theorem EdgeState.edge_counter : e.edge.counter o = e.counter o := by cases o <;> rfl

@[simp] theorem EdgeState.edge_triple : e.edge.triple = e.triple := rfl

@[simp] theorem EdgeState.sample_requests (ms : ℚ) : (e.sample ms).requests = e.requests := by
  unfold EdgeState.sample
  split <;> rfl

@[simp] theorem EdgeState.sample_counter (ms : ℚ) : (e.sample ms).counter o = e.counter o := by
  unfold EdgeState.sample
  split <;> cases o <;> rfl

@[simp] theorem EdgeState.sample_triple (ms : ℚ) : (e.sample ms).triple = e.triple := by
  unfold EdgeState.sample
  split <;> rfl

@[simp] theorem EdgeState.count_requests (o : Outcome) : (e.count o).requests = e.requests := by
  cases o <;> rfl

@[simp] theorem EdgeState.count_triple (o : Outcome) : (e.count o).triple = e.triple := by
  cases o <;> rfl

theorem EdgeState.count_counter (o' : Outcome) :
    (e.count o').counter o = e.counter o + if o' = o then 1 else 0 := by
  cases o' <;> cases o <;> rfl

@[simp] theorem EdgeState.add_requests : (e.add r).requests = e.requests + 1 := by
  simp [EdgeState.add]

theorem EdgeState.add_counter :
    (e.add r).counter o = e.counter o + if r.outcome = o then 1 else 0 := by
  have hsame : ∀ e' : EdgeState, ({ e' with
      bytesIn := e'.bytesIn + r.bytesIn, bytesOut := e'.bytesOut + r.bytesOut }).counter o =
      e'.counter o := by
    intro e'
    cases o <;> rfl
  rw [EdgeState.add, EdgeState.count_counter, hsame, EdgeState.sample_counter]
  cases o <;> rfl

@[simp] theorem EdgeState.add_triple : (e.add r).triple = e.triple := by
  have hsame : ∀ e' : EdgeState, ({ e' with
      bytesIn := e'.bytesIn + r.bytesIn, bytesOut := e'.bytesOut + r.bytesOut }).triple =
      e'.triple := fun _ => rfl
  rw [EdgeState.add, EdgeState.count_triple, hsame, EdgeState.sample_triple]
  rfl

@[simp] theorem EdgeState.new_counter : (EdgeState.new r).counter o = 0 := by cases o <;> rfl

end Edge

section Records

variable {records : List TelemetryRecord} {r : TelemetryRecord} {k : String} {e : EdgeState}
variable {o : Outcome}

/-- An edge made of records of one key: it is named after one of them and counts them all. -/
theorem edge_of_total (h : edgeScheme.total records = some e) :
    (∃ r ∈ records, e.triple = r.triple) ∧ e.requests = records.length ∧
      ∀ o, e.counter o = records.countP (·.outcome = o) := by
  refine Scheme.total_induct (g := edgeScheme) (P := fun records e =>
    (∃ r ∈ records, e.triple = r.triple) ∧ e.requests = records.length ∧
      ∀ o, e.counter o = records.countP (·.outcome = o)) ?_ ?_ h
  · intro r
    refine ⟨⟨r, by simp, EdgeState.add_triple⟩, EdgeState.add_requests, fun o => ?_⟩
    change ((EdgeState.new r).add r).counter o = _
    rw [EdgeState.add_counter, EdgeState.new_counter]
    simp [List.countP_cons]
  · rintro records r e ⟨⟨r₀, hr₀, htriple⟩, hrequests, hcounter⟩
    refine ⟨⟨r₀, by simp [hr₀], EdgeState.add_triple.trans htriple⟩, ?_, fun o => ?_⟩
    · change (e.add r).requests = _
      rw [EdgeState.add_requests, hrequests, List.length_append, List.length_singleton]
    · change (e.add r).counter o = _
      rw [EdgeState.add_counter, hcounter, List.countP_append]
      simp [List.countP_cons]

/-- The edges of the records. -/
def edgesOf (records : List TelemetryRecord) : AList fun _ : String => EdgeState :=
  edgeScheme.putAll records

theorem lookup_edgesOf (h : (edgesOf records).lookup k = some e) :
    (∃ r ∈ records, edgeKey r = k ∧ e.triple = r.triple) ∧
      e.requests = records.countP (edgeKey · = k) ∧
      ∀ o, e.counter o = records.countP fun r => edgeKey r = k ∧ r.outcome = o := by
  rw [edgesOf, Scheme.lookup_putAll] at h
  obtain ⟨⟨r, hr, htriple⟩, hrequests, hcounter⟩ := edge_of_total h
  obtain ⟨hmem, hk⟩ := List.mem_filter.mp hr
  refine ⟨⟨r, hmem, of_decide_eq_true hk, htriple⟩, ?_, fun o => ?_⟩
  · rw [hrequests, List.countP_eq_length_filter]
    rfl
  · rw [hcounter, List.countP_filter]
    congr 1
    funext r
    rw [Bool.decide_and, Bool.and_comm]
    rfl

theorem exists_lookup_edgesOf (h : r ∈ records) :
    ∃ e, (edgesOf records).lookup (edgeKey r) = some e :=
  Option.isSome_iff_exists.mp (Scheme.lookup_putAll_isSome.mpr ⟨r, h, rfl⟩)

theorem sum_indicator {ι : Type} (p : ι → Bool) (items : List ι) :
    (items.map fun i => if p i then 1 else 0).sum = items.countP p := by
  induction items with
  | nil => rfl
  | cons i items ih =>
    simp only [List.map_cons, List.sum_cons, List.countP_cons, ih]
    omega

theorem sum_counter (o : Outcome) :
    Scheme.sumOver (edgesOf records) (fun _ e => e.counter o) =
      records.countP (·.outcome = o) := by
  rw [← sum_indicator]
  refine Scheme.sumOver_putAll (fun r => EdgeState.new_counter) (fun e r => ?_) records
  change (e.add r).counter o = _
  rw [EdgeState.add_counter]
  simp

theorem sum_requests : Scheme.sumOver (edgesOf records) (fun _ e => e.requests) =
    records.length := by
  have hsum := Scheme.sumOver_putAll (g := edgeScheme) (f := fun _ e => e.requests)
    (d := fun _ => 1) (fun r => rfl) (fun e r => EdgeState.add_requests) records
  simpa [edgesOf] using hsum

end Records

section Nodes

variable {records : List TelemetryRecord} {r : TelemetryRecord} {id : String} {n : NodeState}
variable {nodes : AList fun _ : String => NodeState}

/-- The nodes of the records. -/
def nodesOf (records : List TelemetryRecord) : AList fun _ : String => NodeState :=
  records.foldl Store.addNodes ∅

theorem nodesOf_snoc : nodesOf (records ++ [r]) = Store.addNodes (nodesOf records) r := by
  rw [nodesOf, List.foldl_append]
  rfl

theorem lookup_addNodes : (Store.addNodes nodes r).lookup id =
    if id = r.destinationService then some ⟨r.destinationService, r.clusterId⟩
    else if id = r.sourceService then some ⟨r.sourceService, r.clusterId⟩
    else nodes.lookup id := by
  unfold Store.addNodes
  split_ifs with hdst hsrc
  · rw [hdst, AList.lookup_insert]
  · rw [AList.lookup_insert_ne hdst, hsrc, AList.lookup_insert]
  · rw [AList.lookup_insert_ne hdst, AList.lookup_insert_ne hsrc]

theorem id_of_lookup_nodesOf (h : (nodesOf records).lookup id = some n) : n.id = id := by
  induction records using List.reverseRecOn with
  | nil => cases h
  | append_singleton records r ih =>
    rw [nodesOf_snoc, lookup_addNodes] at h
    split_ifs at h with hdst hsrc
    · rw [← Option.some.inj h, hdst]
    · rw [← Option.some.inj h, hsrc]
    · exact ih h

theorem lookup_nodesOf (h : r ∈ records) :
    ((nodesOf records).lookup r.sourceService).isSome ∧
      ((nodesOf records).lookup r.destinationService).isSome := by
  induction records using List.reverseRecOn with
  | nil => cases h
  | append_singleton records r' ih =>
    rw [nodesOf_snoc, lookup_addNodes, lookup_addNodes]
    rcases List.mem_append.mp h with hold | hnew
    · obtain ⟨hsrc, hdst⟩ := ih hold
      constructor <;> split_ifs <;> simp [hsrc, hdst]
    · obtain rfl := List.mem_singleton.mp hnew
      constructor <;> split_ifs <;> simp_all

end Nodes

section Store

variable {m : ℤ} {calls : List Call} {c : Call} {o : Outcome}

/-- The records as the store counts them. -/
def records (calls : List Call) : List TelemetryRecord := calls.map Call.normalized

theorem addAll_snoc : Store.addAll m (calls ++ [c]) = ((Store.addAll m calls).addRecord c).2 := by
  rw [Store.addAll, List.foldl_append]
  rfl

theorem records_snoc : records (calls ++ [c]) = records calls ++ [c.normalized] := by
  simp [records]

theorem edges_addAll : (Store.addAll m calls).edges = edgesOf (records calls) := by
  induction calls using List.reverseRecOn with
  | nil => rfl
  | append_singleton calls c ih =>
    rw [addAll_snoc, records_snoc, edgesOf, Scheme.putAll_snoc, ← edgesOf, ← ih]
    rfl

theorem nodes_addAll : (Store.addAll m calls).nodes = nodesOf (records calls) := by
  induction calls using List.reverseRecOn with
  | nil => rfl
  | append_singleton calls c ih =>
    rw [addAll_snoc, records_snoc, nodesOf_snoc, ← ih]
    rfl

theorem Summary.count_counter (s : Summary) (o' : Outcome) :
    (s.count o').counter o = s.counter o + if o' = o then 1 else 0 := by
  cases o' <;> cases o <;> rfl

theorem addNormalized_counter (s : Store) (now : Timestamp) (r : TelemetryRecord) :
    (s.addNormalized now r).summary.counter o =
      s.summary.counter o + if r.outcome = o then 1 else 0 := by
  have hcount := Summary.count_counter (o := o)
    { s.summary with totalRequests := s.summary.totalRequests + 1, generatedAt := now } r.outcome
  cases o <;> exact hcount

theorem addNormalized_totalRequests (s : Store) (now : Timestamp) (r : TelemetryRecord) :
    (s.addNormalized now r).summary.totalRequests = s.summary.totalRequests + 1 := by
  change (Summary.count _ r.outcome).totalRequests = _
  cases r.outcome <;> rfl

theorem counter_addAll :
    (Store.addAll m calls).summary.counter o = (records calls).countP (·.outcome = o) := by
  induction calls using List.reverseRecOn with
  | nil => cases o <;> rfl
  | append_singleton calls c ih =>
    rw [addAll_snoc, Store.addRecord, addNormalized_counter, ih, records_snoc, List.countP_append]
    simp [List.countP_cons]

theorem totalRequests_addAll : (Store.addAll m calls).summary.totalRequests = calls.length := by
  induction calls using List.reverseRecOn with
  | nil => rfl
  | append_singleton calls c ih =>
    rw [addAll_snoc, Store.addRecord, addNormalized_totalRequests, ih, List.length_append,
      List.length_singleton]

theorem active_addAll (m : ℤ) (calls : List Call) :
    (Store.addAll m calls).summary.activeEdges = (Store.addAll m calls).edges.keys.length ∧
      (Store.addAll m calls).summary.activeServices = (Store.addAll m calls).nodes.keys.length := by
  induction calls using List.reverseRecOn with
  | nil => exact ⟨rfl, rfl⟩
  | append_singleton calls c ih =>
    rw [addAll_snoc]
    exact ⟨rfl, rfl⟩

end Store

section Topology

variable {s : Store} {now : Timestamp} {t : Topology} {o : Outcome} {e : Edge}

theorem Edge.less_eq_false_iff {a b : Edge} :
    b.less a = false ↔ toLex (a.source, a.target) ≤ toLex (b.source, b.target) := by
  unfold Edge.less
  rw [Prod.Lex.toLex_le_toLex]
  split_ifs with h
  · rw [decide_eq_false_iff_not, not_lt]
    simp [h]
  · rw [decide_eq_false_iff_not, not_lt, le_iff_lt_or_eq]
    simp [Ne.symm h]

instance : Std.Total fun a b : Edge => b.less a = false :=
  ⟨fun _ _ => by simpa only [Edge.less_eq_false_iff] using le_total _ _⟩

instance : IsTrans Edge fun a b => b.less a = false :=
  ⟨fun _ _ _ hab hbc => by
    rw [Edge.less_eq_false_iff] at *
    exact hab.trans hbc⟩

theorem Store.shows_topology (s : Store) (now : Timestamp) : s.Shows now (s.topology now) := by
  refine ⟨List.perm_insertionSort _ _, ?_, List.perm_insertionSort _ _, ?_, rfl⟩
  · have hsorted := List.pairwise_insertionSort (fun a b : Node => a.id ≤ b.id)
      (s.nodes.entries.map fun n => n.2.node)
    exact hsorted.imp not_lt_of_ge
  · exact List.pairwise_insertionSort _ _

theorem Store.Shows.sum_edges (h : s.Shows now t) {f : Edge → ℕ} :
    (t.edges.map f).sum = Scheme.sumOver s.edges fun _ e => f e.edge := by
  rw [(h.edges.map f).sum_eq, List.map_map]
  rfl

theorem Store.Shows.mem_edges (h : s.Shows now t) :
    e ∈ t.edges ↔ ∃ k es, s.edges.lookup k = some es ∧ es.edge = e := by
  rw [h.edges.mem_iff, List.mem_map]
  constructor
  · rintro ⟨⟨k, es⟩, hmem, rfl⟩
    exact ⟨k, es, Scheme.mem_entries_iff.mp hmem, rfl⟩
  · rintro ⟨k, es, hlookup, rfl⟩
    exact ⟨⟨k, es⟩, Scheme.mem_entries_iff.mpr hlookup, rfl⟩

theorem Store.Shows.mem_nodes (h : s.Shows now t) {n : Node} :
    n ∈ t.nodes ↔ ∃ id ns, s.nodes.lookup id = some ns ∧ ns.node = n := by
  rw [h.nodes.mem_iff, List.mem_map]
  constructor
  · rintro ⟨⟨id, ns⟩, hmem, rfl⟩
    exact ⟨id, ns, AList.mem_lookup_iff.mpr hmem, rfl⟩
  · rintro ⟨id, ns, hlookup, rfl⟩
    exact ⟨⟨id, ns⟩, AList.mem_lookup_iff.mp hlookup, rfl⟩

end Topology

/-- The counters of the summary and of the topology agree. -/
structure Balanced (s : Summary) (t : Topology) : Prop where
  total : s.totalRequests = s.allowed + s.denied + s.tlsFailures + s.errors
  requests : s.totalRequests = (t.edges.map Edge.requests).sum
  allowed : s.allowed = (t.edges.map Edge.allowCount).sum
  denied : s.denied = (t.edges.map Edge.denyCount).sum
  tlsFailures : s.tlsFailures = (t.edges.map Edge.tlsRejects).sum
  errors : s.errors = (t.edges.map Edge.errorCount).sum
  edge : ∀ e ∈ t.edges, e.requests = e.allowCount + e.denyCount + e.tlsRejects + e.errorCount
  activeEdges : s.activeEdges = t.edges.length
  activeServices : s.activeServices = t.nodes.length
  source : ∀ e ∈ t.edges, ∃ n ∈ t.nodes, n.id = e.source
  target : ∀ e ∈ t.edges, ∃ n ∈ t.nodes, n.id = e.target

theorem countP_outcomes (p : TelemetryRecord → Bool) (items : List TelemetryRecord) :
    items.countP p = items.countP (fun r => p r ∧ r.outcome = .allow) +
      items.countP (fun r => p r ∧ r.outcome = .deny) +
      items.countP (fun r => p r ∧ r.outcome = .tlsReject) +
      items.countP (fun r => p r ∧ r.outcome = .error) := by
  induction items with
  | nil => rfl
  | cons r items ih =>
    simp only [List.countP_cons, ih]
    cases hp : p r <;> cases ho : r.outcome <;> simp <;> omega

/-- An edge counts each of its records as one of the four. -/
theorem requests_of_lookup {records : List TelemetryRecord} {k : String} {e : EdgeState}
    (h : (edgesOf records).lookup k = some e) :
    e.requests = e.counter .allow + e.counter .deny + e.counter .tlsReject + e.counter .error := by
  obtain ⟨-, hrequests, hcounter⟩ := lookup_edgesOf h
  have hsplit := countP_outcomes (edgeKey · = k) records
  simp only [decide_eq_true_eq, ← hcounter, ← hrequests] at hsplit
  exact hsplit

section Answer

variable {m : ℤ} {calls : List Call} {now : Timestamp} {t : Topology} {o : Outcome} {e : Edge}

theorem Store.Shows.counter_eq (h : (Store.addAll m calls).Shows now t) (o : Outcome) :
    (Store.addAll m calls).summary.counter o = (t.edges.map (Edge.counter · o)).sum := by
  rw [h.sum_edges, counter_addAll, edges_addAll, ← sum_counter]
  simp only [EdgeState.edge_counter]

theorem Store.Shows.totalRequests_eq (h : (Store.addAll m calls).Shows now t) :
    (Store.addAll m calls).summary.totalRequests = (t.edges.map Edge.requests).sum := by
  rw [h.sum_edges, totalRequests_addAll, edges_addAll]
  simp only [EdgeState.edge_requests]
  rw [sum_requests, records, List.length_map]

theorem totalRequests_eq_counters (m : ℤ) (calls : List Call) :
    (Store.addAll m calls).summary.totalRequests =
      (Store.addAll m calls).summary.counter .allow + (Store.addAll m calls).summary.counter .deny +
        (Store.addAll m calls).summary.counter .tlsReject +
        (Store.addAll m calls).summary.counter .error := by
  have hsplit := countP_outcomes (fun _ => true) (records calls)
  have hall : (records calls).countP (fun _ => true) = calls.length := by
    simp [records]
  simp only [true_and] at hsplit
  rw [totalRequests_addAll, ← hall, hsplit]
  simp only [← counter_addAll (m := m)]

theorem Store.Shows.requests_eq_counters (h : (Store.addAll m calls).Shows now t)
    (he : e ∈ t.edges) :
    e.requests = e.counter .allow + e.counter .deny + e.counter .tlsReject + e.counter .error := by
  obtain ⟨k, es, hlookup, rfl⟩ := h.mem_edges.mp he
  rw [edges_addAll] at hlookup
  simpa only [EdgeState.edge_requests, EdgeState.edge_counter] using
    requests_of_lookup hlookup

theorem Store.Shows.node_of_lookup {id : String} (h : (Store.addAll m calls).Shows now t)
    (hid : ((nodesOf (records calls)).lookup id).isSome) : ∃ n ∈ t.nodes, n.id = id := by
  obtain ⟨ns, hns⟩ := Option.isSome_iff_exists.mp hid
  have hid := id_of_lookup_nodesOf hns
  rw [← nodes_addAll (m := m)] at hns
  exact ⟨ns.node, h.mem_nodes.mpr ⟨id, ns, hns, rfl⟩, hid⟩

theorem Store.Shows.active (h : (Store.addAll m calls).Shows now t) :
    (Store.addAll m calls).summary.activeEdges = t.edges.length ∧
      (Store.addAll m calls).summary.activeServices = t.nodes.length := by
  rw [(active_addAll m calls).1, (active_addAll m calls).2, h.edges.length_eq, h.nodes.length_eq]
  simp [AList.keys, List.keys]

theorem Store.Shows.endpoints (h : (Store.addAll m calls).Shows now t) (he : e ∈ t.edges) :
    (∃ n ∈ t.nodes, n.id = e.source) ∧ ∃ n ∈ t.nodes, n.id = e.target := by
  obtain ⟨k, es, hlookup, rfl⟩ := h.mem_edges.mp he
  rw [edges_addAll] at hlookup
  obtain ⟨⟨r, hr, -, htriple⟩, -⟩ := lookup_edgesOf hlookup
  obtain ⟨hsource, htarget, -⟩ : es.source = r.sourceService ∧
      es.target = r.destinationService ∧ es.leg = r.leg := by
    simpa [EdgeState.triple, TelemetryRecord.triple] using htriple
  have hnodes := lookup_nodesOf hr
  rw [← hsource, ← htarget] at hnodes
  exact ⟨h.node_of_lookup hnodes.1, h.node_of_lookup hnodes.2⟩

end Answer

theorem store_balanced (m : ℤ) (calls : List Call) (now : Timestamp) (t : Topology)
    (h : (Store.addAll m calls).Shows now t) : Balanced (Store.addAll m calls).summary t where
  total := totalRequests_eq_counters m calls
  requests := h.totalRequests_eq
  allowed := h.counter_eq .allow
  denied := h.counter_eq .deny
  tlsFailures := h.counter_eq .tlsReject
  errors := h.counter_eq .error
  edge _ he := h.requests_eq_counters he
  activeEdges := h.active.1
  activeServices := h.active.2
  source _ he := (h.endpoints he).1
  target _ he := (h.endpoints he).2

/-- A denied call and an allowed one, between the same services. -/
def twoCalls : List Call :=
  [{ record := { sourceService := "alpha", destinationService := "beta", verdict := "deny" } },
    { record := { sourceService := "alpha", destinationService := "beta" } }]

theorem twoCalls_balanced : Balanced (Store.addAll 10 twoCalls).summary
    ((Store.addAll 10 twoCalls).topology 0) :=
  store_balanced 10 twoCalls 0 _ (Store.shows_topology _ 0)

/-- The edges are the distinct triples of the records, and each counts the records of its
own. -/
structure GroupsBy (records : List TelemetryRecord) (t : Topology) : Prop where
  triples : (t.edges.map Edge.triple).Perm (records.map TelemetryRecord.triple).dedup
  requests : ∀ e ∈ t.edges, e.requests = records.countP (·.triple = e.triple)
  counters : ∀ e ∈ t.edges, ∀ o,
    e.counter o = records.countP fun r => r.triple = e.triple ∧ r.outcome = o

/-- No two triples are joined to one key. -/
def KeysSeparate (records : List TelemetryRecord) : Prop :=
  ∀ r ∈ records, ∀ r' ∈ records, joinKey r.triple = joinKey r'.triple → r.triple = r'.triple

section Groups

variable {records : List TelemetryRecord} {s : Store} {now : Timestamp} {t : Topology}
variable {k : String} {e : EdgeState}

/-- The key of an edge is its own triple, joined. -/
theorem joinKey_of_lookup (h : (edgesOf records).lookup k = some e) : joinKey e.triple = k := by
  obtain ⟨⟨r, -, hk, htriple⟩, -⟩ := lookup_edgesOf h
  rw [htriple, ← edgeKey_eq, hk]

theorem nodup_triples (hs : s.edges = edgesOf records) (h : s.Shows now t) :
    (t.edges.map Edge.triple).Nodup := by
  have hkey : ∀ k e, s.edges.lookup k = some e → joinKey e.triple = k := by
    intro k e hlookup
    rw [hs] at hlookup
    exact joinKey_of_lookup hlookup
  have hnodup := Scheme.nodup_map_entries (f := fun _ (e : EdgeState) => e.triple) joinKey hkey
  rw [(h.edges.map Edge.triple).nodup_iff, List.map_map]
  exact hnodup

theorem lookup_of_keysSeparate (hsep : KeysSeparate records) {r : TelemetryRecord}
    (hr : r ∈ records) : ∃ e, (edgesOf records).lookup (edgeKey r) = some e ∧
      e.triple = r.triple := by
  obtain ⟨e, he⟩ := exists_lookup_edgesOf hr
  obtain ⟨⟨r', hr', hk, htriple⟩, -⟩ := lookup_edgesOf he
  exact ⟨e, he, htriple.trans (hsep r' hr' r hr hk)⟩

theorem edgeKey_eq_iff_triple (hsep : KeysSeparate records)
    (he : (edgesOf records).lookup k = some e) (hr : r ∈ records) :
    edgeKey r = k ↔ r.triple = e.triple := by
  constructor
  · rintro rfl
    obtain ⟨e', he', htriple⟩ := lookup_of_keysSeparate hsep hr
    rw [Option.some.inj (he.symm.trans he'), htriple]
  · intro htriple
    rw [edgeKey_eq, htriple, joinKey_of_lookup he]

theorem groupsBy_of_keysSeparate (hsep : KeysSeparate records) (hs : s.edges = edgesOf records)
    (h : s.Shows now t) : GroupsBy records t := by
  constructor
  · rw [List.perm_ext_iff_of_nodup (nodup_triples hs h) (List.nodup_dedup _)]
    intro triple
    rw [List.mem_dedup, List.mem_map, List.mem_map]
    constructor
    · rintro ⟨e, he, rfl⟩
      obtain ⟨k, es, hlookup, rfl⟩ := h.mem_edges.mp he
      rw [hs] at hlookup
      obtain ⟨⟨r, hr, -, htriple⟩, -⟩ := lookup_edgesOf hlookup
      exact ⟨r, hr, htriple.symm⟩
    · rintro ⟨r, hr, rfl⟩
      obtain ⟨es, hlookup, htriple⟩ := lookup_of_keysSeparate hsep hr
      rw [← hs] at hlookup
      exact ⟨es.edge, h.mem_edges.mpr ⟨_, es, hlookup, rfl⟩, htriple⟩
  · intro e he
    obtain ⟨k, es, hlookup, rfl⟩ := h.mem_edges.mp he
    rw [hs] at hlookup
    rw [EdgeState.edge_requests, EdgeState.edge_triple, (lookup_edgesOf hlookup).2.1]
    exact List.countP_congr fun r hr => by simpa using edgeKey_eq_iff_triple hsep hlookup hr
  · intro e he o
    obtain ⟨k, es, hlookup, rfl⟩ := h.mem_edges.mp he
    rw [hs] at hlookup
    rw [EdgeState.edge_counter, EdgeState.edge_triple, (lookup_edgesOf hlookup).2.2]
    refine List.countP_congr fun r hr => ?_
    rw [decide_eq_true_eq, decide_eq_true_eq, edgeKey_eq_iff_triple hsep hlookup hr]

theorem keysSeparate_of_groupsBy (hs : s.edges = edgesOf records) (h : s.Shows now t)
    (hgroups : GroupsBy records t) : KeysSeparate records := by
  -- each triple is shown, under the one key it is joined to
  have hshown : ∀ r ∈ records, ∃ e, (edgesOf records).lookup (joinKey r.triple) = some e ∧
      e.triple = r.triple := by
    intro r hr
    have hmem : r.triple ∈ t.edges.map Edge.triple := by
      rw [hgroups.triples.mem_iff, List.mem_dedup]
      exact List.mem_map_of_mem hr
    obtain ⟨e, he, htriple⟩ := List.mem_map.mp hmem
    obtain ⟨k, es, hlookup, rfl⟩ := h.mem_edges.mp he
    rw [hs] at hlookup
    obtain rfl := joinKey_of_lookup hlookup
    rw [EdgeState.edge_triple] at htriple
    exact ⟨es, htriple ▸ hlookup, htriple⟩
  intro r hr r' hr' hkey
  obtain ⟨e, he, htriple⟩ := hshown r hr
  obtain ⟨e', he', htriple'⟩ := hshown r' hr'
  rw [hkey, he'] at he
  rw [← htriple, ← htriple', Option.some.inj he]

end Groups

/-- Whatever was recorded, and in whatever order the maps are iterated: the edges shown are a
group-by of the normalized records exactly if no two of their triples are joined to one
key. -/
theorem topology_groups_iff (m : ℤ) (calls : List Call) :
    (∀ now t, (Store.addAll m calls).Shows now t → GroupsBy (records calls) t) ↔
      KeysSeparate (records calls) := by
  constructor
  · intro hgroups
    have hshows := Store.shows_topology (Store.addAll m calls) 0
    exact keysSeparate_of_groupsBy edges_addAll hshows (hgroups 0 _ hshows)
  · exact fun hsep now t h => groupsBy_of_keysSeparate hsep edges_addAll h

/-- Two calls between different services whose names are joined to the same key. -/
def barredCalls : List Call :=
  [{ record := { sourceService := "a|b", destinationService := "c" } },
    { record := { sourceService := "a", destinationService := "b|c" } }]

theorem barredCalls_not_grouped :
    ¬ ∀ m calls now t, (Store.addAll m calls).Shows now t → GroupsBy (records calls) t := by
  intro h
  have hgroups := h 10 barredCalls 0 _ (Store.shows_topology _ 0)
  have hlength := hgroups.triples.length_eq
  revert hlength
  decide +kernel

end Meshlite.Trace
