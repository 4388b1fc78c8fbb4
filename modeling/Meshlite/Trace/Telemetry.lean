import Meshlite.Trace.EventLog

/-!
# The telemetry endpoint

Every accepted record goes to the store and to the Prometheus counters. The summary, the
event log and the counters count a verdict alike as long as it is one of the four that
the store knows.
-/

namespace Meshlite.Trace

open Grouping

/-- `prometheus.CounterVec`: a counter for each combination of label values. -/
abbrev CounterVec (L : Type) := AList fun _ : L => ℕ

def counterScheme (L : Type) : Scheme L L ℕ where
  key := id
  start _ := 0
  add n _ := n + 1

/-- `WithLabelValues(…).Inc()`. -/
def CounterVec.inc {L : Type} [DecidableEq L] (c : CounterVec L) (labels : L) : CounterVec L :=
  (counterScheme L).put c labels

/-- One increment of a metric, or one sample, with the labels. -/
inductive Metric where
  | request (src dst leg verdict : String)
  | duration (src dst leg : String) (seconds : ℚ)
  | denial (src dst leg : String)
  | tlsFailure (src dst reason : String)
  deriving DecidableEq

/-- What the handler raises for a normalized record, in its order. -/
def TelemetryRecord.metrics (normalized : TelemetryRecord) : List Metric :=
  let src := normalized.sourceService
  let dst := normalized.destinationService
  let leg := normalized.leg
  .request src dst leg normalized.verdict ::
    ((if 0 < normalized.latencyMs then [.duration src dst leg (normalized.latencyMs / 1000)]
      else []) ++
    if normalized.verdict = "deny" then [.denial src dst leg]
    else if normalized.verdict = "tls_reject" then
      [.tlsFailure src dst
        (if normalized.errorReason = "" then "unknown" else normalized.errorReason)]
    else [])

/-- `main`: the store and the metrics; of the histogram the samples are kept. -/
structure Server where
  store : Store
  requestsTotal : CounterVec (String × String × String × String)
  requestDuration : AList fun _ : String × String × String => List ℚ
  denialsTotal : CounterVec (String × String × String)
  tlsFailuresTotal : CounterVec (String × String × String)

namespace Server

def start : Server where
  store := .new 1000
  requestsTotal := ∅
  requestDuration := ∅
  denialsTotal := ∅
  tlsFailuresTotal := ∅

def raise (T : Server) : Metric → Server
  | .request src dst leg verdict =>
    { T with requestsTotal := T.requestsTotal.inc (src, dst, leg, verdict) }
  | .duration src dst leg seconds =>
    let samples := (T.requestDuration.lookup (src, dst, leg)).getD []
    { T with requestDuration := T.requestDuration.insert (src, dst, leg) (samples ++ [seconds]) }
  | .denial src dst leg => { T with denialsTotal := T.denialsTotal.inc (src, dst, leg) }
  | .tlsFailure src dst reason =>
    { T with tlsFailuresTotal := T.tlsFailuresTotal.inc (src, dst, reason) }

/-- `store.AddRecord`, and the metrics that its record is to raise. -/
def addRecord (T : Server) (c : Call) : Server × List Metric :=
  let (normalized, store) := T.store.addRecord c
  ({ T with store }, normalized.metrics)

/-- `POST /api/v1/telemetry` for one record of the payload. -/
def ingest (T : Server) (c : Call) : Server :=
  let (T, metrics) := T.addRecord c
  metrics.foldl raise T

/-- The server after the records it has accepted. -/
def after (calls : List Call) : Server := calls.foldl ingest start

/-- The server with the records in the store and no metric raised. -/
def stored (calls : List Call) : Server := { start with store := Store.addAll 1000 calls }

/-- The sum of `meshlite_requests_total` over the series with the verdict. -/
def requestsWith (T : Server) (verdict : String) : ℕ :=
  Scheme.sumOver T.requestsTotal fun labels n => if labels.2.2.2 = verdict then n else 0

/-- The three views of the traffic with the outcome are equal. -/
def Agrees (T : Server) (o : Outcome) : Prop :=
  T.store.summary.counter o =
      (T.store.eventsFor { verdict := o.label, limit := 1000 }).length ∧
    T.store.summary.counter o = T.requestsWith o.label

end Server

section Events

variable {calls : List Call}

theorem length_eventsFor (hlen : calls.length ≤ 1000) {verdict : String} (hne : verdict ≠ "")
    (hall : verdict ≠ "all") :
    ((Store.addAll 1000 calls).eventsFor { verdict, limit := 1000 }).length =
      (records calls).countP (·.verdict = verdict) := by
  have hevents : (Store.addAll 1000 calls).events =
      (records calls).reverse.map TelemetryRecord.event := by
    rw [events_addAll, List.take_of_length_le]
    simpa [records, Store.new] using hlen
  have hlimit : Store.eventLimit { verdict, limit := 1000 } = 1000 := rfl
  have hmatches : (Store.matchesQuery { verdict, limit := 1000 }) ∘ TelemetryRecord.event =
      fun r => decide (r.verdict = verdict) := by
    funext r
    change (true && (decide (verdict = "") || decide (verdict = "all") ||
      decide (r.verdict = verdict))) = _
    rw [decide_eq_false hne, decide_eq_false hall]
    rfl
  rw [Store.eventsFor, hlimit, hevents, List.filter_map, List.length_take, List.length_map,
    hmatches, ← List.countP_eq_length_filter, List.countP_reverse]
  apply Nat.min_eq_right
  exact List.countP_le_length.trans (by simpa [records] using hlen)

end Events

section Server

variable {T : Server} {calls : List Call} {metrics : List Metric} {o : Outcome}
  {r : TelemetryRecord}

theorem after_snoc (c : Call) : Server.after (calls ++ [c]) = (Server.after calls).ingest c := by
  rw [Server.after, List.foldl_append]
  rfl

theorem stored_snoc (c : Call) :
    Server.stored (calls ++ [c]) = ((Server.stored calls).addRecord c).1 := by
  rw [Server.stored, addAll_snoc]
  rfl

/-- Raising metrics and adding a record do not meet. -/
theorem addRecord_foldl_raise (c : Call) : (metrics.foldl Server.raise T).addRecord c =
    (metrics.foldl Server.raise (T.addRecord c).1, (T.addRecord c).2) := by
  induction metrics generalizing T with
  | nil => rfl
  | cons m metrics ih =>
    rw [List.foldl_cons, List.foldl_cons, ih]
    cases m <;> rfl

/-- One handler after the other adds the records and raises their metrics. -/
theorem after_eq (calls : List Call) : Server.after calls =
    ((records calls).flatMap TelemetryRecord.metrics).foldl Server.raise (Server.stored calls) := by
  induction calls using List.reverseRecOn with
  | nil => rfl
  | append_singleton calls c ih =>
    rw [after_snoc, Server.ingest, ih, addRecord_foldl_raise, ← stored_snoc, records_snoc,
      List.flatMap_append, List.foldl_append, List.flatMap_singleton]
    rfl

theorem store_foldl_raise : (metrics.foldl Server.raise T).store = T.store := by
  induction metrics generalizing T with
  | nil => rfl
  | cons m metrics ih =>
    rw [List.foldl_cons, ih]
    cases m <;> rfl

theorem store_after : (Server.after calls).store = Store.addAll 1000 calls := by
  rw [after_eq, store_foldl_raise]
  rfl

/-- The labels of `meshlite_requests_total` that the metric raises. -/
def Metric.labels : Metric → Option (String × String × String × String)
  | .request src dst leg verdict => some (src, dst, leg, verdict)
  | _ => none

def Metric.requestsWith (verdict : String) (m : Metric) : Bool :=
  (m.labels.map fun labels => decide (labels.2.2.2 = verdict)).getD false

theorem requestsTotal_foldl_raise :
    (metrics.foldl Server.raise (Server.stored calls)).requestsTotal =
      (counterScheme _).putAll (metrics.filterMap Metric.labels) := by
  induction metrics using List.reverseRecOn with
  | nil => rfl
  | append_singleton metrics m ih =>
    rw [List.foldl_concat, List.filterMap_append]
    cases m with
    | request src dst leg verdict =>
      change _ = (counterScheme _).putAll (metrics.filterMap Metric.labels ++ [_])
      rw [Scheme.putAll_snoc, ← ih]
      rfl
    | _ =>
      change _ = (counterScheme _).putAll (metrics.filterMap Metric.labels ++ [])
      rw [List.append_nil, ← ih]
      rfl

theorem requestsWith_foldl_raise (verdict : String) :
    (metrics.foldl Server.raise (Server.stored calls)).requestsWith verdict =
      metrics.countP (Metric.requestsWith verdict) := by
  rw [Server.requestsWith, requestsTotal_foldl_raise, Scheme.sumOver_putAll
    (d := fun labels => if labels.2.2.2 = verdict then 1 else 0)]
  · have hcount := sum_indicator (fun labels => decide (labels.2.2.2 = verdict))
      (metrics.filterMap Metric.labels)
    rw [List.countP_filterMap] at hcount
    simp only [decide_eq_true_eq] at hcount
    exact hcount
  · exact fun labels => ite_self 0
  · intro n labels
    change (if labels.2.2.2 = verdict then n + 1 else 0) =
      (if labels.2.2.2 = verdict then n else 0) + if labels.2.2.2 = verdict then 1 else 0
    split_ifs
    · rfl
    · rfl

theorem countP_metrics (verdict : String) (r : TelemetryRecord) :
    r.metrics.countP (Metric.requestsWith verdict) = if r.verdict = verdict then 1 else 0 := by
  rw [TelemetryRecord.metrics, List.countP_cons, List.countP_append]
  split_ifs <;> simp_all [Metric.requestsWith, Metric.labels]

theorem countP_flatMap_metrics (verdict : String) (rs : List TelemetryRecord) :
    (rs.flatMap TelemetryRecord.metrics).countP (Metric.requestsWith verdict) =
      rs.countP (·.verdict = verdict) := by
  rw [List.countP_flatMap, ← sum_indicator]
  refine congrArg List.sum (List.map_congr_left fun r _ => ?_)
  rw [Function.comp_apply, countP_metrics]
  simp only [decide_eq_true_eq]

theorem requestsWith_after (verdict : String) :
    (Server.after calls).requestsWith verdict = (records calls).countP (·.verdict = verdict) := by
  rw [after_eq, requestsWith_foldl_raise, countP_flatMap_metrics]

theorem countP_eq_iff {ι : Type} {p q : ι → Bool} {items : List ι}
    (himp : ∀ i ∈ items, p i = true → q i = true) :
    items.countP q = items.countP p ↔ ∀ i ∈ items, q i = true → p i = true := by
  induction items with
  | nil => simp
  | cons i items ih =>
    have hle : items.countP p ≤ items.countP q :=
      List.countP_mono_left fun j hj => himp j (List.mem_cons_of_mem _ hj)
    have hrest := ih fun j hj => himp j (List.mem_cons_of_mem _ hj)
    have hi := himp i List.mem_cons_self
    rw [List.forall_mem_cons, ← hrest]
    cases hp : p i <;> cases hq : q i <;> simp_all
    omega

theorem outcome_label (o : Outcome) : outcome o.label = o := by cases o <;> decide

theorem agrees_iff (hlen : calls.length ≤ 1000) : (Server.after calls).Agrees o ↔
    ∀ r ∈ records calls, r.outcome = o → r.verdict = o.label := by
  have hlabel : o.label ≠ "" ∧ o.label ≠ "all" := by cases o <;> decide
  have hlabelled : ∀ r ∈ records calls,
      decide (r.verdict = o.label) = true → decide (r.outcome = o) = true := by
    intro r _ h
    rw [decide_eq_true_eq] at h ⊢
    rw [TelemetryRecord.outcome, h, outcome_label]
  unfold Server.Agrees
  rw [store_after, counter_addAll, length_eventsFor hlen hlabel.1 hlabel.2, requestsWith_after,
    and_self, countP_eq_iff hlabelled]
  simp only [decide_eq_true_eq]

theorem normalized_verdict (c : Call) : c.normalized.verdict =
    if trimSpace c.record.verdict = "" then "allow" else c.record.verdict := by
  rw [Call.normalized, normalizeRecord]

theorem normalized_label_iff (c : Call) : (∃ o : Outcome, c.normalized.verdict = o.label) ↔
    trimSpace c.record.verdict = "" ∨ ∃ o : Outcome, c.record.verdict = o.label := by
  rw [normalized_verdict]
  split_ifs with hblank
  · exact iff_of_true ⟨.allow, rfl⟩ (Or.inl hblank)
  · exact ⟨Or.inr, fun h => h.resolve_left hblank⟩

end Server

/-- After at most 1000 records the summary, the event log and the metrics agree on each of
the four verdicts exactly if every record's verdict is blank or one of the four. -/
theorem views_agree_iff (calls : List Call) (hlen : calls.length ≤ 1000) :
    (∀ o, (Server.after calls).Agrees o) ↔
      ∀ c ∈ calls, trimSpace c.record.verdict = "" ∨ ∃ o : Outcome, c.record.verdict = o.label := by
  simp only [agrees_iff hlen, ← normalized_label_iff]
  constructor
  · intro h c hc
    exact ⟨_, h _ c.normalized (List.mem_map_of_mem hc) rfl⟩
  · intro h o r hr hout
    obtain ⟨c, hc, rfl⟩ := List.mem_map.mp hr
    obtain ⟨o', hverdict⟩ := h c hc
    rw [← hout, TelemetryRecord.outcome, hverdict, outcome_label]

theorem twoCalls_agree : (Server.after twoCalls).Agrees .allow ∧
    (Server.after twoCalls).Agrees .deny := by
  have hagree := (views_agree_iff twoCalls (by decide)).mpr ?_
  · exact ⟨hagree .allow, hagree .deny⟩
  intro c hc
  rcases List.mem_cons.mp hc with rfl | hc
  · exact Or.inr ⟨.deny, rfl⟩
  · obtain rfl := List.mem_singleton.mp hc
    exact Or.inl (by decide +kernel)

/-- A denial in upper case: the summary takes it for an allowed request. -/
def shoutedCall : Call :=
  { record := { sourceService := "alpha", destinationService := "beta", verdict := "DENY" } }

theorem shoutedCall_disagrees :
    ¬ ∀ calls : List Call, calls.length ≤ 1000 → ∀ o, (Server.after calls).Agrees o := by
  intro h
  have hevents := (h [shoutedCall] (by decide) .allow).1
  revert hevents
  decide +kernel

end Meshlite.Trace
