import Meshlite.Library.Courier
import Meshlite.Trace.Wire

/-!
# The way of telemetry

Gateways and agents hand their records to a bounded channel each; a worker posts them one
by one and never tries twice; Trace handles what arrives of each request. The records
that Trace has counted are records that were emitted, each at most once.
-/

namespace Meshlite.Trace

open Runs Courier

section Emitters

/-- The crates of Conduit and of the agent declare the same record. -/
def agentRecord (r : Kprobe.TelemetryRecord) : Conduit.TelemetryRecord where
  sourceService := r.sourceService
  destinationService := r.destinationService
  clusterId := r.clusterId
  leg := r.leg
  verdict := r.verdict
  latencyMs := r.latencyMs
  tlsVerified := r.tlsVerified
  statusCode := r.statusCode
  errorReason := r.errorReason
  timestamp := r.timestamp

/-- The records that are handed to `emit`: of a connection, and of a packet record. -/
inductive Emits (W : Wire) : Conduit.TelemetryRecord → Prop
  | connection (g : Conduit.Gateways) (io : Conduit.EgressIo) (peer : Option Conduit.IngressIo)
      {r : Conduit.TelemetryRecord} (helapsed : W.finite io.elapsedMs)
      (hr : r ∈ g.emitted io peer) : Emits W r
  | packet (e : Endian) (clusterId : String) (srcView dstView : Kprobe.SnapshotView)
      (slot : List Byte) {r : Kprobe.TelemetryRecord}
      (hr : r ∈ (Kprobe.readSlot e clusterId srcView dstView slot).emitted) :
      Emits W (agentRecord r)

variable {W : Wire} {r : Conduit.TelemetryRecord}

theorem extractStatusCode_lt {raw : Bytes} {n : ℕ} (h : n ∈ Conduit.extractStatusCode raw) :
    n < 2 ^ 16 := by
  obtain ⟨text, -, h⟩ := Option.bind_eq_some_iff.mp h
  obtain ⟨line, -, h⟩ := Option.bind_eq_some_iff.mp h
  obtain ⟨code, -, h⟩ := Option.bind_eq_some_iff.mp h
  simp only [Conduit.parseU16, Option.ite_none_right_eq_some, Option.some.injEq] at h
  obtain ⟨⟨-, -, hlt⟩, rfl⟩ := h
  exact hlt

section Gateways

variable {io : Conduit.EgressIo} (helapsed : W.finite io.elapsedMs)

include helapsed

theorem sends_record (clusterId destination verdict : String) (tlsVerified : Bool)
    {statusCode : Option ℕ} (hstatus : ∀ n ∈ statusCode, n < 2 ^ 16) (reason : Option String) :
    W.Sends (io.record clusterId destination verdict tlsVerified statusCode reason) :=
  ⟨helapsed, hstatus, rfl⟩

theorem sends_tunnel (clusterId destination : String) :
    ∀ r ∈ (io.tunnel clusterId destination).emitted, W.Sends r := by
  have hnone : ∀ n ∈ (none : Option ℕ), n < 2 ^ 16 := by simp
  unfold Conduit.EgressIo.tunnel
  repeat' split
  all_goals
    simp only [List.forall_mem_singleton, List.not_mem_nil, false_imp_iff, implies_true]
  · exact sends_record helapsed _ _ _ _ hnone _
  · exact sends_record helapsed _ _ _ _ hnone _
  · exact sends_record helapsed _ _ _ _ hnone _
  · exact sends_record helapsed _ _ _ _ (fun n hn => extractStatusCode_lt hn) _

theorem sends_handleConnection (clusterId : String) (policy : Tls.PolicyCache) :
    ∀ r ∈ (io.handleConnection clusterId policy).emitted, W.Sends r := by
  unfold Conduit.EgressIo.handleConnection
  repeat' split
  all_goals try exact sends_tunnel helapsed _ _
  all_goals
    simp only [List.forall_mem_singleton, List.not_mem_nil, false_imp_iff, implies_true]
  · exact sends_record helapsed _ _ _ _ (by simp) _
  · exact sends_record helapsed _ _ _ _ (by simp) _

end Gateways

theorem sends_serve (io : Conduit.IngressIo) (clusterId svcDomainSuffix : String) (svcPort : ℕ) :
    ∀ r ∈ io.serve clusterId svcDomainSuffix svcPort, W.Sends r := by
  unfold Conduit.IngressIo.serve
  split
  · simp
  · rw [List.forall_mem_singleton]
    exact ⟨W.finite_zero, by simp, rfl⟩

theorem intercept_of_readSlot {e : Endian} {clusterId : String}
    {srcView dstView : Kprobe.SnapshotView} {slot : List Byte} {r : Kprobe.TelemetryRecord}
    (hr : r ∈ (Kprobe.readSlot e clusterId srcView dstView slot).emitted) :
    ∃ source destination v, r = Kprobe.interceptRecord source destination clusterId v := by
  unfold Kprobe.readSlot Kprobe.reportLog at hr
  repeat' split at hr
  all_goals try cases hr
  dsimp only at hr
  split_ifs at hr
  · exact ⟨_, _, _, Kprobe.eq_of_emitted hr⟩
  · cases hr

theorem Emits.sends (h : Emits W r) : W.Sends r := by
  cases h with
  | connection g io peer helapsed hr =>
    rcases List.mem_append.mp hr with hegress | hingress
    · exact sends_handleConnection helapsed _ _ r hegress
    · split_ifs at hingress
      · cases peer with
        | none => simp at hingress
        | some p => exact sends_serve p _ _ _ r (by simpa using hingress)
      · simp at hingress
  | @packet e clusterId srcView dstView slot r hr =>
    obtain ⟨source, destination, v, rfl⟩ := intercept_of_readSlot hr
    refine ⟨W.finite_zero, fun n hn => ?_, rfl⟩
    have hcode : (if v = 0 then some 200 else none) = some n := hn
    split_ifs at hcode
    cases hcode
    decide

theorem Emits.label (h : Emits W r) : ∃ o : Outcome, r.verdict = o.label := by
  cases h with
  | connection g io peer helapsed hr =>
    obtain ⟨-, -, ⟨hverdict, -⟩ | ⟨hverdict, -⟩⟩ := g.emitted_wellFormed io peer r hr
    · exact ⟨.allow, hverdict⟩
    · simp only [List.mem_cons, List.not_mem_nil, or_false] at hverdict
      rcases hverdict with hdeny | hreject | herror
      · exact ⟨.deny, hdeny⟩
      · exact ⟨.tlsReject, hreject⟩
      · exact ⟨.error, herror⟩
  | packet e clusterId srcView dstView slot hr =>
    obtain ⟨source, destination, v, rfl⟩ := intercept_of_readSlot hr
    by_cases hv : v = 0
    · exact ⟨.allow, if_pos hv⟩
    · exact ⟨.deny, if_neg hv⟩

end Emitters

section Handlers

/-- What a handler has left to do with the records of its request. -/
inductive Work where
  | add (c : Call)
  | raise (m : Metric)

def Work.metric : Work → Option Metric
  | .add _ => none
  | .raise m => some m

namespace Server

/-- The next call of the store or the next metric; what a record raises comes right after it. -/
def work (T : Server) : List Work → Server × List Work
  | [] => (T, [])
  | .add c :: rest => ((T.addRecord c).1, (T.addRecord c).2.map .raise ++ rest)
  | .raise m :: rest => (T.raise m, rest)

/-- A handler reads and decodes, which nobody else sees, and makes its first call. -/
def receive (go : GoText) (decodeError : Bytes → String) (clock : ℕ → Timestamp × Timestamp)
    (T : Server) (body : Body) : Server × List Work :=
  match readPayload body with
  | .error _ => (T, [])
  | .ok payload => match unmarshal go decodeError payload with
    | .error _ => (T, [])
    | .ok records => T.work ((callsOf clock records).map .add)

/-- All that is left is done at once. -/
def finish (T : Server) (works : List Work) : Server :=
  works.foldl (fun T w => match w with
    | .add c => T.ingest c
    | .raise m => T.raise m) T

end Server

variable {T : Server} {go : GoText} {decodeError : Bytes → String}
  {clock : ℕ → Timestamp × Timestamp} {body : Body}

theorem finish_raise (metrics : List Metric) (rest : List Work) :
    T.finish (metrics.map .raise ++ rest) = (metrics.foldl Server.raise T).finish rest := by
  rw [Server.finish, List.foldl_append, List.foldl_map]
  rfl

theorem finish_work (works : List Work) :
    (T.work works).1.finish (T.work works).2 = T.finish works := by
  match works with
  | [] => rfl
  | .add c :: rest => exact finish_raise _ rest
  | .raise m :: rest => rfl

/-- A handler that nobody comes between does what is said of the request as a whole. -/
theorem finish_receive :
    (T.receive go decodeError clock body).1.finish (T.receive go decodeError clock body).2 =
      (T.postTelemetry go decodeError clock body).1 := by
  rw [Server.receive, Server.postTelemetry]
  cases readPayload body with
  | error err => rfl
  | ok payload =>
    dsimp only
    cases Server.unmarshal go decodeError payload with
    | error text => rfl
    | ok records =>
      dsimp only
      rw [finish_work, Server.finish, List.foldl_map]

variable {W : Wire} {r : Conduit.TelemetryRecord}

theorem receive_whole (hr : W.Sends r) (hbody : body.Carries (r.body W.printF64))
    (hwhole : body.Whole (r.body W.printF64)) :
    T.receive W.go W.decodeError clock body =
      T.work [.add ⟨received r, (clock 0).1, (clock 0).2⟩] := by
  obtain ⟨hall, hfits⟩ := hwhole
  have hpayload := readPayload_fits (hbody.broken.mpr hall) (hall ▸ hfits)
  rw [hall] at hpayload
  have hrecords : Server.unmarshal W.go W.decodeError (r.body W.printF64) = .ok [received r] :=
    unmarshal_eq_ok_iff.mpr ((standsFor_body hr).mpr rfl)
  simp only [Server.receive, hpayload, hrecords]
  rfl

theorem receive_refused {text : String}
    (h : (T.postTelemetry go decodeError clock body).2 = .badRequest text) :
    T.receive go decodeError clock body = (T, []) := by
  rw [Server.postTelemetry] at h
  rw [Server.receive]
  cases hpayload : readPayload body with
  | error err => rfl
  | ok payload =>
    cases hrecords : Server.unmarshal go decodeError payload with
    | error text => simp only [hrecords]
    | ok records =>
      simp only [hpayload, hrecords] at h
      cases h

theorem receive_part (hr : W.Sends r) (hbody : body.Carries (r.body W.printF64))
    (hpart : ¬ body.Whole (r.body W.printF64)) :
    T.receive W.go W.decodeError clock body = (T, []) := by
  obtain ⟨text, hrefused⟩ : ∃ text, T.postTelemetry W.go W.decodeError clock body =
      (T, .badRequest text) := post_part hr hbody hpart
  exact receive_refused (congrArg Prod.snd hrefused)

end Handlers

/-- The emitters' channels and workers, and Trace with the handlers that have come so far. -/
structure Pipeline where
  mail : Courier.State Conduit.TelemetryRecord
  server : Server
  handlers : List (List Work)

inductive Delivery where
  /-- what an emitter does: `emit`, or a step of its worker; or a request that is lost before
  Trace handles it -/
  | emitter (e : Courier.Event Conduit.TelemetryRecord)
  /-- Trace takes the request with the record, of which so much has arrived -/
  | receive (r : Conduit.TelemetryRecord) (body : Body) (clock : ℕ → Timestamp × Timestamp)
  /-- a handler goes on -/
  | work (i : ℕ)

instance (body : Body) (text : Bytes) : Decidable (body.Whole text) :=
  inferInstanceAs (Decidable (_ ∧ _))

/-- The metrics that the handlers have still to raise. -/
def Pipeline.unraised (s : Pipeline) : Multiset Metric :=
  (s.handlers.map fun works => (works.filterMap Work.metric : Multiset Metric)).sum

section System

variable (W : Wire) (capacity : ℕ → ℕ)

/-- The record arrives if its request does as a whole, and is lost otherwise. -/
def arrival (r : Conduit.TelemetryRecord) (body : Body) : Courier.Event Conduit.TelemetryRecord :=
  if body.Whole (r.body W.printF64) then .arrive r else .lose r

def Delivery.event : Delivery → Option (Courier.Event Conduit.TelemetryRecord)
  | .emitter e => some e
  | .receive r body _ => some (arrival W r body)
  | .work _ => none

/-- What the mail sees of the deliveries. -/
def mailOf (es : List Delivery) : List (Courier.Event Conduit.TelemetryRecord) :=
  es.filterMap (Delivery.event W)

inductive Pipeline.Step : Pipeline → Delivery → Pipeline → Prop
  | emitter {s : Pipeline} {e : Courier.Event Conduit.TelemetryRecord}
      {mail : Courier.State Conduit.TelemetryRecord} (hlocal : e.arrived = none)
      (hemits : ∀ r ∈ e.emitted, Emits W r) (hmail : Courier.Step capacity s.mail e mail) :
      Step s (.emitter e) { s with mail }
  | receive {s : Pipeline} {r : Conduit.TelemetryRecord} {body : Body}
      {clock : ℕ → Timestamp × Timestamp} {mail : Courier.State Conduit.TelemetryRecord}
      (hbody : body.Carries (r.body W.printF64))
      (hmail : Courier.Step capacity s.mail (arrival W r body) mail) :
      Step s (.receive r body clock)
        { mail
          server := (s.server.receive W.go W.decodeError clock body).1
          handlers := s.handlers ++ [(s.server.receive W.go W.decodeError clock body).2] }
  | work {s : Pipeline} {i : ℕ} {works : List Work} (hworks : s.handlers[i]? = some works) :
      Step s (.work i)
        { s with
          server := (s.server.work works).1
          handlers := s.handlers.set i (s.server.work works).2 }

/-- So many emitters that have emitted nothing, and Trace at its start. -/
def Pipeline.start (n : ℕ) : Pipeline where
  mail := Courier.start n
  server := .start
  handlers := []

end System

section Runs

variable {W : Wire} {capacity : ℕ → ℕ} {n : ℕ} {es : List Delivery} {s s' : Pipeline}
  {e : Delivery}

theorem mailOf_snoc (es : List Delivery) (e : Delivery) :
    mailOf W (es ++ [e]) = mailOf W es ++ (e.event W).toList := filterMap_snoc _ es e

theorem Pipeline.mail_of_run (h : Run (Pipeline.Step W capacity) (.start n) es s) :
    Run (Courier.Step capacity) (Courier.start n) (mailOf W es) s.mail := by
  induction h with
  | start => exact .start
  | next _ hstep ih =>
    rw [mailOf_snoc]
    cases hstep with
    | emitter _ _ hmail => exact ih.next hmail
    | receive _ hmail => exact ih.next hmail
    | work _ =>
      rw [Delivery.event, Option.toList_none, List.append_nil]
      exact ih

theorem arrival_emitted (r : Conduit.TelemetryRecord) (body : Body) :
    (arrival W r body).emitted = none := by
  unfold arrival
  split_ifs <;> rfl

theorem Pipeline.emits_of_run (h : Run (Pipeline.Step W capacity) (.start n) es s) :
    ∀ r ∈ emitted (mailOf W es), Emits W r := by
  induction h with
  | start => simp [emitted, mailOf]
  | next _ hstep ih =>
    rw [mailOf_snoc, emitted, List.filterMap_append]
    refine List.forall_mem_append.mpr ⟨ih, ?_⟩
    cases hstep with
    | @emitter e mail _ hemits _ =>
      intro r hr
      refine hemits r ?_
      simpa [Delivery.event] using hr
    | receive _ _ => simp [Delivery.event, arrival_emitted]
    | work _ => simp [Delivery.event]

theorem unraised_receive (handlers : List (List Work)) (works : List Work)
    (mail : Courier.State Conduit.TelemetryRecord) (server : Server) :
    Pipeline.unraised ⟨mail, server, handlers ++ [works]⟩ =
      Pipeline.unraised ⟨mail, server, handlers⟩ + ↑(works.filterMap Work.metric) := by
  simp [Pipeline.unraised]

theorem work_added (c : Call) (T : Server) :
    T.work [.add c] = ((T.addRecord c).1, (T.addRecord c).2.map .raise) := by
  rw [Server.work, List.append_nil]

theorem filterMap_raise (metrics : List Metric) :
    (metrics.map Work.raise).filterMap Work.metric = metrics := by
  rw [List.filterMap_map]
  exact List.filterMap_some

/-- The records that have arrived are in the store, in the order in which they did, and their
metrics are raised or still to be raised by their handlers. -/
structure Pipeline.Counted (s : Pipeline) (arrived : List Conduit.TelemetryRecord)
    (calls : List Call) (raised : List Metric) : Prop where
  server : s.server = raised.foldl Server.raise (Server.stored calls)
  records : calls.map Call.record = arrived.map received
  metrics : (↑raised : Multiset Metric) + s.unraised =
    ↑((Trace.records calls).flatMap TelemetryRecord.metrics)
  added : ∀ works ∈ s.handlers, ∀ w ∈ works, ∃ m, w = .raise m

section Counted

variable {arrived : List Conduit.TelemetryRecord} {calls : List Call} {raised : List Metric}
  {r : Conduit.TelemetryRecord}

/-- A record arrives: its handler adds it and has its metrics to raise. -/
theorem Pipeline.Counted.add (h : s.Counted arrived calls raised) {c : Call}
    (hc : c.record = received r) (mail : Courier.State Conduit.TelemetryRecord) :
    Pipeline.Counted ⟨mail, (s.server.work [.add c]).1, s.handlers ++ [(s.server.work [.add c]).2]⟩
      (arrived ++ [r]) (calls ++ [c]) raised where
  server := by
    rw [work_added, h.server, addRecord_foldl_raise, stored_snoc]
  records := by
    rw [List.map_append, List.map_append, h.records, List.map_singleton, hc]
    rfl
  metrics := by
    have hunraised : Pipeline.unraised ⟨mail, (s.server.work [.add c]).1, s.handlers⟩ =
        s.unraised := rfl
    rw [unraised_receive, hunraised, ← add_assoc, h.metrics, work_added, filterMap_raise,
      Trace.records_snoc, List.flatMap_append, List.flatMap_singleton, Multiset.coe_add]
    rfl
  added := by
    intro works hworks w hw
    rcases List.mem_append.mp hworks with hold | hnew
    · exact h.added works hold w hw
    · rw [List.mem_singleton.mp hnew, work_added] at hw
      obtain ⟨m, -, rfl⟩ := List.mem_map.mp hw
      exact ⟨m, rfl⟩

/-- A handler goes on: as its record is added, it raises a metric. -/
theorem Pipeline.Counted.work (h : s.Counted arrived calls raised) {i : ℕ} {works : List Work}
    (hworks : s.handlers[i]? = some works) :
    Pipeline.Counted
      { s with
        server := (s.server.work works).1
        handlers := s.handlers.set i (s.server.work works).2 }
      arrived calls (raised ++ works.head?.toList.filterMap Work.metric) := by
  have hadded := h.added works (List.mem_of_getElem? hworks)
  have hwork : (s.server.work works).1 =
        (works.head?.toList.filterMap Work.metric).foldl Server.raise s.server ∧
      (s.server.work works).2 = works.tail ∧
      works.filterMap Work.metric =
        works.head?.toList.filterMap Work.metric ++ works.tail.filterMap Work.metric := by
    match works with
    | [] => exact ⟨rfl, rfl, rfl⟩
    | .add c :: rest =>
      obtain ⟨m, hm⟩ := hadded _ List.mem_cons_self
      cases hm
    | .raise m :: rest => exact ⟨rfl, rfl, rfl⟩
  obtain ⟨hserver, hrest, hmetric⟩ := hwork
  rw [hserver, hrest]
  refine ⟨?_, h.records, ?_, ?_⟩
  · rw [List.foldl_append, ← h.server]
  · have hset := sum_map_set (f := fun works => (works.filterMap Work.metric : Multiset Metric))
      (b := works.tail) (x := ↑(works.head?.toList.filterMap Work.metric)) (y := 0) hworks (by
        rw [hmetric, ← Multiset.coe_add, add_zero, add_comm])
    rw [add_zero, add_comm] at hset
    rw [← Multiset.coe_add, add_assoc, ← h.metrics]
    exact congrArg (Multiset.ofList raised + ·) hset
  · intro ws hws w hw
    rcases List.mem_or_eq_of_mem_set hws with hold | rfl
    · exact h.added ws hold w hw
    · exact hadded w (List.mem_of_mem_tail hw)

end Counted

/-- Trace has the records that arrived, in the order in which they did. -/
theorem Pipeline.counted_of_run (h : Run (Pipeline.Step W capacity) (.start n) es s) :
    ∃ calls raised, s.Counted (arrived (mailOf W es)) calls raised := by
  induction h with
  | start => exact ⟨[], [], rfl, rfl, rfl, by simp [Pipeline.start]⟩
  | @next es s s' e hrun hstep ih =>
    obtain ⟨calls, raised, hcounted⟩ := ih
    rw [mailOf_snoc, arrived, List.filterMap_append]
    cases hstep with
    | @emitter e mail hlocal _ _ =>
      have hnone : [e].filterMap Courier.Event.arrived = [] := by simp [hlocal]
      rw [Delivery.event, Option.toList_some, hnone, List.append_nil]
      exact ⟨calls, raised, ⟨hcounted.server, hcounted.records, hcounted.metrics, hcounted.added⟩⟩
    | @receive r body clock mail hbody hmail =>
      have hflying : r ∈ s.mail.flying := hmail.mem_flying (by
        unfold arrival
        split_ifs <;> simp)
      have hr := (emits_of_run hrun r (mem_emitted_of_flying (mail_of_run hrun) hflying)).sends
      rw [Delivery.event, arrival, Option.toList_some]
      split_ifs with hwhole
      · rw [receive_whole hr hbody hwhole]
        exact ⟨_, raised, hcounted.add rfl mail⟩
      · rw [receive_part hr hbody hwhole]
        refine ⟨calls, raised, hcounted.server, ?_, ?_, ?_⟩
        · exact (List.append_nil _).symm ▸ hcounted.records
        · rw [unraised_receive, List.filterMap_nil, Multiset.coe_nil, add_zero]
          exact hcounted.metrics
        · intro works hworks w hw
          rcases List.mem_append.mp hworks with hold | hnew
          · exact hcounted.added works hold w hw
          · rw [List.mem_singleton.mp hnew] at hw
            cases hw
    | work hworks =>
      rw [Delivery.event, Option.toList_none, List.filterMap_nil, List.append_nil]
      exact ⟨calls, _, hcounted.work hworks⟩

/-- Every emitted record is counted once, lost, or still on its way: what Trace has in its store
are the records that arrived, in this order, and its metrics are theirs but for those that a
handler has still to raise. An emitter's worker handles its records in the order of `emit`, and
no channel holds more than its capacity. -/
theorem telemetry_accounted (h : Run (Pipeline.Step W capacity) (.start n) es s) :
    (∃ (calls : List Call) (raised : List Metric),
      s.server = raised.foldl Server.raise (Server.stored calls) ∧
      calls.map Call.record = (arrived (mailOf W es)).map received ∧
      (↑raised : Multiset Metric) + s.unraised =
        ↑((records calls).flatMap TelemetryRecord.metrics)) ∧
    (↑(emitted (mailOf W es)) : Multiset Conduit.TelemetryRecord) =
      ↑(arrived (mailOf W es)) + ↑(lost (mailOf W es)) + s.mail.pending ∧
    ∀ i sender, s.mail.senders[i]? = some sender → sender.queue.length ≤ capacity i ∧
      (mailOf W es).filterMap (Event.offeredTo i) =
        (mailOf W es).filterMap (Event.handledBy i) ++ sender.items := by
  have hmail := Pipeline.mail_of_run h
  obtain ⟨calls, raised, hcounted⟩ := Pipeline.counted_of_run h
  exact ⟨⟨calls, raised, hcounted.server, hcounted.records, hcounted.metrics⟩,
    account_of_run hmail, fun i sender hi => ⟨bounded_of_run hmail hi, order_of_run hmail hi⟩⟩

section Outcomes

variable {calls : List Call} {o : Outcome}

theorem Outcome.label_injective : Function.Injective Outcome.label := by
  intro a b h
  cases a <;> cases b <;> first | rfl | exact absurd h (by decide)

theorem verdict_normalized {r : TelemetryRecord} (hr : r.verdict = o.label) (now : Timestamp) :
    (normalizeRecord now r).verdict = o.label := by
  have hne : trimSpace o.label ≠ "" := by
    cases o <;> decide
  have hverdict : (normalizeRecord now r).verdict =
      if trimSpace r.verdict = "" then "allow" else r.verdict := rfl
  rw [hverdict, hr, if_neg hne]

/-- The summary counts an outcome as often as its label occurs, if the verdicts name
outcomes. -/
theorem counted_of_labels (hcalls : ∀ c ∈ calls, ∃ o : Outcome, c.record.verdict = o.label) :
    (Store.addAll 1000 calls).summary.counter o =
        (calls.map Call.record).countP (·.verdict = o.label) ∧
      (records calls).countP (·.verdict = o.label) =
        (calls.map Call.record).countP (·.verdict = o.label) := by
  have hnormalized : ∀ c ∈ calls, c.normalized.verdict = c.record.verdict := by
    intro c hc
    obtain ⟨o', ho'⟩ := hcalls c hc
    rw [ho', Call.normalized, verdict_normalized ho']
  rw [counter_addAll, records, List.countP_map, List.countP_map, List.countP_map]
  constructor
  · refine List.countP_congr fun c hc => ?_
    obtain ⟨o', ho'⟩ := hcalls c hc
    have houtcome : c.normalized.outcome = o' := by
      rw [TelemetryRecord.outcome, hnormalized c hc, ho', outcome_label]
    simp only [Function.comp_apply, decide_eq_true_eq]
    rw [houtcome, ho']
    exact Outcome.label_injective.eq_iff.symm
  · refine List.countP_congr fun c hc => ?_
    simp only [Function.comp_apply, decide_eq_true_eq]
    rw [hnormalized c hc]

end Outcomes

/-- Of each outcome Trace's summary counts the records emitted with it, but for the lost ones
and the ones on their way; and its metrics count as many, but for those that a handler has
still to raise. -/
theorem outcomes_accounted (h : Run (Pipeline.Step W capacity) (.start n) es s) (o : Outcome) :
    s.server.requestsWith o.label + s.unraised.countP (·.requestsWith o.label) =
      s.server.store.summary.counter o ∧
    s.server.store.summary.counter o +
      ((lost (mailOf W es)).countP (·.verdict = o.label) +
        s.mail.pending.countP (·.verdict = o.label)) =
      (emitted (mailOf W es)).countP (·.verdict = o.label) := by
  obtain ⟨calls, raised, hcounted⟩ := Pipeline.counted_of_run h
  have haccount := account_of_run (Pipeline.mail_of_run h)
  have hlabels : ∀ c ∈ calls, ∃ o : Outcome, c.record.verdict = o.label := by
    intro c hc
    have hmem : c.record ∈ (arrived (mailOf W es)).map received :=
      hcounted.records ▸ List.mem_map_of_mem hc
    obtain ⟨r, hr, hrecord⟩ := List.mem_map.mp hmem
    have hemitted : r ∈ (↑(emitted (mailOf W es)) : Multiset _) := by
      rw [haccount, add_assoc]
      exact Multiset.mem_add.mpr (Or.inl hr)
    rw [← hrecord]
    exact (Pipeline.emits_of_run h r hemitted).label
  obtain ⟨hsummary, hrecords⟩ := counted_of_labels (o := o) hlabels
  have hstore : s.server.store = Store.addAll 1000 calls := by
    rw [hcounted.server, store_foldl_raise]
    rfl
  rw [hstore, hsummary]
  constructor
  · have hmetrics := congrArg (Multiset.countP (·.requestsWith o.label)) hcounted.metrics
    simp only [Multiset.countP_add, Multiset.coe_countP, Bool.decide_eq_true] at hmetrics
    rw [countP_flatMap_metrics, hrecords] at hmetrics
    rw [hcounted.server, requestsWith_foldl_raise]
    exact hmetrics
  · have hcount := congrArg (Multiset.countP (·.verdict = o.label)) haccount
    rw [Multiset.countP_add, Multiset.countP_add, Multiset.coe_countP, Multiset.coe_countP,
      Multiset.coe_countP] at hcount
    rw [hcounted.records, hcount, List.countP_map, add_assoc]
    rfl

end Runs

section Demo

variable {W : Wire} {capacity : ℕ → ℕ} {s : Pipeline} {r : Conduit.TelemetryRecord} {body : Body}
  {pre post : List Conduit.TelemetryRecord}

/-- A request that arrives as a whole: its record is in the store, with the metrics to come. -/
theorem Pipeline.Step.whole (hr : W.Sends r) (hbody : body.Carries (r.body W.printF64))
    (hwhole : body.Whole (r.body W.printF64)) (hflying : s.mail.flying = pre ++ r :: post)
    (clock : ℕ → Timestamp × Timestamp) :
    Pipeline.Step W capacity s (.receive r body clock)
      { mail := { s.mail with flying := pre ++ post }
        server := (s.server.addRecord ⟨received r, (clock 0).1, (clock 0).2⟩).1
        handlers := s.handlers ++
          [(s.server.addRecord ⟨received r, (clock 0).1, (clock 0).2⟩).2.map .raise] } := by
  have hmail : Courier.Step capacity s.mail (arrival W r body)
      { s.mail with flying := pre ++ post } := by
    rw [arrival, if_pos hwhole]
    exact .arrive hflying
  have hstep : Pipeline.Step W capacity s (.receive r body clock) _ := .receive hbody hmail
  rwa [receive_whole hr hbody hwhole, work_added] at hstep

theorem Pipeline.Step.part (hr : W.Sends r) (hbody : body.Carries (r.body W.printF64))
    (hpart : ¬ body.Whole (r.body W.printF64)) (hflying : s.mail.flying = pre ++ r :: post)
    (clock : ℕ → Timestamp × Timestamp) :
    Pipeline.Step W capacity s (.receive r body clock)
      { mail := { s.mail with flying := pre ++ post }
        server := s.server
        handlers := s.handlers ++ [[]] } := by
  have hmail : Courier.Step capacity s.mail (arrival W r body)
      { s.mail with flying := pre ++ post } := by
    rw [arrival, if_neg hpart]
    exact .lose hflying
  have hstep : Pipeline.Step W capacity s (.receive r body clock) _ := .receive hbody hmail
  rwa [receive_part hr hbody hpart] at hstep

theorem demoRecord_emits : Emits demoWire demoRecord :=
  .connection Conduit.demoGateways Conduit.answeredIo (some Conduit.answeringIo) (Or.inr rfl)
    (by decide +kernel)

/-- What Ingress emits when the backend refuses it. -/
def refusedRecord : Conduit.TelemetryRecord where
  sourceService := "remote/cluster-2"
  destinationService := "unknown"
  clusterId := "cluster-2"
  leg := "cross_cluster"
  verdict := "error"
  latencyMs := 0
  tlsVerified := false
  statusCode := none
  errorReason := some ("connect to backend beta.meshlite-test.svc.cluster.local:8080: " ++
    "Connection refused (os error 111)")
  timestamp := none

theorem refusedRecord_emits : Emits demoWire refusedRecord :=
  .connection Conduit.demoGateways Conduit.refusedIo (some Conduit.refusingIo) (Or.inr rfl)
    (by decide +kernel)

/-- The beginning of its request. -/
def refusedBody : Body where
  delivered := (refusedRecord.body demoWire.printF64).take 100
  broken := some "unexpected EOF"

theorem refusedBody_part : ¬ refusedBody.Whole (refusedRecord.body demoWire.printF64) := by
  decide +kernel

theorem refusedBody_carries : refusedBody.Carries (refusedRecord.body demoWire.printF64) :=
  ⟨List.take_prefix _ _, iff_of_false nofun (by decide +kernel)⟩

/-- Two emitters with room for one record: Egress emits two, one of which is dropped, and the
request of Ingress is cut. A handler has raised the first metric of the record that arrived. -/
def demoDeliveries : List Delivery :=
  [.emitter (.offer 0 demoRecord), .emitter (.drop 0 demoRecord),
    .emitter (.offer 1 refusedRecord), .emitter (.take 0), .emitter (.send 0 demoRecord),
    .emitter (.take 1), .emitter (.send 1 refusedRecord),
    .receive refusedRecord refusedBody fun _ => (1, 1),
    .receive demoRecord demoBody fun _ => (1, 2), .work 1]

def demoCall : Call := ⟨received demoRecord, 1, 2⟩

def demoPipeline : Pipeline where
  mail := ⟨[⟨[], .waiting⟩, ⟨[], .waiting⟩], []⟩
  server := (Server.start.addRecord demoCall).1.raise
    (.request "cluster/cluster-1" "beta" "cross_cluster" "allow")
  handlers := [[], [.raise (.duration "cluster/cluster-1" "beta" "cross_cluster" (3 / 1000))]]

theorem demoCall_metrics : demoCall.normalized.metrics =
    [.request "cluster/cluster-1" "beta" "cross_cluster" "allow",
      .duration "cluster/cluster-1" "beta" "cross_cluster" (3 / 1000)] := by
  decide +kernel

/-- Both records are under way, and one more is dropped. -/
def demoSent : Pipeline where
  mail := ⟨[⟨[], .waiting⟩, ⟨[], .waiting⟩], [demoRecord, refusedRecord]⟩
  server := .start
  handlers := []

theorem demoSent_run :
    Run (Pipeline.Step demoWire fun _ => 1) (.start 2) (demoDeliveries.take 7) demoSent := by
  have hdemo : ∀ r ∈ some demoRecord, Emits demoWire r := by
    rintro _ ⟨⟩
    exact demoRecord_emits
  have hrefused : ∀ r ∈ some refusedRecord, Emits demoWire r := by
    rintro _ ⟨⟩
    exact refusedRecord_emits
  have hnone : ∀ r ∈ (none : Option Conduit.TelemetryRecord), Emits demoWire r := by simp
  have hroom : (0 : ℕ) < 1 := by decide
  have hqueued : Run (Pipeline.Step demoWire fun _ => 1) (.start 2) (demoDeliveries.take 1)
      ⟨⟨[⟨[demoRecord], .idle⟩, ⟨[], .idle⟩], []⟩, .start, []⟩ :=
    Run.start.next (.emitter rfl hdemo
      (.offer (c := Courier.start 2) (s := ⟨[], .idle⟩) demoRecord rfl hroom))
  have hdropped : Run (Pipeline.Step demoWire fun _ => 1) (.start 2) (demoDeliveries.take 2)
      ⟨⟨[⟨[demoRecord], .idle⟩, ⟨[], .idle⟩], []⟩, .start, []⟩ :=
    hqueued.next (.emitter rfl hdemo (.drop (s := ⟨[demoRecord], .idle⟩) demoRecord rfl le_rfl))
  have hoffered : Run (Pipeline.Step demoWire fun _ => 1) (.start 2) (demoDeliveries.take 3)
      ⟨⟨[⟨[demoRecord], .idle⟩, ⟨[refusedRecord], .idle⟩], []⟩, .start, []⟩ :=
    hdropped.next (.emitter rfl hrefused (.offer (s := ⟨[], .idle⟩) refusedRecord rfl hroom))
  have htaken : Run (Pipeline.Step demoWire fun _ => 1) (.start 2) (demoDeliveries.take 4)
      ⟨⟨[⟨[], .holding demoRecord⟩, ⟨[refusedRecord], .idle⟩], []⟩, .start, []⟩ :=
    hoffered.next (.emitter rfl hnone (.take rfl))
  have hsent : Run (Pipeline.Step demoWire fun _ => 1) (.start 2) (demoDeliveries.take 5)
      ⟨⟨[⟨[], .waiting⟩, ⟨[refusedRecord], .idle⟩], [demoRecord]⟩, .start, []⟩ :=
    htaken.next (.emitter rfl hnone (.send rfl))
  have htaken' : Run (Pipeline.Step demoWire fun _ => 1) (.start 2) (demoDeliveries.take 6)
      ⟨⟨[⟨[], .waiting⟩, ⟨[], .holding refusedRecord⟩], [demoRecord]⟩, .start, []⟩ :=
    hsent.next (.emitter rfl hnone (.take rfl))
  exact htaken'.next (.emitter rfl hnone (.send rfl))

/-- The request of Ingress is cut. -/
def demoCut : Pipeline :=
  { demoSent with mail := { demoSent.mail with flying := [demoRecord] }, handlers := [[]] }

/-- The record of Egress has arrived. -/
def demoArrived : Pipeline where
  mail := ⟨[⟨[], .waiting⟩, ⟨[], .waiting⟩], []⟩
  server := (Server.start.addRecord demoCall).1
  handlers := [[], demoCall.normalized.metrics.map .raise]

theorem demoDeliveries_run :
    Run (Pipeline.Step demoWire fun _ => 1) (.start 2) demoDeliveries demoPipeline := by
  have hcut : Run (Pipeline.Step demoWire fun _ => 1) (.start 2) (demoDeliveries.take 8) demoCut :=
    demoSent_run.next (@Pipeline.Step.part _ _ demoSent _ _ [demoRecord] []
      refusedRecord_emits.sends refusedBody_carries refusedBody_part rfl fun _ => (1, 1))
  have harrived : Run (Pipeline.Step demoWire fun _ => 1) (.start 2) (demoDeliveries.take 9)
      demoArrived :=
    hcut.next (@Pipeline.Step.whole _ _ demoCut _ _ [] []
      demoRecord_emits.sends demoBody_carries demoBody_whole rfl fun _ => (1, 2))
  have hhandlers : demoArrived.handlers[1]? = some
      [.raise (.request "cluster/cluster-1" "beta" "cross_cluster" "allow"),
        .raise (.duration "cluster/cluster-1" "beta" "cross_cluster" (3 / 1000))] := by
    change some (demoCall.normalized.metrics.map Work.raise) = _
    rw [demoCall_metrics]
    rfl
  have hraised : Pipeline.Step demoWire (fun _ => 1) demoArrived (.work 1) demoPipeline :=
    Pipeline.Step.work hhandlers
  exact harrived.next hraised

theorem mailOf_demoDeliveries : mailOf demoWire demoDeliveries =
    [.offer 0 demoRecord, .drop 0 demoRecord, .offer 1 refusedRecord, .take 0,
      .send 0 demoRecord, .take 1, .send 1 refusedRecord, .lose refusedRecord,
      .arrive demoRecord] := by
  have hlost : arrival demoWire refusedRecord refusedBody = .lose refusedRecord :=
    if_neg refusedBody_part
  have harrived : arrival demoWire demoRecord demoBody = .arrive demoRecord :=
    if_pos demoBody_whole
  simp only [mailOf, demoDeliveries, List.filterMap_cons, List.filterMap_nil, Delivery.event,
    hlost, harrived]

theorem unraised_demoPipeline : demoPipeline.unraised =
    {.duration "cluster/cluster-1" "beta" "cross_cluster" (3 / 1000)} := rfl

theorem pending_demoPipeline : demoPipeline.mail.pending = 0 := rfl

theorem demoRecord_accounted :
    (∃ (calls : List Call) (raised : List Metric),
      demoPipeline.server = raised.foldl Server.raise (Server.stored calls) ∧
      calls.map Call.record = [received demoRecord] ∧
      (↑raised : Multiset Metric) +
          {.duration "cluster/cluster-1" "beta" "cross_cluster" (3 / 1000)} =
        ↑((records calls).flatMap TelemetryRecord.metrics)) ∧
    (↑[demoRecord, demoRecord, refusedRecord] : Multiset Conduit.TelemetryRecord) =
      ↑[demoRecord] + ↑[demoRecord, refusedRecord] + 0 := by
  have haccounted := telemetry_accounted demoDeliveries_run
  rw [mailOf_demoDeliveries, unraised_demoPipeline, pending_demoPipeline] at haccounted
  exact ⟨haccounted.1, haccounted.2.1⟩

theorem demoRecord_counted :
    demoPipeline.server.requestsWith "allow" = demoPipeline.server.store.summary.counter .allow ∧
      demoPipeline.server.store.summary.counter .allow + 1 = 2 := by
  obtain ⟨hmetrics, hcounted⟩ := outcomes_accounted demoDeliveries_run .allow
  rw [unraised_demoPipeline] at hmetrics
  rw [mailOf_demoDeliveries, pending_demoPipeline, Multiset.countP_zero] at hcounted
  exact ⟨hmetrics, hcounted⟩

end Demo

end Meshlite.Trace
