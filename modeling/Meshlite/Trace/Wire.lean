import Meshlite.Conduit.TelemetryClient
import Meshlite.Kprobe.PerfReader
import Meshlite.Trace.Intake

/-!
# A record on its way to Trace

The text that an emitter posts is the one that Trace decodes: a request that arrives as a
whole adds the emitted record, and a request that is cut anywhere adds nothing.
-/

namespace Meshlite.Trace

open Bytes Json

/-- The texts that numbers have on the way: what `serde_json` prints for an `f64` is a number
that Go reads as the same value. -/
structure Wire where
  go : GoText
  decodeError : Bytes → String
  printF64 : ℚ → String
  /-- the values of an `f64` -/
  finite : ℚ → Prop
  finite_zero : finite 0
  isNumber : ∀ x, finite x → IsNumber (printF64 x)
  parseFloat : ∀ x, finite x → go.parseFloat (printF64 x) = some x

/-- What holds of every record that is emitted: its numbers have the types of the source, and
its time is left to Trace. -/
structure Wire.Sends (W : Wire) (r : Conduit.TelemetryRecord) : Prop where
  latency : W.finite r.latencyMs
  status : ∀ n ∈ r.statusCode, n < 2 ^ 16
  timestamp : r.timestamp = none

/-- The record as Trace decodes it. -/
def received (r : Conduit.TelemetryRecord) : TelemetryRecord where
  sourceService := r.sourceService
  destinationService := r.destinationService
  clusterId := r.clusterId
  leg := r.leg
  verdict := r.verdict
  latencyMs := r.latencyMs
  tlsVerified := r.tlsVerified
  statusCode := r.statusCode.getD 0
  errorReason := r.errorReason.getD ""

section Decode

variable {W : Wire} {r : Conduit.TelemetryRecord}

/-- A member as it is read from the text that an emitter writes. -/
def quotedMember : String × Json → Quoted × Json Quoted :=
  Prod.map (quotedBy Conduit.serdeEscape) (Json.map (quotedBy Conduit.serdeEscape))

theorem parseInt_toString {n : ℕ} (hn : n < 2 ^ 16) : parseInt (toString n) = some (n : ℤ) := by
  have hlist : (toString n).toList = Nat.toDigits 10 n := by
    rw [Nat.toString_eq_repr, Nat.toList_repr]
  have hdigits : ∀ c ∈ Nat.toDigits 10 n, c.isDigit = true := fun c hc =>
    Nat.isDigit_of_mem_toDigits (by decide) (by decide) hc
  have hminus : (Nat.toDigits 10 n).head? ≠ some '-' := fun h =>
    absurd (hdigits '-' (List.mem_of_mem_head? h)) (by decide)
  simp only [parseInt, hlist, if_neg hminus, Nat.ofDigitChars_ten_toDigits]
  rw [if_pos ⟨Nat.toDigits_ne_nil, List.all_eq_true.mpr hdigits, by omega, by omega⟩]

theorem setField_status (q : TelemetryRecord) {n : ℕ} (hn : n < 2 ^ 16) :
    setField W.go q (quotedMember ("status_code", .num (toString n))) =
      some { q with statusCode := n } := by
  have hset : setField W.go q (quotedMember ("status_code", .num (toString n))) =
      (parseInt (toString n)).map fun n => { q with statusCode := n } := rfl
  rw [hset, parseInt_toString hn]
  rfl

theorem setField_latency (q : TelemetryRecord) {x : ℚ} (hx : W.finite x) :
    setField W.go q (quotedMember ("latency_ms", .num (W.printF64 x))) =
      some { q with latencyMs := x } := by
  have hset : setField W.go q (quotedMember ("latency_ms", .num (W.printF64 x))) =
      (W.go.parseFloat (W.printF64 x)).map fun x => { q with latencyMs := x } := rfl
  rw [hset, W.parseFloat x hx]
  rfl

theorem foldlM_required (hlatency : W.finite r.latencyMs) :
    ([("source_service", .str r.sourceService), ("destination_service", .str r.destinationService),
        ("cluster_id", .str r.clusterId), ("leg", .str r.leg), ("verdict", .str r.verdict),
        ("latency_ms", .num (W.printF64 r.latencyMs)),
        ("tls_verified", .bool r.tlsVerified)].map quotedMember).foldlM (setField W.go) {} =
      some { received r with statusCode := 0, errorReason := "" } := by
  have hnames : ([("source_service", .str r.sourceService),
      ("destination_service", .str r.destinationService), ("cluster_id", .str r.clusterId),
      ("leg", .str r.leg), ("verdict", .str r.verdict)].map quotedMember).foldlM
        (setField W.go) {} =
      some { received r with
        latencyMs := 0, tlsVerified := false, statusCode := 0, errorReason := "" } := rfl
  have hverified : ∀ q : TelemetryRecord,
      setField W.go q (quotedMember ("tls_verified", .bool r.tlsVerified)) =
        some { q with tlsVerified := r.tlsVerified } := fun _ => rfl
  change (List.map quotedMember ([_, _, _, _, _] ++ [_, _])).foldlM (setField W.go) {} = _
  rw [List.map_append, List.foldlM_append, hnames, Option.bind_eq_bind, Option.bind_some,
    List.map_cons, List.foldlM_cons, setField_latency _ hlatency, Option.bind_eq_bind,
    Option.bind_some, List.map_cons, List.foldlM_cons, hverified]
  rfl

theorem foldlM_status (q : TelemetryRecord) (hr : W.Sends r) :
    ((Conduit.optionalMember "status_code" (r.statusCode.map fun n => .num (toString n))).map
        quotedMember).foldlM (setField W.go) q =
      some { q with statusCode := (r.statusCode.map Int.ofNat).getD q.statusCode } := by
  cases hcode : r.statusCode with
  | none => rfl
  | some n =>
    rw [Option.map_some, Conduit.optionalMember, Option.map_some, Option.toList_some,
      List.map_cons, List.foldlM_cons, setField_status q (hr.status n hcode)]
    rfl

theorem foldlM_reason (q : TelemetryRecord) (r : Conduit.TelemetryRecord) :
    ((Conduit.optionalMember "error_reason" (r.errorReason.map .str)).map quotedMember).foldlM
        (setField W.go) q =
      some { q with errorReason := r.errorReason.getD q.errorReason } := by
  cases hreason : r.errorReason with
  | none => rfl
  | some s => rfl

theorem recordsOf_json (hr : W.Sends r) :
    recordsOf W.go ((r.json W.printF64).map (quotedBy Conduit.serdeEscape)) =
      some [received r] := by
  have hfields : decodeRecord W.go ((r.json W.printF64).map (quotedBy Conduit.serdeEscape)) =
      some (received r) := by
    rw [Conduit.TelemetryRecord.json, Json.map, mapFields_eq, ← quotedMember, decodeRecord,
      List.map_append, List.foldlM_append, foldlM_required hr.latency, Option.bind_eq_bind,
      Option.bind_some, List.map_append, List.foldlM_append, foldlM_status _ hr,
      Option.bind_eq_bind, Option.bind_some, List.map_append, List.foldlM_append, foldlM_reason,
      Option.bind_eq_bind, Option.bind_some, hr.timestamp]
    cases hcode : r.statusCode <;> simp [Conduit.optionalMember, received, hcode]
  have hother : ∀ items, (r.json W.printF64).map (quotedBy Conduit.serdeEscape) ≠ .arr items := by
    rintro items ⟨⟩
  rw [(recordsOf_of_ne hother).1, hfields]
  rfl

end Decode

/-- What arrives of a request: the text from its beginning on, and an error unless it is all. -/
structure Body.Carries (body : Body) (text : Bytes) : Prop where
  delivered : body.delivered <+: text
  broken : body.broken = none ↔ body.delivered = text

/-- All of the text arrived, and it is no longer than what Trace reads. -/
def Body.Whole (body : Body) (text : Bytes) : Prop :=
  body.delivered = text ∧ text.length ≤ 2 ^ 20

section Post

variable {W : Wire} {r : Conduit.TelemetryRecord} {records : List TelemetryRecord}

/-- A text without its end stands for nothing: its closing brace is missing. -/
theorem not_standsFor_of_cut (hr : W.Sends r) {payload more : Bytes} (hmore : more ≠ [])
    (hcut : payload ++ more = r.body W.printF64) : ¬ StandsFor W.go payload records := by
  rintro ⟨j, hread, hrecords⟩
  have hwhole := Conduit.TelemetryRecord.read_body W.printF64 (W.isNumber _ hr.latency)
  rw [← hcut, read_append_iff hread (delimited_of_recordsOf hrecords)] at hwhole
  obtain ⟨front, hfront⟩ := r.body_eq W.printF64
  obtain ⟨init, last, rfl⟩ := (List.eq_nil_or_concat more).resolve_left hmore
  rw [← hcut, List.concat_eq_append, ← List.append_assoc] at hfront
  obtain rfl := List.singleton_inj.mp (List.append_inj' hfront rfl).2
  simp [isSpace] at hwhole

theorem standsFor_body (hr : W.Sends r) :
    StandsFor W.go (r.body W.printF64) records ↔ records = [received r] := by
  have hread := Conduit.TelemetryRecord.read_body W.printF64 (W.isNumber _ hr.latency)
  rw [StandsFor, hread]
  simp [recordsOf_json hr, eq_comm]

variable {T : Server} {body : Body} {clock : ℕ → Timestamp × Timestamp}

theorem post_whole (hr : W.Sends r) (hbody : body.Carries (r.body W.printF64))
    (hwhole : body.Whole (r.body W.printF64)) :
    T.postTelemetry W.go W.decodeError clock body =
      (T.ingest ⟨received r, (clock 0).1, (clock 0).2⟩, .accepted 1) := by
  obtain ⟨hall, hfits⟩ := hwhole
  have hpayload := readPayload_fits (hbody.broken.mpr hall) (hall ▸ hfits)
  rw [hall] at hpayload
  exact postTelemetry_accepted hpayload ((standsFor_body hr).mpr rfl)

theorem post_part (hr : W.Sends r) (hbody : body.Carries (r.body W.printF64))
    (hpart : ¬ body.Whole (r.body W.printF64)) :
    ∃ text, T.postTelemetry W.go W.decodeError clock body = (T, .badRequest text) := by
  refine postTelemetry_refused fun payload hpayload records => ?_
  obtain ⟨more, hmore⟩ := (prefix_of_readPayload hpayload).trans hbody.delivered
  refine not_standsFor_of_cut hr ?_ hmore
  rintro rfl
  rw [List.append_nil] at hmore
  have hback : body.delivered <+: payload := hmore ▸ hbody.delivered
  have hall := (prefix_of_readPayload hpayload).eq_of_length_le hback.length_le
  exact hpart ⟨hall ▸ hmore, hmore ▸ length_of_readPayload hpayload⟩

end Post

/-- A posted record is added as it was emitted if its text arrives as a whole and fits; what
arrives otherwise is refused and changes nothing. -/
theorem post_adds_once (W : Wire) (r : Conduit.TelemetryRecord) (hr : W.Sends r) (T : Server)
    (body : Body) (hbody : body.Carries (r.body W.printF64))
    (clock : ℕ → Timestamp × Timestamp) :
    (body.Whole (r.body W.printF64) →
      T.postTelemetry W.go W.decodeError clock body =
        (T.ingest ⟨received r, (clock 0).1, (clock 0).2⟩, .accepted 1)) ∧
    (¬ body.Whole (r.body W.printF64) →
      ∃ text, T.postTelemetry W.go W.decodeError clock body = (T, .badRequest text)) :=
  ⟨post_whole hr hbody, post_part hr hbody⟩

/-- Two numbers of milliseconds. -/
def demoWire : Wire where
  go :=
    { parseFloat := fun text =>
        if text = "3.0" then some 3 else if text = "0.0" then some 0 else none
      parseTime := fun _ => none }
  decodeError _ := "unexpected end of JSON input"
  printF64 x := if x = 3 then "3.0" else "0.0"
  finite x := x = 0 ∨ x = 3
  finite_zero := Or.inl rfl
  isNumber := by
    rintro x (rfl | rfl)
    · rfl
    · rfl
  parseFloat := by
    rintro x (rfl | rfl)
    · rfl
    · rfl

def demoRecord : Conduit.TelemetryRecord where
  sourceService := "cluster/cluster-1"
  destinationService := "beta"
  clusterId := "cluster-1"
  leg := "cross_cluster"
  verdict := "allow"
  latencyMs := 3
  tlsVerified := true
  statusCode := some 200
  errorReason := none
  timestamp := none

theorem demoRecord_sends : demoWire.Sends demoRecord where
  latency := Or.inr rfl
  status := by decide
  timestamp := rfl

/-- The request with the record of `demoRecord`, as a whole. -/
def demoBody : Body where
  delivered := demoRecord.body demoWire.printF64
  broken := none

theorem demoBody_carries : demoBody.Carries (demoRecord.body demoWire.printF64) :=
  ⟨List.prefix_rfl, iff_of_true rfl rfl⟩

theorem demoBody_whole : demoBody.Whole (demoRecord.body demoWire.printF64) :=
  ⟨rfl, by decide +kernel⟩

theorem demoBody_added :
    Server.start.postTelemetry demoWire.go demoWire.decodeError (fun _ => (1, 2)) demoBody =
      (Server.start.ingest ⟨received demoRecord, 1, 2⟩, .accepted 1) :=
  (post_adds_once demoWire demoRecord demoRecord_sends .start demoBody demoBody_carries
    fun _ => (1, 2)).1 demoBody_whole

section Request

/-- What the handler has of the body of a request of which so much has arrived: no more than
the length field of the header says, and an error unless it is as much. -/
inductive Body.Arrives : Bytes → Body → Prop
  | length {fields : List Bytes} {rest : Bytes} {n : ℕ} {body : Body}
      (hfields : ∀ l ∈ fields, IsLine l)
      (hcoding : Http.fieldValues "transfer-encoding" fields = [])
      (hne : Http.fieldValues "content-length" fields ≠ [])
      (hlength : ∀ v ∈ Http.fieldValues "content-length" fields, Http.Denotes 10 v n)
      (hdelivered : body.delivered = rest.take n)
      (hbroken : body.broken = none ↔ n ≤ rest.length) : Arrives (block fields ++ rest) body

variable {hostPort text got : Bytes} {body : Body}

/-- Of the request that `post_record` writes, whatever arrives with the header brings the
beginning of the text, and Trace knows whether it is all. -/
theorem carries_of_arrives (hhost : 13 ∉ hostPort ∧ 10 ∉ hostPort) (htext : text ≠ [])
    (hgot : got <+: Conduit.postRequest hostPort text) (harrives : Body.Arrives got body) :
    body.Carries text ∧ (body.delivered = text ↔ got = Conduit.postRequest hostPort text) := by
  obtain ⟨more, hmore⟩ := hgot
  cases harrives with
  | @length fields rest n _ hfields _ hne hlength hdelivered hbroken =>
    rw [Conduit.postRequest, List.append_assoc] at hmore
    obtain ⟨rfl, rfl⟩ := block_append_inj hfields (Conduit.postHead_isLine hhost _) hmore
    have hn : n = (rest ++ more).length := by
      obtain ⟨v, hv⟩ := List.exists_mem_of_ne_nil _ hne
      have hlength' := Conduit.postHead_denotes hostPort (mt List.length_eq_zero_iff.mp htext) v hv
      rw [← (hlength v hv).2.2, hlength'.2.2]
    rw [List.length_append] at hn
    have hrest : body.delivered = rest := by
      rw [hdelivered, List.take_of_length_le (by omega)]
    have hall : body.delivered = rest ++ more ↔ n ≤ rest.length := by
      rw [hrest, List.self_eq_append_right, ← List.length_eq_zero_iff]
      omega
    refine ⟨⟨hrest ▸ List.prefix_append rest more, hbroken.trans hall.symm⟩, ?_⟩
    rw [Conduit.postRequest, List.append_cancel_left_eq, hrest]

/-- Whatever arrives of the request that `post_record` writes, the record is added as it was
emitted if that is all of it and the text fits, and nothing changes otherwise. -/
theorem request_adds_once (W : Wire) (r : Conduit.TelemetryRecord) (hr : W.Sends r) (T : Server)
    (hostPort : Bytes) (hhost : 13 ∉ hostPort ∧ 10 ∉ hostPort) (got : Bytes)
    (hgot : got <+: Conduit.postRequest hostPort (r.body W.printF64)) (body : Body)
    (harrives : Body.Arrives got body) (clock : ℕ → Timestamp × Timestamp) :
    (got = Conduit.postRequest hostPort (r.body W.printF64) ∧
        (r.body W.printF64).length ≤ 2 ^ 20 →
      T.postTelemetry W.go W.decodeError clock body =
        (T.ingest ⟨received r, (clock 0).1, (clock 0).2⟩, .accepted 1)) ∧
    (¬ (got = Conduit.postRequest hostPort (r.body W.printF64) ∧
        (r.body W.printF64).length ≤ 2 ^ 20) →
      ∃ text, T.postTelemetry W.go W.decodeError clock body = (T, .badRequest text)) := by
  have htext : r.body W.printF64 ≠ [] := List.cons_ne_nil _ _
  obtain ⟨hcarries, hall⟩ := carries_of_arrives hhost htext hgot harrives
  rw [← hall]
  exact ⟨post_whole hr hcarries, post_part hr hcarries⟩

theorem demoBody_arrives : Body.Arrives
    (Conduit.postRequest (utf8 "trace:3000") (demoRecord.body demoWire.printF64)) demoBody := by
  have hlength : (demoRecord.body demoWire.printF64).length ≠ 0 := by decide +kernel
  refine .length (Conduit.postHead_isLine (by decide) _) (Conduit.postHead_coding _ _) ?_
    (Conduit.postHead_denotes _ hlength) ?_ (iff_of_true rfl le_rfl)
  · rw [Conduit.postHead_length]
    exact List.cons_ne_nil _ _
  · rw [List.take_length]
    rfl

theorem demoRequest_added :
    Server.start.postTelemetry demoWire.go demoWire.decodeError (fun _ => (1, 2)) demoBody =
      (Server.start.ingest ⟨received demoRecord, 1, 2⟩, .accepted 1) :=
  (request_adds_once demoWire demoRecord demoRecord_sends .start (utf8 "trace:3000") (by decide) _
    List.prefix_rfl demoBody demoBody_arrives fun _ => (1, 2)).1 ⟨rfl, by decide +kernel⟩

end Request

end Meshlite.Trace
