import Meshlite.Conduit.Egress
import Meshlite.Conduit.Endpoints
import Mathlib.Data.Rat.Init
import Mathlib.Data.List.Infix

/-!
# The telemetry of a connection

Each gateway emits its records while it handles a connection: Egress on some of its ways
out, Ingress once its handler has failed. Neither knows what the other has emitted.
-/

namespace Meshlite.Conduit

open Bytes Tls

/-- `telemetry::TelemetryRecord`, with the latency as a rational. -/
structure TelemetryRecord where
  sourceService : String
  destinationService : String
  clusterId : String
  leg : String
  verdict : String
  latencyMs : ℚ
  tlsVerified : Bool
  statusCode : Option ℕ
  errorReason : Option String
  timestamp : Option String
  deriving DecidableEq

/-- `split_whitespace`. -/
def splitWhitespace (text : List Char) : List (List Char) :=
  (text.splitOnP isWhitespace).filter (· ≠ [])

/-- `parse::<u16>`: a sign is allowed, an empty number is not. -/
def parseU16 (text : List Char) : Option ℕ :=
  let digits := if text.head? = some '+' then text.tail else text
  let value := digits.foldl (fun n c => 10 * n + (c.toNat - '0'.toNat)) 0
  if digits ≠ [] ∧ digits.all Char.isDigit ∧ value < 2 ^ 16 then some value else none

def extractStatusCode (raw : Bytes) : Option ℕ := do
  let text ← fromUtf8 raw
  let statusLine ← (lines text).head?
  let code ← (splitWhitespace statusLine)[1]?
  parseU16 code

example : extractStatusCode (utf8 "HTTP/1.1 200 OK\r\n\r\n") = some 200 := by decide +kernel

/-- How each operation of `egress::handle_connection` ends, should it be reached. -/
structure EgressIo where
  read : Except String Bytes
  writeBadRequest : Except String Unit
  writeForbidden : Except String Unit
  firstCert : Option StoredCert
  clientConfig : StoredCert → Except String Unit
  connect : Except String Unit
  handshake : Except String Unit
  forward : Except String Unit
  /-- the first response bytes; empty when Ingress closed -/
  response : Except String Bytes
  relay : Except String Unit
  copyBidirectional : Except String Unit
  elapsedMs : ℚ

/-- The TLS config that Egress builds for each connection. -/
def EgressIo.tlsCfg (io : EgressIo) : Except String Unit :=
  match io.firstCert with
  | none => .error "no cert in store"
  | some entry => io.clientConfig entry

/-- How each operation of `ingress::handle_connection` ends, should it be reached. -/
structure IngressIo where
  handshake : Except String Unit
  read : Except String Bytes
  writeBadRequest : Except String Unit
  connectBackend : String → Except String Unit
  forward : Except String Unit
  copyBidirectional : Except String Unit

/-- What the task of a connection leaves behind at Egress; `dialed` once the peer has its
TCP connection. -/
structure EgressRun where
  emitted : List TelemetryRecord
  dialed : Bool
  result : Except String Unit

/-- The fields that all records of Egress share. -/
def EgressIo.record (io : EgressIo) (clusterId destination verdict : String)
    (tlsVerified : Bool) (statusCode : Option ℕ) (errorReason : Option String) :
    TelemetryRecord where
  sourceService := "cluster/" ++ clusterId
  destinationService := destination
  clusterId := clusterId
  leg := "cross_cluster"
  verdict := verdict
  latencyMs := io.elapsedMs
  tlsVerified := tlsVerified
  statusCode := statusCode
  errorReason := errorReason
  timestamp := none

/-- `egress::handle_connection` from the handshake on. -/
def EgressIo.tunnel (io : EgressIo) (clusterId destination : String) : EgressRun :=
  let record := io.record clusterId destination
  match io.handshake with
  | .error e => ⟨[record "tls_reject" false none (some s!"mtls_handshake_failed: {e}")], true,
      .error e⟩
  | .ok () => match io.forward with
    | .error e => ⟨[], true, .error e⟩
    | .ok () => match io.response with
      | .error e => ⟨[record "error" true none (some s!"read_response_failed: {e}")], true,
          .error e⟩
      | .ok [] => ⟨[record "error" true none (some "upstream_closed_before_response")], true,
          .error "upstream closed before sending a response"⟩
      | .ok (b :: bs) => match io.relay with
        | .error e => ⟨[], true, .error e⟩
        | .ok () => ⟨[record "allow" true (extractStatusCode (b :: bs)) none], true,
            io.copyBidirectional⟩

/-- `egress::handle_connection`. -/
def EgressIo.handleConnection (io : EgressIo) (clusterId : String) (policy : PolicyCache) :
    EgressRun :=
  match io.read with
  | .error e => ⟨[], false, .error e⟩
  | .ok [] => ⟨[], false, .ok ()⟩
  | .ok (b :: bs) => match extractHost (b :: bs) with
    | none => ⟨[], false, io.writeBadRequest⟩
    | some destination =>
      let record := io.record clusterId destination
      if policy.isAllowedDestination destination then
        match io.tlsCfg with
        | .error e => ⟨[], false, .error e⟩
        | .ok () => match io.connect with
          | .error e => ⟨[record "error" false none (some s!"connect_failed: {e}")], false,
              .error e⟩
          | .ok () => io.tunnel clusterId destination
      else
        ⟨[record "deny" false (some 403) (some "policy_denied")], false, io.writeForbidden⟩

/-- The address of the backend: a host with a dot is taken as fully qualified. -/
def backendAddr (svcDomainSuffix : String) (svcPort : ℕ) (host : String) : String :=
  if '.' ∈ host.toList then s!"{host}:{svcPort}" else s!"{host}{svcDomainSuffix}:{svcPort}"

/-- `ingress::handle_connection`. -/
def IngressIo.handleConnection (io : IngressIo) (svcDomainSuffix : String) (svcPort : ℕ) :
    Except String Unit := do
  io.handshake
  let headerBytes ← io.read
  if headerBytes = [] then return ()
  match extractHost headerBytes with
  | none => io.writeBadRequest
  | some host =>
    let addr := backendAddr svcDomainSuffix svcPort host
    (io.connectBackend addr).mapError fun e => s!"connect to backend {addr}: {e}"
    io.forward
    io.copyBidirectional

/-- The verdict that `ingress::run` reads off the text of an error. -/
def verdictOfError (msg : String) : String :=
  if "certificate".toList <:+: msg.toList ∨ "alert".toList <:+: msg.toList then "tls_reject"
  else "error"

/-- The task of a connection in `ingress::run`. -/
def IngressIo.serve (io : IngressIo) (clusterId svcDomainSuffix : String) (svcPort : ℕ) :
    List TelemetryRecord :=
  match io.handleConnection svcDomainSuffix svcPort with
  | .ok () => []
  | .error msg =>
    [{ sourceService := "remote/" ++ clusterId
       destinationService := "unknown"
       clusterId := clusterId
       leg := "cross_cluster"
       verdict := verdictOfError msg
       latencyMs := 0
       tlsVerified := false
       statusCode := none
       errorReason := some msg
       timestamp := none }]

/-- The two gateways that a connection passes, with the policy that Egress checks it by. -/
structure Gateways where
  egressCluster : String
  policy : PolicyCache
  ingressCluster : String
  svcDomainSuffix : String
  svcPort : ℕ

/-- The records of one connection. Ingress has a task for it only when Egress dialed, and
`peer` is `none` where it had not taken the connection up even then. -/
def Gateways.emitted (g : Gateways) (io : EgressIo) (peer : Option IngressIo) :
    List TelemetryRecord :=
  let run := io.handleConnection g.egressCluster g.policy
  run.emitted ++
    if run.dialed then
      (peer.map (·.serve g.ingressCluster g.svcDomainSuffix g.svcPort)).getD []
    else []

/-- A record names the leg, leaves its time to Trace, and says why unless all went well. -/
def TelemetryRecord.WellFormed (r : TelemetryRecord) : Prop :=
  r.leg = "cross_cluster" ∧ r.timestamp = none ∧
    (r.verdict = "allow" ∧ r.errorReason = none ∨
      r.verdict ∈ ["deny", "tls_reject", "error"] ∧ r.errorReason.isSome)

section Records

theorem EgressIo.tunnel_wellFormed (io : EgressIo) (clusterId destination : String) :
    ∀ r ∈ (io.tunnel clusterId destination).emitted, r.WellFormed := by
  unfold EgressIo.tunnel
  repeat' split
  all_goals simp [TelemetryRecord.WellFormed, EgressIo.record]

theorem EgressIo.handleConnection_wellFormed (io : EgressIo) (clusterId : String)
    (policy : PolicyCache) :
    ∀ r ∈ (io.handleConnection clusterId policy).emitted, r.WellFormed := by
  unfold EgressIo.handleConnection
  repeat' split
  all_goals try exact io.tunnel_wellFormed _ _
  all_goals simp [TelemetryRecord.WellFormed, EgressIo.record]

theorem verdictOfError_mem (msg : String) :
    verdictOfError msg ∈ ["deny", "tls_reject", "error"] := by
  unfold verdictOfError
  split_ifs <;> simp

theorem IngressIo.serve_wellFormed (io : IngressIo) (clusterId svcDomainSuffix : String)
    (svcPort : ℕ) : ∀ r ∈ io.serve clusterId svcDomainSuffix svcPort, r.WellFormed := by
  unfold IngressIo.serve
  split
  · simp
  · simpa [TelemetryRecord.WellFormed] using verdictOfError_mem _

theorem Gateways.emitted_wellFormed (g : Gateways) (io : EgressIo) (peer : Option IngressIo) :
    ∀ r ∈ g.emitted io peer, r.WellFormed := by
  intro r hr
  rcases List.mem_append.mp hr with hegress | hingress
  · exact io.handleConnection_wellFormed _ _ r hegress
  · split_ifs at hingress
    · cases peer with
      | none => simp at hingress
      | some p => exact p.serve_wellFormed _ _ _ r (by simpa using hingress)
    · simp at hingress

end Records

section Counting

/-- Egress ends a tunnel with a record: of the handshake, of the response, or of a success
once the client has the first response bytes. -/
def EgressIo.Reports (io : EgressIo) : Prop :=
  io.handshake ≠ .ok () ∨ (io.forward = .ok () ∧
    ∀ bytes, io.response = .ok bytes → bytes ≠ [] → io.relay = .ok ())

/-- The handshake, the read, the 400 or, for a request with a host, a step towards the
backend fails; an empty read is no failure. -/
def IngressIo.Fails (io : IngressIo) (svcDomainSuffix : String) (svcPort : ℕ) : Prop :=
  io.handshake ≠ .ok () ∨ ∀ header, io.read = .ok header → header ≠ [] ∧
    match extractHost header with
    | none => io.writeBadRequest ≠ .ok ()
    | some host => io.connectBackend (backendAddr svcDomainSuffix svcPort host) ≠ .ok () ∨
        io.forward ≠ .ok () ∨ io.copyBidirectional ≠ .ok ()

/-- Egress denies the destination, or has a usable certificate and then either cannot dial
or shares the tunnel with an Ingress of which exactly one has something to report. -/
def Gateways.CountsOnce (g : Gateways) (destination : String) (io : EgressIo)
    (peer : Option IngressIo) : Prop :=
  g.policy.isAllowedDestination destination = false ∨
    (io.tlsCfg = .ok () ∧ (io.connect ≠ .ok () ∨
      (io.Reports ↔ ¬ ∃ p ∈ peer, p.Fails g.svcDomainSuffix g.svcPort)))

variable {io : EgressIo} {peer : IngressIo}

theorem EgressIo.tunnel_dialed (io : EgressIo) (clusterId destination : String) :
    (io.tunnel clusterId destination).dialed = true := by
  unfold EgressIo.tunnel
  repeat' split
  all_goals rfl

theorem EgressIo.tunnel_emitted (io : EgressIo) (clusterId destination : String) :
    (io.tunnel clusterId destination).emitted.length = 1 ∧ io.Reports ∨
      (io.tunnel clusterId destination).emitted = [] ∧ ¬ io.Reports := by
  unfold EgressIo.tunnel EgressIo.Reports
  cases hhandshake : io.handshake with
  | error e => simp
  | ok =>
    cases hforward : io.forward with
    | error e => simp
    | ok =>
      cases hresponse : io.response with
      | error e => simp
      | ok bytes =>
        cases bytes with
        | nil => simp
        | cons b bs => cases hrelay : io.relay <;> simp

/-- The handler of Ingress returns an error just when one of its operations fails. -/
theorem IngressIo.handleConnection_ok_iff (io : IngressIo) (svcDomainSuffix : String)
    (svcPort : ℕ) :
    io.handleConnection svcDomainSuffix svcPort = .ok () ↔
      ¬ io.Fails svcDomainSuffix svcPort := by
  unfold IngressIo.handleConnection IngressIo.Fails
  cases hhandshake : io.handshake with
  | error e => simp [bind, Except.bind]
  | ok =>
    cases hread : io.read with
    | error e => simp [bind, Except.bind]
    | ok header =>
      by_cases hnil : header = []
      · simp [bind, Except.bind, hnil]
        rfl
      · cases hhost : extractHost header with
        | none => simp [bind, Except.bind, hnil, hhost]
        | some host =>
          cases hconnect : io.connectBackend (backendAddr svcDomainSuffix svcPort host) <;>
            cases hforward : io.forward <;>
              simp [bind, Except.bind, Except.mapError, hnil, hhost, hconnect]

theorem IngressIo.serve_emitted (io : IngressIo) (clusterId svcDomainSuffix : String)
    (svcPort : ℕ) :
    (io.serve clusterId svcDomainSuffix svcPort).length = 1 ∧ io.Fails svcDomainSuffix svcPort ∨
      io.serve clusterId svcDomainSuffix svcPort = [] ∧ ¬ io.Fails svcDomainSuffix svcPort := by
  have hiff := io.handleConnection_ok_iff svcDomainSuffix svcPort
  unfold IngressIo.serve
  cases hrun : io.handleConnection svcDomainSuffix svcPort with
  | ok => exact Or.inr ⟨rfl, hiff.mp hrun⟩
  | error msg =>
    refine Or.inl ⟨rfl, ?_⟩
    by_contra hfails
    exact absurd (hrun.symm.trans (hiff.mpr hfails)) nofun

/-- The tunnel and the peer together leave one record when one of them has something to
report and the other has not. -/
theorem Gateways.tunnelled_once (g : Gateways) (io : EgressIo) (destination : String)
    (peer : Option IngressIo) :
    ((io.tunnel g.egressCluster destination).emitted ++
      (peer.map (·.serve g.ingressCluster g.svcDomainSuffix g.svcPort)).getD []).length = 1 ↔
        (io.Reports ↔ ¬ ∃ p ∈ peer, p.Fails g.svcDomainSuffix g.svcPort) := by
  have hegress := io.tunnel_emitted g.egressCluster destination
  rw [List.length_append]
  cases peer with
  | none => rcases hegress with ⟨hone, hreports⟩ | ⟨hnone, hsilent⟩ <;> simp [*]
  | some p =>
    have hingress := p.serve_emitted g.ingressCluster g.svcDomainSuffix g.svcPort
    rcases hegress with ⟨hone, hreports⟩ | ⟨hnone, hsilent⟩ <;>
      rcases hingress with ⟨hone', hfails⟩ | ⟨hnone', hserves⟩ <;> simp [*]

end Counting

/-- A connection whose first read shows a host leaves exactly one record just when it is
denied, or has a usable certificate and then either cannot be dialed or is reported by
exactly one of the two gateways. -/
theorem one_record_iff (g : Gateways) (io : EgressIo) (peer : Option IngressIo) (header : Bytes)
    (destination : String) (hread : io.read = .ok header)
    (hhost : extractHost header = some destination) :
    (g.emitted io peer).length = 1 ↔ g.CountsOnce destination io peer := by
  unfold Gateways.emitted Gateways.CountsOnce EgressIo.handleConnection
  cases header with
  | nil =>
    have hnone : extractHost [] = none := by decide
    rw [hnone] at hhost
    exact absurd hhost nofun
  | cons b bs =>
    simp only [hread, hhost]
    by_cases hallowed : g.policy.isAllowedDestination destination = true
    · cases hconfig : io.tlsCfg with
      | error e => simp [hallowed]
      | ok =>
        cases hconnect : io.connect with
        | error e => simp [hallowed]
        | ok =>
          simp only [hallowed, if_true, EgressIo.tunnel_dialed, g.tunnelled_once]
          simp
    · simp [hallowed]

/-- What Conduit stored when it enrolled. -/
def demoEntry : StoredCert where
  leafCertPem :=
    { serialNumber := 1
      commonName := "conduit-cluster-1"
      uri := "spiffe://meshlite.local/cluster/cluster-1/ns/meshlite-system/svc/conduit-cluster-1"
      dnsNames := ["cluster-1", "conduit-cluster-1", "localhost"]
      notBefore := 0
      notAfter := 24 * 3600 * second
      publicKey := 1 }
  rootCaPem := 0
  privateKeyPem := 1

/-- A request to `beta` that Egress and Ingress tunnel and the backend answers. -/
def answeredIo : EgressIo where
  read := .ok requestBeta
  writeBadRequest := .ok ()
  writeForbidden := .ok ()
  firstCert := some demoEntry
  clientConfig _ := .ok ()
  connect := .ok ()
  handshake := .ok ()
  forward := .ok ()
  response := .ok (utf8 "HTTP/1.1 200 OK\r\n\r\n")
  relay := .ok ()
  copyBidirectional := .ok ()
  elapsedMs := 3

def answeringIo : IngressIo where
  handshake := .ok ()
  read := .ok requestBeta
  writeBadRequest := .ok ()
  connectBackend _ := .ok ()
  forward := .ok ()
  copyBidirectional := .ok ()

/-- The backend refuses Ingress, which drops the connection to Egress. -/
def refusedIo : EgressIo :=
  { answeredIo with
    response := .error "peer closed connection without sending TLS close_notify" }

def refusingIo : IngressIo :=
  { answeringIo with connectBackend := fun _ => .error "Connection refused (os error 111)" }

def demoGateways : Gateways where
  egressCluster := "cluster-1"
  policy := .new
  ingressCluster := "cluster-2"
  svcDomainSuffix := ".meshlite-test.svc.cluster.local"
  svcPort := 8080

theorem host_requestBeta : extractHost requestBeta = some "beta" := by decide

theorem answered_counted : (demoGateways.emitted answeredIo (some answeringIo)).length = 1 := by
  refine (one_record_iff demoGateways answeredIo (some answeringIo) requestBeta "beta" rfl
    host_requestBeta).mpr (Or.inr ⟨rfl, Or.inr ?_⟩)
  have hne : requestBeta ≠ [] := by decide
  simp [EgressIo.Reports, IngressIo.Fails, answeredIo, answeringIo, host_requestBeta, hne]

/-- A refused backend is reported by both gateways. -/
theorem refused_counted_twice :
    extractHost requestBeta = some "beta" ∧ refusedIo.read = .ok requestBeta ∧
      (demoGateways.emitted refusedIo (some refusingIo)).length = 2 := by
  refine ⟨host_requestBeta, rfl, ?_⟩
  decide +kernel

end Meshlite.Conduit
