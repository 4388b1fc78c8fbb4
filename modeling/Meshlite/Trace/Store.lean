import Meshlite.Conduit.HttpClient
import Meshlite.Library.Grouping
import Mathlib.Data.List.Sort
import Mathlib.Data.Rat.Floor
import Mathlib.Data.String.Basic

/-!
# The telemetry store

Records are normalized and counted: in the summary, in the edge between their services,
and in a log of the latest ones. Latencies are exact fractions, times count from Go's
zero time.
-/

namespace Meshlite.Trace

open Grouping

/-- `time.Time` in nanoseconds from its zero value. -/
abbrev Timestamp := ℤ

structure TelemetryRecord where
  sourceService : String := ""
  destinationService : String := ""
  clusterId : String := ""
  leg : String := ""
  verdict : String := ""
  latencyMs : ℚ := 0
  tlsVerified : Bool := false
  statusCode : ℤ := 0
  errorReason : String := ""
  timestamp : Timestamp := 0
  protocol : String := ""
  requestId : String := ""
  sourceIp : String := ""
  destIp : String := ""
  bytesIn : Int64 := 0
  bytesOut : Int64 := 0
  deriving DecidableEq

structure Summary where
  totalRequests : ℕ := 0
  allowed : ℕ := 0
  denied : ℕ := 0
  tlsFailures : ℕ := 0
  errors : ℕ := 0
  activeEdges : ℕ := 0
  activeServices : ℕ := 0
  generatedAt : Timestamp := 0
  deriving DecidableEq, Repr

structure Node where
  id : String
  label : String
  clusterId : String
  deriving DecidableEq, Repr

structure Edge where
  source : String
  target : String
  clusterId : String
  leg : String
  requests : ℕ
  allowCount : ℕ
  denyCount : ℕ
  tlsRejects : ℕ
  errorCount : ℕ
  p50Ms : ℚ
  p95Ms : ℚ
  p99Ms : ℚ
  lastLatencyMs : ℚ
  lastSeen : Timestamp
  deriving DecidableEq, Repr

structure Topology where
  nodes : List Node
  edges : List Edge
  generatedAt : Timestamp
  deriving DecidableEq, Repr

/-- An entry of the event log. -/
structure Event where
  sourceService : String
  destinationService : String
  clusterId : String
  leg : String
  verdict : String
  errorReason : String
  statusCode : ℤ
  latencyMs : ℚ
  timestamp : Timestamp
  protocol : String
  requestId : String
  bytesIn : Int64
  bytesOut : Int64
  deriving DecidableEq

structure EventQuery where
  service : String := ""
  verdict : String := ""
  limit : ℤ := 0
  deriving DecidableEq, Repr

structure NodeState where
  id : String
  clusterId : String
  deriving DecidableEq, Repr

structure EdgeState where
  source : String
  target : String
  clusterId : String
  leg : String
  requests : ℕ
  allowCount : ℕ
  denyCount : ℕ
  tlsRejects : ℕ
  errorCount : ℕ
  lastLatencyMs : ℚ
  lastSeen : Timestamp
  latencies : List ℚ
  bytesIn : Int64
  bytesOut : Int64
  deriving DecidableEq

structure Store where
  nodes : AList fun _ : String => NodeState
  edges : AList fun _ : String => EdgeState
  events : List Event
  maxEvents : ℕ
  summary : Summary

def Store.new (maxEvents : ℤ) : Store where
  nodes := ∅
  edges := ∅
  events := []
  maxEvents := if maxEvents ≤ 0 then 500 else maxEvents.toNat
  summary := {}

section Normalize

/-- `strings.TrimSpace`; Go's and Rust's white space is the same Unicode property. -/
def trimSpace (s : String) : String := String.ofList (Conduit.trim s.toList)

/-- The lower-case ASCII letter a character folds to, if any. -/
def foldAscii (c : Char) : Char :=
  if c = '\u212A' then 'k' else if c = '\u017F' then 's' else c.toLower

/-- `strings.EqualFold` against an ASCII text. -/
def equalFold (s ascii : String) : Bool := s.toList.map foldAscii = ascii.toList.map foldAscii

/-- `net.SplitHostPort`: the port stands behind the last colon, and a host in brackets may
have colons of its own. -/
def splitHostPort (hostport : List Char) : Option (List Char × List Char) :=
  match hostport.reverse.span (· ≠ ':') with
  | (_, []) => none
  | (port, _ :: before) =>
    match before.reverse with
    | '[' :: bracketed =>
      -- the bracket that closes the host is the first one, right before the colon
      match bracketed.reverse with
      | ']' :: host =>
        if ']' ∈ host ∨ '[' ∈ host ∨ '[' ∈ port ∨ ']' ∈ port then none
        else some (host.reverse, port.reverse)
      | _ => none
    | host =>
      if ':' ∈ host ∨ '[' ∈ hostport ∨ ']' ∈ hostport then none
      else some (host, port.reverse)

def normalizeServiceName (name ip : String) : String :=
  let trimmed := trimSpace name
  if trimmed = "" ∨ equalFold trimmed "unknown" then
    if ip ≠ "" then
      match splitHostPort ip.toList with
      | some (host, _) => String.ofList host
      | none => ip
    else "unknown"
  else trimmed

/-- The record with its defaults filled in at the given time. -/
def normalizeRecord (now : Timestamp) (r : TelemetryRecord) : TelemetryRecord :=
  { r with
    sourceService := normalizeServiceName r.sourceService r.sourceIp
    destinationService := normalizeServiceName r.destinationService r.destIp
    leg := if trimSpace r.leg = "" then "intra_cluster" else r.leg
    verdict := if trimSpace r.verdict = "" then "allow" else r.verdict
    timestamp := if r.timestamp = 0 then now else r.timestamp }

end Normalize

/-- What a verdict counts as. -/
inductive Outcome where
  | allow
  | deny
  | tlsReject
  | error
  deriving DecidableEq, Repr

/-- The verdict that names the outcome. -/
def Outcome.label : Outcome → String
  | allow => "allow"
  | deny => "deny"
  | tlsReject => "tls_reject"
  | error => "error"

/-- The switch over the verdict: what is not one of three is allowed. -/
def outcome (verdict : String) : Outcome :=
  if verdict = "deny" then .deny
  else if verdict = "tls_reject" then .tlsReject
  else if verdict = "error" then .error
  else .allow

def TelemetryRecord.outcome (r : TelemetryRecord) : Outcome := Trace.outcome r.verdict

section AddRecord

def Summary.count (s : Summary) : Outcome → Summary
  | .deny => { s with denied := s.denied + 1 }
  | .tlsReject => { s with tlsFailures := s.tlsFailures + 1 }
  | .error => { s with errors := s.errors + 1 }
  | .allow => { s with allowed := s.allowed + 1 }

/-- The edge is started by its first record. -/
def EdgeState.new (r : TelemetryRecord) : EdgeState where
  source := r.sourceService
  target := r.destinationService
  clusterId := r.clusterId
  leg := r.leg
  requests := 0
  allowCount := 0
  denyCount := 0
  tlsRejects := 0
  errorCount := 0
  lastLatencyMs := 0
  lastSeen := 0
  latencies := []
  bytesIn := 0
  bytesOut := 0

def EdgeState.count (e : EdgeState) : Outcome → EdgeState
  | .deny => { e with denyCount := e.denyCount + 1 }
  | .tlsReject => { e with tlsRejects := e.tlsRejects + 1 }
  | .error => { e with errorCount := e.errorCount + 1 }
  | .allow => { e with allowCount := e.allowCount + 1 }

/-- The size of the window of latencies. -/
def latencyWindow : ℕ := 512

/-- A positive latency enters the window. -/
def EdgeState.sample (e : EdgeState) (latencyMs : ℚ) : EdgeState :=
  if 0 < latencyMs then
    let latencies := e.latencies ++ [latencyMs]
    { e with
      lastLatencyMs := latencyMs
      latencies := latencies.drop (latencies.length - latencyWindow) }
  else e

def EdgeState.add (e : EdgeState) (r : TelemetryRecord) : EdgeState :=
  let e := ({ e with requests := e.requests + 1, lastSeen := r.timestamp }).sample r.latencyMs
  ({ e with bytesIn := e.bytesIn + r.bytesIn, bytesOut := e.bytesOut + r.bytesOut }).count r.outcome

/-- The key of the edge map. -/
def edgeKey (r : TelemetryRecord) : String :=
  r.sourceService ++ "|" ++ r.destinationService ++ "|" ++ r.leg

def edgeScheme : Scheme String TelemetryRecord EdgeState where
  key := edgeKey
  start := .new
  add := .add

/-- The entry of the event log for a record. -/
def TelemetryRecord.event (r : TelemetryRecord) : Event where
  sourceService := r.sourceService
  destinationService := r.destinationService
  clusterId := r.clusterId
  leg := r.leg
  verdict := r.verdict
  errorReason := r.errorReason
  statusCode := r.statusCode
  latencyMs := r.latencyMs
  timestamp := r.timestamp
  protocol := r.protocol
  requestId := r.requestId
  bytesIn := r.bytesIn
  bytesOut := r.bytesOut

namespace Store

/-- `appendEventLocked`: the latest event comes first, the oldest are cut off. -/
def appendEvent (s : Store) (r : TelemetryRecord) : Store :=
  { s with events := (r.event :: s.events).take s.maxEvents }

/-- The nodes with those of the record. -/
def addNodes (nodes : AList fun _ : String => NodeState) (r : TelemetryRecord) :
    AList fun _ : String => NodeState :=
  (nodes.insert r.sourceService ⟨r.sourceService, r.clusterId⟩).insert r.destinationService
    ⟨r.destinationService, r.clusterId⟩

/-- `AddRecord` once the record is normalized, at the time it is counted. -/
def addNormalized (s : Store) (now : Timestamp) (r : TelemetryRecord) : Store :=
  let nodes := addNodes s.nodes r
  let edges := edgeScheme.put s.edges r
  let summary := { s.summary with totalRequests := s.summary.totalRequests + 1, generatedAt := now }
  let summary :=
    { summary.count r.outcome with
      activeEdges := edges.keys.length, activeServices := nodes.keys.length }
  appendEvent { s with nodes, edges, summary } r

end Store

/-- A call of `AddRecord`, with what the clock shows when it normalizes the record and when it
counts it. -/
structure Call where
  record : TelemetryRecord
  normalizedAt : Timestamp := 0
  countedAt : Timestamp := 0

def Call.normalized (c : Call) : TelemetryRecord := normalizeRecord c.normalizedAt c.record

/-- `AddRecord`, which also returns the normalized record. -/
def Store.addRecord (s : Store) (c : Call) : TelemetryRecord × Store :=
  (c.normalized, s.addNormalized c.countedAt c.normalized)

/-- A store after a sequence of calls. -/
def Store.addAll (maxEvents : ℤ) (calls : List Call) : Store :=
  calls.foldl (fun s c => (s.addRecord c).2) (.new maxEvents)

end AddRecord

section Views

def percentile (values : List ℚ) (pct : ℚ) : ℚ :=
  let cp := values.insertionSort (· ≤ ·)
  let idx := ⌊((cp.length : ℚ) - 1) * pct⌋
  cp.getD (min idx.toNat (cp.length - 1)) 0

def NodeState.node (n : NodeState) : Node where
  id := n.id
  label := n.id
  clusterId := n.clusterId

def EdgeState.edge (e : EdgeState) : Edge where
  source := e.source
  target := e.target
  clusterId := e.clusterId
  leg := e.leg
  requests := e.requests
  allowCount := e.allowCount
  denyCount := e.denyCount
  tlsRejects := e.tlsRejects
  errorCount := e.errorCount
  p50Ms := percentile e.latencies (50 / 100)
  p95Ms := percentile e.latencies (95 / 100)
  p99Ms := percentile e.latencies (99 / 100)
  lastLatencyMs := e.lastLatencyMs
  lastSeen := e.lastSeen

/-- The comparison `Topology` sorts edges by; the legs do not count. -/
def Edge.less (a b : Edge) : Bool :=
  if a.source = b.source then a.target < b.target else a.source < b.source

namespace Store

/-- What `Topology` can answer: the nodes and edges in any order the maps are iterated in,
sorted by a sort that may reorder what compares equal. -/
structure Shows (s : Store) (now : Timestamp) (t : Topology) : Prop where
  nodes : t.nodes.Perm (s.nodes.entries.map fun n => n.2.node)
  nodes_sorted : t.nodes.Pairwise fun a b => ¬ b.id < a.id
  edges : t.edges.Perm (s.edges.entries.map fun e => e.2.edge)
  edges_sorted : t.edges.Pairwise fun a b => b.less a = false
  generatedAt : t.generatedAt = now

/-- One answer of `Topology`, in the order the maps are stored in. -/
def topology (s : Store) (now : Timestamp) : Topology where
  nodes := (s.nodes.entries.map fun n => n.2.node).insertionSort fun a b => a.id ≤ b.id
  edges := (s.edges.entries.map fun e => e.2.edge).insertionSort fun a b => b.less a = false
  generatedAt := now

/-- The event passes the filters of the query. -/
def matchesQuery (q : EventQuery) (event : Event) : Bool :=
  (q.service = "" || event.sourceService = q.service || event.destinationService = q.service) &&
    (q.verdict = "" || q.verdict = "all" || event.verdict = q.verdict)

def eventLimit (q : EventQuery) : ℕ :=
  if q.limit ≤ 0 then 200 else min q.limit.toNat 1000

/-- `Events`: the latest events that match, up to the limit. -/
def eventsFor (s : Store) (q : EventQuery) : List Event :=
  (s.events.filter (matchesQuery q)).take (eventLimit q)

end Store

end Views

end Meshlite.Trace
