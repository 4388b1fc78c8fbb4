import Meshlite.Policy.Engine
import Meshlite.Policy.Meshctl
import Meshlite.Kprobe.Packet
import Meshlite.Policy.Agreement
import Meshlite.Kprobe.VerdictSync
import Meshlite.Kprobe.Enforcement
import Meshlite.Kprobe.SyncWindow
import Meshlite.Kprobe.Capacity
import Meshlite.Kprobe.Prediction
import Meshlite.Library.Bytes
import Meshlite.Library.JsonText
import Meshlite.Conduit.HttpClient
import Meshlite.Sigil.RestApi
import Meshlite.Conduit.ClusterClient
import Meshlite.Conduit.PolicyFetch
import Meshlite.Conduit.Egress
import Meshlite.Library.Tasks
import Meshlite.Sigil.CertTable
import Meshlite.Sigil.Server
import Meshlite.Sigil.Handlers
import Meshlite.Sigil.System
import Meshlite.Sigil.Delivery
import Meshlite.Sigil.Schedule
import Meshlite.Sigil.Footprint
import Meshlite.Sigil.Convergence
import Meshlite.Sigil.Freshness
import Meshlite.Kprobe.PodWatcher
import Meshlite.Kprobe.Agent
import Meshlite.Kprobe.Relist
import Meshlite.Kprobe.HeaderLength
import Meshlite.Conduit.HostHeader
import Meshlite.Conduit.Tunnel
import Meshlite.Sigil.Registry
import Meshlite.Sigil.Provenance
import Meshlite.Sigil.Snapshots
import Meshlite.Conduit.Endpoints
import Meshlite.Sigil.Streams
import Meshlite.Sigil.Authority
import Meshlite.Sigil.Origins
import Meshlite.Sigil.ServerName
import Meshlite.Library.Grouping
import Meshlite.Trace.Store
import Meshlite.Trace.Counts
import Meshlite.Trace.Telemetry
import Meshlite.Conduit.Emission
import Meshlite.Kprobe.Replies
import Meshlite.Kprobe.SigilClient
import Meshlite.Policy.Destinations
import Meshlite.Policy.Rearrangement
import Meshlite.Kprobe.Classifier
import Meshlite.Sigil.Lifetimes
import Meshlite.Sigil.RootCa
import Meshlite.Sigil.Reload
import Meshlite.Kprobe.Enumeration
import Meshlite.Library.HttpMessage
import Meshlite.Conduit.Responses
import Meshlite.Trace.Arrival
import Meshlite.Library.Sorting
import Meshlite.Trace.Performance
import Meshlite.Trace.Percentile
import Meshlite.Trace.Polling
import Meshlite.Trace.Traffic
import Meshlite.Trace.Names
import Meshlite.Sigil.Renewal
import Meshlite.Policy.Listing
import Meshlite.Library.Separators
import Meshlite.Sigil.Identities
import Meshlite.Conduit.Bodies
import Meshlite.Conduit.Rejection
import Meshlite.Library.Layout
import Meshlite.Kprobe.PerfReader
import Meshlite.Kprobe.Reports
import Meshlite.Library.Readers
import Meshlite.Library.JsonReader
import Meshlite.Library.JsonRoundTrip
import Meshlite.Trace.Intake
import Meshlite.Conduit.TelemetryClient
import Meshlite.Trace.Wire
import Meshlite.Library.Courier
import Meshlite.Trace.Pipeline
import Meshlite.Mesh.Link
import Meshlite.Mesh.Enforcement
import Meshlite.Library.Progress
import Meshlite.Sigil.Progress
import Meshlite.Mesh.Settling
import Meshlite.Kprobe.Sources
import Meshlite.Mesh.Integrity
import Meshlite.Conduit.CutAnswers
import Meshlite.Mesh.Gateway
import Meshlite.Library.Escapes
