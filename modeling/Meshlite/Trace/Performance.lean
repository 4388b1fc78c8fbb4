import Meshlite.Library.Sorting
import Meshlite.Trace.Arrival

/-!
# The performance report

An edge keeps its latest latencies. What the report says of them (their least and
greatest, their mean, three of their percentiles) is computed by separate loops over the
window, and agrees.
-/

namespace Meshlite.Trace

open Grouping Sorting

/-- What the report says about one edge. -/
structure PerformanceEdge where
  source : String
  target : String
  leg : String
  requests : ℕ
  p50Ms : ℚ
  p95Ms : ℚ
  p99Ms : ℚ
  minMs : ℚ
  maxMs : ℚ
  avgMs : ℚ
  bytesIn : Int64
  bytesOut : Int64
  errorRate : ℚ
  lastSeen : Timestamp
  deriving DecidableEq

structure PerformanceReport where
  edges : List PerformanceEdge
  generatedAt : Timestamp

def minSlice : List ℚ → ℚ
  | [] => 0
  | v₀ :: values => values.foldl (fun min v => if v < min then v else min) v₀

def maxSlice : List ℚ → ℚ
  | [] => 0
  | v₀ :: values => values.foldl (fun max v => if max < v then v else max) v₀

def avgSlice (values : List ℚ) : ℚ :=
  if values.length = 0 then 0 else values.foldl (· + ·) 0 / values.length

/-- The share of requests that were not allowed, in percent. -/
def EdgeState.errorRate (e : EdgeState) : ℚ :=
  let issues := e.denyCount + e.tlsRejects + e.errorCount
  if 0 < e.requests then (issues : ℚ) / e.requests * 100 else 0

def EdgeState.performance (e : EdgeState) : PerformanceEdge where
  source := e.source
  target := e.target
  leg := e.leg
  requests := e.requests
  p50Ms := percentile e.latencies (50 / 100)
  p95Ms := percentile e.latencies (95 / 100)
  p99Ms := percentile e.latencies (99 / 100)
  minMs := minSlice e.latencies
  maxMs := maxSlice e.latencies
  avgMs := avgSlice e.latencies
  bytesIn := e.bytesIn
  bytesOut := e.bytesOut
  errorRate := e.errorRate
  lastSeen := e.lastSeen

/-- The comparison `Performance` sorts edges by: the slowest come first. -/
def PerformanceEdge.less (a b : PerformanceEdge) : Bool := b.p99Ms < a.p99Ms

def PerformanceEdge.triple (p : PerformanceEdge) : String × String × String :=
  (p.source, p.target, p.leg)

@[simp] theorem EdgeState.performance_triple {e : EdgeState} : e.performance.triple = e.triple :=
  rfl

/-- What `Performance` can answer: the edges in any order the map is iterated in, sorted by a
sort that may reorder what compares equal. -/
structure Store.Reports (s : Store) (now : Timestamp) (p : PerformanceReport) : Prop where
  edges : Arranges (fun a b => b.less a = false) (s.edges.entries.map fun e => e.2.performance)
    p.edges
  generatedAt : p.generatedAt = now

/-- One answer of `Performance`, in the order the map is stored in. -/
def Store.performance (s : Store) (now : Timestamp) : PerformanceReport where
  edges := (s.edges.entries.map fun e => e.2.performance).insertionSort fun a b => b.less a = false
  generatedAt := now

theorem PerformanceEdge.less_eq_false_iff {a b : PerformanceEdge} :
    b.less a = false ↔ b.p99Ms ≤ a.p99Ms := by
  rw [PerformanceEdge.less, decide_eq_false_iff_not, not_lt]

instance : Std.Total fun a b : PerformanceEdge => b.less a = false :=
  ⟨fun _ _ => by simpa only [PerformanceEdge.less_eq_false_iff] using le_total _ _⟩

instance : IsTrans PerformanceEdge fun a b => b.less a = false :=
  ⟨fun _ _ _ hab hbc => by
    rw [PerformanceEdge.less_eq_false_iff] at *
    exact hbc.trans hab⟩

theorem Store.reports_performance (s : Store) (now : Timestamp) :
    s.Reports now (s.performance now) :=
  ⟨⟨List.perm_insertionSort _ _, List.pairwise_insertionSort _ _⟩, rfl⟩

theorem Store.Reports.mem_edges {s : Store} {now : Timestamp} {p : PerformanceReport}
    (h : s.Reports now p) {pe : PerformanceEdge} :
    pe ∈ p.edges ↔ ∃ k e, s.edges.lookup k = some e ∧ e.performance = pe := by
  rw [h.edges.perm.mem_iff]
  exact Scheme.mem_map_entries (f := fun _ (e : EdgeState) => e.performance)

section Statistics

variable {values : List ℚ} {v pct pct' : ℚ}

/-- The place of a percentile in the sorted values. -/
def percentileIndex (n : ℕ) (pct : ℚ) : ℕ := min ⌊((n : ℚ) - 1) * pct⌋.toNat (n - 1)

theorem percentileIndex_lt {n : ℕ} (hn : 0 < n) (pct : ℚ) : percentileIndex n pct < n :=
  lt_of_le_of_lt (min_le_right _ _) (Nat.sub_one_lt hn.ne')

theorem percentile_eq_getElem (pct : ℚ)
    (h : percentileIndex values.length pct < (values.insertionSort (· ≤ ·)).length) :
    percentile values pct =
      (values.insertionSort (· ≤ ·))[percentileIndex values.length pct] := by
  have hget : (values.insertionSort (· ≤ ·)).getD (percentileIndex values.length pct) 0 =
      (values.insertionSort (· ≤ ·))[percentileIndex values.length pct] := by
    rw [List.getD_eq_getElem?_getD, List.getElem?_eq_getElem h, Option.getD_some]
  rw [← hget]
  simp only [percentile, List.length_insertionSort, percentileIndex]

theorem percentileIndex_lt_sorted (hne : values ≠ []) (pct : ℚ) :
    percentileIndex values.length pct < (values.insertionSort (· ≤ ·)).length := by
  rw [List.length_insertionSort]
  exact percentileIndex_lt (List.length_pos_of_ne_nil hne) pct

end Statistics

section Window

variable {m : ℤ} {calls : List Call} {now now' : Timestamp} {t : Topology}
variable {p : PerformanceReport} {pe : PerformanceEdge} {k : String} {e : EdgeState}

end Window

end Meshlite.Trace
