import Meshlite.Trace.Performance
import Meshlite.Trace.Telemetry

/-!
# Counting bytes

The byte counts of accepted records are added up in 64-bit integers, whatever their sign.
The totals are exact and never fall as long as no edge is told a negative count after its
first record and no total leaves the range of the type.
-/

namespace Meshlite.Trace

open Grouping

/-- The two directions bytes are counted in. -/
inductive Direction where
  | inbound
  | outbound
  deriving DecidableEq, Repr

def TelemetryRecord.bytes (r : TelemetryRecord) : Direction → Int64
  | .inbound => r.bytesIn
  | .outbound => r.bytesOut

def EdgeState.bytes (e : EdgeState) : Direction → Int64
  | .inbound => e.bytesIn
  | .outbound => e.bytesOut

def PerformanceEdge.bytes (pe : PerformanceEdge) : Direction → Int64
  | .inbound => pe.bytesIn
  | .outbound => pe.bytesOut

/-- The exact sum of the byte counts recorded under a key. -/
def bytesUnder (d : Direction) (recs : List TelemetryRecord) (k : String) : ℤ :=
  ((recs.filter (edgeKey · = k)).map fun r => (r.bytes d).toInt).sum

section Bytes

variable {e : EdgeState} {r : TelemetryRecord} {d : Direction} {o : Outcome} {k : String}
variable {recs : List TelemetryRecord}

@[simp] theorem EdgeState.performance_bytes : e.performance.bytes d = e.bytes d := by
  cases d <;> rfl

@[simp] theorem EdgeState.count_bytes : (e.count o).bytes d = e.bytes d := by
  cases d <;> cases o <;> rfl

@[simp] theorem EdgeState.sample_bytes (ms : ℚ) : (e.sample ms).bytes d = e.bytes d := by
  unfold EdgeState.sample
  split <;> rfl

theorem EdgeState.add_bytes : (e.add r).bytes d = e.bytes d + r.bytes d := by
  have hsum : ∀ e' : EdgeState, ({ e' with
      bytesIn := e'.bytesIn + r.bytesIn, bytesOut := e'.bytesOut + r.bytesOut }).bytes d =
      e'.bytes d + r.bytes d := by
    intro e'
    cases d <;> rfl
  have hseen : ({ e with requests := e.requests + 1, lastSeen := r.timestamp }).bytes d =
      e.bytes d := by
    cases d <;> rfl
  rw [EdgeState.add, EdgeState.count_bytes, hsum, EdgeState.sample_bytes, hseen]

theorem EdgeState.new_bytes : (EdgeState.new r).bytes d = 0 := by cases d <;> rfl

@[simp] theorem normalizeRecord_bytes (now : Timestamp) :
    (normalizeRecord now r).bytes d = r.bytes d := by
  cases d <;> rfl

theorem bytesUnder_snoc : bytesUnder d (recs ++ [r]) k =
    bytesUnder d recs k + if edgeKey r = k then (r.bytes d).toInt else 0 := by
  rw [bytesUnder, List.filter_append, List.map_append, List.sum_append, bytesUnder]
  by_cases hk : edgeKey r = k <;> simp [hk]

theorem lookup_edgesOf_snoc : (edgesOf (recs ++ [r])).lookup k =
    if edgeKey r = k then some ((((edgesOf recs).lookup k).getD (.new r)).add r)
    else (edgesOf recs).lookup k := by
  rw [edgesOf, Scheme.putAll_snoc, Scheme.put]
  split_ifs with hk
  · subst hk
    exact AList.lookup_insert _
  · exact AList.lookup_insert_ne (Ne.symm hk)

end Bytes

section Sum

variable {a b : Int64} {total : ℤ}

/-- A sum of two 64-bit counts is exact and no less than the first exactly if the second is not
negative and the exact sum is in range. -/
theorem add_exact_iff :
    a ≤ a + b ∧ (a + b).toInt = a.toInt + b.toInt ↔ 0 ≤ b.toInt ∧ a.toInt + b.toInt < 2 ^ 63 := by
  rw [Int64.le_iff_toInt_le]
  constructor
  · rintro ⟨hle, hexact⟩
    rw [hexact] at hle
    exact ⟨by omega, hexact ▸ Int64.toInt_lt _⟩
  · rintro ⟨hb, hlt⟩
    have hexact : (a + b).toInt = a.toInt + b.toInt := by
      have hlow := Int64.le_toInt a
      rw [Int64.toInt_add]
      exact Int.bmod_eq_of_le (by omega) (by omega)
    exact ⟨by omega, hexact⟩

end Sum

/-- The report says of every edge the exact sums of the bytes recorded under its key. -/
def BytesExact (calls : List Call) : Prop :=
  ∀ now p, (Server.after calls).store.Reports now p → ∀ pe ∈ p.edges, ∀ d,
    (pe.bytes d).toInt = bytesUnder d (records calls) (joinKey pe.triple)

/-- No edge is reported with fewer bytes after the call than before. -/
def BytesGrow (calls : List Call) (c : Call) : Prop :=
  ∀ now now' p p', (Server.after calls).store.Reports now p →
    (Server.after (calls ++ [c])).store.Reports now' p' → ∀ pe ∈ p.edges, ∀ pe' ∈ p'.edges,
      joinKey pe.triple = joinKey pe'.triple → ∀ d, pe.bytes d ≤ pe'.bytes d

/-- A record with a byte count that a total can take: it is not negative unless it is the first
of its edge, and the total stays in range. -/
def Countable (calls : List Call) (c : Call) : Prop :=
  ∀ d, (∀ c' ∈ calls, edgeKey c'.normalized = edgeKey c.normalized →
      0 ≤ (c.record.bytes d).toInt) ∧
    bytesUnder d (records (calls ++ [c])) (edgeKey c.normalized) < 2 ^ 63

section Reports

variable {calls : List Call} {c : Call} {k : String} {e : EdgeState} {d : Direction}

theorem edges_after : (Server.after calls).store.edges = edgesOf (records calls) := by
  rw [store_after, edges_addAll]

theorem bytesExact_iff : BytesExact calls ↔ ∀ k e, (edgesOf (records calls)).lookup k = some e →
    ∀ d, (e.bytes d).toInt = bytesUnder d (records calls) k := by
  constructor
  · intro h k e hlookup d
    have hreports := (Server.after calls).store.reports_performance 0
    have hmem := hreports.mem_edges.mpr ⟨k, e, by rwa [edges_after], rfl⟩
    have hexact := h 0 _ hreports e.performance hmem d
    rwa [EdgeState.performance_bytes, EdgeState.performance_triple,
      joinKey_of_lookup hlookup] at hexact
  · intro h now p hp pe hpe d
    obtain ⟨k, e, hlookup, rfl⟩ := hp.mem_edges.mp hpe
    rw [edges_after] at hlookup
    rw [EdgeState.performance_bytes, EdgeState.performance_triple, joinKey_of_lookup hlookup]
    exact h k e hlookup d

theorem bytesGrow_iff : BytesGrow calls c ↔ ∀ k e e',
    (edgesOf (records calls)).lookup k = some e →
    (edgesOf (records (calls ++ [c]))).lookup k = some e' → ∀ d, e.bytes d ≤ e'.bytes d := by
  constructor
  · intro h k e e' hlookup hlookup' d
    have hreports := (Server.after calls).store.reports_performance 0
    have hreports' := (Server.after (calls ++ [c])).store.reports_performance 0
    have hmem := hreports.mem_edges.mpr ⟨k, e, by rwa [edges_after], rfl⟩
    have hmem' := hreports'.mem_edges.mpr ⟨k, e', by rwa [edges_after], rfl⟩
    have hgrow := h 0 0 _ _ hreports hreports' _ hmem _ hmem'
      ((joinKey_of_lookup hlookup).trans (joinKey_of_lookup hlookup').symm) d
    rwa [EdgeState.performance_bytes, EdgeState.performance_bytes] at hgrow
  · intro h now now' p p' hp hp' pe hpe pe' hpe' hkey d
    obtain ⟨k, e, hlookup, rfl⟩ := hp.mem_edges.mp hpe
    obtain ⟨k', e', hlookup', rfl⟩ := hp'.mem_edges.mp hpe'
    rw [edges_after] at hlookup hlookup'
    rw [EdgeState.performance_triple, EdgeState.performance_triple, joinKey_of_lookup hlookup,
      joinKey_of_lookup hlookup'] at hkey
    subst hkey
    rw [EdgeState.performance_bytes, EdgeState.performance_bytes]
    exact h k e e' hlookup hlookup' d

theorem bytesUnder_of_none {recs : List TelemetryRecord} (h : (edgesOf recs).lookup k = none) :
    bytesUnder d recs k = 0 := by
  have hnone : recs.filter (edgeKey · = k) = [] := by
    rw [List.filter_eq_nil_iff]
    intro r hr hk
    obtain ⟨e, he⟩ := exists_lookup_edgesOf hr
    rw [of_decide_eq_true hk, h] at he
    cases he
  rw [bytesUnder, hnone]
  rfl

/-- A call changes what is reported under its own key only. -/
theorem call_exact_iff_at_key (hexact : BytesExact calls) :
    BytesGrow calls c ∧ BytesExact (calls ++ [c]) ↔ ∀ d,
      (∀ e, (edgesOf (records calls)).lookup (edgeKey c.normalized) = some e →
        e.bytes d ≤ e.bytes d + c.record.bytes d) ∧
      ((((edgesOf (records calls)).lookup (edgeKey c.normalized)).getD
          (.new c.normalized)).bytes d + c.record.bytes d).toInt =
        bytesUnder d (records calls) (edgeKey c.normalized) + (c.record.bytes d).toInt := by
  rw [bytesExact_iff] at hexact
  have hbytes : ∀ d, c.normalized.bytes d = c.record.bytes d := fun d =>
    normalizeRecord_bytes c.normalizedAt
  simp only [bytesGrow_iff, bytesExact_iff, records_snoc, lookup_edgesOf_snoc, bytesUnder_snoc,
    hbytes]
  constructor
  · rintro ⟨hgrow, hafter⟩ d
    constructor
    · intro e he
      have hle := hgrow _ e _ he (if_pos rfl) d
      rwa [he, Option.getD_some, EdgeState.add_bytes, hbytes] at hle
    · have hsum := hafter (edgeKey c.normalized) _ (if_pos rfl) d
      rwa [EdgeState.add_bytes, hbytes, if_pos rfl] at hsum
  · intro h
    constructor
    · intro k e e' he he' d
      split_ifs at he' with hk
      · subst hk
        rw [← Option.some.inj he', he, Option.getD_some, EdgeState.add_bytes, hbytes]
        exact (h d).1 e he
      · rw [Option.some.inj (he.symm.trans he')]
        exact Int64.le_refl _
    · intro k e he d
      split_ifs at he ⊢ with hk
      · subst hk
        rw [← Option.some.inj he, EdgeState.add_bytes, hbytes]
        exact (h d).2
      · rw [Int.add_zero]
        exact hexact k e he d

/-- One call keeps the totals exact and lets none fall exactly if its record can be counted. -/
theorem call_exact_iff (hexact : BytesExact calls) :
    BytesGrow calls c ∧ BytesExact (calls ++ [c]) ↔ Countable calls c := by
  have hbytes : ∀ d, c.normalized.bytes d = c.record.bytes d := fun d =>
    normalizeRecord_bytes c.normalizedAt
  rw [call_exact_iff_at_key hexact, Countable]
  refine forall_congr' fun d => ?_
  rw [records_snoc, bytesUnder_snoc, if_pos rfl, hbytes]
  rw [bytesExact_iff] at hexact
  cases hlookup : (edgesOf (records calls)).lookup (edgeKey c.normalized) with
  | none =>
    have hzero := bytesUnder_of_none (d := d) hlookup
    rw [hzero, Option.getD_none, EdgeState.new_bytes, Int64.zero_add, Int.zero_add]
    refine iff_of_true ⟨fun e he => absurd he (by simp), rfl⟩
      ⟨fun c' hc' hkey => ?_, Int64.toInt_lt _⟩
    -- an earlier record of the edge would have started it
    obtain ⟨e, he⟩ := exists_lookup_edgesOf (List.mem_map_of_mem (f := Call.normalized) hc')
    rw [hkey, ← records, hlookup] at he
    cases he
  | some e =>
    have hearlier : ∃ c' ∈ calls, edgeKey c'.normalized = edgeKey c.normalized := by
      obtain ⟨⟨r, hr, hkey, -⟩, -⟩ := lookup_edgesOf hlookup
      obtain ⟨c', hc', rfl⟩ := List.mem_map.mp hr
      exact ⟨c', hc', hkey⟩
    obtain ⟨c', hc', hkey⟩ := hearlier
    rw [← hexact _ e hlookup d, Option.getD_some]
    simp only [Option.some.injEq, forall_eq']
    rw [add_exact_iff]
    refine and_congr_left fun _ => ?_
    exact ⟨fun hb _ _ _ => hb, fun h => h c' hc' hkey⟩

end Reports

section Runs

variable {calls : List Call}

theorem forall_steps_snoc {P : List Call → Call → Prop} {c : Call} :
    (∀ before c', before ++ [c'] <+: calls ++ [c] → P before c') ↔
      (∀ before c', before ++ [c'] <+: calls → P before c') ∧ P calls c := by
  constructor
  · intro h
    exact ⟨fun before c' hpre => h before c' (hpre.trans (List.prefix_append _ _)),
      h calls c List.prefix_rfl⟩
  · rintro ⟨h, hlast⟩ before c' hpre
    rcases List.prefix_concat_iff.mp hpre with heq | hpre
    · obtain ⟨rfl, hc⟩ := List.append_inj' heq rfl
      obtain rfl := List.singleton_injective hc
      exact hlast
    · exact h before c' hpre

theorem bytesExact_nil : BytesExact [] := by
  rw [bytesExact_iff]
  rintro k e he
  cases he

theorem bytesExact_of_steps (h : ∀ before c, before ++ [c] <+: calls →
    BytesGrow before c ∧ BytesExact (before ++ [c])) : BytesExact calls := by
  cases calls using List.reverseRecOn with
  | nil => exact bytesExact_nil
  | append_singleton before c => exact (h before c List.prefix_rfl).2

end Runs

/-- The totals are exact and never fall through all the records accepted exactly if each record
can be counted when it comes. -/
theorem bytes_exact_iff (calls : List Call) :
    (∀ before c, before ++ [c] <+: calls → BytesGrow before c ∧ BytesExact (before ++ [c])) ↔
      ∀ before c, before ++ [c] <+: calls → Countable before c := by
  induction calls using List.reverseRecOn with
  | nil => exact iff_of_true (by simp) (by simp)
  | append_singleton calls c ih =>
    rw [forall_steps_snoc, forall_steps_snoc, ← ih]
    exact and_congr_right fun h => call_exact_iff (bytesExact_of_steps h)

def payment : Call :=
  { record := { sourceService := "alpha", destinationService := "beta", bytesIn := 5 } }

/-- A record that takes back what an earlier one of its edge has counted. -/
def refund : Call :=
  { record := { sourceService := "alpha", destinationService := "beta", bytesIn := -5 } }

theorem refund_falls : ¬ ∀ calls before c, before ++ [c] <+: calls →
    BytesGrow before c ∧ BytesExact (before ++ [c]) := by
  intro h
  have hexact := (h [payment] [] payment List.prefix_rfl).2
  have hcountable := (call_exact_iff hexact).mp (h [payment, refund] [payment] refund
    List.prefix_rfl)
  have hnonneg := (hcountable .inbound).1 payment (List.mem_singleton_self _) (by decide +kernel)
  revert hnonneg
  decide

end Meshlite.Trace
