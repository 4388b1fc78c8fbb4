import Meshlite.Library.BoundedLog
import Meshlite.Trace.Counts

/-!
# The event log and its queries

Whatever was recorded, a query answers with the latest matching records of those that the
log still holds.
-/

namespace Meshlite.Trace

open BoundedLog

namespace Store

/-- The loop of `Events` over the log, with what it has kept so far. -/
def eventsLoop (q : EventQuery) (limit : ℕ) (out : List Event) : List Event → List Event
  | [] => out
  | event :: rest =>
    if limit ≤ out.length then out
    else if q.service ≠ "" ∧ event.sourceService ≠ q.service ∧
        event.destinationService ≠ q.service then
      eventsLoop q limit out rest
    else if q.verdict ≠ "" ∧ q.verdict ≠ "all" ∧ event.verdict ≠ q.verdict then
      eventsLoop q limit out rest
    else eventsLoop q limit (out ++ [event]) rest

/-- `Events` as it computes its answer. -/
def queryEvents (s : Store) (q : EventQuery) : List Event :=
  eventsLoop q (eventLimit q) [] s.events

variable {q : EventQuery} {event : Event}

theorem matchesQuery_iff : matchesQuery q event = true ↔
    (q.service = "" ∨ event.sourceService = q.service ∨ event.destinationService = q.service) ∧
      (q.verdict = "" ∨ q.verdict = "all" ∨ event.verdict = q.verdict) := by
  simp [matchesQuery, or_assoc]

theorem eventsLoop_eq_scan (q : EventQuery) (limit : ℕ) (out events : List Event) :
    eventsLoop q limit out events = scan (matchesQuery q) limit out events := by
  induction events generalizing out with
  | nil => rfl
  | cons event events ih =>
    unfold eventsLoop scan
    split_ifs with hfull hservice hmatch hverdict hmatch hmatch
    · rfl
    · rw [matchesQuery_iff] at hmatch
      tauto
    · exact ih out
    · rw [matchesQuery_iff] at hmatch
      tauto
    · exact ih out
    · exact ih (out ++ [event])
    · rw [matchesQuery_iff] at hmatch
      tauto

theorem queryEvents_eq (s : Store) (q : EventQuery) : s.queryEvents q = s.eventsFor q := by
  rw [queryEvents, eventsLoop_eq_scan, scan_eq]
  rfl

end Store

section Log

variable {m : ℤ} {calls : List Call} {c : Call}

theorem maxEvents_addAll : (Store.addAll m calls).maxEvents = (Store.new m).maxEvents := by
  induction calls using List.reverseRecOn with
  | nil => rfl
  | append_singleton calls c ih =>
    rw [addAll_snoc, ← ih]
    rfl

theorem events_snoc : (Store.addAll m (calls ++ [c])).events =
    push (Store.new m).maxEvents (Store.addAll m calls).events c.normalized.event := by
  rw [addAll_snoc, ← @maxEvents_addAll m calls]
  rfl

theorem events_addAll : (Store.addAll m calls).events =
    ((records calls).reverse.map TelemetryRecord.event).take (Store.new m).maxEvents := by
  have hpushed : (Store.addAll m calls).events =
      ((records calls).map TelemetryRecord.event).foldl (push (Store.new m).maxEvents) [] := by
    induction calls using List.reverseRecOn with
    | nil => rfl
    | append_singleton calls c ih =>
      rw [events_snoc, records_snoc, List.map_append, List.foldl_append, ← ih]
      rfl
  rw [hpushed, foldl_push, List.map_reverse]

end Log

/-- A query answers with the first matching ones of the records the log holds, which are the
last ones recorded, the latest first. -/
theorem queryEvents_latest (m : ℤ) (hm : 0 < m) (calls : List Call) (q : EventQuery) :
    let held := ((records calls).drop (calls.length - min calls.length m.toNat)).reverse
    (Store.addAll m calls).queryEvents q =
      ((held.map TelemetryRecord.event).filter fun event =>
        (q.service = "" ∨ event.sourceService = q.service ∨ event.destinationService = q.service) ∧
          (q.verdict = "" ∨ q.verdict = "all" ∨ event.verdict = q.verdict)).take
        (if q.limit ≤ 0 then 200 else (min q.limit 1000).toNat) := by
  have hcapacity : (Store.new m).maxEvents = m.toNat := if_neg (not_le.mpr hm)
  have hlength : (records calls).length = calls.length := List.length_map _
  have hlimit : Store.eventLimit q = if q.limit ≤ 0 then 200 else (min q.limit 1000).toNat := by
    unfold Store.eventLimit
    split_ifs <;> omega
  intro held
  have hheld : (Store.addAll m calls).events = held.map TelemetryRecord.event := by
    rw [events_addAll, hcapacity, ← List.map_take, take_reverse_eq, hlength]
  rw [Store.queryEvents_eq, Store.eventsFor, hheld, hlimit]
  congr 1
  apply List.filter_congr
  intro event _
  rw [Bool.eq_iff_iff, Store.matchesQuery_iff, decide_eq_true_iff]

/-- Three records with one place less in the log, and a query for one of the services. -/
def threeCalls : List Call :=
  [{ record := { sourceService := "alpha", destinationService := "beta", verdict := "deny" } },
    { record := { sourceService := "alpha", destinationService := "gamma" } },
    { record := { sourceService := "beta", destinationService := "alpha", verdict := "deny" } }]

theorem threeCalls_latest :
    (Store.addAll 2 threeCalls).queryEvents { service := "beta", verdict := "deny" } =
      [{ sourceService := "beta", destinationService := "alpha", verdict := "deny",
         leg := "intra_cluster" : TelemetryRecord }.event] :=
  (queryEvents_latest 2 (by decide) threeCalls _).trans (by decide +kernel)

end Meshlite.Trace
