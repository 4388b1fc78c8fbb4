import Meshlite.Kprobe.Agent
import Meshlite.Kprobe.PerfReader

/-!
# What the agent reports

The reader takes every verdict but 0 for a denial, the classifier drops on 1 alone. The two
agree because the maps hold no other verdicts, whatever the agent has done to them.
-/

namespace Meshlite.Kprobe

open Tls Runs BoundedMap

/-- 0 or 1. -/
def IsVerdict (v : Byte) : Prop := v = 0 ∨ v = 1

/-- Every verdict in the map is one. -/
def EbpfMaps.HoldsVerdicts (maps : EbpfMaps) : Prop :=
  ∀ key v, maps.verdictMap.lookup key = some v → IsVerdict v

/-- The write, if it is an insert, inserts a verdict. -/
def MapWrite.WritesVerdict (w : MapWrite) : Prop :=
  ∀ key v, w = .insert key v → IsVerdict v

variable {cap : Option ℕ} {e : Endian} {maps : EbpfMaps}

section Writes

theorem isVerdict_zero : IsVerdict 0 := Or.inl rfl

theorem isVerdict_one : IsVerdict 1 := Or.inr rfl

theorem isVerdict_ite {p : Prop} [Decidable p] {v w : Byte} (hv : IsVerdict v) (hw : IsVerdict w) :
    IsVerdict (if p then v else w) := by
  split_ifs
  · exact hv
  · exact hw

theorem syncWrites_writesVerdict {policy : PolicyCache} {pods : PodSnapshot}
    {order : SyncOrder maps pods} {w : MapWrite} (hw : w ∈ syncWrites e policy pods order) :
    w.WritesVerdict := by
  rintro key v rfl
  have hinsert : (key, v) ∈ verdictInserts e policy pods order.svcNames := by
    simpa [syncWrites] using hw
  obtain ⟨fromSvc, toSvc, -, -, -, -, -, -, rfl⟩ := (mem_verdictInserts order.names_perm).mp hinsert
  exact isVerdict_ite isVerdict_zero isVerdict_one

theorem EbpfMaps.HoldsVerdicts.apply {w : MapWrite} (h : maps.HoldsVerdicts)
    (hw : w.WritesVerdict) : (w.apply cap maps).HoldsVerdicts :=
  MapWrite.apply_forall (P := fun _ v => IsVerdict v) h hw

end Writes

namespace Agent

variable {a a' : Agent}

/-- The map holds verdicts, and what is left of a sync writes verdicts. -/
def VerdictsOnly (a : Agent) : Prop :=
  a.maps.HoldsVerdicts ∧ ∀ policy pods left, a.verdictSync = .syncing policy pods left →
    ∀ w ∈ left, w.WritesVerdict

theorem VerdictsOnly.congr (h : a.VerdictsOnly) (hmaps : a'.maps = a.maps)
    (hsync : a'.verdictSync = a.verdictSync) : a'.VerdictsOnly := by
  rw [VerdictsOnly, hmaps, hsync]
  exact h

theorem verdictsOnly_boot : boot.VerdictsOnly := by
  refine ⟨fun key v h => ?_, fun policy pods left h => ?_⟩
  · simp [boot, bootMaps] at h
  · simp [boot] at h

theorem Step.verdictsOnly {ev : AgentEvent} (hstep : a.Step cap e ev a') (h : a.VerdictsOnly) :
    a'.VerdictsOnly := by
  cases hstep with
  | message payload _ =>
    cases payload with
    | none => exact h
    | some push => cases push <;> exact h.congr rfl rfl
  | sigilSend | watch | podSend | forwardRecv | forwardSend => exact h.congr rfl rfl
  | syncRecv | clonePolicy | syncDone => exact ⟨h.1, by simp⟩
  | cloneSnapshot order _ =>
    refine ⟨h.1, fun policy' pods left hs w hw => ?_⟩
    obtain ⟨rfl, rfl, rfl⟩ := VerdictSyncTask.syncing.inj hs
    exact syncWrites_writesVerdict hw
  | @mapWrite policy pods w left hs =>
    have hleft := h.2 policy pods (w :: left) hs
    refine ⟨h.1.apply (hleft w (List.mem_cons_self ..)), fun policy' pods' left' hs' w' hw' => ?_⟩
    obtain ⟨rfl, rfl, rfl⟩ := VerdictSyncTask.syncing.inj hs'
    exact hleft w' (List.mem_cons_of_mem w hw')

theorem verdictsOnly_of_run {es : List AgentEvent} (h : Run (Step cap e) boot es a) :
    a.VerdictsOnly :=
  h.invariant (I := fun _ a => a.VerdictsOnly) verdictsOnly_boot fun _ _ _ _ _ hi hstep =>
    hstep.verdictsOnly hi

end Agent

section Verdicts

variable {f : Frame} {src dst : Ipv4Addr} {log : PacketLog}

theorem EbpfMaps.HoldsVerdicts.record (h : maps.HoldsVerdicts)
    (hlog : log ∈ packetEvents e maps f) : IsVerdict log.verdict := by
  have hlookup : ∀ key, IsVerdict (lookupVerdict maps key) := by
    intro key
    rw [lookupVerdict]
    cases hkey : maps.verdictMap.lookup key with
    | some v => exact h key v hkey
    | none => exact isVerdict_ite isVerdict_one isVerdict_zero
  have hpair : IsVerdict (pairVerdict e maps log.srcIp log.dstIp) :=
    isVerdict_ite (hlookup _) isVerdict_zero
  obtain ⟨-, -, hverdict, -⟩ := record_loaded hlog
  rw [hverdict]
  refine isVerdict_ite ?_ hpair
  cases loadU8 f 47 with
  | none => exact isVerdict_zero
  | some tcpFlags => exact isVerdict_ite isVerdict_one isVerdict_zero

/-- The reader's test of a verdict is the classifier's. -/
theorem EbpfMaps.HoldsVerdicts.drops_iff (h : maps.HoldsVerdicts)
    (hlog : log ∈ packetEvents e maps f) : Drops e maps f ↔ log.verdict ≠ 0 := by
  obtain ⟨-, -, -, hdrops⟩ := record_loaded hlog
  rw [hdrops]
  rcases h.record hlog with hv | hv
  · simp [hv]
  · simp [hv]

end Verdicts

/-- In any run of the agent: a frame recorded under the maps of the moment is reported with its
own addresses, if one of them is a pod's, as denied exactly if it was dropped, to the log and to
Trace alike; and Trace hears only of services that list the addresses. -/
theorem reported_as_dropped {es : List AgentEvent} {a : Agent} {f : Frame} {src dst : Ipv4Addr}
    {log : PacketLog} (h : Run (Agent.Step cap e) .boot es a) (hf : f.HasAddresses src dst)
    (hlog : log ∈ packetEvents e a.maps f) (clusterId : String) (srcView dstView : SnapshotView)
    (fill : ℕ → Byte) (rest : List Byte) :
    ∃ proto report, protoName log.proto = some proto ∧
      readSlot e clusterId srcView dstView ((PacketLog.ebpfLayout e).image fill log ++ rest) =
        report ∧ report.warning = none ∧
      report.line = (if src.InPodCidr ∨ dst.InPodCidr then
        some (interceptLine src dst log.srcPort log.dstPort proto
          (if Drops e a.maps f then "DENY" else "ALLOW")) else none) ∧
      ∀ r ∈ report.emitted,
        r.verdict = (if Drops e a.maps f then "deny" else "allow") ∧
        (r.sourceService ≠ "unknown" → srcView.pods.Lists r.sourceService src) ∧
        (r.destinationService ≠ "unknown" → dstView.pods.Lists r.destinationService dst) := by
  have hdrops := (Agent.verdictsOnly_of_run h).1.drops_iff hlog
  obtain ⟨proto, hproto, hreport⟩ := hf.reported hlog clusterId srcView dstView fill rest
  refine ⟨proto, _, hproto, hreport, ?_⟩
  by_cases hpod : src.InPodCidr ∨ dst.InPodCidr
  · rw [if_pos hpod, if_pos hpod]
    refine ⟨rfl, ?_, fun r hr => ⟨?_, emitted_lists hr⟩⟩
    · by_cases hv : log.verdict = 0 <;> simp [interceptReport, hdrops, hv]
    · rw [eq_of_emitted hr]
      by_cases hv : log.verdict = 0 <;> simp [interceptRecord, hdrops, hv]
  · rw [if_neg hpod, if_neg hpod]
    refine ⟨rfl, rfl, fun r hr => ?_⟩
    cases hr

/-- The reader's clones of the snapshot, `beta` first. -/
def twoPodsView : SnapshotView where
  pods := twoPods
  svcNames := ["beta", "alpha"]
  names_perm := by decide

theorem enforcing_drops :
    Drops .little enforcing.maps (Frame.syn ⟨10, 244, 2, 7⟩ ⟨10, 244, 1, 5⟩) := by
  have hopens : (Frame.syn ⟨10, 244, 2, 7⟩ ⟨10, 244, 1, 5⟩).Opens ⟨10, 244, 2, 7⟩ ⟨10, 244, 1, 5⟩ :=
    Or.inl (Frame.syn_isSyn _ _)
  have hbeta : twoPods.ListsOnly "beta" ⟨10, 244, 2, 7⟩ := by decide
  have halpha : twoPods.ListsOnly "alpha" ⟨10, 244, 1, 5⟩ := by decide
  rw [hopens.drops_iff (by decide) (by decide), enforcing,
    lookupVerdict_sync twoPods_syncSucceeds hbeta halpha (by decide)]
  decide

/-- Trace hears of that SYN as denied, under the services of its addresses. -/
theorem denied_reported : ∃ log ∈ packetEvents .little enforcing.maps
      (Frame.syn ⟨10, 244, 2, 7⟩ ⟨10, 244, 1, 5⟩), ∃ proto, protoName log.proto = some proto ∧
    ∃ report, readSlot .little "cluster-1" twoPodsView twoPodsView
        ((PacketLog.ebpfLayout .little).image (fun _ => 0) log) = report ∧
      report.line = some (interceptLine ⟨10, 244, 2, 7⟩ ⟨10, 244, 1, 5⟩ log.srcPort log.dstPort
        proto "DENY") ∧
      ∃ r ∈ report.emitted, r.verdict = "deny" ∧
        twoPods.Lists r.sourceService ⟨10, 244, 2, 7⟩ ∧
        twoPods.Lists r.destinationService ⟨10, 244, 1, 5⟩ := by
  obtain ⟨es, hrun⟩ := run_enforcing
  obtain ⟨log, hlog⟩ : ∃ log, log ∈ packetEvents .little enforcing.maps
      (Frame.syn ⟨10, 244, 2, 7⟩ ⟨10, 244, 1, 5⟩) := ⟨_, List.mem_singleton_self _⟩
  have haddresses : (Frame.syn ⟨10, 244, 2, 7⟩ ⟨10, 244, 1, 5⟩).HasAddresses ⟨10, 244, 2, 7⟩
      ⟨10, 244, 1, 5⟩ := ⟨by decide, by decide⟩
  obtain ⟨proto, report, hproto, hreport, -, hline, hemitted⟩ := reported_as_dropped hrun
    haddresses hlog "cluster-1" twoPodsView twoPodsView (fun _ => 0) []
  obtain ⟨r, hr, hsource, hdestination⟩ :
      ∃ r ∈ report.emitted, r.sourceService = "beta" ∧ r.destinationService = "alpha" := by
    have hbeta : resolveService twoPodsView ⟨10, 244, 2, 7⟩ = "beta" := by decide
    have halpha : resolveService twoPodsView ⟨10, 244, 1, 5⟩ = "alpha" := by decide
    obtain ⟨proto', -, hread⟩ :=
      haddresses.reported hlog "cluster-1" twoPodsView twoPodsView (fun _ => 0) []
    rw [← hreport, hread]
    exact ⟨_, rfl, hbeta, halpha⟩
  obtain ⟨hverdict, hsrc, hdst⟩ := hemitted r hr
  rw [List.append_nil] at hreport
  rw [if_pos (Or.inl (by decide)), if_pos enforcing_drops] at hline
  rw [if_pos enforcing_drops] at hverdict
  refine ⟨log, hlog, proto, hproto, report, hreport, hline, r, hr, hverdict, ?_, ?_⟩
  · exact hsrc (by simp [hsource])
  · exact hdst (by simp [hdestination])

end Meshlite.Kprobe
