import Meshlite.Kprobe.Classifier
import Meshlite.Kprobe.VerdictSync
import Meshlite.Library.Layout

/-!
# Across the kernel boundary

Keys and records pass between the classifier and userspace as bytes, and each of the two
crates declares their layout by itself. The keys `sync` writes are to be found by the
classifier, and the records the classifier writes are to be read by the perf buffer reader.
-/

namespace Meshlite.Kprobe

section Layouts

/-- The fields in the order of the declaration. -/
def PacketKey.fields : BitVec 32 × BitVec 32 ≃ PacketKey where
  toFun p := { srcIp := p.1, dstIp := p.2 }
  invFun key := (key.srcIp, key.dstIp)
  left_inv _ := rfl
  right_inv _ := rfl

def PacketLog.fields :
    BitVec 32 × BitVec 32 × BitVec 16 × BitVec 16 × Byte × Byte ≃ PacketLog where
  toFun p :=
    { srcIp := p.1, dstIp := p.2.1, srcPort := p.2.2.1, dstPort := p.2.2.2.1,
      proto := p.2.2.2.2.1, verdict := p.2.2.2.2.2 }
  invFun log := (log.srcIp, log.dstIp, log.srcPort, log.dstPort, log.proto, log.verdict)
  left_inv _ := rfl
  right_inv _ := rfl

open Layout

variable (e : Endian)

/-- `PacketKey` in the eBPF crate. -/
def PacketKey.ebpfLayout : Layout PacketKey := ((u32 e).seq (u32 e)).map PacketKey.fields

/-- `PacketKey` as the userspace crate redeclares it. -/
def PacketKey.userLayout : Layout PacketKey := ((u32 e).seq (u32 e)).map PacketKey.fields

def PacketLog.ebpfLayout : Layout PacketLog :=
  ((u32 e).seq <| (u32 e).seq <| (u16 e).seq <| (u16 e).seq <| u8.seq u8).map PacketLog.fields

def PacketLog.userLayout : Layout PacketLog :=
  ((u32 e).seq <| (u32 e).seq <| (u16 e).seq <| (u16 e).seq <| u8.seq u8).map PacketLog.fields

theorem PacketKey.layouts_agree : PacketKey.userLayout e = PacketKey.ebpfLayout e := rfl

theorem PacketLog.layouts_agree : PacketLog.userLayout e = PacketLog.ebpfLayout e := rfl

/-- Two bytes of every record belong to no field. -/
example : (PacketLog.ebpfLayout e).size = 16 := by
  simp [PacketLog.ebpfLayout, size, u32, u16, u8, scalar, padLength]

end Layouts

def Ipv4Addr.octets (ip : Ipv4Addr) : List Byte := [ip.a, ip.b, ip.c, ip.d]

/-- `Ipv4Addr::from(u32)`. -/
def Ipv4Addr.ofU32 (x : BitVec 32) : Ipv4Addr where
  a := x.extractLsb' 24 8
  b := x.extractLsb' 16 8
  c := x.extractLsb' 8 8
  d := x.extractLsb' 0 8

theorem Ipv4Addr.ofU32_toU32 (ip : Ipv4Addr) : ofU32 ip.toU32 = ip := by
  ext1
  · exact Endian.extract_word32_3 ip.a ip.b ip.c ip.d
  · exact Endian.extract_word32_2 ip.a ip.b ip.c ip.d
  · exact Endian.extract_word32_1 ip.a ip.b ip.c ip.d
  · exact Endian.extract_word32_0 ip.a ip.b ip.c ip.d

section Keys

variable (e : Endian)

/-- The key `try_intercept` builds in step 5, from what it has loaded before. -/
def interceptKey (f : Frame) : Option PacketKey := do
  let srcIp ← loadU32 e f 26
  let dstIp ← loadU32 e f 30
  return { srcIp, dstIp }

/-- The frame has these addresses where a plain IPv4 header has them. -/
structure Frame.HasAddresses (f : Frame) (src dst : Ipv4Addr) : Prop where
  source : f[26]? = some src.a ∧ f[27]? = some src.b ∧ f[28]? = some src.c ∧ f[29]? = some src.d
  destination :
    f[30]? = some dst.a ∧ f[31]? = some dst.b ∧ f[32]? = some dst.c ∧ f[33]? = some dst.d

variable {e} {f : Frame} {src dst : Ipv4Addr}

theorem Frame.HasAddresses.interceptKey (h : f.HasAddresses src dst) :
    interceptKey e f = some (frameKey e src dst) := by
  rw [Kprobe.interceptKey, loadU32_eq_some h.source, loadU32_eq_some h.destination]
  rfl

/-- In memory the key of a pair is its eight address bytes, as they stand in the frame. -/
theorem image_frameKey (fill : ℕ → Byte) :
    (PacketKey.ebpfLayout e).image fill (frameKey e src dst) = src.octets ++ dst.octets := by
  have hword : ∀ ip : Ipv4Addr, e.store32 (e.load32 ip.a ip.b ip.c ip.d) = ip.octets :=
    fun ip => e.store32_load32 ip.a ip.b ip.c ip.d
  simp [Layout.image, PacketKey.ebpfLayout, PacketKey.fields, Layout.u32, Layout.scalar, padLength,
    skipped, frameKey, hword]

theorem syncKey_podCidr :
    ((syncKey e src dst).srcIp &&& podCidrMask e = podCidrNet e ↔ src.a = 10 ∧ src.b = 244) ∧
    ((syncKey e src dst).dstIp &&& podCidrMask e = podCidrNet e ↔ dst.a = 10 ∧ dst.b = 244) := by
  rw [syncKey_eq_frameKey]
  exact ⟨podCidr_iff e src, podCidr_iff e dst⟩

end Keys

section Records

variable {e : Endian} {maps : EbpfMaps} {f : Frame} {src dst : Ipv4Addr} {log : PacketLog}

/-- What a record says, in terms of what was loaded from its frame. -/
theorem record_loaded (h : log ∈ packetEvents e maps f) :
    (log.proto = 6 ∨ log.proto = 17) ∧
      interceptKey e f = some { srcIp := log.srcIp, dstIp := log.dstIp } ∧
      log.verdict = tcpVerdict f log.proto (pairVerdict e maps log.srcIp log.dstIp) ∧
      (Drops e maps f ↔ log.verdict = 1) := by
  obtain ⟨⟨action, record⟩, hresult, rfl⟩ :=
    Option.bind_eq_some_iff.mp (Option.mem_toList.mp h)
  have hdrops : Drops e maps f ↔ action = tcActShot := by
    rw [Drops, hresult, Option.map_some, Option.some.injEq]
  obtain ⟨ethertype, -, hresult⟩ := Option.bind_eq_some_iff.mp hresult
  split_ifs at hresult
  · simp at hresult
  obtain ⟨proto, -, hresult⟩ := Option.bind_eq_some_iff.mp hresult
  split_ifs at hresult with hother
  · simp at hresult
  have hproto : proto = 6 ∨ proto = 17 := by tauto
  simp only [Option.bind_eq_bind, Option.bind_eq_some_iff] at hresult
  obtain ⟨srcIp, hsrc, dstIp, hdst, srcPortBe, -, dstPortBe, -, hresult⟩ := hresult
  simp only [Option.pure_def, Option.some.injEq, Prod.mk.injEq] at hresult
  obtain ⟨haction, rfl⟩ := hresult
  refine ⟨hproto, ?_, rfl, ?_⟩
  · rw [interceptKey, hsrc, hdst]
    rfl
  · rw [hdrops, ← haction]
    split_ifs with hdenied
    · exact iff_of_true rfl hdenied
    · exact iff_of_false (by decide) hdenied

theorem Frame.HasAddresses.record (h : f.HasAddresses src dst)
    (hlog : log ∈ packetEvents e maps f) :
    { srcIp := log.srcIp, dstIp := log.dstIp : PacketKey } = frameKey e src dst ∧
      log.verdict = tcpVerdict f log.proto
        (if src.InPodCidr ∧ dst.InPodCidr then lookupVerdict maps (frameKey e src dst) else 0) := by
  obtain ⟨-, hkey, hverdict, -⟩ := record_loaded hlog
  rw [h.interceptKey, Option.some.injEq] at hkey
  have hsrc : log.srcIp = (frameKey e src dst).srcIp := by rw [hkey]
  have hdst : log.dstIp = (frameKey e src dst).dstIp := by rw [hkey]
  refine ⟨hkey.symm, ?_⟩
  rw [hverdict, hsrc, hdst, pairVerdict]
  simp only [frameKey, podCidr_iff]

end Records

section Reader

/-- The userspace crate's `TelemetryRecord`, with the latency as a rational. -/
structure TelemetryRecord where
  sourceService : String
  destinationService : String
  clusterId : String
  leg : String
  verdict : String
  latencyMs : ℚ
  tlsVerified : Bool
  statusCode : Option ℕ
  errorReason : Option String
  timestamp : Option String
  deriving DecidableEq

/-- What the reader does about one slot of its buffers: a warning, a printed line, a record
handed to `telemetry.emit`. -/
structure SlotReport where
  warning : Option String
  line : Option String
  emitted : Option TelemetryRecord
  deriving DecidableEq

/-- A snapshot as it is iterated over at one moment. -/
structure SnapshotView where
  pods : PodSnapshot
  svcNames : List String
  names_perm : svcNames.Perm pods.keys

/-- The first service listing the address. -/
def resolveService (view : SnapshotView) (ip : Ipv4Addr) : String :=
  (view.svcNames.find? fun svc => view.pods.Lists svc ip).getD "unknown"

/-- `Display` of an address. -/
def Ipv4Addr.display (ip : Ipv4Addr) : String :=
  ".".intercalate (ip.octets.map fun octet => toString octet.toNat)

def protoName (proto : Byte) : Option String :=
  if proto = 6 then some "TCP" else if proto = 17 then some "UDP" else none

def interceptLine (src dst : Ipv4Addr) (srcPort dstPort : BitVec 16) (proto verdict : String) :
    String :=
  "[INTERCEPT] src=" ++ src.display ++ ":" ++ toString srcPort.toNat ++
    " dst=" ++ dst.display ++ ":" ++ toString dstPort.toNat ++
    " proto=" ++ proto ++ " verdict=" ++ verdict

/-- The record emitted for a verdict between two services. -/
def interceptRecord (sourceService destinationService clusterId : String) (verdict : Byte) :
    TelemetryRecord where
  sourceService
  destinationService
  clusterId
  leg := "intra_cluster"
  verdict := if verdict = 0 then "allow" else "deny"
  latencyMs := 0
  tlsVerified := verdict = 0
  statusCode := if verdict = 0 then some 200 else none
  errorReason := if verdict = 0 then none else some "policy_denied"
  timestamp := none

variable (e : Endian)

/-- The record at the start of the slot; `none` for an undersized slot. -/
def readPacketLog (slot : List Byte) : Option PacketLog := (PacketLog.userLayout e).tryRead slot

def PacketLog.src (log : PacketLog) : Ipv4Addr := Ipv4Addr.ofU32 (e.fromBe32 log.srcIp)

def PacketLog.dst (log : PacketLog) : Ipv4Addr := Ipv4Addr.ofU32 (e.fromBe32 log.dstIp)

variable (clusterId : String) (srcView dstView : SnapshotView)

/-- The line and the telemetry for a record of pod traffic. The snapshot is locked anew for
each of the two addresses. -/
def interceptReport (src dst : Ipv4Addr) (log : PacketLog) (proto : String) : SlotReport :=
  let verdict := if log.verdict = 0 then "ALLOW" else "DENY"
  let sourceService := resolveService srcView src
  let destinationService := resolveService dstView dst
  { warning := none
    line := some (interceptLine src dst log.srcPort log.dstPort proto verdict)
    emitted :=
      if sourceService ≠ "unknown" ∨ destinationService ≠ "unknown" then
        some (interceptRecord sourceService destinationService clusterId log.verdict)
      else none }

def reportLog (log : PacketLog) : SlotReport :=
  let src := log.src e
  let dst := log.dst e
  match protoName log.proto with
  | none =>
    { warning := some ("[kprobe] Unknown proto " ++ toString log.proto.toNat)
      line := none
      emitted := none }
  | some proto =>
    if src.InPodCidr ∨ dst.InPodCidr then interceptReport clusterId srcView dstView src dst log proto
    else { warning := none, line := none, emitted := none }

def readSlot (slot : List Byte) : SlotReport :=
  match readPacketLog e slot with
  | none =>
    { warning := some "[kprobe] Received undersized perf record, skipping"
      line := none
      emitted := none }
  | some log => reportLog e clusterId srcView dstView log

end Reader

section Reports

variable {e : Endian} {maps : EbpfMaps} {f : Frame} {src dst : Ipv4Addr} {log : PacketLog}

theorem readPacketLog_image (fill : ℕ → Byte) (rest : List Byte) :
    readPacketLog e ((PacketLog.ebpfLayout e).image fill log ++ rest) = some log := by
  rw [readPacketLog, PacketLog.layouts_agree]
  exact Layout.tryRead_image _ fill log rest

theorem ofU32_fromBe32_load32 (ip : Ipv4Addr) :
    Ipv4Addr.ofU32 (e.fromBe32 (e.load32 ip.a ip.b ip.c ip.d)) = ip := by
  rw [Endian.fromBe32_load32]
  exact ip.ofU32_toU32

theorem Frame.HasAddresses.src_dst (h : f.HasAddresses src dst)
    (hlog : log ∈ packetEvents e maps f) : log.src e = src ∧ log.dst e = dst := by
  obtain ⟨hkey, -⟩ := h.record hlog
  obtain ⟨hsrc, hdst⟩ := PacketKey.mk.inj hkey
  rw [PacketLog.src, PacketLog.dst, hsrc, hdst]
  exact ⟨ofU32_fromBe32_load32 src, ofU32_fromBe32_load32 dst⟩

theorem protoName_of_record (hlog : log ∈ packetEvents e maps f) :
    ∃ name, protoName log.proto = some name := by
  obtain ⟨hproto, -⟩ := record_loaded hlog
  rcases hproto with h | h
  · exact ⟨"TCP", by rw [h]; rfl⟩
  · exact ⟨"UDP", by rw [h]; rfl⟩

theorem resolveService_spec (view : SnapshotView) (ip : Ipv4Addr) :
    view.pods.Lists (resolveService view ip) ip ∨
      resolveService view ip = "unknown" ∧ ∀ svc, ¬ view.pods.Lists svc ip := by
  rw [resolveService]
  cases hfind : view.svcNames.find? fun svc => view.pods.Lists svc ip with
  | none =>
    refine Or.inr ⟨rfl, fun svc hsvc => ?_⟩
    have hmem : svc ∈ view.svcNames := view.names_perm.mem_iff.mpr hsvc.mem
    simpa [hsvc] using List.find?_eq_none.mp hfind svc hmem
  | some svc => exact Or.inl (by simpa using List.find?_some hfind)

theorem resolveService_lists {view : SnapshotView} {ip : Ipv4Addr}
    (h : resolveService view ip ≠ "unknown") : view.pods.Lists (resolveService view ip) ip :=
  (resolveService_spec view ip).resolve_right fun hunknown => h hunknown.1

/-- What the reader makes of a record of the classifier: it reports on the addresses of the
frame, if one of them is a pod's. -/
theorem Frame.HasAddresses.reported (h : f.HasAddresses src dst)
    (hlog : log ∈ packetEvents e maps f) (clusterId : String) (srcView dstView : SnapshotView)
    (fill : ℕ → Byte) (rest : List Byte) :
    ∃ proto, protoName log.proto = some proto ∧
      readSlot e clusterId srcView dstView ((PacketLog.ebpfLayout e).image fill log ++ rest) =
        if src.InPodCidr ∨ dst.InPodCidr then
          interceptReport clusterId srcView dstView src dst log proto
        else { warning := none, line := none, emitted := none } := by
  obtain ⟨hsrc, hdst⟩ := h.src_dst hlog
  obtain ⟨proto, hproto⟩ := protoName_of_record hlog
  refine ⟨proto, hproto, ?_⟩
  rw [readSlot, readPacketLog_image]
  simp only [reportLog, hproto, hsrc, hdst]

section Emitted

variable {clusterId proto : String} {srcView dstView : SnapshotView} {r : TelemetryRecord}

theorem eq_of_emitted
    (hr : r ∈ (interceptReport clusterId srcView dstView src dst log proto).emitted) :
    r = interceptRecord (resolveService srcView src) (resolveService dstView dst) clusterId
      log.verdict := by
  simp only [interceptReport] at hr
  split_ifs at hr
  · exact (Option.some.inj hr).symm
  · cases hr

theorem emitted_lists
    (hr : r ∈ (interceptReport clusterId srcView dstView src dst log proto).emitted) :
    (r.sourceService ≠ "unknown" → srcView.pods.Lists r.sourceService src) ∧
      (r.destinationService ≠ "unknown" → dstView.pods.Lists r.destinationService dst) := by
  rw [eq_of_emitted hr]
  exact ⟨resolveService_lists, resolveService_lists⟩

end Emitted

end Reports

/-- On hosts of either byte order: the key `sync` writes for a pair of addresses is the key the
classifier builds from a frame between them, and the verdict it records is the one at that key;
different pairs have different keys, byte for byte; the pod-CIDR test is one of two octets; and
the reader takes the frame's addresses out of the record. -/
theorem addresses_cross_boundary (e : Endian) (src dst : Ipv4Addr) :
    (∀ f, f.HasAddresses src dst → interceptKey e f = some (syncKey e src dst)) ∧
    (∀ fill fill' src' dst', src' ≠ src ∨ dst' ≠ dst →
      syncKey e src' dst' ≠ syncKey e src dst ∧
      (PacketKey.userLayout e).image fill' (syncKey e src' dst') ≠
        (PacketKey.ebpfLayout e).image fill (syncKey e src dst)) ∧
    (∀ fill, (PacketKey.userLayout e).image fill (syncKey e src dst) =
      src.octets ++ dst.octets) ∧
    ((syncKey e src dst).srcIp &&& podCidrMask e = podCidrNet e ↔ src.a = 10 ∧ src.b = 244) ∧
    ((syncKey e src dst).dstIp &&& podCidrMask e = podCidrNet e ↔ dst.a = 10 ∧ dst.b = 244) ∧
    (∀ maps f log, f.HasAddresses src dst → log ∈ packetEvents e maps f →
      { srcIp := log.srcIp, dstIp := log.dstIp : PacketKey } = syncKey e src dst ∧
      log.verdict = tcpVerdict f log.proto
        (if src.InPodCidr ∧ dst.InPodCidr then lookupVerdict maps (syncKey e src dst) else 0) ∧
      ∀ fill rest, ∃ seen,
        readPacketLog e ((PacketLog.ebpfLayout e).image fill log ++ rest) = some seen ∧
          seen.src e = src ∧ seen.dst e = dst) := by
  refine ⟨?_, ?_, ?_, syncKey_podCidr.1, syncKey_podCidr.2, ?_⟩
  · intro f hf
    rw [syncKey_eq_frameKey]
    exact hf.interceptKey
  · intro fill fill' src' dst' hne
    have hkey : syncKey e src' dst' ≠ syncKey e src dst := by
      rw [syncKey_eq_frameKey, syncKey_eq_frameKey, Ne, frameKey_inj]
      tauto
    refine ⟨hkey, fun himage => hkey ?_⟩
    rw [PacketKey.layouts_agree] at himage
    exact Layout.image_inj _ himage
  · intro fill
    rw [syncKey_eq_frameKey, PacketKey.layouts_agree]
    exact image_frameKey fill
  · intro maps f log hf hlog
    rw [syncKey_eq_frameKey]
    obtain ⟨hkey, hverdict⟩ := hf.record hlog
    exact ⟨hkey, hverdict,
      fun fill rest => ⟨log, readPacketLog_image fill rest, hf.src_dst hlog⟩⟩

/-- A connection attempt and its record on a little-endian host, its key on a big-endian one. -/
theorem syn_crosses_boundary :
    interceptKey .big (Frame.syn ⟨10, 244, 1, 5⟩ ⟨10, 244, 2, 7⟩) =
        some (syncKey .big ⟨10, 244, 1, 5⟩ ⟨10, 244, 2, 7⟩) ∧
      syncKey .little ⟨10, 244, 2, 7⟩ ⟨10, 244, 1, 5⟩ ≠
        syncKey .little ⟨10, 244, 1, 5⟩ ⟨10, 244, 2, 7⟩ ∧
      ∃ log ∈ packetEvents .little denyUnmatched (Frame.syn ⟨10, 244, 1, 5⟩ ⟨10, 244, 2, 7⟩),
        ∃ seen, readPacketLog .little
            ((PacketLog.ebpfLayout .little).image (fun _ => 0xAA) log ++ [1, 2, 3, 4]) = some seen ∧
          seen.src .little = ⟨10, 244, 1, 5⟩ ∧ seen.dst .little = ⟨10, 244, 2, 7⟩ := by
  have hsyn := Frame.syn_isSyn ⟨10, 244, 1, 5⟩ ⟨10, 244, 2, 7⟩
  obtain ⟨log, hevents, -⟩ :=
    @Frame.HasFields.record .little denyUnmatched _ _ _ _ hsyn.hasFields (Or.inl rfl)
  have hlog : log ∈ packetEvents .little denyUnmatched
      (Frame.syn ⟨10, 244, 1, 5⟩ ⟨10, 244, 2, 7⟩) := by
    rw [hevents]
    exact List.mem_singleton_self log
  have hbig := addresses_cross_boundary .big ⟨10, 244, 1, 5⟩ ⟨10, 244, 2, 7⟩
  have hlittle := addresses_cross_boundary .little ⟨10, 244, 1, 5⟩ ⟨10, 244, 2, 7⟩
  refine ⟨hbig.1 _ ⟨hsyn.source, hsyn.destination⟩, ?_, log, hlog, ?_⟩
  · exact (hlittle.2.1 (fun _ => 0) (fun _ => 0) _ _ (Or.inl (by decide))).1
  · exact (hlittle.2.2.2.2.2 denyUnmatched _ log ⟨hsyn.source, hsyn.destination⟩ hlog).2.2 _ _

end Meshlite.Kprobe
