import Meshlite.Library.BoundedMap
import Meshlite.Library.Endian

/-!
# The eBPF classifier

`try_intercept` reads fixed offsets of an Ethernet frame, looks the address pair
up in `VERDICT_MAP`, and falls back to `POLICY_FLAGS[0]`. Loads are native, so
every value it reads depends on the byte order `e` of the host.
-/

namespace Meshlite.Kprobe

def tcActOk : ℤ := 0

def tcActShot : ℤ := 2

/-- The bytes of a frame, from the Ethernet destination address on. -/
abbrev Frame := List Byte

/-- An IPv4 address by its octets. -/
@[ext] structure Ipv4Addr where
  a : Byte
  b : Byte
  c : Byte
  d : Byte
  deriving DecidableEq, Repr

/-- `u32::from(ip)`: the first octet is the most significant. -/
def Ipv4Addr.toU32 (ip : Ipv4Addr) : BitVec 32 := Endian.word32 ip.a ip.b ip.c ip.d

/-- Membership of 10.244.0.0/16. -/
def Ipv4Addr.InPodCidr (ip : Ipv4Addr) : Prop := ip.a = 10 ∧ ip.b = 244

instance (ip : Ipv4Addr) : Decidable ip.InPodCidr := inferInstanceAs (Decidable (_ ∧ _))

/-- Both fields are in network byte order. -/
structure PacketKey where
  srcIp : BitVec 32
  dstIp : BitVec 32
  deriving DecidableEq, Repr

structure PacketLog where
  srcIp : BitVec 32
  dstIp : BitVec 32
  srcPort : BitVec 16
  dstPort : BitVec 16
  proto : Byte
  verdict : Byte
  deriving DecidableEq, Repr

/-- The maps shared with userspace. `POLICY_FLAGS` has one entry, which always exists. -/
structure EbpfMaps where
  verdictMap : BoundedMap.Table PacketKey Byte
  policyFlags : BitVec 32

section Load

variable (e : Endian) (f : Frame) (off : ℕ)

/-- `ctx.load::<u8>(off)`. -/
def loadU8 : Option Byte := f[off]?

def loadU16 : Option (BitVec 16) := do
  return e.load16 (← f[off]?) (← f[off + 1]?)

def loadU32 : Option (BitVec 32) := do
  return e.load32 (← f[off]?) (← f[off + 1]?) (← f[off + 2]?) (← f[off + 3]?)

variable {e f off} in
theorem loadU32_eq_some {a b c d : Byte} (h : f[off]? = some a ∧ f[off + 1]? = some b ∧
    f[off + 2]? = some c ∧ f[off + 3]? = some d) : loadU32 e f off = some (e.load32 a b c d) := by
  simp [loadU32, h]

end Load

def podCidrNet (e : Endian) : BitVec 32 := e.toBe32 0x0AF40000

def podCidrMask (e : Endian) : BitVec 32 := e.toBe32 0xFFFF0000

/-- `VERDICT_MAP.get(&key)`, or the default of an unmatched pair. -/
def lookupVerdict (maps : EbpfMaps) (key : PacketKey) : Byte :=
  match maps.verdictMap.lookup key with
  | some v => v
  | none => if maps.policyFlags = 0 then 1 else 0

/-- Step 5: a verdict for pod-to-pod traffic, 0 for everything else. -/
def pairVerdict (e : Endian) (maps : EbpfMaps) (srcIp dstIp : BitVec 32) : Byte :=
  if srcIp &&& podCidrMask e = podCidrNet e ∧ dstIp &&& podCidrMask e = podCidrNet e then
    lookupVerdict maps { srcIp, dstIp }
  else 0

/-- Step 5b: a denied TCP segment is let through unless it opens a connection. -/
def tcpVerdict (f : Frame) (proto verdict : Byte) : Byte :=
  if proto = 6 ∧ verdict = 1 then
    match loadU8 f 47 with
    | some tcpFlags => if tcpFlags &&& 0x12 = 0x02 then 1 else 0
    | none => 0
  else verdict

/-- The action and the log record of a frame; `none` is the error of a failed load. -/
def tryIntercept (e : Endian) (maps : EbpfMaps) (f : Frame) : Option (ℤ × Option PacketLog) := do
  let ethertype ← loadU16 e f 12
  if ethertype ≠ e.toBe16 0x0800 then return (tcActOk, none)
  let proto ← loadU8 f 23
  if proto ≠ 6 ∧ proto ≠ 17 then return (tcActOk, none)
  let srcIp ← loadU32 e f 26
  let dstIp ← loadU32 e f 30
  let srcPortBe ← loadU16 e f 34
  let dstPortBe ← loadU16 e f 36
  let verdict := tcpVerdict f proto (pairVerdict e maps srcIp dstIp)
  let action := if verdict = 1 then tcActShot else tcActOk
  let log : PacketLog :=
    { srcIp, dstIp, srcPort := e.toBe16 srcPortBe, dstPort := e.toBe16 dstPortBe, proto, verdict }
  return (action, some log)

/-- The classifier passes every frame `tryIntercept` fails on. -/
def kprobeEgress (e : Endian) (maps : EbpfMaps) (f : Frame) : ℤ :=
  match tryIntercept e maps f with
  | some (action, _) => action
  | none => tcActOk

/-- `try_intercept` drops the frame. -/
def Drops (e : Endian) (maps : EbpfMaps) (f : Frame) : Prop :=
  (tryIntercept e maps f).map Prod.fst = some tcActShot

instance (e : Endian) (maps : EbpfMaps) (f : Frame) : Decidable (Drops e maps f) :=
  inferInstanceAs (Decidable (_ = _))

theorem drops_iff_kprobeEgress {e : Endian} {maps : EbpfMaps} {f : Frame} :
    Drops e maps f ↔ kprobeEgress e maps f = tcActShot := by
  unfold Drops kprobeEgress
  cases tryIntercept e maps f with
  | none => decide
  | some p => simp

namespace Frame

/-- An Ethernet frame with a 20-byte IPv4 header and both ports. -/
structure IsIpv4 (f : Frame) (proto : Byte) (src dst : Ipv4Addr) : Prop where
  ethertype : f[12]? = some 0x08 ∧ f[13]? = some 0x00
  versionIhl : f[14]? = some 0x45
  protocol : f[23]? = some proto
  source : f[26]? = some src.a ∧ f[27]? = some src.b ∧ f[28]? = some src.c ∧ f[29]? = some src.d
  destination :
    f[30]? = some dst.a ∧ f[31]? = some dst.b ∧ f[32]? = some dst.c ∧ f[33]? = some dst.d
  ports : 38 ≤ f.length

/-- A TCP segment with SYN (bit 1) set and ACK (bit 4) clear: a new connection attempt. -/
structure IsSyn (f : Frame) (src dst : Ipv4Addr) : Prop extends IsIpv4 f 6 src dst where
  flags : ∃ flags : Byte, f[47]? = some flags ∧ flags.getLsbD 1 = true ∧ flags.getLsbD 4 = false

structure IsUdp (f : Frame) (src dst : Ipv4Addr) : Prop extends IsIpv4 f 17 src dst

/-- A minimal connection attempt: Ethernet, IPv4 and TCP headers, no payload. -/
def syn (src dst : Ipv4Addr) : Frame :=
  List.replicate 12 0 ++ [0x08, 0x00] ++
  [0x45, 0, 0, 40, 0, 0, 0x40, 0, 64, 6, 0, 0] ++
  [src.a, src.b, src.c, src.d, dst.a, dst.b, dst.c, dst.d] ++
  [0x9C, 0x40, 0x1F, 0x90, 0, 0, 0, 1, 0, 0, 0, 0, 0x50, 0x02, 0xFF, 0xFF, 0, 0, 0, 0]

theorem syn_isSyn (src dst : Ipv4Addr) : (syn src dst).IsSyn src dst where
  ethertype := ⟨rfl, rfl⟩
  versionIhl := rfl
  protocol := rfl
  source := ⟨rfl, rfl, rfl, rfl⟩
  destination := ⟨rfl, rfl, rfl, rfl⟩
  ports := by simp [syn]
  flags := ⟨0x02, rfl, rfl, rfl⟩

/-- The frames that a denied pair loses: connection attempts and datagrams. -/
def Opens (f : Frame) (src dst : Ipv4Addr) : Prop := f.IsSyn src dst ∨ f.IsUdp src dst

end Frame

/-- The key of an address pair, as a frame between the two carries it. -/
def frameKey (e : Endian) (src dst : Ipv4Addr) : PacketKey where
  srcIp := e.load32 src.a src.b src.c src.d
  dstIp := e.load32 dst.a dst.b dst.c dst.d

theorem frameKey_inj {e : Endian} {src dst src' dst' : Ipv4Addr} :
    frameKey e src dst = frameKey e src' dst' ↔ src = src' ∧ dst = dst' := by
  simp only [frameKey, PacketKey.mk.injEq, Endian.load32_inj, Ipv4Addr.ext_iff]

theorem podCidr_iff (e : Endian) (ip : Ipv4Addr) :
    e.load32 ip.a ip.b ip.c ip.d &&& podCidrMask e = podCidrNet e ↔ ip.InPodCidr := by
  have hmask : podCidrMask e = e.load32 0xFF 0xFF 0 0 := e.toBe32_word32 0xFF 0xFF 0 0
  have hnet : podCidrNet e = e.load32 10 244 0 0 := e.toBe32_word32 10 244 0 0
  have hones : ∀ x : Byte, x &&& 0xFF = x := by decide
  have hzero : ∀ x : Byte, x &&& 0 = 0 := by decide
  rw [hmask, hnet, Endian.load32_and, Endian.load32_inj, hones, hones, hzero, hzero]
  simp [Ipv4Addr.InPodCidr]

theorem syn_flags_iff (flags : Byte) :
    flags &&& 0x12 = 0x02 ↔ flags.getLsbD 1 = true ∧ flags.getLsbD 4 = false := by
  revert flags
  decide

namespace Frame

variable {e : Endian} {maps : EbpfMaps} {f : Frame} {proto : Byte} {src dst : Ipv4Addr}

/-- The fields the classifier loads, wherever the transport header starts. -/
structure HasFields (f : Frame) (proto : Byte) (src dst : Ipv4Addr) : Prop where
  ethertype : f[12]? = some 0x08 ∧ f[13]? = some 0x00
  protocol : f[23]? = some proto
  source : f[26]? = some src.a ∧ f[27]? = some src.b ∧ f[28]? = some src.c ∧ f[29]? = some src.d
  destination :
    f[30]? = some dst.a ∧ f[31]? = some dst.b ∧ f[32]? = some dst.c ∧ f[33]? = some dst.d
  ports : 38 ≤ f.length

theorem IsIpv4.hasFields (h : f.IsIpv4 proto src dst) : f.HasFields proto src dst where
  ethertype := h.ethertype
  protocol := h.protocol
  source := h.source
  destination := h.destination
  ports := h.ports

/-- What the classifier answers for a complete TCP or UDP frame. -/
theorem HasFields.result (h : f.HasFields proto src dst) (hp : proto = 6 ∨ proto = 17) :
    ∃ log : PacketLog,
      log.verdict = tcpVerdict f proto (pairVerdict e maps (frameKey e src dst).srcIp
        (frameKey e src dst).dstIp) ∧
      tryIntercept e maps f =
        some (if log.verdict = 1 then tcActShot else tcActOk, some log) := by
  have hether : loadU16 e f 12 = some (e.toBe16 0x0800) := by
    rw [show (0x0800 : BitVec 16) = Endian.word16 0x08 0x00 from by decide, Endian.toBe16_word16]
    simp [loadU16, h.ethertype]
  have hproto : loadU8 f 23 = some proto := h.protocol
  have hsrc : loadU32 e f 26 = some (frameKey e src dst).srcIp := loadU32_eq_some h.source
  have hdst : loadU32 e f 30 = some (frameKey e src dst).dstIp := loadU32_eq_some h.destination
  have hlen := h.ports
  obtain ⟨sport, hsport⟩ : ∃ p, loadU16 e f 34 = some p := by
    simp [loadU16, show 34 < f.length by omega, show 35 < f.length by omega]
  obtain ⟨dport, hdport⟩ : ∃ p, loadU16 e f 36 = some p := by
    simp [loadU16, show 36 < f.length by omega, show 37 < f.length by omega]
  have hnot : ¬ (proto ≠ 6 ∧ proto ≠ 17) := by tauto
  refine ⟨
    { srcIp := (frameKey e src dst).srcIp
      dstIp := (frameKey e src dst).dstIp
      srcPort := e.toBe16 sport
      dstPort := e.toBe16 dport
      proto
      verdict := tcpVerdict f proto (pairVerdict e maps (frameKey e src dst).srcIp
        (frameKey e src dst).dstIp) }, rfl, ?_⟩
  simp only [tryIntercept, hether, hproto, hsrc, hdst, hsport, hdport, Option.bind_eq_bind,
    Option.bind_some, ne_eq, not_true_eq_false, ↓reduceIte, hnot, Option.pure_def]

theorem HasFields.action (h : f.HasFields proto src dst) (hp : proto = 6 ∨ proto = 17) :
    (tryIntercept e maps f).map Prod.fst =
      some (if tcpVerdict f proto (pairVerdict e maps (frameKey e src dst).srcIp
        (frameKey e src dst).dstIp) = 1 then tcActShot else tcActOk) := by
  obtain ⟨log, hverdict, hresult⟩ := @HasFields.result e maps _ _ _ _ h hp
  rw [hresult, hverdict]
  rfl

theorem IsIpv4.action (h : f.IsIpv4 proto src dst) (hp : proto = 6 ∨ proto = 17) :
    (tryIntercept e maps f).map Prod.fst =
      some (if tcpVerdict f proto (pairVerdict e maps (frameKey e src dst).srcIp
        (frameKey e src dst).dstIp) = 1 then tcActShot else tcActOk) :=
  h.hasFields.action hp

theorem pairVerdict_frameKey (hs : src.InPodCidr) (hd : dst.InPodCidr) :
    pairVerdict e maps (frameKey e src dst).srcIp (frameKey e src dst).dstIp =
      lookupVerdict maps (frameKey e src dst) :=
  if_pos ⟨(podCidr_iff e src).mpr hs, (podCidr_iff e dst).mpr hd⟩

/-- Between pod addresses, an opening frame is dropped exactly on verdict 1. -/
theorem Opens.drops_iff (h : f.Opens src dst) (hs : src.InPodCidr) (hd : dst.InPodCidr) :
    Drops e maps f ↔ lookupVerdict maps (frameKey e src dst) = 1 := by
  have hverdict : ∃ proto, f.IsIpv4 proto src dst ∧ (proto = 6 ∨ proto = 17) ∧
      ∀ v, tcpVerdict f proto v = 1 ↔ v = 1 := by
    rcases h with h | h
    · obtain ⟨flags, hload, hbits⟩ := h.flags
      refine ⟨6, h.toIsIpv4, Or.inl rfl, fun v => ?_⟩
      by_cases hv : v = 1
      · rw [tcpVerdict, if_pos ⟨rfl, hv⟩, loadU8, hload]
        simp only [(syn_flags_iff flags).mpr hbits, ↓reduceIte, hv]
      · rw [tcpVerdict, if_neg fun h => hv h.2]
    · refine ⟨17, h.toIsIpv4, Or.inr rfl, fun v => ?_⟩
      rw [tcpVerdict, if_neg fun h => absurd h.1 (by decide)]
  obtain ⟨proto, hip, hp, htcp⟩ := hverdict
  rw [Drops, hip.action hp, pairVerdict_frameKey hs hd, Option.some.injEq]
  simp only [htcp]
  split_ifs with hv
  · exact iff_of_true rfl hv
  · exact iff_of_false (by decide) hv

end Frame

end Meshlite.Kprobe
