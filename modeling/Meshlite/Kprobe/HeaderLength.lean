import Meshlite.Kprobe.Packet

/-!
# IPv4 options and the classifier

The classifier reads the TCP flags at offset 47, where they stand after an IPv4 header
of 20 bytes. With options the TCP header moves on and the byte read is another one.
-/

namespace Meshlite.Kprobe

namespace Frame

/-- An Ethernet frame with an unfragmented IPv4 packet, its header `ihl` words long,
complete to the end of the 20 bytes that every TCP header has. -/
structure IsTcp (f : Frame) (ihl : ℕ) (src dst : Ipv4Addr) : Prop where
  ethertype : f[12]? = some 0x08 ∧ f[13]? = some 0x00
  ihl_mem : 5 ≤ ihl ∧ ihl ≤ 15
  versionIhl : f[14]? = some (BitVec.ofNat 8 (0x40 + ihl))
  /-- more-fragments clear, fragment offset zero -/
  unfragmented : ∃ flags, f[20]? = some flags ∧ flags &&& 0x3F = 0 ∧ f[21]? = some 0x00
  protocol : f[23]? = some 6
  source : f[26]? = some src.a ∧ f[27]? = some src.b ∧ f[28]? = some src.c ∧ f[29]? = some src.d
  destination :
    f[30]? = some dst.a ∧ f[31]? = some dst.b ∧ f[32]? = some dst.c ∧ f[33]? = some dst.d
  tcpHeader : 14 + 4 * ihl + 20 ≤ f.length

/-- Where the flags of the TCP header are. -/
def tcpFlagsOffset (ihl : ℕ) : ℕ := 14 + 4 * ihl + 13

/-- The byte at this offset has the SYN bit set and the ACK bit clear. -/
def SynAt (f : Frame) (off : ℕ) : Prop :=
  ∃ flags : Byte, f[off]? = some flags ∧ flags.getLsbD 1 = true ∧ flags.getLsbD 4 = false

variable {e : Endian} {maps : EbpfMaps} {f : Frame} {ihl : ℕ} {src dst : Ipv4Addr}

theorem IsTcp.hasFields (h : f.IsTcp ihl src dst) : f.HasFields 6 src dst where
  ethertype := h.ethertype
  protocol := h.protocol
  source := h.source
  destination := h.destination
  ports := by
    have hlen := h.tcpHeader
    have hihl := h.ihl_mem
    omega

theorem tcpVerdict_denied : tcpVerdict f 6 1 = 1 ↔ f.SynAt 47 := by
  rw [tcpVerdict, if_pos ⟨rfl, rfl⟩, SynAt, loadU8]
  cases f[47]? with
  | none => simp
  | some flags =>
    simp only [Option.some.injEq, exists_eq_left', ← syn_flags_iff]
    split_ifs with h
    · exact iff_of_true rfl h
    · exact iff_of_false (by decide) h

end Frame

/-- A TCP frame of a denied pair is dropped just when its byte 47 shows SYN without ACK;
with the 20-byte header the offset is meant for, that byte is the TCP flags. -/
theorem denied_tcp_dropped_iff (e : Endian) (maps : EbpfMaps) (f : Frame) (ihl : ℕ)
    (src dst : Ipv4Addr) (h : f.IsTcp ihl src dst) (hs : src.InPodCidr) (hd : dst.InPodCidr)
    (hdenied : lookupVerdict maps (frameKey e src dst) = 1) :
    (Drops e maps f ↔ f.SynAt 47) ∧
      (ihl = 5 → (Drops e maps f ↔ f.SynAt (Frame.tcpFlagsOffset ihl))) := by
  have hdrops : Drops e maps f ↔ f.SynAt 47 := by
    rw [Drops, h.hasFields.action (Or.inl rfl), Frame.pairVerdict_frameKey hs hd, hdenied,
      Option.some.injEq, ← Frame.tcpVerdict_denied]
    split_ifs with hv
    · exact iff_of_true rfl hv
    · exact iff_of_false (by decide) hv
  refine ⟨hdrops, ?_⟩
  rintro rfl
  exact hdrops

/-- Nothing in the map, deny by default. -/
def denyUnmatched : EbpfMaps where
  verdictMap := ∅
  policyFlags := 0

theorem syn_dropped :
    Drops .little denyUnmatched (Frame.syn ⟨10, 244, 1, 5⟩ ⟨10, 244, 2, 7⟩) :=
  ((denied_tcp_dropped_iff .little denyUnmatched (Frame.syn ⟨10, 244, 1, 5⟩ ⟨10, 244, 2, 7⟩) 5
    ⟨10, 244, 1, 5⟩ ⟨10, 244, 2, 7⟩
    { ethertype := ⟨rfl, rfl⟩
      ihl_mem := by decide
      versionIhl := rfl
      unfragmented := ⟨0x40, rfl, by decide, rfl⟩
      protocol := rfl
      source := ⟨rfl, rfl, rfl, rfl⟩
      destination := ⟨rfl, rfl, rfl, rfl⟩
      tcpHeader := by decide } (by decide) (by decide) rfl).2 rfl).mpr ⟨0x02, rfl, rfl, rfl⟩

/-- A connection attempt behind one word of options: SYN is at 51, a zero byte of the
acknowledgement number at 47. -/
def optionSyn (src dst : Ipv4Addr) : Frame :=
  List.replicate 12 0 ++ [0x08, 0x00] ++
  [0x46, 0, 0, 44, 0, 0, 0x40, 0, 64, 6, 0, 0] ++
  [src.a, src.b, src.c, src.d, dst.a, dst.b, dst.c, dst.d] ++
  [0x01, 0x01, 0x01, 0x00] ++
  [0x9C, 0x40, 0x1F, 0x90, 0, 0, 0, 1, 0, 0, 0, 0, 0x50, 0x02, 0xFF, 0xFF, 0, 0, 0, 0]

theorem optionSyn_passes :
    ¬ ∀ (e : Endian) (maps : EbpfMaps) (f : Frame) (ihl : ℕ) (src dst : Ipv4Addr),
      f.IsTcp ihl src dst → src.InPodCidr → dst.InPodCidr →
      lookupVerdict maps (frameKey e src dst) = 1 →
      (Drops e maps f ↔ f.SynAt (Frame.tcpFlagsOffset ihl)) := by
  intro h
  have hdrops := (h .little denyUnmatched (optionSyn ⟨10, 244, 1, 5⟩ ⟨10, 244, 2, 7⟩) 6
    ⟨10, 244, 1, 5⟩ ⟨10, 244, 2, 7⟩
    { ethertype := ⟨rfl, rfl⟩
      ihl_mem := by decide
      versionIhl := rfl
      unfragmented := ⟨0x40, rfl, by decide, rfl⟩
      protocol := rfl
      source := ⟨rfl, rfl, rfl, rfl⟩
      destination := ⟨rfl, rfl, rfl, rfl⟩
      tcpHeader := by decide } (by decide) (by decide) rfl).mpr ⟨0x02, rfl, rfl, rfl⟩
  exact absurd hdrops (by decide)

end Meshlite.Kprobe
