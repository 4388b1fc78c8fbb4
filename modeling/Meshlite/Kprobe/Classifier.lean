import Meshlite.Kprobe.HeaderLength

/-!
# What the classifier does with any frame

A frame of any length ends in one of three ways: a load fails and it passes unseen, it is
not TCP or UDP over IPv4 and passes unseen, or all fields are there and one record says
whether it was dropped.
-/

namespace Meshlite.Kprobe

/-- The records `PACKET_EVENTS.output` writes for the frame. -/
def packetEvents (e : Endian) (maps : EbpfMaps) (f : Frame) : List PacketLog :=
  ((tryIntercept e maps f).bind Prod.snd).toList

/-- The pair maps to 1, or is absent while the flag says to deny what is unmatched. -/
def EbpfMaps.Denies (maps : EbpfMaps) (key : PacketKey) : Prop :=
  maps.verdictMap.lookup key = some 1 ∨ maps.verdictMap.lookup key = none ∧ maps.policyFlags = 0

theorem lookupVerdict_eq_one {maps : EbpfMaps} {key : PacketKey} :
    lookupVerdict maps key = 1 ↔ maps.Denies key := by
  rw [lookupVerdict, EbpfMaps.Denies]
  cases maps.verdictMap.lookup key with
  | none => simp
  | some v => simp

namespace Frame

/-- The EtherType is IPv4. -/
def IsEther (f : Frame) : Prop := f[12]? = some 0x08 ∧ f[13]? = some 0x00

/-- The protocol byte is TCP's or UDP's. -/
def IsTransport (f : Frame) : Prop := ∃ proto, f[23]? = some proto ∧ (proto = 6 ∨ proto = 17)

/-- One of the loads before the verdict is past the end of the frame. Those after the
EtherType are made only for IPv4, those after the protocol only for TCP and UDP. -/
def FailsLoad (f : Frame) : Prop :=
  f.length < 14 ∨ f.IsEther ∧ (f.length < 24 ∨ f.IsTransport ∧ f.length < 38)

variable {e : Endian} {maps : EbpfMaps} {f : Frame} {proto : Byte} {src dst : Ipv4Addr}

section Loads

variable {off : ℕ}

theorem loadU16_eq_none : loadU16 e f off = none ↔ f.length < off + 2 := by
  by_cases h : off + 1 < f.length
  · simp [loadU16, h, show off < f.length by omega]
    omega
  · simp [loadU16, show f[off + 1]? = none by simpa using h]
    omega

theorem loadU16_ethertype : loadU16 e f 12 = some (e.toBe16 0x0800) ↔ f.IsEther := by
  rw [show (0x0800 : BitVec 16) = Endian.word16 0x08 0x00 from by decide, Endian.toBe16_word16]
  cases h12 : f[12]? <;> cases h13 : f[13]? <;>
    simp [loadU16, IsEther, h12, h13, Endian.load16_inj]

end Loads

theorem tryIntercept_of_not_isEther (hlen : 14 ≤ f.length) (h : ¬ f.IsEther) :
    tryIntercept e maps f = some (tcActOk, none) := by
  obtain ⟨ethertype, hload⟩ : ∃ w, loadU16 e f 12 = some w :=
    Option.ne_none_iff_exists'.mp fun hnone => absurd (loadU16_eq_none.mp hnone) (by omega)
  have hne : ethertype ≠ e.toBe16 0x0800 := by
    rintro rfl
    exact h (loadU16_ethertype.mp hload)
  rw [tryIntercept, hload, Option.bind_eq_bind, Option.bind_some]
  exact if_pos hne

theorem tryIntercept_of_isEther (h : f.IsEther) :
    tryIntercept e maps f = (loadU8 f 23).bind fun proto =>
      if proto ≠ 6 ∧ proto ≠ 17 then some (tcActOk, none)
      else (do
        let srcIp ← loadU32 e f 26
        let dstIp ← loadU32 e f 30
        let srcPortBe ← loadU16 e f 34
        let dstPortBe ← loadU16 e f 36
        let verdict := tcpVerdict f proto (pairVerdict e maps srcIp dstIp)
        return (if verdict = 1 then tcActShot else tcActOk, some
          { srcIp, dstIp, srcPort := e.toBe16 srcPortBe, dstPort := e.toBe16 dstPortBe, proto,
            verdict })) := by
  simp only [tryIntercept, loadU16_ethertype.mpr h, Option.bind_eq_bind, Option.bind_some, ne_eq,
    not_true_eq_false, ↓reduceIte, Option.pure_def]

theorem exists_byte {n i : ℕ} (hlen : n ≤ f.length) (hi : i < n) : ∃ b, loadU8 f i = some b :=
  ⟨_, List.getElem?_eq_getElem (hi.trans_le hlen)⟩

theorem tryIntercept_of_not_isTransport (hether : f.IsEther) (hlen : 24 ≤ f.length)
    (h : ¬ f.IsTransport) : tryIntercept e maps f = some (tcActOk, none) := by
  obtain ⟨proto, hload⟩ := exists_byte hlen (show 23 < 24 by decide)
  have hother : ¬ (proto = 6 ∨ proto = 17) := fun hp => h ⟨proto, hload, hp⟩
  rw [tryIntercept_of_isEther hether, hload, Option.bind_some, if_pos (not_or.mp hother)]

theorem tryIntercept_of_failsLoad (h : f.FailsLoad) : tryIntercept e maps f = none := by
  rcases h with hlen | ⟨hether, hlen | ⟨⟨proto, hproto, hp⟩, hlen⟩⟩
  · have hload : loadU16 e f 12 = none := loadU16_eq_none.mpr hlen
    simp [tryIntercept, hload]
  · have hload : loadU8 f 23 = none := List.getElem?_eq_none (by omega)
    rw [tryIntercept_of_isEther hether, hload]
    rfl
  · have hnot : ¬ (proto ≠ 6 ∧ proto ≠ 17) := by tauto
    have hload : loadU8 f 23 = some proto := hproto
    have hport : loadU16 e f 36 = none := loadU16_eq_none.mpr hlen
    rw [tryIntercept_of_isEther hether, hload, Option.bind_some, if_neg hnot, hport]
    cases loadU32 e f 26 <;> cases loadU32 e f 30 <;> cases loadU16 e f 34 <;> rfl

theorem exists_hasFields (hether : f.IsEther) (htransport : f.IsTransport) (hlen : 38 ≤ f.length) :
    ∃ proto src dst, f.HasFields proto src dst ∧ (proto = 6 ∨ proto = 17) := by
  obtain ⟨proto, hproto, hp⟩ := htransport
  obtain ⟨s0, hs0⟩ := exists_byte hlen (show 26 < 38 by decide)
  obtain ⟨s1, hs1⟩ := exists_byte hlen (show 27 < 38 by decide)
  obtain ⟨s2, hs2⟩ := exists_byte hlen (show 28 < 38 by decide)
  obtain ⟨s3, hs3⟩ := exists_byte hlen (show 29 < 38 by decide)
  obtain ⟨d0, hd0⟩ := exists_byte hlen (show 30 < 38 by decide)
  obtain ⟨d1, hd1⟩ := exists_byte hlen (show 31 < 38 by decide)
  obtain ⟨d2, hd2⟩ := exists_byte hlen (show 32 < 38 by decide)
  obtain ⟨d3, hd3⟩ := exists_byte hlen (show 33 < 38 by decide)
  exact ⟨proto, ⟨s0, s1, s2, s3⟩, ⟨d0, d1, d2, d3⟩,
    ⟨hether, hproto, ⟨hs0, hs1, hs2, hs3⟩, ⟨hd0, hd1, hd2, hd3⟩, hlen⟩, hp⟩

/-- The verdict on complete fields: denied between pods, and for TCP only on opening. -/
theorem verdict_eq_one (hp : proto = 6 ∨ proto = 17) :
    tcpVerdict f proto (pairVerdict e maps (frameKey e src dst).srcIp (frameKey e src dst).dstIp) =
        1 ↔
      src.InPodCidr ∧ dst.InPodCidr ∧ maps.Denies (frameKey e src dst) ∧
        (proto = 6 → f.SynAt 47) := by
  have hpair : pairVerdict e maps (frameKey e src dst).srcIp (frameKey e src dst).dstIp = 1 ↔
      src.InPodCidr ∧ dst.InPodCidr ∧ maps.Denies (frameKey e src dst) := by
    by_cases hcidr : src.InPodCidr ∧ dst.InPodCidr
    · rw [pairVerdict_frameKey hcidr.1 hcidr.2, lookupVerdict_eq_one]
      simp [hcidr]
    · have hnot : ¬ (e.load32 src.a src.b src.c src.d &&& podCidrMask e = podCidrNet e ∧
          e.load32 dst.a dst.b dst.c dst.d &&& podCidrMask e = podCidrNet e) := by
        rw [podCidr_iff, podCidr_iff]
        exact hcidr
      rw [pairVerdict, frameKey, if_neg hnot]
      refine iff_of_false (by decide) fun h => hcidr ⟨h.1, h.2.1⟩
  rw [← and_assoc, ← and_assoc, and_assoc (a := src.InPodCidr), ← hpair]
  rcases hp with rfl | rfl
  · by_cases hv : pairVerdict e maps (frameKey e src dst).srcIp (frameKey e src dst).dstIp = 1
    · rw [hv, tcpVerdict_denied]
      simp
    · rw [tcpVerdict, if_neg fun h => hv h.2]
      tauto
  · rw [tcpVerdict, if_neg fun h => absurd h.1 (by decide)]
    simp

theorem HasFields.record (h : f.HasFields proto src dst) (hp : proto = 6 ∨ proto = 17) :
    ∃ log, packetEvents e maps f = [log] ∧ (log.verdict = 1 ↔ Drops e maps f) ∧
      (Drops e maps f ↔ src.InPodCidr ∧ dst.InPodCidr ∧ maps.Denies (frameKey e src dst) ∧
        (proto = 6 → f.SynAt 47)) := by
  obtain ⟨log, hverdict, hresult⟩ := @HasFields.result e maps _ _ _ _ h hp
  have hdrops : Drops e maps f ↔ log.verdict = 1 := by
    rw [Drops, hresult, Option.map_some, Option.some.injEq]
    split_ifs with hv
    · exact iff_of_true rfl hv
    · exact iff_of_false (show tcActOk ≠ tcActShot by decide) hv
  refine ⟨log, ?_, hdrops.symm, ?_⟩
  · rw [packetEvents, hresult]
    rfl
  · rw [hdrops, hverdict]
    exact verdict_eq_one hp

variable (e maps f) in
theorem outcome_cases : (f.FailsLoad ∧ tryIntercept e maps f = none) ∨
    (¬ (f.IsEther ∧ f.IsTransport) ∧ tryIntercept e maps f = some (tcActOk, none)) ∨
    (38 ≤ f.length ∧ ∃ proto src dst, f.HasFields proto src dst ∧ (proto = 6 ∨ proto = 17)) := by
  by_cases hfails : f.FailsLoad
  · exact Or.inl ⟨hfails, tryIntercept_of_failsLoad hfails⟩
  simp only [FailsLoad, not_or, not_and, not_lt] at hfails
  obtain ⟨hlen, hloads⟩ := hfails
  by_cases hether : f.IsEther
  · obtain ⟨hlen, hports⟩ := hloads hether
    by_cases htransport : f.IsTransport
    · have hlen := hports htransport
      exact Or.inr (Or.inr ⟨hlen, exists_hasFields hether htransport hlen⟩)
    · exact Or.inr (Or.inl ⟨fun h => htransport h.2,
        tryIntercept_of_not_isTransport hether hlen htransport⟩)
  · exact Or.inr (Or.inl ⟨fun h => hether h.1, tryIntercept_of_not_isEther hlen hether⟩)

end Frame

/-- Any frame, under any content of the maps. It is dropped exactly if all fields are there,
both addresses are pods', the pair is denied and, for TCP, the frame opens a connection. It
passes without a record if a load fails; any other TCP or UDP frame leaves one record, whose
verdict says whether it was dropped. -/
theorem classifier_spec (e : Endian) (maps : EbpfMaps) (f : Frame) :
    (Drops e maps f ↔ ∃ proto src dst, f.HasFields proto src dst ∧ (proto = 6 ∨ proto = 17) ∧
      src.InPodCidr ∧ dst.InPodCidr ∧ maps.Denies (frameKey e src dst) ∧
      (proto = 6 → f.SynAt 47)) ∧
    (f.FailsLoad → tryIntercept e maps f = none ∧ kprobeEgress e maps f = tcActOk ∧
      packetEvents e maps f = []) ∧
    (f.IsEther → f.IsTransport → ¬ f.FailsLoad →
      ∃ log, packetEvents e maps f = [log] ∧ (log.verdict = 1 ↔ Drops e maps f)) := by
  refine ⟨⟨?_, ?_⟩, ?_, ?_⟩
  · intro hdrops
    rcases f.outcome_cases e maps with ⟨-, hnone⟩ | ⟨-, hpass⟩ | ⟨-, proto, src, dst, hfields, hp⟩
    · rw [Drops, hnone] at hdrops
      cases hdrops
    · rw [Drops, hpass] at hdrops
      exact absurd (Option.some.inj hdrops) (by decide)
    · obtain ⟨log, -, -, hdrops_iff⟩ := @Frame.HasFields.record e maps _ _ _ _ hfields hp
      exact ⟨proto, src, dst, hfields, hp, hdrops_iff.mp hdrops⟩
  · rintro ⟨proto, src, dst, hfields, hp, hdenied⟩
    obtain ⟨log, -, -, hdrops⟩ := @Frame.HasFields.record e maps _ _ _ _ hfields hp
    exact hdrops.mpr hdenied
  · intro hfails
    have hnone : tryIntercept e maps f = none := Frame.tryIntercept_of_failsLoad hfails
    rw [kprobeEgress, packetEvents, hnone]
    exact ⟨rfl, rfl, rfl⟩
  · intro hether htransport hloads
    rcases f.outcome_cases e maps with ⟨hfails, -⟩ | ⟨hnot, -⟩ | ⟨-, proto, src, dst, hfields, hp⟩
    · exact absurd hfails hloads
    · exact absurd ⟨hether, htransport⟩ hnot
    · obtain ⟨log, hevents, hverdict, -⟩ := @Frame.HasFields.record e maps _ _ _ _ hfields hp
      exact ⟨log, hevents, hverdict⟩

/-- A connection attempt between pods that nothing allows is dropped and recorded. -/
theorem syn_recorded : ∃ log,
    packetEvents .little denyUnmatched (Frame.syn ⟨10, 244, 1, 5⟩ ⟨10, 244, 2, 7⟩) = [log] ∧
      (log.verdict = 1 ↔
        Drops .little denyUnmatched (Frame.syn ⟨10, 244, 1, 5⟩ ⟨10, 244, 2, 7⟩)) := by
  refine (classifier_spec .little denyUnmatched (Frame.syn ⟨10, 244, 1, 5⟩ ⟨10, 244, 2, 7⟩)).2.2
    ⟨rfl, rfl⟩ ⟨6, rfl, Or.inl rfl⟩ ?_
  rintro (hlen | ⟨-, hlen | ⟨-, hlen⟩⟩)
  · exact absurd hlen (by decide)
  · exact absurd hlen (by decide)
  · exact absurd hlen (by decide)

end Meshlite.Kprobe
