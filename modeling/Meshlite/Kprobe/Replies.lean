import Meshlite.Kprobe.Enforcement

/-!
# Replies of an allowed flow

The classifier keeps no connections. A TCP reply shows by its ACK flag that it opens
nothing and passes whatever the policy says; a datagram shows nothing, and a reply over
UDP passes exactly if the policy lets the responder open a flow of its own.
-/

namespace Meshlite.Kprobe

open Tls BoundedMap

/-- `try_intercept` passes the frame. -/
def Passes (e : Endian) (maps : EbpfMaps) (f : Frame) : Prop :=
  (tryIntercept e maps f).map Prod.fst = some tcActOk

instance (e : Endian) (maps : EbpfMaps) (f : Frame) : Decidable (Passes e maps f) :=
  inferInstanceAs (Decidable (_ = _))

namespace Frame

/-- A TCP segment with ACK (bit 4) set. -/
structure IsAck (f : Frame) (src dst : Ipv4Addr) : Prop extends IsIpv4 f 6 src dst where
  flags : ∃ flags : Byte, f[47]? = some flags ∧ flags.getLsbD 4 = true

/-- A minimal answer to a connection attempt: SYN and ACK are set. -/
def synAck (src dst : Ipv4Addr) : Frame :=
  List.replicate 12 0 ++ [0x08, 0x00] ++
  [0x45, 0, 0, 40, 0, 0, 0x40, 0, 64, 6, 0, 0] ++
  [src.a, src.b, src.c, src.d, dst.a, dst.b, dst.c, dst.d] ++
  [0x1F, 0x90, 0x9C, 0x40, 0, 0, 0, 1, 0, 0, 0, 2, 0x50, 0x12, 0xFF, 0xFF, 0, 0, 0, 0]

/-- An empty datagram. -/
def datagram (src dst : Ipv4Addr) : Frame :=
  List.replicate 12 0 ++ [0x08, 0x00] ++
  [0x45, 0, 0, 28, 0, 0, 0x40, 0, 64, 17, 0, 0] ++
  [src.a, src.b, src.c, src.d, dst.a, dst.b, dst.c, dst.d] ++
  [0x00, 0x35, 0x9C, 0x40, 0, 8, 0, 0]

theorem synAck_isAck (src dst : Ipv4Addr) : (synAck src dst).IsAck src dst where
  ethertype := ⟨rfl, rfl⟩
  versionIhl := rfl
  protocol := rfl
  source := ⟨rfl, rfl, rfl, rfl⟩
  destination := ⟨rfl, rfl, rfl, rfl⟩
  ports := by simp [synAck]
  flags := ⟨0x12, rfl, rfl⟩

theorem datagram_isUdp (src dst : Ipv4Addr) : (datagram src dst).IsUdp src dst where
  ethertype := ⟨rfl, rfl⟩
  versionIhl := rfl
  protocol := rfl
  source := ⟨rfl, rfl, rfl, rfl⟩
  destination := ⟨rfl, rfl, rfl, rfl⟩
  ports := by simp [datagram]

variable {e : Endian} {maps : EbpfMaps} {f : Frame} {proto : Byte} {src dst : Ipv4Addr}

theorem IsIpv4.passes_iff (h : f.IsIpv4 proto src dst) (hp : proto = 6 ∨ proto = 17) :
    Passes e maps f ↔ tcpVerdict f proto (pairVerdict e maps (frameKey e src dst).srcIp
      (frameKey e src dst).dstIp) ≠ 1 := by
  rw [Passes, h.action hp, Option.some.injEq]
  split_ifs with hverdict
  · exact iff_of_false (by decide) (not_not_intro hverdict)
  · exact iff_of_true rfl hverdict

/-- A segment with ACK set has no verdict 1, whatever the maps hold. -/
theorem IsAck.passes (h : f.IsAck src dst) : Passes e maps f := by
  obtain ⟨flags, hload, hack⟩ := h.flags
  have hnot : flags &&& 0x12 ≠ 0x02 := by
    intro hsyn
    rw [((syn_flags_iff flags).mp hsyn).2] at hack
    cases hack
  rw [h.toIsIpv4.passes_iff (Or.inl rfl), tcpVerdict]
  split_ifs with hdenied
  · rw [loadU8, hload]
    dsimp only
    rw [if_neg hnot]
    decide
  · exact fun hverdict => hdenied ⟨rfl, hverdict⟩

theorem IsUdp.passes_iff (h : f.IsUdp src dst) (hs : src.InPodCidr) (hd : dst.InPodCidr) :
    Passes e maps f ↔ lookupVerdict maps (frameKey e src dst) ≠ 1 := by
  rw [h.toIsIpv4.passes_iff (Or.inr rfl), pairVerdict_frameKey hs hd, tcpVerdict,
    if_neg fun hproto => absurd hproto.1 (by decide)]

end Frame

/-- The policy and the snapshot let the responder send datagrams of its own: its service may
open flows to the other one, or they are one service and the default allows. -/
def RepliesOpen (policy : PolicyCache) (responder opener : String) : Prop :=
  if responder = opener then policy.defaultAllow = true
  else policy.isAllowed responder opener = true

instance (policy : PolicyCache) (responder opener : String) :
    Decidable (RepliesOpen policy responder opener) := by
  unfold RepliesOpen
  infer_instance

/-- After a sync without a failure every TCP segment with ACK set passes on the way back of a
flow, and a datagram passes exactly if the policy lets the responder open one. -/
theorem replies_pass (cap : Option ℕ) (e : Endian) (policy : PolicyCache) (pods : PodSnapshot)
    (maps : EbpfMaps) (order : SyncOrder maps pods)
    (hok : SyncSucceeds cap e policy pods order) (A B : String) (a b : Ipv4Addr)
    (ha : a.InPodCidr) (hb : b.InPodCidr) (hla : pods.ListsOnly A a)
    (hlb : pods.ListsOnly B b) (f : Frame) :
    (f.IsAck b a → Passes e (sync cap e policy pods order) f) ∧
    (f.IsUdp b a → (Passes e (sync cap e policy pods order) f ↔ RepliesOpen policy B A)) := by
  refine ⟨fun hack => hack.passes, fun hudp => ?_⟩
  rw [hudp.passes_iff hb ha, RepliesOpen]
  split_ifs with hsame
  · have hdefault : ∀ svc svc', pods.Lists svc b → pods.Lists svc' a → svc = svc' := by
      intro svc svc' hsvc hsvc'
      rw [hlb.2 svc hsvc, hla.2 svc' hsvc', hsame]
    rw [lookupVerdict_sync_default hdefault, Ne, fallbackVerdict_eq_one, Bool.not_eq_false]
  · rw [lookupVerdict_sync hok hlb hla hsame, Ne, serviceVerdict_eq_one, Bool.not_eq_false]

/-- Of what `beta` answers to `alpha` the segment comes back and the datagram does not. -/
theorem oneWay_replies :
    Passes .little (sync verdictMapCapacity .little oneWayPolicy twoPods
        (.listed bootMaps twoPods)) (Frame.synAck ⟨10, 244, 2, 7⟩ ⟨10, 244, 1, 5⟩) ∧
      ¬ Passes .little (sync verdictMapCapacity .little oneWayPolicy twoPods
        (.listed bootMaps twoPods)) (Frame.datagram ⟨10, 244, 2, 7⟩ ⟨10, 244, 1, 5⟩) := by
  have hreplies := replies_pass verdictMapCapacity .little oneWayPolicy twoPods bootMaps
    (.listed bootMaps twoPods) twoPods_syncSucceeds "alpha" "beta" ⟨10, 244, 1, 5⟩
    ⟨10, 244, 2, 7⟩ (by decide) (by decide) (by decide) (by decide)
  constructor
  · exact (hreplies _).1 (Frame.synAck_isAck _ _)
  · rw [(hreplies _).2 (Frame.datagram_isUdp _ _)]
    decide

theorem datagram_reply_lost :
    ¬ ∀ (policy : PolicyCache) (pods : PodSnapshot) (maps : EbpfMaps) (order : SyncOrder maps pods),
      SyncSucceeds verdictMapCapacity .little policy pods order → ∀ A B,
      policy.isAllowed A B = true → ∀ a b : Ipv4Addr, a.InPodCidr → b.InPodCidr →
      pods.ListsOnly A a → pods.ListsOnly B b → ∀ f : Frame, f.IsAck b a ∨ f.IsUdp b a →
      Passes .little (sync verdictMapCapacity .little policy pods order) f := by
  intro h
  have hpass := h oneWayPolicy twoPods bootMaps (.listed bootMaps twoPods) twoPods_syncSucceeds
    "alpha" "beta" (by decide) ⟨10, 244, 1, 5⟩ ⟨10, 244, 2, 7⟩ (by decide) (by decide) (by decide)
    (by decide) _ (Or.inr (Frame.datagram_isUdp _ _))
  have hbeta : twoPods.ListsOnly "beta" ⟨10, 244, 2, 7⟩ := by decide
  have halpha : twoPods.ListsOnly "alpha" ⟨10, 244, 1, 5⟩ := by decide
  rw [(Frame.datagram_isUdp _ _).passes_iff (by decide) (by decide),
    lookupVerdict_sync twoPods_syncSucceeds hbeta halpha (by decide)] at hpass
  exact hpass (by decide)

end Meshlite.Kprobe
