import Meshlite.Kprobe.VerdictSync

/-!
# What the classifier enforces after a sync

The verdict map holds one entry for each pair of addresses of two different
services, and the flag answers for the rest. Together they give every opening
frame between pod addresses the decision of the policy.
-/

namespace Meshlite.Kprobe

open Tls BoundedMap

section Listing

variable {pods : PodSnapshot} {e : Endian} {policy : PolicyCache} {svcNames : List String}

theorem insert_of_listsOnly (hn : svcNames.Perm pods.keys) {fromSvc toSvc : String}
    {src dst : Ipv4Addr} (hs : pods.ListsOnly fromSvc src) (hd : pods.ListsOnly toSvc dst)
    {v : Byte} (hv : (frameKey e src dst, v) ∈ verdictInserts e policy pods svcNames) :
    fromSvc ≠ toSvc ∧ v = serviceVerdict policy fromSvc toSvc := by
  obtain ⟨A, B, a, b, hne, ha, hb, hkey, rfl⟩ := (mem_verdictInserts hn).mp hv
  obtain ⟨rfl, rfl⟩ := frameKey_inj.mp hkey
  obtain rfl := hs.2 A ha
  obtain rfl := hd.2 B hb
  exact ⟨hne, rfl⟩

theorem exists_insert (hn : svcNames.Perm pods.keys) {fromSvc toSvc : String}
    {src dst : Ipv4Addr} (hs : pods.Lists fromSvc src) (hd : pods.Lists toSvc dst)
    (hne : fromSvc ≠ toSvc) :
    (frameKey e src dst, serviceVerdict policy fromSvc toSvc) ∈
      verdictInserts e policy pods svcNames :=
  (mem_verdictInserts hn).mpr ⟨fromSvc, toSvc, src, dst, hne, hs, hd, rfl, rfl⟩

end Listing

/-- The verdict of the last two services, in the order of the loops, that list the pair. -/
def lastVerdict (e : Endian) (policy : PolicyCache) (pods : PodSnapshot) {maps : EbpfMaps}
    (order : SyncOrder maps pods) (src dst : Ipv4Addr) : Option Byte :=
  lastWrite (frameKey e src dst) (verdictInserts e policy pods order.svcNames)

section Verdict

variable {cap : Option ℕ} {e : Endian} {policy : PolicyCache} {pods : PodSnapshot}
variable {maps : EbpfMaps} {order : SyncOrder maps pods}

theorem mem_sync (hok : SyncSucceeds cap e policy pods order) {key : PacketKey} :
    key ∈ (sync cap e policy pods order).verdictMap ↔
      ∃ fromSvc toSvc src dst, fromSvc ≠ toSvc ∧ pods.Lists fromSvc src ∧ pods.Lists toSvc dst ∧
        key = frameKey e src dst := by
  rw [sync_eq, mem_writeAll]
  constructor
  · rintro ⟨hk, -⟩
    obtain ⟨⟨k, v⟩, hmem, rfl⟩ := List.mem_map.mp hk
    obtain ⟨A, B, a, b, hne, ha, hb, hkey, -⟩ := (mem_verdictInserts order.names_perm).mp hmem
    exact ⟨A, B, a, b, hne, ha, hb, hkey⟩
  · rintro ⟨A, B, a, b, hne, ha, hb, rfl⟩
    exact hok.admitted
      (List.mem_map.mpr ⟨_, exists_insert order.names_perm ha hb hne, rfl⟩)

theorem lookupVerdict_sync (hok : SyncSucceeds cap e policy pods order) {fromSvc toSvc : String}
    {src dst : Ipv4Addr} (hs : pods.ListsOnly fromSvc src) (hd : pods.ListsOnly toSvc dst)
    (hne : fromSvc ≠ toSvc) :
    lookupVerdict (sync cap e policy pods order) (frameKey e src dst) =
      serviceVerdict policy fromSvc toSvc := by
  have hins : (frameKey e src dst, serviceVerdict policy fromSvc toSvc) ∈
      verdictInserts e policy pods order.svcNames :=
    exists_insert order.names_perm hs.1 hd.1 hne
  have hlast : lastWrite (frameKey e src dst) (verdictInserts e policy pods order.svcNames) =
      some (serviceVerdict policy fromSvc toSvc) :=
    lastWrite_eq ⟨_, hins⟩ fun v hv => (insert_of_listsOnly order.names_perm hs hd hv).2
  rw [sync_eq, lookupVerdict_filled,
    if_pos (hok.admitted (List.mem_map.mpr ⟨_, hins, rfl⟩)), hlast]
  rfl

theorem lookupVerdict_sync_default {src dst : Ipv4Addr}
    (h : ∀ fromSvc toSvc, pods.Lists fromSvc src → pods.Lists toSvc dst → fromSvc = toSvc) :
    lookupVerdict (sync cap e policy pods order) (frameKey e src dst) =
      fallbackVerdict policy := by
  have hnot : ¬ Admitted cap ((verdictInserts e policy pods order.svcNames).map Prod.fst)
      (frameKey e src dst) := by
    rintro ⟨hk, -⟩
    obtain ⟨⟨k, v⟩, hmem, hkey⟩ := List.mem_map.mp hk
    obtain ⟨A, B, a, b, hne, ha, hb, hkab, -⟩ := (mem_verdictInserts order.names_perm).mp hmem
    obtain ⟨rfl, rfl⟩ := frameKey_inj.mp (hkab.symm.trans hkey)
    exact hne (h A B ha hb)
  rw [sync_eq, lookupVerdict_filled, if_neg hnot]
  rfl

end Verdict

/-- After a sync without a failure the map holds exactly the pairs of two services,
an opening frame between two of them is dropped exactly when the policy denies it,
and one from or to an unlisted pod address is dropped exactly when the default denies. -/
theorem sync_enforces_policy (cap : Option ℕ) (e : Endian) (policy : PolicyCache)
    (pods : PodSnapshot) (maps : EbpfMaps) (order : SyncOrder maps pods)
    (hok : SyncSucceeds cap e policy pods order) :
    (∀ key, key ∈ (sync cap e policy pods order).verdictMap ↔
      ∃ fromSvc toSvc src dst, fromSvc ≠ toSvc ∧ pods.Lists fromSvc src ∧
        pods.Lists toSvc dst ∧ key = syncKey e src dst) ∧
    (∀ (f : Frame) (src dst : Ipv4Addr) (fromSvc toSvc : String), f.Opens src dst →
      src.InPodCidr → dst.InPodCidr → pods.ListsOnly fromSvc src → pods.ListsOnly toSvc dst →
      fromSvc ≠ toSvc →
      (Drops e (sync cap e policy pods order) f ↔ policy.isAllowed fromSvc toSvc = false)) ∧
    (∀ (f : Frame) (src dst : Ipv4Addr), f.Opens src dst → src.InPodCidr → dst.InPodCidr →
      (∀ svc, ¬ pods.Lists svc src) ∨ (∀ svc, ¬ pods.Lists svc dst) →
      (Drops e (sync cap e policy pods order) f ↔ policy.defaultAllow = false)) := by
  refine ⟨fun key => ?_, ?_, ?_⟩
  · simp only [syncKey_eq_frameKey]
    exact mem_sync hok
  · intro f src dst fromSvc toSvc hf hs hd hls hld hne
    rw [hf.drops_iff hs hd, lookupVerdict_sync hok hls hld hne, serviceVerdict_eq_one]
  · intro f src dst hf hs hd hun
    have hdefault : ∀ A B, pods.Lists A src → pods.Lists B dst → A = B := by
      intro A B hA hB
      rcases hun with h | h
      · exact absurd hA (h A)
      · exact absurd hB (h B)
    rw [hf.drops_iff hs hd, lookupVerdict_sync_default hdefault, fallbackVerdict_eq_one]

/-- One pod of `alpha` and one of `beta`. -/
def twoPods : PodSnapshot :=
  [⟨"alpha", [⟨10, 244, 1, 5⟩]⟩, ⟨"beta", [⟨10, 244, 2, 7⟩]⟩].toAList

/-- `alpha → [beta]`, deny by default. -/
def oneWayPolicy : PolicyCache where
  rules := [{ fromService := "alpha", toServices := ["beta"] }]
  defaultAllow := false
  mtlsMode := "enforce"

def bootMaps : EbpfMaps where
  verdictMap := ∅
  policyFlags := 1

theorem twoPods_syncSucceeds :
    SyncSucceeds verdictMapCapacity .little oneWayPolicy twoPods (.listed bootMaps twoPods) := by
  apply syncSucceeds_of_card_le
  intro n hn
  have hcard : ((verdictInserts .little oneWayPolicy twoPods
      (SyncOrder.listed bootMaps twoPods).svcNames).map Prod.fst).toFinset.card = 2 := by decide
  have hlt : n < 4096 := by omega
  exact hlt

/-- The rule from `alpha` to `beta` opens one direction only. -/
theorem twoPods_enforced :
    ¬ Drops .little (sync verdictMapCapacity .little oneWayPolicy twoPods
        (.listed bootMaps twoPods)) (Frame.syn ⟨10, 244, 1, 5⟩ ⟨10, 244, 2, 7⟩) ∧
      Drops .little (sync verdictMapCapacity .little oneWayPolicy twoPods
        (.listed bootMaps twoPods)) (Frame.syn ⟨10, 244, 2, 7⟩ ⟨10, 244, 1, 5⟩) := by
  obtain ⟨-, hpair, -⟩ := sync_enforces_policy verdictMapCapacity .little oneWayPolicy twoPods
    bootMaps (.listed bootMaps twoPods) twoPods_syncSucceeds
  constructor
  · rw [hpair _ _ _ "alpha" "beta" (Or.inl (Frame.syn_isSyn _ _)) (by decide) (by decide)
      (by decide) (by decide) (by decide)]
    decide
  · rw [hpair _ _ _ "beta" "alpha" (Or.inl (Frame.syn_isSyn _ _)) (by decide) (by decide)
      (by decide) (by decide) (by decide)]
    decide

end Meshlite.Kprobe
