import Meshlite.Kprobe.Enforcement

/-!
# The order in which the services are enumerated

`sync` walks the keys of a hash map twice, and a later write to an address pair
replaces an earlier one. The order shows as soon as two pairs of services list one
pair of addresses and the policy decides them differently: either pair of services
can be made the last to write.
-/

namespace Meshlite.Kprobe

open Tls BoundedMap

/-- The distinct address pairs a sync writes. -/
def writtenKeys (e : Endian) (policy : PolicyCache) (pods : PodSnapshot) : Finset PacketKey :=
  ((verdictInserts e policy pods pods.keys).map Prod.fst).toFinset

/-- The map has room for every address pair of the snapshot. -/
def SufficientCapacity (cap : Option ℕ) (e : Endian) (policy : PolicyCache)
    (pods : PodSnapshot) : Prop :=
  ∀ n < (writtenKeys e policy pods).card, HasRoom cap n

/-- All pairs of different services that list the two addresses get one decision. -/
def PairDecided (policy : PolicyCache) (pods : PodSnapshot) (src dst : Ipv4Addr) : Prop :=
  ∀ A B A' B', A ≠ B → A' ≠ B' → pods.Lists A src → pods.Lists B dst →
    pods.Lists A' src → pods.Lists B' dst → policy.isAllowed A B = policy.isAllowed A' B'

section Content

variable {cap : Option ℕ} {e : Endian} {policy : PolicyCache} {pods : PodSnapshot}
variable {maps : EbpfMaps} {order : SyncOrder maps pods}

theorem mem_writtenKeys {key : PacketKey} :
    key ∈ writtenKeys e policy pods ↔ ∃ v, (key, v) ∈ verdictInserts e policy pods pods.keys := by
  simp [writtenKeys]

theorem insertKeys_toFinset :
    ((verdictInserts e policy pods order.svcNames).map Prod.fst).toFinset =
      writtenKeys e policy pods := by
  ext key
  rw [mem_writtenKeys]
  simp only [List.mem_toFinset, List.mem_map, Prod.exists, exists_and_right, exists_eq_right,
    mem_verdictInserts order.names_perm, mem_verdictInserts (List.Perm.refl pods.keys)]

theorem SufficientCapacity.syncSucceeds (h : SufficientCapacity cap e policy pods) :
    SyncSucceeds cap e policy pods order := by
  apply syncSucceeds_of_card_le
  rw [insertKeys_toFinset]
  exact h

/-- With room for every pair, the map holds the last verdict written for each. -/
theorem SufficientCapacity.lookup_sync (h : SufficientCapacity cap e policy pods)
    (key : PacketKey) :
    (sync cap e policy pods order).verdictMap.lookup key =
      lastWrite key (verdictInserts e policy pods order.svcNames) := by
  rw [sync_eq, lookup_writeAll]
  split_ifs with hadm
  · rfl
  · symm
    rw [← Option.not_isSome_iff_eq_none, lastWrite_isSome]
    exact fun hk => hadm (h.syncSucceeds.admitted hk)

theorem serviceVerdict_inj {A B A' B' : String} :
    serviceVerdict policy A B = serviceVerdict policy A' B' ↔
      policy.isAllowed A B = policy.isAllowed A' B' := by
  rw [serviceVerdict, serviceVerdict]
  cases policy.isAllowed A B <;> cases policy.isAllowed A' B' <;> decide

end Content

section Last

variable {e : Endian} {policy : PolicyCache} {pods : PodSnapshot} {svcNames : List String}

/-- When the last service lists the source and the one before it the destination,
the decision about these two is the one that stays. -/
theorem lastWrite_last_two {A B : String} {src dst : Ipv4Addr} (hne : A ≠ B)
    (hA : pods.Lists A src) (hB : pods.Lists B dst) (rest : List String) :
    lastWrite (frameKey e src dst) (verdictInserts e policy pods (rest ++ [B, A])) =
      some (serviceVerdict policy A B) := by
  obtain ⟨srcs, hsrcs, hsrc⟩ := hA
  obtain ⟨dsts, hdsts, hdst⟩ := hB
  -- the innermost loops of the last round that writes anything
  have hround : lastWrite (frameKey e src dst) (srcs.flatMap fun s => dsts.map fun d =>
      (syncKey e s d, serviceVerdict policy A B)) = some (serviceVerdict policy A B) := by
    apply lastWrite_eq
    · refine ⟨serviceVerdict policy A B, List.mem_flatMap.mpr ⟨src, hsrc, ?_⟩⟩
      exact List.mem_map.mpr ⟨dst, hdst, by rw [syncKey_eq_frameKey]⟩
    · intro v hv
      obtain ⟨s, -, hv⟩ := List.mem_flatMap.mp hv
      obtain ⟨d, -, hv⟩ := List.mem_map.mp hv
      exact (Prod.mk.inj hv).2.symm
  have hnames : rest ++ [B, A] = (rest ++ [B]) ++ [A] := by simp
  rw [verdictInserts]
  nth_rewrite 2 [hnames]
  rw [List.flatMap_append, lastWrite_append, List.flatMap_singleton, hnames,
    List.flatMap_append, List.flatMap_append, lastWrite_append, lastWrite_append,
    List.flatMap_singleton, List.flatMap_singleton, if_pos rfl, if_neg hne, hsrcs, hdsts,
    Option.getD_some, Option.getD_some, hround]
  rfl

theorem exists_last_two {A B : String} (hne : A ≠ B) (hA : A ∈ pods.keys) (hB : B ∈ pods.keys)
    (maps : EbpfMaps) : ∃ (order : SyncOrder maps pods) (rest : List String),
      order.svcNames = rest ++ [B, A] := by
  have hB' : B ∈ pods.keys.erase A := (List.mem_erase_of_ne hne.symm).mpr hB
  have hperm : ((pods.keys.erase A).erase B ++ [B, A]).Perm pods.keys := by
    have hlast : ((pods.keys.erase A).erase B ++ [B, A]).Perm
        (A :: B :: (pods.keys.erase A).erase B) :=
      List.perm_append_comm.trans (List.Perm.swap A B _)
    have hrest : (B :: (pods.keys.erase A).erase B).Perm (pods.keys.erase A) :=
      (List.perm_cons_erase hB').symm
    exact hlast.trans ((hrest.cons A).trans (List.perm_cons_erase hA).symm)
  exact ⟨{ keysToRemove := maps.verdictMap.keys, svcNames := _, keys_perm := List.Perm.refl _,
           names_perm := hperm }, _, rfl⟩

theorem lastWrite_of_pairDecided (hn : svcNames.Perm pods.keys) {A B : String}
    {src dst : Ipv4Addr} (h : PairDecided policy pods src dst) (hne : A ≠ B)
    (hA : pods.Lists A src) (hB : pods.Lists B dst) :
    lastWrite (frameKey e src dst) (verdictInserts e policy pods svcNames) =
      some (serviceVerdict policy A B) := by
  refine lastWrite_eq ⟨_, exists_insert hn hA hB hne⟩ fun v hv => ?_
  obtain ⟨A', B', s, d, hne', hA', hB', hkey, rfl⟩ := (mem_verdictInserts hn).mp hv
  obtain ⟨rfl, rfl⟩ := frameKey_inj.mp hkey
  exact serviceVerdict_inj.mpr (h A' B' A B hne' hne hA' hB' hA hB)

theorem lastWrite_of_lastWrite {svcNames' : List String} (hn : svcNames.Perm pods.keys)
    (hn' : svcNames'.Perm pods.keys) (h : ∀ src dst, PairDecided policy pods src dst)
    {key : PacketKey} {v : Byte}
    (hlast : lastWrite key (verdictInserts e policy pods svcNames) = some v) :
    lastWrite key (verdictInserts e policy pods svcNames') = some v := by
  obtain ⟨A, B, src, dst, hne, hA, hB, rfl, rfl⟩ :=
    (mem_verdictInserts hn).mp (mem_of_lastWrite hlast)
  exact lastWrite_of_pairDecided hn' (h src dst) hne hA hB

end Last

/-- With room for every pair, all orders of the services fill the map alike exactly when
no address pair is listed by two pairs of different services that the policy decides
differently. -/
theorem sync_order_irrelevant_iff (cap : Option ℕ) (e : Endian) (policy : PolicyCache)
    (pods : PodSnapshot) (maps maps' : EbpfMaps)
    (hcap : SufficientCapacity cap e policy pods) :
    (∀ (order : SyncOrder maps pods) (order' : SyncOrder maps' pods) (key : PacketKey),
      (sync cap e policy pods order).verdictMap.lookup key =
        (sync cap e policy pods order').verdictMap.lookup key) ↔
      ∀ src dst, PairDecided policy pods src dst := by
  constructor
  · intro h src dst A B A' B' hne hne' hA hB hA' hB'
    obtain ⟨order, rest, hnames⟩ := exists_last_two hne hA.mem hB.mem maps
    obtain ⟨order', rest', hnames'⟩ := exists_last_two hne' hA'.mem hB'.mem maps'
    have hkey := h order order' (frameKey e src dst)
    rw [hcap.lookup_sync, hcap.lookup_sync, hnames, hnames', lastWrite_last_two hne hA hB,
      lastWrite_last_two hne' hA' hB', Option.some.injEq] at hkey
    exact serviceVerdict_inj.mp hkey
  · intro h order order' key
    rw [hcap.lookup_sync, hcap.lookup_sync]
    ext v
    exact ⟨lastWrite_of_lastWrite order.names_perm order'.names_perm h,
      lastWrite_of_lastWrite order'.names_perm order.names_perm h⟩

/-- A finished pod of `alpha` still shows the address that a pod of `gamma` has now. -/
def sharedPods : PodSnapshot :=
  [⟨"alpha", [⟨10, 244, 0, 4⟩]⟩, ⟨"beta", [⟨10, 244, 2, 7⟩]⟩, ⟨"gamma", [⟨10, 244, 0, 4⟩]⟩].toAList

/-- Deny everything. -/
def noRulesPolicy : PolicyCache where
  rules := []
  defaultAllow := false
  mtlsMode := "enforce"

theorem sufficient_of_card {policy : PolicyCache} {pods : PodSnapshot}
    (h : (writtenKeys .little policy pods).card ≤ 4096) :
    SufficientCapacity verdictMapCapacity .little policy pods :=
  fun _ hn => lt_of_lt_of_le hn h

/-- `sharedPods` with its services in the opposite order. -/
def gammaFirst : SyncOrder bootMaps sharedPods where
  keysToRemove := []
  svcNames := ["gamma", "beta", "alpha"]
  keys_perm := List.Perm.refl _
  names_perm := by decide

/-- Without a rule every pair is denied, so it does not matter who lists the address. -/
theorem sharedPods_noRules :
    (sync verdictMapCapacity .little noRulesPolicy sharedPods
        (.listed bootMaps sharedPods)).verdictMap.lookup
          (frameKey .little ⟨10, 244, 0, 4⟩ ⟨10, 244, 2, 7⟩) =
      (sync verdictMapCapacity .little noRulesPolicy sharedPods gammaFirst).verdictMap.lookup
        (frameKey .little ⟨10, 244, 0, 4⟩ ⟨10, 244, 2, 7⟩) :=
  (sync_order_irrelevant_iff verdictMapCapacity .little noRulesPolicy sharedPods bootMaps bootMaps
    (sufficient_of_card (by decide))).mpr (fun _ _ _ _ _ _ _ _ _ _ _ _ => rfl) _ _ _

/-- The rule from `alpha` to `beta` holds for the shared address or not, as the hash map
happens to list `alpha` or `gamma` last. -/
theorem sharedPods_flips :
    SufficientCapacity verdictMapCapacity .little oneWayPolicy sharedPods ∧
      ¬ ∀ (order order' : SyncOrder bootMaps sharedPods) (key : PacketKey),
        (sync verdictMapCapacity .little oneWayPolicy sharedPods order).verdictMap.lookup key =
          (sync verdictMapCapacity .little oneWayPolicy sharedPods order').verdictMap.lookup
            key := by
  constructor
  · exact sufficient_of_card (by decide)
  · intro h
    have hkey := h (.listed bootMaps sharedPods) gammaFirst
      (frameKey .little ⟨10, 244, 0, 4⟩ ⟨10, 244, 2, 7⟩)
    revert hkey
    decide

end Meshlite.Kprobe
