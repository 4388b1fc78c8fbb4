import Meshlite.Kprobe.Enforcement

/-!
# Running out of map space

A sync into a map without a bound is the reference. An address pair that found the
map full has no entry, so the flag answers for it; the bound changes the verdict of
exactly those pairs whose entry differs from the default.
-/

namespace Meshlite.Kprobe

open Tls BoundedMap

section Capacity

variable (cap : Option ℕ) (e : Endian) (policy : PolicyCache) (pods : PodSnapshot)
variable {maps : EbpfMaps} (order : SyncOrder maps pods)

/-- The keys of the inserts of a sync, in program order. -/
def insertKeys : List PacketKey := (verdictInserts e policy pods order.svcNames).map Prod.fst

/-- Every insert for the pair finds the map full. -/
def Refused (src dst : Ipv4Addr) : Prop :=
  frameKey e src dst ∈ insertKeys e policy pods order ∧
    ¬ Admitted cap (insertKeys e policy pods order) (frameKey e src dst)

variable {cap e policy pods order} {src dst : Ipv4Addr}

theorem lookupVerdict_sync_eq :
    lookupVerdict (sync cap e policy pods order) (frameKey e src dst) =
      (if Admitted cap (insertKeys e policy pods order) (frameKey e src dst) then
        lastVerdict e policy pods order src dst else none).getD (fallbackVerdict policy) := by
  rw [sync_eq, lookupVerdict_filled]
  rfl

theorem lookupVerdict_unbounded :
    lookupVerdict (sync none e policy pods order) (frameKey e src dst) =
      (lastVerdict e policy pods order src dst).getD (fallbackVerdict policy) := by
  rw [lookupVerdict_sync_eq]
  split_ifs with h
  · rfl
  · have hnone : lastVerdict e policy pods order src dst = none := by
      rw [← Option.not_isSome_iff_eq_none, lastVerdict, lastWrite_isSome]
      exact fun hmem => h (admitted_none.mpr hmem)
    rw [hnone]

theorem lookupVerdict_refused (h : Refused cap e policy pods order src dst) :
    lookupVerdict (sync cap e policy pods order) (frameKey e src dst) =
      fallbackVerdict policy := by
  rw [lookupVerdict_sync_eq, if_neg h.2, Option.getD_none]

theorem lookupVerdict_not_refused (h : ¬ Refused cap e policy pods order src dst) :
    lookupVerdict (sync cap e policy pods order) (frameKey e src dst) =
      lookupVerdict (sync none e policy pods order) (frameKey e src dst) := by
  have hadm : Admitted cap (insertKeys e policy pods order) (frameKey e src dst) ↔
      Admitted none (insertKeys e policy pods order) (frameKey e src dst) := by
    rw [admitted_none]
    exact ⟨fun ha => ha.1, fun hmem => not_not.mp fun hn => h ⟨hmem, hn⟩⟩
  rw [lookupVerdict_sync_eq, lookupVerdict_sync_eq, if_congr hadm rfl rfl]

theorem serviceVerdict_eq_or (policy : PolicyCache) (fromSvc toSvc : String) :
    serviceVerdict policy fromSvc toSvc = 0 ∨ serviceVerdict policy fromSvc toSvc = 1 := by
  unfold serviceVerdict
  split_ifs
  · exact Or.inl rfl
  · exact Or.inr rfl

/-- The bound leaves a refused pair its decision exactly when the default agrees with it. -/
theorem refused_agrees_iff (h : Refused cap e policy pods order src dst) :
    (lookupVerdict (sync cap e policy pods order) (frameKey e src dst) = 1 ↔
      lookupVerdict (sync none e policy pods order) (frameKey e src dst) = 1) ↔
      lastVerdict e policy pods order src dst = some (fallbackVerdict policy) := by
  rw [lookupVerdict_refused h, lookupVerdict_unbounded]
  have hmem := h.1
  rw [insertKeys, ← lastWrite_isSome] at hmem
  obtain ⟨v, hv⟩ := Option.isSome_iff_exists.mp hmem
  obtain ⟨A, B, -, -, -, -, -, -, hvAB⟩ :=
    (mem_verdictInserts order.names_perm).mp (mem_of_lastWrite hv)
  have hv01 := serviceVerdict_eq_or policy A B
  rw [← hvAB] at hv01
  rw [lastVerdict, hv, Option.getD_some, Option.some.injEq, fallbackVerdict]
  rcases hv01 with rfl | rfl <;> cases policy.defaultAllow <;> decide

theorem not_refused_of_card_le
    (h : (insertKeys e policy pods order).toFinset.card ≤ 4096) :
    ¬ Refused verdictMapCapacity e policy pods order src dst := by
  rintro ⟨hmem, hnot⟩
  have hok : SyncSucceeds verdictMapCapacity e policy pods order := by
    apply syncSucceeds_of_card_le
    intro n hn
    exact lt_of_lt_of_le hn h
  exact hnot (hok.admitted hmem)

end Capacity

/-- Against a map without a bound, the 4096 entries of `VERDICT_MAP` change the decision
for a pair exactly when all its inserts are refused and the last of them differs from
the default; and nothing is refused while the pairs fit. -/
theorem capacity_agrees_iff (e : Endian) (policy : PolicyCache) (pods : PodSnapshot)
    (maps : EbpfMaps) (order : SyncOrder maps pods) :
    (∀ (f : Frame) (src dst : Ipv4Addr), f.Opens src dst → src.InPodCidr → dst.InPodCidr →
      ((Drops e (sync verdictMapCapacity e policy pods order) f ↔
          Drops e (sync none e policy pods order) f) ↔
        (Refused verdictMapCapacity e policy pods order src dst →
          lastVerdict e policy pods order src dst = some (fallbackVerdict policy)))) ∧
    ((insertKeys e policy pods order).toFinset.card ≤ 4096 →
      ∀ src dst, ¬ Refused verdictMapCapacity e policy pods order src dst) := by
  constructor
  · intro f src dst hf hs hd
    rw [hf.drops_iff hs hd, hf.drops_iff hs hd]
    by_cases h : Refused verdictMapCapacity e policy pods order src dst
    · rw [refused_agrees_iff h]
      exact ⟨fun hlast _ => hlast, fun hlast => hlast h⟩
    · rw [lookupVerdict_not_refused h]
      exact iff_of_true Iff.rfl fun hr => absurd hr h
  · intro hcard src dst
    exact not_refused_of_card_le hcard

/-- `n` pods on one node. -/
def nodePods (c : Byte) (n : ℕ) : List Ipv4Addr :=
  (List.range n).map fun i => ⟨10, 244, c, BitVec.ofNat 8 i⟩

theorem mem_nodePods {c : Byte} {n : ℕ} {ip : Ipv4Addr} :
    ip ∈ nodePods c n ↔ ∃ i < n, ⟨10, 244, c, BitVec.ofNat 8 i⟩ = ip := by
  simp [nodePods]

theorem nodePods_nodup {n : ℕ} (c : Byte) (hn : n ≤ 256) : (nodePods c n).Nodup := by
  apply List.Nodup.map_on _ List.nodup_range
  intro i hi j hj hij
  have hoctet := congrArg BitVec.toNat (congrArg Ipv4Addr.d hij)
  rw [List.mem_range] at hi hj
  simp only [BitVec.toNat_ofNat] at hoctet
  omega

/-- 65 pods of `alpha` and 64 of `beta`. -/
def crowdedPods : PodSnapshot :=
  [⟨"alpha", nodePods 1 65⟩, ⟨"beta", nodePods 2 64⟩].toAList

/-- `alpha → [gamma]`, allow by default: `alpha` may not reach `beta`. -/
def onlyGammaPolicy : PolicyCache where
  rules := [{ fromService := "alpha", toServices := ["gamma"] }]
  defaultAllow := true
  mtlsMode := "enforce"

/-- The keys of all pairs of two address lists. -/
def pairKeys (e : Endian) (srcs dsts : List Ipv4Addr) : List PacketKey :=
  (srcs ×ˢ dsts).map fun p => frameKey e p.1 p.2

theorem mem_pairKeys {e : Endian} {srcs dsts : List Ipv4Addr} {src dst : Ipv4Addr} :
    frameKey e src dst ∈ pairKeys e srcs dsts ↔ src ∈ srcs ∧ dst ∈ dsts := by
  simp [pairKeys, frameKey_inj]

theorem card_pairKeys {e : Endian} {srcs dsts : List Ipv4Addr} (hs : srcs.Nodup)
    (hd : dsts.Nodup) :
    (pairKeys e srcs dsts).toFinset.card = srcs.length * dsts.length := by
  have hn : (pairKeys e srcs dsts).Nodup :=
    (hs.product hd).map fun _ _ hpq => Prod.ext_iff.mpr (frameKey_inj.mp hpq)
  rw [List.toFinset_card_of_nodup hn, pairKeys, List.length_map, List.length_product]

theorem pairKeys_append (e : Endian) (srcs srcs' dsts : List Ipv4Addr) :
    pairKeys e (srcs ++ srcs') dsts = pairKeys e srcs dsts ++ pairKeys e srcs' dsts := by
  simp [pairKeys, SProd.sprod, List.product]

theorem insertKeys_pair (e : Endian) (policy : PolicyCache) {pods : PodSnapshot}
    {maps : EbpfMaps} {order : SyncOrder maps pods} {A B : String} {ips ips' : List Ipv4Addr}
    (hnames : order.svcNames = [A, B]) (hne : A ≠ B) (hA : pods.lookup A = some ips)
    (hB : pods.lookup B = some ips') :
    insertKeys e policy pods order = pairKeys e ips ips' ++ pairKeys e ips' ips := by
  rw [insertKeys, verdictInserts, hnames]
  simp [hne, hne.symm, hA, hB, pairKeys, SProd.sprod, List.product, List.map_flatMap,
    Function.comp_def, syncKey_eq_frameKey]

theorem crowded_refused :
    Refused verdictMapCapacity .little onlyGammaPolicy crowdedPods (.listed bootMaps crowdedPods)
      ⟨10, 244, 1, 64⟩ ⟨10, 244, 2, 0⟩ := by
  have hkeys : insertKeys .little onlyGammaPolicy crowdedPods (.listed bootMaps crowdedPods) =
      pairKeys .little (nodePods 1 65) (nodePods 2 64) ++
        pairKeys .little (nodePods 2 64) (nodePods 1 65) :=
    insertKeys_pair .little onlyGammaPolicy rfl (by decide) rfl rfl
  have hsrcs : nodePods 1 65 = nodePods 1 64 ++ [⟨10, 244, 1, 64⟩] := rfl
  rw [Refused, hkeys, hsrcs, pairKeys_append, List.append_assoc]
  constructor
  · apply List.mem_append_right
    apply List.mem_append_left
    exact mem_pairKeys.mpr ⟨List.mem_singleton_self _, mem_nodePods.mpr ⟨0, by decide, rfl⟩⟩
  · apply not_admitted_of_full
    · intro hmem
      obtain ⟨i, hi, hip⟩ := mem_nodePods.mp (mem_pairKeys.mp hmem).1
      have hoctet := congrArg BitVec.toNat (congrArg Ipv4Addr.d hip)
      simp at hoctet
      omega
    · rw [card_pairKeys (nodePods_nodup 1 (by decide)) (nodePods_nodup 2 (by decide))]
      simp [nodePods]

/-- The last pod of `alpha` reaches `beta`, which the policy denies. -/
theorem crowded_sync_opens :
    ¬ ∀ f src dst, Frame.Opens f src dst → src.InPodCidr → dst.InPodCidr →
      (Drops .little (sync verdictMapCapacity .little onlyGammaPolicy crowdedPods
          (.listed bootMaps crowdedPods)) f ↔
        Drops .little (sync none .little onlyGammaPolicy crowdedPods
          (.listed bootMaps crowdedPods)) f) := by
  intro h
  have hopens : (Frame.syn ⟨10, 244, 1, 64⟩ ⟨10, 244, 2, 0⟩).Opens ⟨10, 244, 1, 64⟩
      ⟨10, 244, 2, 0⟩ := Or.inl (Frame.syn_isSyn _ _)
  have hagree := h _ _ _ hopens (by decide) (by decide)
  have hok : SyncSucceeds none .little onlyGammaPolicy crowdedPods
      (.listed bootMaps crowdedPods) := syncSucceeds_of_card_le fun _ _ => trivial
  have hsrc : crowdedPods.ListsOnly "alpha" ⟨10, 244, 1, 64⟩ := by decide
  have hdst : crowdedPods.ListsOnly "beta" ⟨10, 244, 2, 0⟩ := by decide
  rw [hopens.drops_iff (by decide) (by decide), hopens.drops_iff (by decide) (by decide),
    lookupVerdict_refused crowded_refused,
    lookupVerdict_sync hok hsrc hdst (by decide)] at hagree
  exact absurd (hagree.mpr (by decide)) (by decide)

end Meshlite.Kprobe
