import Meshlite.Kprobe.Agent

/-!
# Where the verdicts come from

However the tasks of the agent interleave, a verdict in the map is the decision of a policy
the agent has had about two services of a snapshot it has had, and the flag is the default
of such a policy.
-/

namespace Meshlite.Kprobe

open Tls Runs BoundedMap

section Sources

variable (policies : PolicyCache → Prop) (snapshots : PodSnapshot → Prop) (e : Endian)

/-- One of the policies decides so, about two services that one of the snapshots lists. -/
def VerdictFrom (key : PacketKey) (v : Byte) : Prop :=
  ∃ policy pods A B src dst, policies policy ∧ snapshots pods ∧ A ≠ B ∧ pods.Lists A src ∧
    pods.Lists B dst ∧ key = frameKey e src dst ∧ v = serviceVerdict policy A B

def FlagFrom (flag : BitVec 32) : Prop := ∃ policy, policies policy ∧ flag = defaultFlag policy

structure EbpfMaps.From (maps : EbpfMaps) : Prop where
  flag : FlagFrom policies maps.policyFlags
  verdicts : ∀ key v, maps.verdictMap.lookup key = some v →
    VerdictFrom policies snapshots e key v

def MapWrite.From : MapWrite → Prop
  | .setFlag flag => FlagFrom policies flag
  | .remove _ => True
  | .insert key v => VerdictFrom policies snapshots e key v

/-- What the agent has, what the sync task has cloned, and what it has left to write. -/
structure Agent.From (a : Agent) : Prop where
  policy : policies a.policyCache
  pods : snapshots a.watch.snapshot
  maps : a.maps.From policies snapshots e
  cloned : ∀ policy, a.verdictSync = .clonedPolicy policy → policies policy
  left : ∀ policy pods left, a.verdictSync = .syncing policy pods left →
    ∀ w ∈ left, w.From policies snapshots e

end Sources

variable {policies policies' : PolicyCache → Prop} {snapshots snapshots' : PodSnapshot → Prop}
variable {cap : Option ℕ} {e : Endian} {maps : EbpfMaps}

section Mono

theorem VerdictFrom.mono (hpolicies : ∀ policy, policies policy → policies' policy)
    (hsnapshots : ∀ pods, snapshots pods → snapshots' pods) {key : PacketKey} {v : Byte}
    (h : VerdictFrom policies snapshots e key v) : VerdictFrom policies' snapshots' e key v := by
  obtain ⟨policy, pods, A, B, src, dst, hpolicy, hpods, hrest⟩ := h
  exact ⟨policy, pods, A, B, src, dst, hpolicies _ hpolicy, hsnapshots _ hpods, hrest⟩

theorem FlagFrom.mono (hpolicies : ∀ policy, policies policy → policies' policy)
    {flag : BitVec 32} (h : FlagFrom policies flag) : FlagFrom policies' flag := by
  obtain ⟨policy, hpolicy, hflag⟩ := h
  exact ⟨policy, hpolicies _ hpolicy, hflag⟩

theorem MapWrite.From.mono (hpolicies : ∀ policy, policies policy → policies' policy)
    (hsnapshots : ∀ pods, snapshots pods → snapshots' pods) {w : MapWrite}
    (h : w.From policies snapshots e) : w.From policies' snapshots' e := by
  cases w with
  | setFlag flag => exact FlagFrom.mono hpolicies h
  | remove key => trivial
  | insert key v => exact VerdictFrom.mono hpolicies hsnapshots h

theorem Agent.From.mono (hpolicies : ∀ policy, policies policy → policies' policy)
    (hsnapshots : ∀ pods, snapshots pods → snapshots' pods) {a : Agent}
    (h : a.From policies snapshots e) : a.From policies' snapshots' e where
  policy := hpolicies _ h.policy
  pods := hsnapshots _ h.pods
  maps := ⟨h.maps.flag.mono hpolicies, fun key v hv => (h.maps.verdicts key v hv).mono hpolicies
    hsnapshots⟩
  cloned policy hs := hpolicies _ (h.cloned policy hs)
  left policy pods left hs w hw := (h.left policy pods left hs w hw).mono hpolicies hsnapshots

end Mono

section Sync

variable {policy : PolicyCache} {pods : PodSnapshot} {order : SyncOrder maps pods}

theorem syncWrites_from (hpolicy : policies policy) (hpods : snapshots pods) {w : MapWrite}
    (hw : w ∈ syncWrites e policy pods order) : w.From policies snapshots e := by
  cases w with
  | setFlag flag =>
    have hflag : flag = defaultFlag policy := by simpa [syncWrites] using hw
    exact ⟨policy, hpolicy, hflag⟩
  | remove key => trivial
  | insert key v =>
    have hinsert : (key, v) ∈ verdictInserts e policy pods order.svcNames := by
      simpa [syncWrites] using hw
    obtain ⟨A, B, src, dst, hne, hA, hB, hkey, hv⟩ :=
      (mem_verdictInserts order.names_perm).mp hinsert
    exact ⟨policy, pods, A, B, src, dst, hpolicy, hpods, hne, hA, hB, hkey, hv⟩

theorem EbpfMaps.From.apply {w : MapWrite} (h : maps.From policies snapshots e)
    (hw : w.From policies snapshots e) : (w.apply cap maps).From policies snapshots e where
  flag := by
    cases w with
    | setFlag flag => exact hw
    | remove | insert => exact h.flag
  verdicts := by
    apply MapWrite.apply_forall h.verdicts
    rintro key v rfl
    exact hw

theorem sync_from (hpolicy : policies policy) (hpods : snapshots pods) :
    (sync cap e policy pods order).From policies snapshots e := by
  rw [sync_eq]
  refine ⟨⟨policy, hpolicy, rfl⟩, fun key v hlookup => ?_⟩
  rw [lookup_writeAll] at hlookup
  split_ifs at hlookup
  obtain ⟨A, B, src, dst, hne, hA, hB, hkey, hv⟩ :=
    (mem_verdictInserts order.names_perm).mp (mem_of_lastWrite hlookup)
  exact ⟨policy, pods, A, B, src, dst, hpolicy, hpods, hne, hA, hB, hkey, hv⟩

end Sync

namespace Agent

variable {a a' : Agent} {ev : AgentEvent}

theorem From.congr (h : a.From policies snapshots e) (hpolicy : policies a'.policyCache)
    (hpods : snapshots a'.watch.snapshot) (hmaps : a'.maps = a.maps)
    (hsync : a'.verdictSync = a.verdictSync) : a'.From policies snapshots e where
  policy := hpolicy
  pods := hpods
  maps := hmaps ▸ h.maps
  cloned policy hs := h.cloned policy (hsync ▸ hs)
  left policy pods left hs := h.left policy pods left (hsync ▸ hs)

/-- A step keeps to the sources if the policy and the snapshot it leaves are among them. -/
theorem Step.from_sources (hstep : a.Step cap e ev a') (h : a.From policies snapshots e)
    (hpolicy : policies a'.policyCache) (hpods : snapshots a'.watch.snapshot) :
    a'.From policies snapshots e := by
  cases hstep with
  | message payload _ =>
    cases payload with
    | none => exact h
    | some push => cases push <;> exact h.congr hpolicy hpods rfl rfl
  | sigilSend | watch | podSend | forwardRecv | forwardSend => exact h.congr hpolicy hpods rfl rfl
  | syncRecv | syncDone => exact ⟨h.policy, h.pods, h.maps, by simp, by simp⟩
  | clonePolicy =>
    refine ⟨h.policy, h.pods, h.maps, fun policy hs => ?_, by simp⟩
    obtain rfl := VerdictSyncTask.clonedPolicy.inj hs
    exact h.policy
  | cloneSnapshot order hs₀ =>
    refine ⟨h.policy, h.pods, h.maps, by simp, fun policy' pods left hs w hw => ?_⟩
    obtain ⟨rfl, rfl, rfl⟩ := VerdictSyncTask.syncing.inj hs
    exact syncWrites_from (h.cloned _ hs₀) h.pods hw
  | @mapWrite policy pods w left hs₀ =>
    have hleft := h.left policy pods (w :: left) hs₀
    refine ⟨h.policy, h.pods, h.maps.apply (hleft w (List.mem_cons_self ..)), by simp,
      fun policy' pods' left' hs w' hw' => ?_⟩
    obtain ⟨rfl, rfl, rfl⟩ := VerdictSyncTask.syncing.inj hs
    exact hleft w' (List.mem_cons_of_mem w hw')

theorem from_boot (hpolicy : policies .new) (hpods : snapshots ∅) :
    boot.From policies snapshots e where
  policy := hpolicy
  pods := hpods
  maps := ⟨⟨.new, hpolicy, rfl⟩, by simp [boot, bootMaps]⟩
  cloned := by simp [boot]
  left := by simp [boot]

/-- A quiet agent outside a relist has forgotten all but its policy and its snapshot. -/
theorem from_of_quiet {es : List AgentEvent} (h : Run (Step cap e) boot es a) (hquiet : a.Quiet)
    (hlisted : a.watch.phase ≠ .relisting) (hpolicy : policies a.policyCache)
    (hpods : snapshots a.watch.snapshot) : a.From policies snapshots e where
  policy := hpolicy
  pods := hpods
  maps := by
    obtain ⟨old, order, hmaps⟩ := hquiet.synced h hlisted
    rw [hmaps]
    exact sync_from hpolicy hpods
  cloned := by simp [hquiet.verdictSync]
  left := by simp [hquiet.verdictSync]

end Agent

section Decision

/-- What the kernel finds for a pair of addresses: the decision about two services that list
them, or the default. -/
theorem EbpfMaps.From.decision (h : maps.From policies snapshots e) (src dst : Ipv4Addr) :
    ∃ policy, policies policy ∧
      (lookupVerdict maps (frameKey e src dst) = fallbackVerdict policy ∨
        ∃ pods A B, snapshots pods ∧ A ≠ B ∧ pods.Lists A src ∧ pods.Lists B dst ∧
          lookupVerdict maps (frameKey e src dst) = serviceVerdict policy A B) := by
  cases hlookup : maps.verdictMap.lookup (frameKey e src dst) with
  | none =>
    obtain ⟨policy, hpolicy, hflag⟩ := h.flag
    exact ⟨policy, hpolicy, Or.inl (lookupVerdict_of_none hflag hlookup)⟩
  | some v =>
    obtain ⟨policy, pods, A, B, a, b, hpolicy, hpods, hne, hA, hB, hkey, rfl⟩ :=
      h.verdicts _ v hlookup
    obtain ⟨rfl, rfl⟩ := frameKey_inj.mp hkey
    exact ⟨policy, hpolicy, Or.inr ⟨pods, A, B, hpods, hne, hA, hB, lookupVerdict_of_some hlookup⟩⟩

end Decision

end Meshlite.Kprobe
