import Meshlite.Kprobe.Enforcement
import Meshlite.Kprobe.PodWatcher

/-!
# The tasks of the kprobe agent

`SigilClient` and `PodWatcher` update a shared store and then send; the forwarder
moves the pod events to the sync channel; the `VerdictSync` task takes one token,
clones the policy, clones the snapshot and syncs. Any task may move next, and the
kernel sees each write of a sync.
-/

namespace Meshlite.Kprobe

open Tls Runs

/-- A task that announces what it did: in its loop, or short of its send. -/
inductive Sender where
  | idle
  | sending
  deriving DecidableEq, Repr

/-- The loop of the `VerdictSync` task: in `recv`, holding a token, holding a clone of the
policy, or in a sync with these writes left. -/
inductive VerdictSyncTask where
  | waiting
  | received
  | clonedPolicy (policy : PolicyCache)
  | syncing (policy : PolicyCache) (pods : PodSnapshot) (left : List MapWrite)

/-- `mpsc::channel(32)`, both of them. -/
def channelCapacity : ℕ := 32

/-- The shared stores, the tokens queued on the two channels, and where each task is. -/
structure Agent where
  policyCache : PolicyCache
  watch : Watch
  maps : EbpfMaps
  podChannel : ℕ
  syncChannel : ℕ
  sigilClient : Sender
  podWatcher : Sender
  forwarder : Sender
  verdictSync : VerdictSyncTask

inductive AgentEvent where
  /-- a message of the Sigil stream, its update included -/
  | message (payload : Option Proto.AgentPush)
  | sigilSend
  /-- an event of the watch, its update included -/
  | watch (e : WatchEvent)
  | podSend
  | forwardRecv
  | forwardSend
  | syncRecv
  | clonePolicy
  | cloneSnapshot
  | mapWrite
  | syncDone

namespace Agent

def boot : Agent where
  policyCache := .new
  watch := .start
  maps := bootMaps
  podChannel := 0
  syncChannel := 0
  sigilClient := .idle
  podWatcher := .idle
  forwarder := .idle
  verdictSync := .waiting

/-- The arms of `push.payload`: a certificate leaves the policy as it is. -/
def receive (a : Agent) : Option Proto.AgentPush → Agent
  | some (.cert _) => { a with sigilClient := .sending }
  | some (.policy pb) =>
    { a with policyCache := applyPolicyBundle pb a.policyCache, sigilClient := .sending }
  | none => a

variable (cap : Option ℕ) (e : Endian)

inductive Step : Agent → AgentEvent → Agent → Prop
  | message {a : Agent} (payload : Option Proto.AgentPush) : a.sigilClient = .idle →
      Step a (.message payload) (a.receive payload)
  | sigilSend {a : Agent} : a.sigilClient = .sending → a.syncChannel < channelCapacity →
      Step a .sigilSend { a with sigilClient := .idle, syncChannel := a.syncChannel + 1 }
  | watch {a : Agent} (ev : WatchEvent) : a.podWatcher = .idle → a.watch.Emits ev →
      Step a (.watch ev)
        { a with
          watch := a.watch.next ev
          podWatcher := if (handleWatchEvent a.watch.snapshot ev).2 then .sending else .idle }
  | podSend {a : Agent} : a.podWatcher = .sending → a.podChannel < channelCapacity →
      Step a .podSend { a with podWatcher := .idle, podChannel := a.podChannel + 1 }
  | forwardRecv {a : Agent} : a.forwarder = .idle → 0 < a.podChannel →
      Step a .forwardRecv { a with podChannel := a.podChannel - 1, forwarder := .sending }
  | forwardSend {a : Agent} : a.forwarder = .sending → a.syncChannel < channelCapacity →
      Step a .forwardSend { a with forwarder := .idle, syncChannel := a.syncChannel + 1 }
  | syncRecv {a : Agent} : a.verdictSync = .waiting → 0 < a.syncChannel →
      Step a .syncRecv { a with syncChannel := a.syncChannel - 1, verdictSync := .received }
  | clonePolicy {a : Agent} : a.verdictSync = .received →
      Step a .clonePolicy { a with verdictSync := .clonedPolicy a.policyCache }
  | cloneSnapshot {a : Agent} {policy : PolicyCache} (order : SyncOrder a.maps a.watch.snapshot) :
      a.verdictSync = .clonedPolicy policy →
      Step a .cloneSnapshot
        { a with
          verdictSync := .syncing policy a.watch.snapshot
            (syncWrites e policy a.watch.snapshot order) }
  | mapWrite {a : Agent} {policy : PolicyCache} {pods : PodSnapshot} {w : MapWrite}
      {left : List MapWrite} : a.verdictSync = .syncing policy pods (w :: left) →
      Step a .mapWrite
        { a with maps := w.apply cap a.maps, verdictSync := .syncing policy pods left }
  | syncDone {a : Agent} {policy : PolicyCache} {pods : PodSnapshot} :
      a.verdictSync = .syncing policy pods [] →
      Step a .syncDone { a with verdictSync := .waiting }

/-- The maps are what one sync with this policy and this snapshot can produce. -/
def Synced (policy : PolicyCache) (pods : PodSnapshot) (maps : EbpfMaps) : Prop :=
  ∃ (old : EbpfMaps) (order : SyncOrder old pods), maps = sync cap e policy pods order

/-- Nothing is queued, the sync task waits, and no task is short of its send. -/
structure Quiet (a : Agent) : Prop where
  podChannel : a.podChannel = 0
  syncChannel : a.syncChannel = 0
  verdictSync : a.verdictSync = .waiting
  sigilClient : a.sigilClient = .idle
  podWatcher : a.podWatcher = .idle
  forwarder : a.forwarder = .idle

/-- A token that will start another sync is on its way. -/
def InFlight (a : Agent) : Prop :=
  a.sigilClient = .sending ∨ a.podWatcher = .sending ∨ 0 < a.podChannel ∨
    a.forwarder = .sending ∨ 0 < a.syncChannel ∨ a.verdictSync = .received

/-- What the sync task has cloned, or has last synced, is current. -/
def Current (a : Agent) : Prop :=
  match a.verdictSync with
  | .waiting => Synced cap e a.policyCache a.watch.snapshot a.maps
  | .received => True
  | .clonedPolicy policy => policy = a.policyCache
  | .syncing policy pods _ => policy = a.policyCache ∧ pods = a.watch.snapshot

/-- The writes left complete a sync of the clones. -/
def WritesLeft (a : Agent) : Prop :=
  ∀ policy pods left, a.verdictSync = .syncing policy pods left →
    Synced cap e policy pods (left.foldl (MapWrite.apply cap) a.maps)

/-- Every update not yet in what the sync task uses is covered by a token, or by the
`InitDone` of the relist in progress. -/
def Covered (a : Agent) : Prop :=
  a.InFlight ∨ a.watch.phase = .relisting ∨ a.Current cap e

variable {cap e} {a a' : Agent}

theorem synced_boot : Synced cap e PolicyCache.new ∅ bootMaps := by
  refine ⟨bootMaps, .listed bootMaps ∅, ?_⟩
  rw [sync_eq]
  rfl

theorem writesLeft_of_ne (h : ∀ policy pods left, a.verdictSync ≠ .syncing policy pods left) :
    a.WritesLeft cap e :=
  fun policy pods left hs => absurd hs (h policy pods left)

theorem WritesLeft.congr (h : a.WritesLeft cap e) (hmaps : a'.maps = a.maps)
    (hsync : a'.verdictSync = a.verdictSync) : a'.WritesLeft cap e := by
  intro policy pods left hs
  rw [hmaps]
  exact h policy pods left (hsync ▸ hs)

theorem Step.writesLeft {ev : AgentEvent} (h : a.Step cap e ev a') (hw : a.WritesLeft cap e) :
    a'.WritesLeft cap e := by
  cases h with
  | message payload _ =>
    cases payload with
    | none => exact hw
    | some push => cases push <;> exact hw.congr rfl rfl
  | sigilSend | watch | podSend | forwardRecv | forwardSend => exact hw.congr rfl rfl
  | syncRecv | clonePolicy | syncDone => exact writesLeft_of_ne (by simp)
  | cloneSnapshot order _ =>
    intro policy' pods left hs
    obtain ⟨rfl, rfl, rfl⟩ := VerdictSyncTask.syncing.inj hs
    exact ⟨a.maps, order, rfl⟩
  | mapWrite hs₀ =>
    intro policy' pods' left' hs
    obtain ⟨rfl, rfl, rfl⟩ := VerdictSyncTask.syncing.inj hs
    exact hw _ _ _ hs₀

/-- A handled event that sends nothing leaves the snapshot, unless it starts a relist. -/
theorem next_of_unsent {w : Watch} {ev : WatchEvent}
    (h : (handleWatchEvent w.snapshot ev).2 = false) :
    (w.next ev).phase = .relisting ∨
      (w.next ev).snapshot = w.snapshot ∧ (w.next ev).phase = w.phase := by
  cases ev with
  | apply pod | initApply pod | delete pod =>
    refine Or.inr ⟨?_, rfl⟩
    simp only [Watch.next]
    rw [handleWatchEvent] at h ⊢
    cases hx : extractServiceAndIp pod with
    | none => rfl
    | some x => simp [hx] at h
  | init => exact Or.inl rfl
  | initDone => cases h
  | error => exact Or.inr ⟨rfl, rfl⟩

theorem Current.congr (h : a.Current cap e) (hpolicy : a'.policyCache = a.policyCache)
    (hpods : a'.watch.snapshot = a.watch.snapshot) (hmaps : a'.maps = a.maps)
    (hsync : a'.verdictSync = a.verdictSync) : a'.Current cap e := by
  rw [Current, hsync, hpolicy, hpods, hmaps]
  exact h

/-- The sync task, once past its token, moves on without touching the queues. -/
theorem Covered.move (h : a.Covered cap e) (hsync : a.verdictSync ≠ .received) (maps : EbpfMaps)
    (task : VerdictSyncTask)
    (hcur : a.Current cap e → { a with maps, verdictSync := task }.Current cap e) :
    { a with maps, verdictSync := task }.Covered cap e := by
  refine h.imp (fun hflight => ?_) (Or.imp_right hcur)
  simp only [InFlight, hsync, or_false] at hflight ⊢
  tauto

theorem Step.covered {ev : AgentEvent} (h : a.Step cap e ev a') (hw : a.WritesLeft cap e)
    (hc : a.Covered cap e) : a'.Covered cap e := by
  cases h with
  | message payload hidle =>
    cases payload with
    | none => exact hc
    | some push => cases push <;> exact Or.inl (Or.inl rfl)
  | sigilSend | forwardSend =>
    exact Or.inl (by simp [InFlight])
  | watch ev hidle hemits =>
    cases hsent : (handleWatchEvent a.watch.snapshot ev).2 with
    | true => exact Or.inl (Or.inr (Or.inl rfl))
    | false =>
      rcases next_of_unsent hsent with hrelist | ⟨hsnap, hphase⟩
      · exact Or.inr (Or.inl hrelist)
      · rcases hc with hflight | hrelist | hcur
        · refine Or.inl ?_
          rw [InFlight, hidle] at hflight
          exact hflight
        · exact Or.inr (Or.inl (hphase.trans hrelist))
        · exact Or.inr (Or.inr (hcur.congr rfl hsnap rfl rfl))
  | podSend => exact Or.inl (by simp [InFlight])
  | forwardRecv => exact Or.inl (by simp [InFlight])
  | syncRecv => exact Or.inl (by simp [InFlight])
  | clonePolicy => exact Or.inr (Or.inr rfl)
  | cloneSnapshot order hs =>
    refine hc.move (by simp [hs]) a.maps _ fun hcur => ?_
    rw [Current, hs] at hcur
    exact ⟨hcur, rfl⟩
  | mapWrite hs =>
    refine hc.move (by simp [hs]) _ _ fun hcur => ?_
    rw [Current, hs] at hcur
    exact hcur
  | syncDone hs =>
    refine hc.move (by simp [hs]) a.maps _ fun hcur => ?_
    rw [Current, hs] at hcur
    obtain ⟨rfl, rfl⟩ := hcur
    exact hw _ _ _ hs

theorem covered_of_run {es : List AgentEvent} (h : Run (Step cap e) boot es a) :
    a.WritesLeft cap e ∧ a.Covered cap e := by
  refine h.invariant (I := fun _ a => a.WritesLeft cap e ∧ a.Covered cap e)
    ⟨writesLeft_of_ne (by simp [boot]), Or.inr (Or.inr synced_boot)⟩ ?_
  rintro es a ev a' - ⟨hw, hc⟩ hstep
  exact ⟨hstep.writesLeft hw, hstep.covered hw hc⟩

theorem Quiet.not_inFlight (h : a.Quiet) : ¬ a.InFlight := by
  simp [InFlight, h.podChannel, h.syncChannel, h.verdictSync, h.sigilClient, h.podWatcher,
    h.forwarder]

theorem Quiet.synced {es : List AgentEvent} (hquiet : a.Quiet) (h : Run (Step cap e) boot es a)
    (hlisted : a.watch.phase ≠ .relisting) :
    Synced cap e a.policyCache a.watch.snapshot a.maps := by
  rcases (covered_of_run h).2 with hflight | hrelist | hcurrent
  · exact absurd hflight hquiet.not_inFlight
  · exact absurd hrelist hlisted
  · rwa [Current, hquiet.verdictSync] at hcurrent

end Agent

/-- Whenever the agent is quiet outside a relist, the maps are those of one sync with the
current policy and the current snapshot. -/
theorem quiet_synced (cap : Option ℕ) (e : Endian) {es : List AgentEvent} {a : Agent}
    (h : Run (Agent.Step cap e) .boot es a) (hquiet : a.Quiet)
    (hlisted : a.watch.phase ≠ .relisting) :
    Agent.Synced cap e a.policyCache a.watch.snapshot a.maps :=
  hquiet.synced h hlisted

section Syncs

variable {cap : Option ℕ} {e : Endian} {es : List AgentEvent} {a : Agent}

theorem exists_writes {policy : PolicyCache} {pods : PodSnapshot} {left : List MapWrite}
    (h : Run (Agent.Step cap e) .boot es a) (hs : a.verdictSync = .syncing policy pods left) :
    ∃ es', Run (Agent.Step cap e) .boot (es ++ es')
      { a with maps := left.foldl (MapWrite.apply cap) a.maps, verdictSync := .waiting } := by
  induction left generalizing es a with
  | nil => exact ⟨[.syncDone], h.next (.syncDone hs)⟩
  | cons w left ih =>
    obtain ⟨es', hrun⟩ := ih (h.next (.mapWrite hs)) rfl
    exact ⟨.mapWrite :: es', by simpa using hrun⟩

theorem exists_sync (h : Run (Agent.Step cap e) .boot es a) (hwaiting : a.verdictSync = .waiting)
    (htoken : 0 < a.syncChannel) :
    ∃ es', Run (Agent.Step cap e) .boot (es ++ es')
      { a with
        maps := sync cap e a.policyCache a.watch.snapshot (.listed a.maps a.watch.snapshot)
        syncChannel := a.syncChannel - 1 } := by
  have hcloned := ((h.next (.syncRecv hwaiting htoken)).next (.clonePolicy rfl)).next
    (.cloneSnapshot (.listed _ _) rfl)
  obtain ⟨es', hrun⟩ := exists_writes hcloned rfl
  refine ⟨[.syncRecv, .clonePolicy, .cloneSnapshot] ++ es', ?_⟩
  simpa [hwaiting, sync] using hrun

/-- The sync task works off the tokens, one sync after the other. -/
theorem exists_syncs {n : ℕ} (h : Run (Agent.Step cap e) .boot es a)
    (hwaiting : a.verdictSync = .waiting) (htokens : a.syncChannel = n + 1) :
    ∃ es', Run (Agent.Step cap e) .boot (es ++ es')
      { a with
        maps := sync cap e a.policyCache a.watch.snapshot (.listed a.maps a.watch.snapshot)
        syncChannel := 0 } := by
  induction n generalizing es a with
  | zero =>
    obtain ⟨es', hrun⟩ := exists_sync h hwaiting (by omega)
    exact ⟨es', by simpa [htokens] using hrun⟩
  | succ n ih =>
    obtain ⟨es', hrun⟩ := exists_sync h hwaiting (by omega)
    obtain ⟨es'', hrun'⟩ := ih hrun hwaiting (by simp [htokens])
    refine ⟨es' ++ es'', ?_⟩
    simpa [sync_eq, SyncOrder.listed] using hrun'

end Syncs

/-- `alpha → [beta]`, deny by default. -/
def oneWayBundle : Proto.PolicyBundle where
  rules := [{ fromService := "alpha", toServices := ["beta"] }]
  defaultAllow := false
  mtlsMode := "enforce"

/-- The pod `default/back-1`. -/
def backPod : Pod where
  key := { nameSpace := "default", name := "back-1" }
  labels := some (AList.singleton "app" "beta")
  status := some { podIp := some "10.244.2.7" }

/-- The policy comes while two pods are listed, and the forwarder passes each event on before
the next. -/
def announced : List AgentEvent :=
  [.watch .init, .watch (.initApply backPod), .podSend, .message (some (.policy oneWayBundle)),
    .forwardRecv, .forwardSend, .watch (.initApply (webPod "alpha" "10.244.1.5")), .sigilSend,
    .podSend, .forwardRecv, .forwardSend, .watch .initDone, .podSend, .forwardRecv, .forwardSend]

/-- The agent after it has synced what was announced. -/
def enforcing : Agent :=
  { Agent.boot with
    policyCache := oneWayPolicy
    watch := watched [.init, .initApply backPod, .initApply (webPod "alpha" "10.244.1.5"),
      .initDone]
    maps := sync verdictMapCapacity .little oneWayPolicy twoPods (.listed bootMaps twoPods) }

theorem enforcing_snapshot : enforcing.watch.snapshot = twoPods := by rfl

theorem run_enforcing : ∃ es,
    Run (Agent.Step verdictMapCapacity .little) .boot (announced ++ es) enforcing := by
  have hannounced : Run (Agent.Step verdictMapCapacity .little) .boot announced
      { Agent.boot with
        policyCache := oneWayPolicy
        watch := enforcing.watch
        syncChannel := 4 } :=
    Run.start.next (.watch _ rfl trivial) |>.next (.watch _ rfl ⟨rfl, rfl⟩)
      |>.next (.podSend rfl (by decide)) |>.next (.message _ rfl)
      |>.next (.forwardRecv rfl (by decide)) |>.next (.forwardSend rfl (by decide))
      |>.next (.watch _ rfl ⟨rfl, rfl⟩) |>.next (.sigilSend rfl (by decide))
      |>.next (.podSend rfl (by decide)) |>.next (.forwardRecv rfl (by decide))
      |>.next (.forwardSend rfl (by decide)) |>.next (.watch _ rfl rfl)
      |>.next (.podSend rfl (by decide)) |>.next (.forwardRecv rfl (by decide))
      |>.next (.forwardSend rfl (by decide))
  exact exists_syncs hannounced rfl rfl

theorem enforcing_synced : ∃ es,
    Run (Agent.Step verdictMapCapacity .little) .boot (announced ++ es) enforcing ∧
    Agent.Synced verdictMapCapacity .little oneWayPolicy twoPods enforcing.maps := by
  obtain ⟨es, hrun⟩ := run_enforcing
  have hsynced := quiet_synced verdictMapCapacity .little hrun ⟨rfl, rfl, rfl, rfl, rfl, rfl⟩
    (by decide)
  rw [enforcing_snapshot] at hsynced
  exact ⟨es, hrun, hsynced⟩

end Meshlite.Kprobe
