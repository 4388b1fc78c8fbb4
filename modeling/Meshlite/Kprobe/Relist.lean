import Meshlite.Kprobe.Agent

/-!
# Syncs during and after a relist

`Init` clears the snapshot and every `InitApply` after it already triggers a sync, so
the sync task can clone a snapshot that still misses pods the relist is about to
confirm. What a clone must not lose is said against the relist as the run delivers it.
-/

namespace Meshlite.Kprobe

open Runs

/-- The relist has named the pod, as this object. -/
def ListedSoFar (pre : List AgentEvent) (pod : Pod) : Prop :=
  ∃ old mid, pre = old ++ .watch (.initApply pod) :: mid ∧ .watch .init ∉ mid

/-- The relist will still name the pod, as this object. -/
def ListedLater (post : List AgentEvent) (pod : Pod) : Prop :=
  ∃ mid rest, post = mid ++ .watch (.initApply pod) :: rest ∧ .watch .init ∉ mid

namespace Agent

/-- A pod the relist confirms: listed and unchanged since, or still to be listed. -/
def Confirms (pre post : List AgentEvent) (a : Agent) (pod : Pod) : Prop :=
  ListedSoFar pre pod ∧ a.watch.pods pod.key = some pod ∨ ListedLater post pod

/-- The pair was in the snapshot before `Init` and belongs to a confirmed pod. -/
def Required (pre post : List AgentEvent) (a : Agent) (svc : String) (ip : Ipv4Addr) : Prop :=
  a.watch.before.Lists svc ip ∧ ∃ pod, a.Confirms pre post pod ∧ pod.Holds svc ip

/-- The snapshot, as it would be cloned now, has every such pair. -/
def KeepsPairs (pre post : List AgentEvent) (a : Agent) : Prop :=
  ∀ svc ip, a.Required pre post svc ip → a.watch.snapshot.Lists svc ip

/-- A sync of the snapshot gives two confirmed pods, neither address shared with another
service, the verdict that a sync of the snapshot before `Init` gives them. -/
def KeepsVerdicts (cap : Option ℕ) (e : Endian) (pre post : List AgentEvent) (a : Agent) : Prop :=
  ∀ policy (old maps : EbpfMaps) (order₀ : SyncOrder old a.watch.before)
    (order : SyncOrder maps a.watch.snapshot) fromSvc toSvc src dst,
    SyncSucceeds cap e policy a.watch.before order₀ →
    SyncSucceeds cap e policy a.watch.snapshot order →
    a.Required pre post fromSvc src → a.Required pre post toSvc dst →
    a.watch.before.ListsOnly fromSvc src → a.watch.before.ListsOnly toSvc dst →
    (∀ other, a.watch.snapshot.Lists other src → other = fromSvc) →
    (∀ other, a.watch.snapshot.Lists other dst → other = toSvc) →
    lookupVerdict (sync cap e policy a.watch.snapshot order) (frameKey e src dst) =
      lookupVerdict (sync cap e policy a.watch.before order₀) (frameKey e src dst)

/-- The snapshot is cloned when no pair from before `Init` waits for a pod still to be
listed, and no pod is deleted under a pair that another one still holds. -/
def Undisturbed (a : Agent) (post : List AgentEvent) : AgentEvent → Prop
  | .cloneSnapshot => ∀ svc ip pod, a.watch.before.Lists svc ip → pod.Holds svc ip →
      ListedLater post pod → ∃ key listed, a.watch.pods key = some listed ∧ listed.Holds svc ip
  | .watch (.delete pod) => ∀ svc ip, a.watch.before.Lists svc ip → pod.Holds svc ip →
      ¬ a.watch.HeldByOther pod.key svc ip
  | _ => True

end Agent

theorem lists_recorded {snap : PodSnapshot} {pod : Pod} {svc : String} {ip : Ipv4Addr} :
    PodSnapshot.Lists (handleWatchEvent snap (.apply pod)).1 svc ip ↔
      pod.Holds svc ip ∨ snap.Lists svc ip := by
  have h := Set.ext_iff.mp (pairs_recorded snap pod) (svc, ip)
  rwa [DerivedSet.add, Set.mem_ofPred_eq, extractServiceAndIp_eq_some] at h

theorem lists_forgotten {snap : PodSnapshot} {pod : Pod} {svc : String} {ip : Ipv4Addr} :
    PodSnapshot.Lists (handleWatchEvent snap (.delete pod)).1 svc ip ↔
      snap.Lists svc ip ∧ ¬ pod.Holds svc ip := by
  have h := Set.ext_iff.mp (pairs_forgotten snap pod) (svc, ip)
  rwa [DerivedSet.remove, Set.mem_ofPred_eq, Ne, extractServiceAndIp_eq_some] at h

/-- Of the pairs from before `Init`, the snapshot has those of the pods reported since. -/
def Watch.Refilled (w : Watch) : Prop :=
  ∀ key pod svc ip, w.pods key = some pod → pod.Holds svc ip → w.before.Lists svc ip →
    w.snapshot.Lists svc ip

theorem Watch.Refilled.record {w w' : Watch} {pod : Pod} (h : w.Refilled)
    (hsnap : w'.snapshot = (handleWatchEvent w.snapshot (.apply pod)).1)
    (hpods : w'.pods = Function.update w.pods pod.key (some pod))
    (hbefore : w'.before = w.before) : w'.Refilled := by
  intro key q svc ip hq hholds hb
  rw [hsnap, lists_recorded]
  rw [hpods] at hq
  rw [hbefore] at hb
  by_cases hkey : key = pod.key
  · subst hkey
    rw [Function.update_self] at hq
    obtain rfl := Option.some_inj.mp hq
    exact Or.inl hholds
  · rw [Function.update_of_ne hkey] at hq
    exact Or.inr (h key q svc ip hq hholds hb)

theorem Watch.Refilled.next {w : Watch} {ev : WatchEvent} (h : w.Refilled)
    (hdelete : ∀ pod, ev = .delete pod → ∀ svc ip, w.before.Lists svc ip → pod.Holds svc ip →
      ¬ w.HeldByOther pod.key svc ip) : (w.next ev).Refilled := by
  cases ev with
  | apply pod => exact h.record rfl rfl rfl
  | initApply pod => exact @Watch.Refilled.record w _ pod h rfl rfl rfl
  | delete pod =>
    intro key q svc ip hq hholds hb
    change Function.update w.pods pod.key none key = some q at hq
    change PodSnapshot.Lists (handleWatchEvent w.snapshot (.delete pod)).1 svc ip
    have hkey : key ≠ pod.key := by
      rintro rfl
      rw [Function.update_self] at hq
      cases hq
    rw [Function.update_of_ne hkey] at hq
    exact lists_forgotten.mpr ⟨h key q svc ip hq hholds hb, fun hp =>
      hdelete pod rfl svc ip hb hp ⟨key, q, hkey, hq, hholds⟩⟩
  | init =>
    intro key q svc ip hq
    cases hq
  | initDone | error => exact h

namespace Agent

variable {cap : Option ℕ} {e : Endian} {a a' : Agent}

theorem Step.watch_cases {ev : AgentEvent} (h : a.Step cap e ev a') :
    a'.watch = a.watch ∨
      ∃ w, ev = .watch w ∧ a.watch.Emits w ∧ a'.watch = a.watch.next w := by
  cases h with
  | message payload _ =>
    cases payload with
    | none => exact Or.inl rfl
    | some push => cases push <;> exact Or.inl rfl
  | watch w _ hemits => exact Or.inr ⟨w, rfl, hemits, rfl⟩
  | _ => exact Or.inl rfl

theorem Step.refilled {ev : AgentEvent} {post : List AgentEvent} (h : a.Step cap e ev a')
    (hund : a.Undisturbed post ev) (hr : a.watch.Refilled) : a'.watch.Refilled := by
  rcases h.watch_cases with heq | ⟨w, rfl, -, heq⟩
  · rw [heq]
    exact hr
  · rw [heq]
    refine hr.next ?_
    rintro pod rfl
    exact hund

theorem keepsPairs_of_refilled {pre post : List AgentEvent} (hr : a.watch.Refilled)
    (hund : a.Undisturbed post .cloneSnapshot) : a.KeepsPairs pre post := by
  rintro svc ip ⟨hb, pod, ⟨-, hpod⟩ | hlater, hholds⟩
  · exact hr _ pod svc ip hpod hholds hb
  · obtain ⟨key, listed, hlisted, hholds'⟩ := hund svc ip pod hb hholds hlater
    exact hr key listed svc ip hlisted hholds' hb

theorem KeepsPairs.keepsVerdicts {pre post : List AgentEvent} (h : a.KeepsPairs pre post) :
    a.KeepsVerdicts cap e pre post := by
  intro policy old maps order₀ order fromSvc toSvc src dst hok₀ hok hsrc hdst hs₀ hd₀ hs hd
  by_cases hne : fromSvc = toSvc
  · subst hne
    rw [lookupVerdict_sync_default, lookupVerdict_sync_default]
    · intro A B hA hB
      exact (hs₀.2 A hA).trans (hd₀.2 B hB).symm
    · intro A B hA hB
      exact (hs A hA).trans (hd B hB).symm
  · rw [lookupVerdict_sync hok ⟨h _ _ hsrc, hs⟩ ⟨h _ _ hdst, hd⟩ hne,
      lookupVerdict_sync hok₀ hs₀ hd₀ hne]

end Agent

/-- In a run whose steps are undisturbed, every sync that clones after an `Init` has the
pairs of the pods its relist confirms, and with them the verdicts from before. -/
theorem relist_keeps_pairs (cap : Option ℕ) (e : Endian) {es : List AgentEvent}
    (hund : ∀ pre ev post m, es = pre ++ ev :: post → Run (Agent.Step cap e) .boot pre m →
      m.Undisturbed post ev) :
    ∀ pre post m, es = pre ++ .cloneSnapshot :: post → Run (Agent.Step cap e) .boot pre m →
      m.KeepsPairs pre post ∧ m.KeepsVerdicts cap e pre post := by
  have hrefilled : ∀ {pre m}, Run (Agent.Step cap e) .boot pre m → ∀ post, es = pre ++ post →
      m.watch.Refilled := by
    intro pre m hrun
    induction hrun with
    | start =>
      intro post _ key pod svc ip hpod
      cases hpod
    | @next pre s s' ev hrun hstep ih =>
      intro post hes
      rw [List.append_assoc] at hes
      exact hstep.refilled (hund _ ev post s hes hrun) (ih _ hes)
  intro pre post m hes hrun
  have hkeeps : m.KeepsPairs pre post :=
    Agent.keepsPairs_of_refilled (hrefilled hrun _ hes) (hund pre _ post m hes hrun)
  exact ⟨hkeeps, hkeeps.keepsVerdicts⟩

/-- One pod is listed, the watch restarts, and the sync task takes a token once the
relist is over. -/
def relisted : List AgentEvent :=
  [.watch .init, .watch (.initApply backPod), .podSend, .watch .initDone, .podSend,
    .watch .init, .watch (.initApply backPod), .podSend, .watch .initDone, .podSend,
    .forwardRecv, .forwardSend, .syncRecv, .clonePolicy]

theorem exists_relisted (cap : Option ℕ) (e : Endian) :
    ∃ a, Run (Agent.Step cap e) .boot relisted a ∧
      a.Required relisted [] "beta" ⟨10, 244, 2, 7⟩ := by
  apply Exists.intro
  constructor
  · exact Run.start.next (.watch _ rfl trivial) |>.next (.watch _ rfl ⟨rfl, rfl⟩)
      |>.next (.podSend rfl (by decide)) |>.next (.watch _ rfl rfl)
      |>.next (.podSend rfl (by decide)) |>.next (.watch _ rfl trivial)
      |>.next (.watch _ rfl ⟨rfl, rfl⟩) |>.next (.podSend rfl (by decide))
      |>.next (.watch _ rfl rfl) |>.next (.podSend rfl (by decide))
      |>.next (.forwardRecv rfl (by decide)) |>.next (.forwardSend rfl (by decide))
      |>.next (.syncRecv rfl (by decide)) |>.next (.clonePolicy rfl)
  · exact ⟨by decide, backPod, Or.inl ⟨⟨relisted.take 6, relisted.drop 7, rfl, by
      simp [relisted]⟩, rfl⟩, by decide⟩

theorem eq_nil_of_last {α : Type*} {xs pre post : List α} {x : α}
    (h : xs ++ [x] = pre ++ x :: post) (hx : x ∉ xs) : post = [] := by
  rcases post.eq_nil_or_concat with rfl | ⟨l, y, rfl⟩
  · rfl
  · have hsplit : xs ++ [x] = (pre ++ x :: l) ++ [y] := by simp [h]
    obtain ⟨rfl, -⟩ := List.append_inj' hsplit rfl
    simp at hx

theorem relisted_keeps_pair :
    ∃ a, Run (Agent.Step verdictMapCapacity .little) .boot relisted a ∧
      a.watch.snapshot.Lists "beta" ⟨10, 244, 2, 7⟩ := by
  obtain ⟨a, hrun, hrequired⟩ := exists_relisted verdictMapCapacity .little
  refine ⟨a, hrun, (@relist_keeps_pairs verdictMapCapacity .little
    (relisted ++ [.cloneSnapshot]) ?_ relisted [] a rfl hrun).1 _ _ hrequired⟩
  intro pre ev post m hes hrun
  cases ev with
  | cloneSnapshot =>
    obtain rfl := eq_nil_of_last hes (by simp [relisted])
    rintro svc ip pod - - ⟨mid, rest, hpost, -⟩
    simp at hpost
  | watch w =>
    cases w with
    | delete pod =>
      have hmem : AgentEvent.watch (.delete pod) ∈ relisted ++ [.cloneSnapshot] := by simp [hes]
      simp [relisted] at hmem
    | _ => trivial
  | _ => trivial

/-- Two pods are listed, the watch restarts, and the sync task takes a token once the
first pod is listed again. -/
def restarted : List AgentEvent :=
  [.watch .init, .watch (.initApply (webPod "alpha" "10.244.1.5")), .podSend,
    .watch (.initApply backPod), .podSend, .watch .initDone, .podSend,
    .watch .init, .watch (.initApply (webPod "alpha" "10.244.1.5")), .podSend,
    .forwardRecv, .forwardSend, .syncRecv, .clonePolicy]

theorem exists_restarted (cap : Option ℕ) (e : Endian) :
    ∃ a, Run (Agent.Step cap e) .boot restarted a ∧
      (a.watch.before.Lists "beta" ⟨10, 244, 2, 7⟩ ∧
        ¬ a.watch.snapshot.Lists "beta" ⟨10, 244, 2, 7⟩) ∧
      a.verdictSync = .clonedPolicy .new ∧ a.podWatcher = .idle ∧
      a.watch.Emits (.initApply backPod) := by
  apply Exists.intro
  constructor
  · exact Run.start.next (.watch _ rfl trivial) |>.next (.watch _ rfl ⟨rfl, rfl⟩)
      |>.next (.podSend rfl (by decide)) |>.next (.watch _ rfl ⟨rfl, rfl⟩)
      |>.next (.podSend rfl (by decide)) |>.next (.watch _ rfl rfl)
      |>.next (.podSend rfl (by decide)) |>.next (.watch _ rfl trivial)
      |>.next (.watch _ rfl ⟨rfl, rfl⟩) |>.next (.podSend rfl (by decide))
      |>.next (.forwardRecv rfl (by decide)) |>.next (.forwardSend rfl (by decide))
      |>.next (.syncRecv rfl (by decide)) |>.next (.clonePolicy rfl)
  · exact ⟨by decide, rfl, rfl, rfl, rfl⟩

/-- The sync that clones now misses the second pod, which the relist then confirms. -/
theorem restarted_loses_pair :
    ¬ ∀ cap e es a, Run (Agent.Step cap e) .boot es a →
      ∀ pre post m, es = pre ++ .cloneSnapshot :: post → Run (Agent.Step cap e) .boot pre m →
        m.KeepsPairs pre post := by
  intro h
  obtain ⟨a, hrun, ⟨hbefore, hmissing⟩, hsync, hidle, hemits⟩ :=
    exists_restarted verdictMapCapacity .little
  have hfull := (hrun.next (.cloneSnapshot (.listed _ _) hsync)).next (.watch _ hidle hemits)
  refine hmissing (h _ _ _ _ hfull restarted [.watch (.initApply backPod)] a rfl hrun _ _
    ⟨hbefore, backPod, Or.inr ⟨[], [], rfl, by simp⟩, by decide⟩)

end Meshlite.Kprobe
