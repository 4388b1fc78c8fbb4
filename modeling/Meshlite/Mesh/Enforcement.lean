import Meshlite.Kprobe.Enumeration
import Meshlite.Mesh.Settling

/-!
# From the config to the kernel

Once Sigil's handlers have finished, the agent has handled what was delivered to it and its
tasks wait, the kernel decides opening frames by the current config and the current
snapshot of the pods.
-/

namespace Meshlite.Mesh

open Policy Tasks Runs Kprobe BoundedMap

variable (unmarshal : List UInt8 → Except String MeshConfig) (cap : Option ℕ) (e : Endian)

/-- A step in which no channel of Sigil is full and no stale policy is left uncorrected. -/
def CurrentStep (M : Mesh) (ev : MeshEvent) (M' : Mesh) : Prop :=
  Step unmarshal cap e M ev M' ∧
    ∀ se, ev.sigilEvent = some se → se.accepted = true ∧ Sigil.Covered M.sigil se

variable {unmarshal cap e}

section Settled

variable {eng : Engine} {leafTtl : Duration} {rootKey : Proto.KeyId} {now : Time}
variable {es : List MeshEvent} {M : Mesh}

theorem settling_of_run
    (h : Run (CurrentStep unmarshal cap e) (.start eng leafTtl rootKey now) es M) :
    Sigil.Settling M.sigil := by
  have hsigil : Run (fun S se S' => Sigil.Step unmarshal S se S' ∧ se.accepted = true ∧
      Sigil.Covered S se) (.boot eng leafTtl rootKey now) (es.filterMap MeshEvent.sigilEvent)
      M.sigil := by
    refine h.project (f := Mesh.sigil) (g := MeshEvent.sigilEvent) ?_ ?_
    · exact fun M ev M' se hstep hev => ⟨hstep.1.sigil_step hev, hstep.2 se hev⟩
    · exact fun _ _ _ hstep => hstep.1.sigil_eq
  refine hsigil.invariant (I := fun _ S => Sigil.Settling S) (Sigil.settling_boot _ _ _ _) ?_
  rintro es S se S' - hS ⟨hstep, hacc, hcov⟩
  exact Sigil.settling_step hstep hacc hcov hS

theorem Settled.policyCache (hM : M.Settled)
    (h : Run (CurrentStep unmarshal cap e) (.start eng leafTtl rootKey now) es M) :
    ∃ order : M.sigil.server.eng.RangeOrder,
      M.agent.policyCache = Sigil.pushedCache order .new := by
  obtain ⟨node, sid, st, hsid, hst, hdrained⟩ := hM.connected
  have hlinked := linked_of_run (h.mono fun _ _ _ hstep => hstep.1)
  obtain ⟨st', handled, hst', hdel, hknows⟩ := hlinked sid hsid
  obtain rfl := Option.some.inj (hst'.symm.trans hst.2.1)
  rw [hM.inbox, List.append_nil] at hdel
  rcases (settling_of_run h).current node sid st' hst with ⟨pb, hlast, order, rfl⟩ | hwill
  · rw [Sigil.AgentStream.pushed, hdrained, List.append_nil, hdel] at hlast
    exact ⟨order, hknows _ hlast⟩
  · exact absurd hwill hM.finished.not_will

theorem Settled.synced (hM : M.Settled)
    (h : Run (CurrentStep unmarshal cap e) (.start eng leafTtl rootKey now) es M) :
    M.Synced cap e :=
  hM.quiet.synced (agent_of_run (h.mono fun _ _ _ hstep => hstep.1)) hM.listed

/-- With room in its map, a settled agent lets the current config decide between two services. -/
theorem Settled.lookupVerdict (hM : M.Settled)
    (h : Run (CurrentStep unmarshal cap e) (.start eng leafTtl rootKey now) es M)
    (hroom : SufficientCapacity cap e M.agent.policyCache M.agent.watch.snapshot) {A B : String}
    {src dst : Ipv4Addr} (hA : M.agent.watch.snapshot.ListsOnly A src)
    (hB : M.agent.watch.snapshot.ListsOnly B dst) (hne : A ≠ B) :
    lookupVerdict M.agent.maps (frameKey e src dst) = 1 ↔ ¬ M.sigil.server.eng.Exports A B := by
  obtain ⟨order, hpolicy⟩ := hM.policyCache h
  obtain ⟨old, syncOrder, hmaps⟩ := hM.synced h
  rw [hmaps, lookupVerdict_sync hroom.syncSucceeds hA hB hne, serviceVerdict_eq_one, hpolicy,
    ← Bool.not_eq_true, Sigil.isAllowed_pushedCache]

end Settled

/-- In every settled state, with room in the map for every pair of addresses, an opening frame
between the pods of two services is dropped exactly if the current config does not export
the pair, and one between addresses that are not listed under two services is dropped
exactly if the default denies. -/
theorem settled_enforces (eng : Engine) (leafTtl : Duration) (rootKey : Proto.KeyId) (now : Time)
    (es : List MeshEvent) (M : Mesh)
    (h : Run (CurrentStep unmarshal cap e) (.start eng leafTtl rootKey now) es M) (hM : M.Settled)
    (hroom : SufficientCapacity cap e M.agent.policyCache M.agent.watch.snapshot) (f : Frame)
    (src dst : Ipv4Addr) (hf : f.Opens src dst) (hs : src.InPodCidr) (hd : dst.InPodCidr) :
    (∀ A B, M.agent.watch.snapshot.ListsOnly A src → M.agent.watch.snapshot.ListsOnly B dst →
      A ≠ B → (Drops e M.agent.maps f ↔ ¬ M.sigil.server.eng.Exports A B)) ∧
    ((∀ A B, M.agent.watch.snapshot.Lists A src → M.agent.watch.snapshot.Lists B dst → A = B) →
      (Drops e M.agent.maps f ↔ M.sigil.server.eng.defaultAllow = false)) := by
  rw [hf.drops_iff hs hd]
  constructor
  · exact fun A B hA hB hne => hM.lookupVerdict h hroom hA hB hne
  · intro hone
    obtain ⟨order, hpolicy⟩ := hM.policyCache h
    obtain ⟨old, syncOrder, hmaps⟩ := hM.synced h
    rw [hmaps, lookupVerdict_sync_default hone, fallbackVerdict_eq_one, hpolicy,
      Sigil.pushedCache_defaultAllow]

section Demo

theorem agent_run (M : Mesh) {aes : List AgentEvent} {a : Agent}
    (h : Run (fun a ae a' => (∀ payload, ae ≠ .message payload) ∧ a.Step cap e ae a')
      M.agent aes a) :
    Run (CurrentStep unmarshal cap e) M (aes.map .agent) { M with agent := a } := by
  induction h with
  | start => exact .start
  | @next aes a a' ae _ hstep ih =>
    rw [List.map_append]
    exact ih.next ⟨.agent hstep.1 hstep.2, nofun⟩

theorem sigil_run (M : Mesh) {ses : List Sigil.Event} {S : Sigil.System}
    (h : Run (fun S se S' => Sigil.Step unmarshal S se S' ∧ se.accepted = true ∧ Sigil.Covered S se)
      M.sigil ses S) :
    Run (CurrentStep unmarshal cap e) M (ses.map .sigil)
      { M with sigil := S, inbox := M.inbox ++ ses.flatMap M.arrivals } := by
  induction h with
  | start =>
    rw [List.flatMap_nil, List.append_nil]
    exact .start
  | @next ses S S' se _ hstep ih =>
    rw [List.map_append, List.flatMap_append, List.flatMap_singleton, ← List.append_assoc]
    refine ih.next ⟨.sigil hstep.1, fun se' hse' => ?_⟩
    obtain rfl : se = se' := Option.some.inj hse'
    exact hstep.2

/-- The pod of `alpha` and the pod of `beta` are listed. -/
def demoListing : List AgentEvent :=
  [.watch .init, .watch (.initApply (webPod "alpha" "10.244.1.5")), .podSend,
    .watch (.initApply { webPod "beta" "10.244.2.7" with
      key := { nameSpace := "default", name := "web-2" } }), .podSend, .watch .initDone]

def demoWatch : Watch :=
  watched [.init, .initApply (webPod "alpha" "10.244.1.5"),
    .initApply { webPod "beta" "10.244.2.7" with
      key := { nameSpace := "default", name := "web-2" } }, .initDone]

def listedAgent : Agent :=
  { Agent.boot with watch := demoWatch, podChannel := 2, podWatcher := .sending }

theorem run_demoListing :
    Run (fun a ae a' => (∀ payload, ae ≠ .message payload) ∧
      a.Step verdictMapCapacity .little ae a') .boot demoListing listedAgent :=
  (((((Run.start.next ⟨nofun, .watch _ rfl trivial⟩).next ⟨nofun, .watch _ rfl ⟨rfl, rfl⟩⟩).next
    ⟨nofun, .podSend rfl (by decide)⟩).next ⟨nofun, .watch _ rfl ⟨rfl, by rfl⟩⟩).next
    ⟨nofun, .podSend rfl (by decide)⟩).next ⟨nofun, .watch _ rfl rfl⟩

/-- Sigil has no work once its handlers are finished and its streams are drained. -/
theorem sigilEvent_of_idle {M M' : Mesh} {ev : MeshEvent} (hfinished : Finished M.sigil.tasks)
    (hdrained : ∀ st ∈ M.sigil.server.dist.opened, st.sends = []) (hwork : IsWork ev)
    (h : Step unmarshal cap e M ev M') : ev.sigilEvent = none := by
  cases ev with
  | sigil se =>
    have hstep : Sigil.Step unmarshal M.sigil se M'.sigil := h.sigil_step rfl
    generalize M'.sigil = S' at hstep
    cases hstep with
    | perform hperf =>
      obtain ⟨k, hk, -⟩ := hperf
      obtain ⟨a, ha⟩ := hfinished _ (List.mem_of_getElem? hk)
      cases ha
    | deliver hopen hphase hhead =>
      rw [hdrained _ (List.mem_of_getElem? hopen)] at hhead
      cases hhead
    | _ => exact absurd hwork id
  | connect => exact absurd hwork id
  | _ => rfl

theorem watch_of_work {M M' : Mesh} {ev : MeshEvent} (hwork : IsWork ev)
    (h : Step unmarshal cap e M ev M') : M'.agent.watch = M.agent.watch := by
  cases h with
  | sigil | connect | disconnect => rfl
  | @receive push inbox a hinbox hown =>
    cases hown with
    | message payload => cases push <;> rfl
  | agent hown hstep =>
    cases hstep with
    | message payload => exact absurd rfl (hown payload)
    | watch we => exact absurd rfl (hwork we)
    | _ => rfl

/-- Work of the agent alone, once Sigil has none. -/
theorem work_of_idle {M M' : Mesh} {more : List MeshEvent} (hfinished : Finished M.sigil.tasks)
    (hdrained : ∀ st ∈ M.sigil.server.dist.opened, st.sends = [])
    (h : Run (fun M ev M' => IsWork ev ∧ Step unmarshal cap e M ev M') M more M') :
    Run (CurrentStep unmarshal cap e) M more M' ∧ M'.sigil = M.sigil ∧
      M'.agent.watch = M.agent.watch := by
  induction h with
  | start => exact ⟨.start, rfl, rfl⟩
  | @next more s s' ev _ hlast ih =>
    obtain ⟨hrun, hsigil, hwatch⟩ := ih
    obtain ⟨hwork, hstep⟩ := hlast
    have hnone : ev.sigilEvent = none :=
      sigilEvent_of_idle (hsigil ▸ hfinished) (hsigil ▸ hdrained) hwork hstep
    have hcurrent : CurrentStep unmarshal cap e s ev s' := by
      refine ⟨hstep, fun se hse => ?_⟩
      rw [hnone] at hse
      cases hse
    exact ⟨hrun.next hcurrent, (hstep.sigil_eq hnone).trans hsigil,
      (watch_of_work hwork hstep).trans hwatch⟩

/-- `alpha → [beta]`, deny by default. -/
def demoStart : Mesh := .start (newEngine Sigil.demoConfig) (30 * second) 0 0

theorem demo_settled : ∃ es M,
    Run (CurrentStep Sigil.refuseConfig verdictMapCapacity .little) demoStart es M ∧ M.Settled ∧
    M.sigil.server.eng.Exports "alpha" "beta" ∧ ¬ M.sigil.server.eng.Exports "beta" "alpha" ∧
    M.agent.watch = demoWatch := by
  obtain ⟨ses, S, hsigil, hfinished, hdrained, hidle, hallow, hdeny⟩ :
      ∃ ses S, Run (fun S se S' => Sigil.Step Sigil.refuseConfig S se S' ∧
        (se.accepted && Sigil.alwaysCurrent S se) = true) subscribed.sigil ses S ∧
        Finished S.tasks ∧ Sigil.Drained S ∧ (∀ st ∈ S.server.dist.opened, st.sends = []) ∧
        (Sigil.pushedCache (.listed S.server.eng) .new).isAllowed "alpha" "beta" = true ∧
        (Sigil.pushedCache (.listed S.server.eng) .new).isAllowed "beta" "alpha" = false :=
    Sigil.exists_checked_run (by decide +kernel : (subscribed.sigil.follow Sigil.refuseConfig _
      (List.replicate 5 (.perform 1) ++ [.perform 0, .deliver 0])).any _ = true)
  obtain ⟨st, hst, -⟩ := hdrained.serving
  have hlisting : Run (CurrentStep Sigil.refuseConfig verdictMapCapacity .little) demoStart
      (demoListing.map .agent) { demoStart with agent := listedAgent } :=
    agent_run demoStart run_demoListing
  have hconnect := hlisting.next ⟨.connect rfl (.subscribe Sigil.quietHello (by decide)),
    fun se hse => Option.some.inj hse ▸ ⟨rfl, trivial⟩⟩
  have hsigil' := hsigil.mono fun S se S' hstep => by
    obtain ⟨hacc, hcur⟩ := Bool.and_eq_true_iff.mp hstep.2
    exact (⟨hstep.1, hacc, Sigil.covered_of_alwaysCurrent hcur⟩ :
      Sigil.Step _ S se S' ∧ se.accepted = true ∧ Sigil.Covered S se)
  obtain ⟨es, inbox, hpushed⟩ : ∃ es inbox,
      Run (CurrentStep Sigil.refuseConfig verdictMapCapacity .little) demoStart es
        ⟨S, listedAgent, some 0, inbox⟩ :=
    ⟨_, _, hconnect.append (sigil_run ⟨subscribed.sigil, listedAgent, some 0, []⟩ hsigil')⟩
  have hends : Ends (Step Sigil.refuseConfig verdictMapCapacity .little) IsWork := work_ends
  obtain ⟨more, M', hwork, hend⟩ := hends.exists_stuck ⟨S, listedAgent, some 0, inbox⟩
  obtain ⟨hmore, hsame, hwatch⟩ := work_of_idle hfinished hidle hwork
  have hrun := hpushed.append hmore
  have hkept := hwork.invariant (I := fun _ M => M.Connected ∧ M.agent.watch.phase ≠ .relisting)
    ⟨⟨"node-1", 0, st, rfl, hst⟩, (by decide : demoWatch.phase ≠ .relisting)⟩
    fun _ _ _ _ _ hM hstep => hstep.2.connected hstep.1 hM
  refine ⟨_, M', hrun, settled_of_stuck (hrun.mono fun _ _ _ hstep => hstep.1) hend hkept.1 hkept.2,
    ?_, ?_, hwatch⟩
  · rw [hsame]
    exact (Sigil.isAllowed_pushedCache _ _ _ _).mp hallow
  · rw [hsame]
    intro hexports
    have hallowed := (Sigil.isAllowed_pushedCache (.listed _) .new _ _).mpr hexports
    rw [hdeny] at hallowed
    cases hallowed

theorem writtenKeys_eq (policy policy' : Tls.PolicyCache) (pods : PodSnapshot) :
    writtenKeys e policy pods = writtenKeys e policy' pods := by
  ext key
  simp only [mem_writtenKeys, mem_verdictInserts (List.Perm.refl pods.keys)]
  constructor
  · rintro ⟨v, A, B, src, dst, hne, hA, hB, hkey, -⟩
    exact ⟨_, A, B, src, dst, hne, hA, hB, hkey, rfl⟩
  · rintro ⟨v, A, B, src, dst, hne, hA, hB, hkey, -⟩
    exact ⟨_, A, B, src, dst, hne, hA, hB, hkey, rfl⟩

theorem demo_room {M : Mesh} (hwatch : M.agent.watch = demoWatch) :
    SufficientCapacity verdictMapCapacity .little M.agent.policyCache M.agent.watch.snapshot := by
  apply sufficient_of_card
  rw [hwatch, writtenKeys_eq _ .new]
  decide

/-- The pod of `alpha` reaches the pod of `beta`, and not the other way round. -/
theorem demo_enforced : ∃ es M,
    Run (CurrentStep Sigil.refuseConfig verdictMapCapacity .little) demoStart es M ∧ M.Settled ∧
    ¬ Drops .little M.agent.maps (Frame.syn ⟨10, 244, 1, 5⟩ ⟨10, 244, 2, 7⟩) ∧
    Drops .little M.agent.maps (Frame.syn ⟨10, 244, 2, 7⟩ ⟨10, 244, 1, 5⟩) := by
  obtain ⟨es, M, hrun, hM, hallow, hdeny, hwatch⟩ := demo_settled
  have hroom := demo_room hwatch
  have hforth := (settled_enforces _ _ _ _ es M hrun hM hroom _ _ _
    (Or.inl (Frame.syn_isSyn ⟨10, 244, 1, 5⟩ ⟨10, 244, 2, 7⟩)) (by decide) (by decide)).1
  have hback := (settled_enforces _ _ _ _ es M hrun hM hroom _ _ _
    (Or.inl (Frame.syn_isSyn ⟨10, 244, 2, 7⟩ ⟨10, 244, 1, 5⟩)) (by decide) (by decide)).1
  rw [hwatch] at hforth hback
  refine ⟨es, M, hrun, hM, ?_, ?_⟩
  · rw [hforth "alpha" "beta" (by decide) (by decide) (by decide), not_not]
    exact hallow
  · exact (hback "beta" "alpha" (by decide) (by decide) (by decide)).mpr hdeny

end Demo

end Meshlite.Mesh
