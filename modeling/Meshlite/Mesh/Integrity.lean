import Meshlite.Kprobe.Sources
import Meshlite.Mesh.Enforcement
import Meshlite.Sigil.Mixtures

/-!
# Who decided a verdict

Whatever Sigil, the agents and the tasks of an agent interleave, the kernel decides an opening
frame between pods as a policy made of accepted configs does: about two services that the
agent has seen to list the addresses, or by its default.
-/

namespace Meshlite

open Policy Tasks Runs Kprobe BoundedMap

namespace Mesh

section History

/-- The agent handles an event of its watch. -/
def watchEvent (ev : MeshEvent) : Option WatchEvent :=
  match ev with
  | .agent (.watch we) => some we
  | _ => none

/-- The agent has had this snapshot. -/
def Seen (es : List MeshEvent) (pods : PodSnapshot) : Prop :=
  ∃ wes, wes <+: es.filterMap watchEvent ∧ pods = (watched wes).snapshot

/-- The policy the agent started with, or one made of the configs accepted so far, as the
agent keeps it. -/
def Decreed (initial : Option Tls.PolicyCache) (eng : Engine) (es : List MeshEvent)
    (policy : Tls.PolicyCache) : Prop :=
  initial = some policy ∨ ∃ (E : Engine) (order : E.RangeOrder),
    Sigil.Mixed (Sigil.accepted eng (es.filterMap MeshEvent.sigilEvent)) E ∧
      policy = Sigil.pushedCache order .new

variable {initial : Option Tls.PolicyCache} {eng : Engine} {es es' : List MeshEvent}

theorem Seen.append {pods : PodSnapshot} (h : Seen es pods) : Seen (es ++ es') pods := by
  obtain ⟨wes, hwes, rfl⟩ := h
  rw [Seen, List.filterMap_append]
  exact ⟨wes, hwes.trans (List.prefix_append _ _), rfl⟩

theorem Decreed.append {policy : Tls.PolicyCache} (h : Decreed initial eng es policy) :
    Decreed initial eng (es ++ es') policy := by
  refine h.imp_right ?_
  rintro ⟨E, order, hE, rfl⟩
  rw [List.filterMap_append, Sigil.accepted_append]
  exact ⟨E, order, hE.mono (List.subset_append_left _ _), rfl⟩

end History

variable {unmarshal : List UInt8 → Except String MeshConfig} {cap : Option ℕ} {e : Endian}
variable {initial : Option Tls.PolicyCache} {eng : Engine} {leafTtl : Duration}
variable {rootKey : Proto.KeyId} {now : Time} {es es' es₀ : List MeshEvent} {M M₀ : Mesh}

section Runs

theorem watch_of_run (h : Run (Step unmarshal cap e) (.start eng leafTtl rootKey now) es M) :
    M.agent.watch = watched (es.filterMap watchEvent) := by
  apply eq_watched
  refine h.project (f := fun M => M.agent.watch) (g := watchEvent) ?_ ?_
  · rintro M ev M' we hstep hev
    cases hstep with
    | agent hown hstep =>
      cases hstep with
      | watch ev hidle hemits =>
        obtain rfl := Option.some.inj hev
        exact ⟨hemits, rfl⟩
      | _ => cases hev
    | _ => cases hev
  · rintro M ev M' hstep hev
    cases hstep with
    | agent hown hstep =>
      cases hstep with
      | message payload => exact absurd rfl (hown payload)
      | watch => cases hev
      | _ => rfl
    | @receive push inbox a hinbox hstep =>
      cases hstep with
      | message payload => cases push <;> rfl
    | sigil | connect | disconnect => rfl

/-- What is under way to the agent was delivered by Sigil. -/
theorem delivered_of_inbox (h : Run (Step unmarshal cap e) (.start eng leafTtl rootKey now) es M) :
    ∀ push ∈ M.inbox, ∃ sid, .deliver sid push ∈ es.filterMap MeshEvent.sigilEvent := by
  refine h.invariant (I := fun es M => ∀ push ∈ M.inbox, ∃ sid,
    .deliver sid push ∈ es.filterMap MeshEvent.sigilEvent) (by simp [start]) ?_
  intro es M ev M' _ hM hstep push hpush
  have hold : push ∈ M.inbox → ∃ sid, .deliver sid push ∈
      (es ++ [ev]).filterMap MeshEvent.sigilEvent := by
    intro hpush
    obtain ⟨sid, hsid⟩ := hM push hpush
    exact ⟨sid, by rw [List.filterMap_append]; exact List.mem_append_left _ hsid⟩
  cases hstep with
  | @sigil ev S hstep =>
    rcases List.mem_append.mp hpush with hmem | hnew
    · exact hold hmem
    · cases hstream : M.stream with
      | none => simp [arrivals, hstream] at hnew
      | some sid =>
        have hnew : push ∈ ev.deliversTo sid := by simpa [arrivals, hstream] using hnew
        refine ⟨sid, ?_⟩
        rw [List.filterMap_append]
        exact List.mem_append_right _ (by simp [MeshEvent.sigilEvent, Sigil.eq_deliver hnew])
  | connect | disconnect => cases hpush
  | receive hinbox hstep =>
    apply hold
    rw [hinbox]
    exact List.mem_cons_of_mem _ hpush
  | agent => exact hold hpush

/-- The agent has handled a policy. -/
def Told (es : List MeshEvent) : Prop := ∃ pb, .receive (.policy pb) ∈ es

theorem Told.append (h : Told es) : Told (es ++ es') := by
  obtain ⟨pb, hpb⟩ := h
  exact ⟨pb, List.mem_append_left _ hpb⟩

theorem told_snoc {ev : MeshEvent} (hev : ∀ pb, ev ≠ .receive (.policy pb)) :
    Told (es ++ [ev]) ↔ Told es := by
  constructor
  · rintro ⟨pb, hpb⟩
    rcases List.mem_append.mp hpb with hold | hnew
    · exact ⟨pb, hold⟩
    · exact absurd (List.mem_singleton.mp hnew).symm (hev pb)
  · exact Told.append

/-- Until it is told a policy the agent has its first one, and then one made of accepted
configs. -/
theorem policy_of_run (h : Run (Step unmarshal cap e) (.start eng leafTtl rootKey now) es M) :
    ¬ Told es ∧ M.agent.policyCache = .new ∨
      Told es ∧ Decreed none eng es M.agent.policyCache := by
  refine h.invariant (I := fun es M => ¬ Told es ∧ M.agent.policyCache = .new ∨
    Told es ∧ Decreed none eng es M.agent.policyCache) (Or.inl ⟨by simp [Told], rfl⟩) ?_
  intro es M ev M' hrun hM hstep
  have hkeep : (∀ pb, ev ≠ .receive (.policy pb)) → M'.agent.policyCache = M.agent.policyCache →
      ¬ Told (es ++ [ev]) ∧ M'.agent.policyCache = .new ∨
        Told (es ++ [ev]) ∧ Decreed none eng (es ++ [ev]) M'.agent.policyCache := by
    intro hev hsame
    rw [told_snoc hev, hsame]
    exact hM.imp_right (And.imp_right Decreed.append)
  cases hstep with
  | sigil | connect | disconnect => exact hkeep nofun rfl
  | agent hown hstep => exact hkeep nofun (policyCache_of_own hstep hown)
  | @receive push inbox a hinbox hstep =>
    cases hstep with
    | message payload =>
      cases push with
      | cert cb => exact hkeep nofun rfl
      | policy pb =>
        have hunder : .policy pb ∈ M.inbox := by simp [hinbox]
        obtain ⟨sid, hsid⟩ := delivered_of_inbox hrun _ hunder
        obtain ⟨E, order, hE, rfl⟩ := Sigil.mixed_of_delivered (sigil_of_run hrun) hsid
        refine Or.inr ⟨⟨_, List.mem_append_right _ List.mem_cons_self⟩, Decreed.append ?_⟩
        exact Or.inr ⟨E, order, hE, rfl⟩

theorem decreed_of_run (h : Run (Step unmarshal cap e) (.start eng leafTtl rootKey now) es M)
    (hinitial : initial = some .new ∨ Told es) : Decreed initial eng es M.agent.policyCache := by
  rcases policy_of_run h with ⟨huntold, hnew⟩ | ⟨-, hnone | hmixed⟩
  · rw [hnew]
    exact Or.inl (hinitial.resolve_right huntold)
  · cases hnone
  · exact Or.inr hmixed

/-- What the agent works with comes from the configs accepted and the snapshots seen. -/
theorem from_of_run (h₀ : Run (Step unmarshal cap e) (.start eng leafTtl rootKey now) es₀ M₀)
    (hinitial : initial = some .new ∨ Told es₀)
    (hM₀ : M₀.agent.From (Decreed initial eng es₀) (Seen es₀) e)
    (h : Run (Step unmarshal cap e) M₀ es M) :
    M.agent.From (Decreed initial eng (es₀ ++ es)) (Seen (es₀ ++ es)) e := by
  refine h.invariant (I := fun es M => M.agent.From (Decreed initial eng (es₀ ++ es))
    (Seen (es₀ ++ es)) e) (by rwa [List.append_nil]) ?_
  intro es M ev M' hrun hM hstep
  have hnext := (h₀.append hrun).next hstep
  rw [← List.append_assoc]
  have hfrom : M.agent.From (Decreed initial eng (es₀ ++ es ++ [ev]))
      (Seen (es₀ ++ es ++ [ev])) e := hM.mono (fun _ hp => hp.append) fun _ hp => hp.append
  cases hev : ev.agentEvent with
  | none => rwa [hstep.agent_eq hev]
  | some ae =>
    refine (hstep.agent_step hev).from_sources hfrom ?_ ?_
    · exact decreed_of_run hnext (hinitial.imp_right fun h => h.append.append)
    · exact ⟨_, List.prefix_refl _, by rw [watch_of_run hnext]⟩

end Runs

/-- What decides an opening frame between two addresses, in terms of a policy made of accepted
configs. -/
theorem decision_of_from (hfrom : M.agent.From (Decreed initial eng es) (Seen es) e) {f : Frame}
    {src dst : Ipv4Addr} (hf : f.Opens src dst) (hs : src.InPodCidr) (hd : dst.InPodCidr) :
    ∃ policy, Decreed initial eng es policy ∧
      ((Drops e M.agent.maps f ↔ policy.defaultAllow = false) ∨
        ∃ pods A B, Seen es pods ∧ A ≠ B ∧ pods.Lists A src ∧ pods.Lists B dst ∧
          (Drops e M.agent.maps f ↔ policy.isAllowed A B = false)) := by
  obtain ⟨policy, hpolicy, hdefault | ⟨pods, A, B, hpods, hne, hA, hB, hv⟩⟩ :=
    hfrom.maps.decision src dst
  · exact ⟨policy, hpolicy, Or.inl (by rw [hf.drops_iff hs hd, hdefault, fallbackVerdict_eq_one])⟩
  · exact ⟨policy, hpolicy, Or.inr ⟨pods, A, B, hpods, hne, hA, hB, by
      rw [hf.drops_iff hs hd, hv, serviceVerdict_eq_one]⟩⟩

/-- In every state of every run, a frame between pods is dropped on opening only if an accepted
config denies by default, or does not export a pair of services that the agent has seen to
list the addresses. -/
theorem dropped_by_accepted (eng : Engine) (leafTtl : Duration) (rootKey : Proto.KeyId)
    (now : Time) (es : List MeshEvent) (M : Mesh)
    (h : Run (Step unmarshal cap e) (.start eng leafTtl rootKey now) es M) (f : Frame)
    (src dst : Ipv4Addr) (hf : f.Opens src dst) (hs : src.InPodCidr) (hd : dst.InPodCidr)
    (hdrop : Drops e M.agent.maps f) :
    ∃ E, Sigil.Mixed (Sigil.accepted eng (es.filterMap MeshEvent.sigilEvent)) E ∧
      (E.defaultAllow = false ∨ ∃ pods A B, Seen es pods ∧ A ≠ B ∧ pods.Lists A src ∧
        pods.Lists B dst ∧ ¬ E.Exports A B) := by
  have hboot : (start eng leafTtl rootKey now).agent.From (Decreed (some .new) eng [])
      (Seen []) e := Agent.from_boot (Or.inl rfl) ⟨[], List.prefix_refl _, rfl⟩
  have hstart : Run (Step unmarshal cap e) (.start eng leafTtl rootKey now) []
      (.start eng leafTtl rootKey now) := .start
  have hfrom := from_of_run hstart (Or.inl rfl) hboot h
  obtain ⟨policy, hpolicy, hdecided⟩ := decision_of_from hfrom hf hs hd
  rcases hpolicy with hnew | ⟨E, order, hE, rfl⟩
  · obtain rfl := Option.some.inj hnew
    rcases hdecided with hdefault | ⟨pods, A, B, -, -, -, -, hpair⟩
    · cases hdefault.mp hdrop
    · cases hpair.mp hdrop
  · refine ⟨E, hE, ?_⟩
    rcases hdecided with hdefault | ⟨pods, A, B, hpods, hne, hA, hB, hpair⟩
    · exact Or.inl (hdefault.mp hdrop)
    · refine Or.inr ⟨pods, A, B, hpods, hne, hA, hB, ?_⟩
      rw [← Sigil.isAllowed_pushedCache order .new, hpair.mp hdrop]
      exact Bool.false_ne_true

/-- From any quiet state on in which the agent has been told a policy, an opening frame
between pods passes or not, whatever is under way, as a policy made of accepted configs has
it: by its default, or for two services that the agent has seen to list the addresses. -/
theorem decided_by_accepted (eng : Engine) (leafTtl : Duration) (rootKey : Proto.KeyId)
    (now : Time) (es₀ es : List MeshEvent) (M₀ M : Mesh)
    (h₀ : Run (Step unmarshal cap e) (.start eng leafTtl rootKey now) es₀ M₀)
    (hquiet : M₀.agent.Quiet) (hlisted : M₀.agent.watch.phase ≠ .relisting) (htold : Told es₀)
    (h : Run (Step unmarshal cap e) M₀ es M) (f : Frame) (src dst : Ipv4Addr)
    (hf : f.Opens src dst) (hs : src.InPodCidr) (hd : dst.InPodCidr) :
    ∃ E, Sigil.Mixed (Sigil.accepted eng ((es₀ ++ es).filterMap MeshEvent.sigilEvent)) E ∧
      ((Drops e M.agent.maps f ↔ E.defaultAllow = false) ∨
        ∃ pods A B, Seen (es₀ ++ es) pods ∧ A ≠ B ∧ pods.Lists A src ∧ pods.Lists B dst ∧
          (Drops e M.agent.maps f ↔ ¬ E.Exports A B)) := by
  have hfrom₀ : M₀.agent.From (Decreed none eng es₀) (Seen es₀) e :=
    Agent.from_of_quiet (agent_of_run h₀) hquiet hlisted (decreed_of_run h₀ (Or.inr htold))
      ⟨_, List.prefix_refl _, by rw [watch_of_run h₀]⟩
  have hfrom := from_of_run h₀ (Or.inr htold) hfrom₀ h
  obtain ⟨policy, hnone | ⟨E, order, hE, rfl⟩, hdecided⟩ := decision_of_from hfrom hf hs hd
  · cases hnone
  · refine ⟨E, hE, hdecided.imp_right ?_⟩
    rintro ⟨pods, A, B, hpods, hne, hA, hB, hpair⟩
    refine ⟨pods, A, B, hpods, hne, hA, hB, ?_⟩
    rw [hpair, ← Sigil.isAllowed_pushedCache order .new, Bool.not_eq_true]

section Demo

/-- The pod of `beta` does not reach the pod of `alpha` because of the one config. -/
theorem demo_dropped : ∃ es M,
    Run (Step Sigil.refuseConfig verdictMapCapacity .little) demoStart es M ∧
    Drops .little M.agent.maps (Frame.syn ⟨10, 244, 2, 7⟩ ⟨10, 244, 1, 5⟩) ∧
    ∃ E, Sigil.Mixed (Sigil.accepted (newEngine Sigil.demoConfig)
        (es.filterMap MeshEvent.sigilEvent)) E ∧
      (E.defaultAllow = false ∨ ∃ pods A B, Seen es pods ∧ A ≠ B ∧
        pods.Lists A ⟨10, 244, 2, 7⟩ ∧ pods.Lists B ⟨10, 244, 1, 5⟩ ∧ ¬ E.Exports A B) := by
  obtain ⟨es, M, hrun, hM, -, hdeny, hwatch⟩ := demo_settled
  have hopens : (Frame.syn ⟨10, 244, 2, 7⟩ ⟨10, 244, 1, 5⟩).Opens ⟨10, 244, 2, 7⟩ ⟨10, 244, 1, 5⟩ :=
    Or.inl (Frame.syn_isSyn _ _)
  have hdrops : Drops .little M.agent.maps (Frame.syn ⟨10, 244, 2, 7⟩ ⟨10, 244, 1, 5⟩) := by
    rw [hopens.drops_iff (by decide) (by decide)]
    refine (hM.lookupVerdict hrun (demo_room hwatch) (A := "beta") (B := "alpha") ?_ ?_
      (by decide)).mpr hdeny
    · rw [hwatch]
      decide
    · rw [hwatch]
      decide
  have hstep : Run (Step Sigil.refuseConfig verdictMapCapacity .little) demoStart es M :=
    hrun.mono fun _ _ _ hstep => hstep.1
  exact ⟨es, M, hstep, hdrops, dropped_by_accepted _ _ _ _ es M hstep _ _ _ hopens (by decide)
    (by decide) hdrops⟩

/-- The agent relists, and the verdicts it wrote before still stand for the one config. -/
theorem demo_decided : ∃ es₀ es M, es ≠ [] ∧
    Run (Step Sigil.refuseConfig verdictMapCapacity .little) demoStart (es₀ ++ es) M ∧
    ∃ E, Sigil.Mixed (Sigil.accepted (newEngine Sigil.demoConfig)
        ((es₀ ++ es).filterMap MeshEvent.sigilEvent)) E ∧
      ((Drops .little M.agent.maps (Frame.syn ⟨10, 244, 2, 7⟩ ⟨10, 244, 1, 5⟩) ↔
          E.defaultAllow = false) ∨
        ∃ pods A B, Seen (es₀ ++ es) pods ∧ A ≠ B ∧ pods.Lists A ⟨10, 244, 2, 7⟩ ∧
          pods.Lists B ⟨10, 244, 1, 5⟩ ∧
          (Drops .little M.agent.maps (Frame.syn ⟨10, 244, 2, 7⟩ ⟨10, 244, 1, 5⟩) ↔
            ¬ E.Exports A B)) := by
  obtain ⟨es₀, M₀, hrun, hM, -, hdeny, -⟩ := demo_settled
  have h₀ : Run (Step Sigil.refuseConfig verdictMapCapacity .little) demoStart es₀ M₀ :=
    hrun.mono fun _ _ _ hstep => hstep.1
  have htold : Told es₀ := by
    rcases policy_of_run h₀ with ⟨-, hnew⟩ | ⟨htold, -⟩
    · obtain ⟨order, hpolicy⟩ := hM.policyCache hrun
      refine absurd ((Sigil.isAllowed_pushedCache order .new _ _).mp ?_) hdeny
      rw [← hpolicy, hnew]
      rfl
    · exact htold
  have h : Run (Step Sigil.refuseConfig verdictMapCapacity .little) M₀ [.agent (.watch .init)] _ :=
    Run.start.next (.agent nofun (.watch .init hM.quiet.podWatcher trivial))
  exact ⟨es₀, _, _, by simp, h₀.append h, decided_by_accepted _ _ _ _ es₀ _ M₀ _ h₀ hM.quiet
    hM.listed htold h _ _ _ (Or.inl (Frame.syn_isSyn _ _)) (by decide) (by decide)⟩

end Demo

end Mesh

end Meshlite
