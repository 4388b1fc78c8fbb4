import Meshlite.Kprobe.Agent
import Meshlite.Sigil.Convergence
import Meshlite.Sigil.Snapshots
import Meshlite.Sigil.Streams

/-!
# Sigil and an agent

The agent of a node subscribes, handles what Sigil delivers on its stream one push after the
other, and loses what is under way when the connection ends. What the other agents do is
part of what Sigil does.
-/

namespace Meshlite

open Policy Runs Kprobe

structure Mesh where
  sigil : Sigil.System
  agent : Agent
  /-- the stream of the agent's connection -/
  stream : Option ℕ
  /-- delivered on the stream and not handled yet -/
  inbox : List Proto.AgentPush

inductive MeshEvent where
  /-- Sigil moves, or another agent -/
  | sigil (e : Sigil.Event)
  | connect (hello : Proto.AgentHello)
  | receive (push : Proto.AgentPush)
  /-- the connection ends, and with it what is under way -/
  | disconnect
  /-- the agent moves on its own -/
  | agent (e : AgentEvent)

def MeshEvent.sigilEvent : MeshEvent → Option Sigil.Event
  | .sigil e => some e
  | .connect hello => some (.subscribe hello)
  | _ => none

def MeshEvent.agentEvent : MeshEvent → Option AgentEvent
  | .receive push => some (.message (some push))
  | .agent e => some e
  | _ => none

namespace Mesh

/-- What an event of Sigil sends to the agent. -/
def arrivals (M : Mesh) (e : Sigil.Event) : List Proto.AgentPush :=
  (M.stream.map fun sid => e.deliversTo sid).getD []

/-- Sigil has installed the config, and the agent has heard of nothing. -/
def start (eng : Engine) (leafTtl : Duration) (rootKey : Proto.KeyId) (now : Time) :
    Mesh where
  sigil := .boot eng leafTtl rootKey now
  agent := .boot
  stream := none
  inbox := []

variable (unmarshal : List UInt8 → Except String MeshConfig) (cap : Option ℕ) (e : Endian)

inductive Step : Mesh → MeshEvent → Mesh → Prop
  | sigil {M : Mesh} {ev : Sigil.Event} {S : Sigil.System}
      (hstep : Sigil.Step unmarshal M.sigil ev S) :
      Step M (.sigil ev) { M with sigil := S, inbox := M.inbox ++ M.arrivals ev }
  | connect {M : Mesh} {hello : Proto.AgentHello} {S : Sigil.System} (hnone : M.stream = none)
      (hstep : Sigil.Step unmarshal M.sigil (.subscribe hello) S) :
      Step M (.connect hello)
        { M with sigil := S, stream := some M.sigil.server.dist.opened.length, inbox := [] }
  | receive {M : Mesh} {push : Proto.AgentPush} {inbox : List Proto.AgentPush} {a : Agent}
      (hinbox : M.inbox = push :: inbox) (hstep : M.agent.Step cap e (.message (some push)) a) :
      Step M (.receive push) { M with agent := a, inbox }
  | disconnect {M : Mesh} : Step M .disconnect { M with stream := none, inbox := [] }
  | agent {M : Mesh} {ev : AgentEvent} {a : Agent} (hown : ∀ payload, ev ≠ .message payload)
      (hstep : M.agent.Step cap e ev a) : Step M (.agent ev) { M with agent := a }

variable {unmarshal cap e}
variable {M M' : Mesh} {ev : MeshEvent} {es : List MeshEvent}

theorem Step.sigil_step {se : Sigil.Event} (h : Step unmarshal cap e M ev M')
    (hev : ev.sigilEvent = some se) : Sigil.Step unmarshal M.sigil se M'.sigil := by
  cases h with
  | sigil hstep | connect _ hstep =>
    cases hev
    exact hstep
  | receive | disconnect | agent => cases hev

theorem Step.sigil_eq (h : Step unmarshal cap e M ev M') (hev : ev.sigilEvent = none) :
    M'.sigil = M.sigil := by
  cases h with
  | sigil | connect => cases hev
  | receive | disconnect | agent => rfl

theorem Step.agent_step {ae : AgentEvent} (h : Step unmarshal cap e M ev M')
    (hev : ev.agentEvent = some ae) : M.agent.Step cap e ae M'.agent := by
  cases h with
  | receive _ hstep | agent _ hstep =>
    cases hev
    exact hstep
  | sigil | connect | disconnect => cases hev

theorem Step.agent_eq (h : Step unmarshal cap e M ev M') (hev : ev.agentEvent = none) :
    M'.agent = M.agent := by
  cases h with
  | receive | agent => cases hev
  | sigil | connect | disconnect => rfl

section Projections

variable {eng : Engine} {leafTtl : Duration} {rootKey : Proto.KeyId} {now : Time}

theorem sigil_of_run (h : Run (Step unmarshal cap e) (.start eng leafTtl rootKey now) es M) :
    Run (Sigil.Step unmarshal) (.boot eng leafTtl rootKey now) (es.filterMap MeshEvent.sigilEvent)
      M.sigil :=
  h.project (f := Mesh.sigil) (g := MeshEvent.sigilEvent) (fun _ _ _ _ => Step.sigil_step)
    fun _ _ _ => Step.sigil_eq

theorem agent_of_run (h : Run (Step unmarshal cap e) (.start eng leafTtl rootKey now) es M) :
    Run (Agent.Step cap e) .boot (es.filterMap MeshEvent.agentEvent) M.agent :=
  h.project (f := Mesh.agent) (g := MeshEvent.agentEvent) (fun _ _ _ _ => Step.agent_step)
    fun _ _ _ => Step.agent_eq

end Projections

section Link

open Sigil

theorem delivered_modify {opened : List AgentStream} {f : AgentStream → AgentStream} {i sid : ℕ}
    {st : AgentStream} (hst : opened[sid]? = some st)
    (hf : ∀ st, (f st).delivered = st.delivered) :
    ∃ st', (opened.modify i f)[sid]? = some st' ∧ st'.delivered = st.delivered := by
  refine ⟨_, getElem?_modify_eq_some.mpr ⟨st, hst, rfl⟩, ?_⟩
  split_ifs
  · exact hf st
  · rfl

/-- What a step of Sigil does to a stream's deliveries, said once. -/
theorem delivered_step {S S' : System} {se : Sigil.Event} {sid : ℕ} {st : AgentStream}
    (h : Sigil.Step unmarshal S se S') (hst : S.server.dist.opened[sid]? = some st) :
    ∃ st', S'.server.dist.opened[sid]? = some st' ∧
      st'.delivered = st.delivered ++ se.deliversTo sid := by
  have hnone : se.deliversTo sid = [] → (∃ st', S'.server.dist.opened[sid]? = some st' ∧
      st'.delivered = st.delivered) → ∃ st', S'.server.dist.opened[sid]? = some st' ∧
      st'.delivered = st.delivered ++ se.deliversTo sid := by
    rintro hnone ⟨st', hst', hdel⟩
    exact ⟨st', hst', by rw [hdel, hnone, List.append_nil]⟩
  cases h with
  | subscribe hello =>
    refine hnone rfl ?_
    have hcancel : ∃ st', (S.server.dist.cancelOld hello.nodeId).opened[sid]? = some st' ∧
        st'.delivered = st.delivered := by
      unfold Distributor.cancelOld
      split
      · exact delivered_modify hst fun _ => rfl
      · exact ⟨st, hst, rfl⟩
    obtain ⟨st', hst', hdel⟩ := hcancel
    refine ⟨st', ?_, hdel⟩
    change ((S.server.dist.cancelOld hello.nodeId).opened ++ [.start hello])[sid]? = some st'
    rw [List.getElem?_append_left (List.getElem?_eq_some_iff.mp hst').1, hst']
  | @perform i o r server tasks hperf hexec =>
    refine hnone rfl ?_
    cases o with
    | enqueue j push =>
      obtain ⟨old, -, -, rfl⟩ := hexec
      split_ifs
      · exact delivered_modify hst fun _ => rfl
      · exact ⟨st, hst, rfl⟩
    | _ => exact ⟨st, by rw [hexec.dist_eq (by nofun), hst], rfl⟩
  | @deliver j st₀ push hopen hphase hhead =>
    refine ⟨_, getElem?_modify_eq_some.mpr ⟨st, hst, rfl⟩, ?_⟩
    by_cases hj : j = sid <;> simp [hj, Event.deliversTo]
  | sendFail | leave | cleanup => exact hnone rfl (delivered_modify hst fun _ => rfl)
  | request | scan | tick => exact hnone rfl ⟨st, hst, rfl⟩

/-- The policy of an agent that has handled these pushes, as far as they determine it. -/
def Knows (a : Agent) (handled : List Proto.AgentPush) : Prop :=
  ∀ pb, lastAbout none handled = some (.policy pb) →
    a.policyCache = Tls.applyPolicyBundle pb .new

/-- What Sigil has delivered on the agent's stream is what the agent has handled, and what is
under way. -/
def Linked (M : Mesh) : Prop :=
  ∀ sid, M.stream = some sid → ∃ st handled, M.sigil.server.dist.opened[sid]? = some st ∧
    st.delivered = handled ++ M.inbox ∧ Knows M.agent handled

theorem policyCache_of_own {a a' : Agent} {ae : AgentEvent} (h : a.Step cap e ae a')
    (hown : ∀ payload, ae ≠ .message payload) : a'.policyCache = a.policyCache := by
  cases h with
  | message payload => exact absurd rfl (hown payload)
  | _ => rfl

theorem Knows.receive {a a' : Agent} {handled : List Proto.AgentPush} {push : Proto.AgentPush}
    (h : Knows a handled) (hstep : a.Step cap e (.message (some push)) a') :
    Knows a' (handled ++ [push]) := by
  intro pb hpb
  rw [lastAbout_snoc] at hpb
  cases hstep with
  | message payload hidle =>
    cases push with
    | policy pb' =>
      obtain rfl : pb' = pb := by simpa [topic] using hpb
      rfl
    | cert cb =>
      rw [if_neg (by simp [topic])] at hpb
      exact h pb hpb

theorem Step.linked (h : Step unmarshal cap e M ev M') (hM : Linked M) : Linked M' := by
  intro sid hsid
  cases h with
  | sigil hstep =>
    obtain ⟨st, handled, hst, hdel, hknows⟩ := hM sid hsid
    obtain ⟨st', hst', hdel'⟩ := delivered_step hstep hst
    refine ⟨st', handled, hst', ?_, hknows⟩
    have hsid : M.stream = some sid := hsid
    rw [hdel', hdel, List.append_assoc, arrivals, hsid]
    rfl
  | @connect hello S hnone hstep =>
    cases hstep with
    | subscribe =>
      obtain rfl := Option.some.inj hsid
      refine ⟨.start hello, [], ?_, rfl, nofun⟩
      change ((M.sigil.server.dist.cancelOld hello.nodeId).opened ++ [.start hello])[_]? = _
      rw [← Distributor.cancelOld_length _ hello.nodeId, List.getElem?_concat_length]
  | @receive push inbox a hinbox hstep =>
    obtain ⟨st, handled, hst, hdel, hknows⟩ := hM sid hsid
    refine ⟨st, handled ++ [push], hst, ?_, hknows.receive hstep⟩
    rw [hdel, hinbox, List.append_assoc]
    rfl
  | disconnect => cases hsid
  | agent hown hstep =>
    obtain ⟨st, handled, hst, hdel, hknows⟩ := hM sid hsid
    refine ⟨st, handled, hst, hdel, fun pb hpb => ?_⟩
    exact (policyCache_of_own hstep hown).trans (hknows pb hpb)

theorem linked_of_run {eng : Engine} {leafTtl : Duration} {rootKey : Proto.KeyId} {now : Time}
    (h : Run (Step unmarshal cap e) (.start eng leafTtl rootKey now) es M) : Linked M := by
  refine h.invariant (I := fun _ M => Linked M) (fun sid hsid => ?_) fun _ _ _ _ _ hM hstep =>
    hstep.linked hM
  cases hsid

end Link

end Mesh

end Meshlite
