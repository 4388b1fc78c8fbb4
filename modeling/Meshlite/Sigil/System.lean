import Meshlite.Library.Runs
import Meshlite.Sigil.Handlers

/-!
# Sigil as a system

Its shared state and the handlers in progress. Hellos, requests and the ticker start
handlers, a handler performs one operation at a time, and the loop of each stream
delivers what is on its channel.
-/

namespace Meshlite.Sigil

open Policy Tasks Runs

structure System where
  server : Server
  tasks : List (Handler Reply)

inductive Event where
  | subscribe (hello : Proto.AgentHello)
  | request (req : Request)
  /-- the rotation ticker fires -/
  | scan
  /-- a handler performs an operation and gets its answer -/
  | perform (task : ℕ) (o : Op) (r : o.Res)
  | deliver (stream : ℕ) (push : Proto.AgentPush)
  /-- `stream.Send` fails on the push it was given -/
  | sendFail (stream : ℕ)
  /-- the context of the stream is done: its client left or its node reconnected -/
  | leave (stream : ℕ)
  | cleanup (stream : ℕ)
  | tick (d : Duration)

/-- Sigil at its start: an empty table, and its own certificate still to be issued. -/
def System.boot (eng : Engine) (leafTtl : Duration) (rootKey : Proto.KeyId) (now : Time) :
    System where
  server :=
    { eng, leafTtl, rootKey, certs := .empty, dist := .new, now, lastScan := now }
  tasks := [issueServerCert eng.clusterId]

/-- The pushes of an event that found room on the channel of the stream. -/
def Event.pushesTo (sid : ℕ) : Event → List Proto.AgentPush
  | .perform _ (.enqueue sid' push) r => if r = true ∧ sid' = sid then [push] else []
  | _ => []

def Event.deliversTo (sid : ℕ) : Event → List Proto.AgentPush
  | .deliver sid' push => if sid' = sid then [push] else []
  | _ => []

/-- No channel is full when something is pushed on it. -/
def Event.accepted : Event → Bool
  | .perform _ (.enqueue _ _) r => r
  | _ => true

theorem Event.mem_pushesTo {sid : ℕ} {e : Event} {push : Proto.AgentPush} :
    push ∈ e.pushesTo sid ↔ ∃ i, e = .perform i (.enqueue sid push) true := by
  constructor
  · intro h
    cases e with
    | perform i o r =>
      cases o with
      | enqueue sid' push' =>
        simp only [Event.pushesTo, List.mem_ite_nil_right, List.mem_singleton] at h
        obtain ⟨⟨rfl, rfl⟩, rfl⟩ := h
        exact ⟨i, rfl⟩
      | _ => nomatch h
    | _ => nomatch h
  · rintro ⟨i, rfl⟩
    simp [Event.pushesTo]

variable (unmarshal : List UInt8 → Except String MeshConfig)

/-- The steps of the system. `Subscribe` refuses a hello without a node id. -/
inductive Step : System → Event → System → Prop
  | subscribe {S : System} (hello : Proto.AgentHello) : hello.nodeId ≠ "" →
      Step S (.subscribe hello)
        { server := { S.server with dist := S.server.dist.register hello }
          tasks := S.tasks ++ [onConnect hello] }
  | request {S : System} (req : Request) :
      Step S (.request req) { S with tasks := S.tasks ++ [handler unmarshal req] }
  | scan {S : System} :
      Step S .scan
        { server := { S.server with lastScan := S.server.now }
          tasks := S.tasks ++ [rotationScan] }
  | perform {S : System} {i : ℕ} {o : Op} {r : o.Res} {server : Server}
      {tasks : List (Handler Reply)} :
      Performs S.tasks i o r tasks → S.server.Exec o r server →
      Step S (.perform i o r) { server, tasks }
  | deliver {S : System} {sid : ℕ} {st : AgentStream} {push : Proto.AgentPush} :
      S.server.dist.opened[sid]? = some st → st.phase = .serving → st.sends.head? = some push →
      Step S (.deliver sid push)
        { S with server := { S.server with dist := S.server.dist.deliver sid push } }
  | sendFail {S : System} {sid : ℕ} {st : AgentStream} :
      S.server.dist.opened[sid]? = some st → st.phase = .serving → st.sends ≠ [] →
      Step S (.sendFail sid)
        { S with server := { S.server with dist := S.server.dist.sendFail sid } }
  | leave {S : System} {sid : ℕ} {st : AgentStream} :
      S.server.dist.opened[sid]? = some st → st.phase = .serving →
      Step S (.leave sid) { S with server := { S.server with dist := S.server.dist.leave sid } }
  | cleanup {S : System} {sid : ℕ} {st : AgentStream} :
      S.server.dist.opened[sid]? = some st → st.phase = .returning →
      Step S (.cleanup sid) { S with
        server := { S.server with dist := S.server.dist.cleanup sid st.hello.nodeId } }
  | tick {S : System} (d : Duration) :
      Step S (.tick d) { S with server := { S.server with now := S.server.now + d } }

variable {unmarshal} {S S' : System} {e : Event}

/-- A stream takes and delivers what the event says of it. -/
structure Event.Continues (e : Event) (sid : ℕ) (st st' : AgentStream) : Prop where
  hello : st'.hello = st.hello
  pushed : st'.pushed = st.pushed ++ e.pushesTo sid
  delivered : st'.delivered = st.delivered ++ e.deliversTo sid

theorem Event.Continues.refl {sid : ℕ} (st : AgentStream) (hpush : e.pushesTo sid = [])
    (hdel : e.deliversTo sid = []) : e.Continues sid st st where
  hello := rfl
  pushed := by simp [hpush]
  delivered := by simp [hdel]

section Serving

variable {node : String} {sid : ℕ} {st' : AgentStream}

theorem Server.Exec.serving {s s' : Server} {i : ℕ} {o : Op} {r : o.Res} (h : s.Exec o r s')
    (hs : s'.dist.Serving node sid st') :
    ∃ st, s.dist.Serving node sid st ∧ (Event.perform i o r).Continues sid st st' := by
  cases o with
  | enqueue j push =>
    obtain ⟨old, -, -, rfl⟩ := h
    by_cases hr : r = true
    · rw [if_pos hr] at hs
      obtain ⟨st, hold, rfl⟩ := Distributor.serving_enqueue hs
      refine ⟨st, hold, ?_⟩
      by_cases hj : j = sid <;> constructor <;>
        simp [hj, hr, AgentStream.pushed, Event.pushesTo, Event.deliversTo]
    · rw [if_neg hr] at hs
      exact ⟨st', hs, .refl st' (by simp [Event.pushesTo, hr]) rfl⟩
  | _ =>
    rw [h.dist_eq (by nofun)] at hs
    exact ⟨st', hs, .refl st' rfl rfl⟩

theorem continues_deliver {d : Distributor} {i : ℕ} {opened : AgentStream}
    {push : Proto.AgentPush} (hopen : d.opened[i]? = some opened)
    (hhead : opened.sends.head? = some push) (hs : (d.deliver i push).Serving node sid st') :
    ∃ st, d.Serving node sid st ∧ (Event.deliver i push).Continues sid st st' := by
  obtain ⟨st, hold, rfl⟩ := Distributor.serving_deliver hs
  refine ⟨st, hold, ?_⟩
  by_cases hi : i = sid
  · subst hi
    obtain rfl := Option.some.inj (hopen.symm.trans hold.2.1)
    have hsends : opened.sends = push :: opened.sends.tail := by
      rw [List.head?_eq_some_iff] at hhead
      obtain ⟨rest, hrest⟩ := hhead
      simp [hrest]
    refine ⟨by simp, ?_, by simp [Event.deliversTo]⟩
    rw [AgentStream.pushed, AgentStream.pushed, hsends]
    simp [Event.pushesTo]
  · constructor <;> simp [hi, AgentStream.pushed, Event.pushesTo, Event.deliversTo]

/-- What a step does to a serving stream, said once: it is new, or it takes and delivers
what the event says. -/
theorem Step.serving (h : Step unmarshal S e S') (hs : S'.server.dist.Serving node sid st') :
    (∃ st, S.server.dist.Serving node sid st ∧ e.Continues sid st st') ∨
      ∃ hello, e = .subscribe hello ∧ node = hello.nodeId ∧
        sid = S.server.dist.opened.length ∧ st' = .start hello := by
  have hsame : S.server.dist.Serving node sid st' → e.pushesTo sid = [] → e.deliversTo sid = [] →
      ∃ st, S.server.dist.Serving node sid st ∧ e.Continues sid st st' :=
    fun hold hpush hdel => ⟨st', hold, .refl st' hpush hdel⟩
  cases h with
  | subscribe hello =>
    rcases Distributor.serving_register hs with ⟨st, hold, hhello, hsends, hdel⟩ |
      ⟨hnode, hsid, hst⟩
    · exact Or.inl ⟨st, hold, hhello, by simp [AgentStream.pushed, hsends, hdel, Event.pushesTo],
        by simp [hdel, Event.deliversTo]⟩
    · exact Or.inr ⟨hello, rfl, hnode, hsid, hst⟩
  | request req => exact Or.inl (hsame hs rfl rfl)
  | scan => exact Or.inl (hsame hs rfl rfl)
  | perform hperf hexec => exact Or.inl (hexec.serving hs)
  | deliver hopen hphase hhead => exact Or.inl (continues_deliver hopen hhead hs)
  | sendFail => exact Or.inl (hsame (Distributor.serving_sendFail hs) rfl rfl)
  | leave => exact Or.inl (hsame (Distributor.serving_leave hs) rfl rfl)
  | cleanup => exact Or.inl (hsame (Distributor.serving_cleanup hs) rfl rfl)
  | tick d => exact Or.inl (hsame hs rfl rfl)

end Serving

theorem Step.serving_sends {sid : ℕ} {st st' : AgentStream}
    (hpushed : st'.pushed = st.pushed ++ e.pushesTo sid)
    (hdel : st'.delivered = st.delivered ++ e.deliversTo sid) :
    e.deliversTo sid ++ st'.sends = st.sends ++ e.pushesTo sid := by
  unfold AgentStream.pushed at hpushed
  rw [hdel, List.append_assoc, List.append_assoc] at hpushed
  exact List.append_cancel_left hpushed

theorem Step.exec {i : ℕ} {o : Op} {r : o.Res} (h : Step unmarshal S (.perform i o r) S') :
    S.server.Exec o r S'.server := by
  cases h with
  | perform hperf hexec => exact hexec

theorem Step.leafTtl_eq (h : Step unmarshal S e S') : S'.server.leafTtl = S.server.leafTtl := by
  cases h with
  | perform hperf hexec => exact hexec.clock_eq.2.2
  | _ => rfl

theorem Step.now_eq (h : Step unmarshal S e S') (he : ∀ d, e ≠ .tick d) :
    S'.server.now = S.server.now := by
  cases h with
  | perform hperf hexec => exact hexec.clock_eq.1
  | tick d => exact absurd rfl (he d)
  | _ => rfl

theorem Step.certs_eq (h : Step unmarshal S e S') (he : ∀ i o r, e ≠ .perform i o r) :
    S'.server.certs = S.server.certs := by
  cases h with
  | perform hperf hexec => exact absurd rfl (he _ _ _)
  | _ => rfl

theorem Step.opened_le (h : Step unmarshal S e S') :
    S.server.dist.opened.length ≤ S'.server.dist.opened.length := by
  cases h with
  | subscribe hello => simp [Distributor.register_length]
  | @perform i o r server tasks hperf hexec =>
    rcases hexec.effect with rfl | ⟨eng, -, rfl⟩ | ⟨certs, -, rfl⟩ | ⟨sid, push, -, rfl⟩
    · exact le_refl _
    · exact le_refl _
    · exact le_refl _
    · simp [Distributor.enqueue, Distributor.modify]
  | deliver => simp [Distributor.deliver, Distributor.modify]
  | sendFail => simp [Distributor.sendFail, Distributor.modify]
  | leave => simp [Distributor.leave, Distributor.modify]
  | cleanup => simp [Distributor.cleanup]
  | _ => exact le_refl _

end Meshlite.Sigil
