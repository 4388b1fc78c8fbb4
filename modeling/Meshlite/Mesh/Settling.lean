import Meshlite.Mesh.Link
import Meshlite.Sigil.Progress

/-!
# The mesh settles

Without new input the work of Sigil and of the agent comes to an end, whatever moves first,
and it ends with every handler finished, every push handled and every task waiting. No
channel between the agent's tasks can hold them up for ever.
-/

namespace Meshlite.Mesh

open Policy Tasks Runs Kprobe

/-- Nobody has anything left to do, and the agent is connected. -/
structure Settled (M : Mesh) : Prop where
  finished : Finished M.sigil.tasks
  connected : ∃ node sid st, M.stream = some sid ∧ M.sigil.server.dist.Serving node sid st ∧
    st.sends = []
  inbox : M.inbox = []
  quiet : M.agent.Quiet
  listed : M.agent.watch.phase ≠ .relisting

/-- What happens without input from outside: Sigil works, the agent handles what was delivered
to it, and its tasks move. -/
def IsWork : MeshEvent → Prop
  | .sigil ev => ev.IsWork
  | .receive _ => True
  | .agent ev => ∀ we, ev ≠ .watch we
  | _ => False

section Ranks

/-- A sync that is under way counts once. -/
def busy : VerdictSyncTask → ℕ
  | .waiting => 0
  | _ => 1

/-- What is left of a sync: its stage, and the writes. -/
def ahead : VerdictSyncTask → ℕ × ℕ
  | .waiting => (0, 0)
  | .received => (3, 0)
  | .clonedPolicy _ => (2, 0)
  | .syncing _ _ left => (1, left.length)

/-- A task short of its send holds a token. -/
def tokens : Sender → ℕ
  | .idle => 0
  | .sending => 1

/-- The tokens on their way to the sync task, the further the heavier. -/
def load (a : Agent) : ℕ :=
  5 * tokens a.podWatcher + 4 * a.podChannel + 3 * tokens a.forwarder + 3 * tokens a.sigilClient +
    2 * a.syncChannel + busy a.verdictSync

abbrev AgentRank := ℕ × ℕ × ℕ

def AgentRankLt : AgentRank → AgentRank → Prop := Prod.Lex (· < ·) (Prod.Lex (· < ·) (· < ·))

theorem agentRankLt_wf : WellFounded AgentRankLt :=
  WellFounded.prod_lex Nat.lt_wfRel.wf (WellFounded.prod_lex Nat.lt_wfRel.wf Nat.lt_wfRel.wf)

/-- What the agent has left to do, the pushes under way included. -/
def agentRank (M : Mesh) : AgentRank :=
  (4 * M.inbox.length + load M.agent, ahead M.agent.verdictSync)

abbrev Rank := (Multiset (Sigil.Handler Sigil.Reply) × ℕ) × AgentRank

def rank (M : Mesh) : Rank := (M.sigil.rank, M.agentRank)

def RankLt : Rank → Rank → Prop := Prod.Lex Sigil.System.RankLt AgentRankLt

theorem rankLt_wf : WellFounded RankLt := WellFounded.prod_lex Sigil.System.rankLt_wf agentRankLt_wf

end Ranks

variable {unmarshal : List UInt8 → Except String MeshConfig} {cap : Option ℕ} {e : Endian}
variable {M M' : Mesh} {ev : MeshEvent}

/-- A step of the agent moves a token on, or the sync. -/
theorem agent_rank_lt {a a' : Agent} {ae : AgentEvent} (h : a.Step cap e ae a')
    (hown : ∀ payload, ae ≠ .message payload) (hwatch : ∀ we, ae ≠ .watch we) (n : ℕ) :
    AgentRankLt (n + load a', ahead a'.verdictSync) (n + load a, ahead a.verdictSync) := by
  have hless : load a' < load a →
      AgentRankLt (n + load a', ahead a'.verdictSync) (n + load a, ahead a.verdictSync) :=
    fun hlt => .left _ _ (Nat.add_lt_add_left hlt n)
  have hsame : load a' = load a →
      Prod.Lex (· < ·) (· < ·) (ahead a'.verdictSync) (ahead a.verdictSync) →
      AgentRankLt (n + load a', ahead a'.verdictSync) (n + load a, ahead a.verdictSync) := by
    intro hload hahead
    rw [hload]
    exact .right _ hahead
  cases h with
  | message payload => exact absurd rfl (hown payload)
  | watch we => exact absurd rfl (hwatch we)
  | sigilSend hsending | forwardSend hsending | podSend hsending =>
    refine hless ?_
    simp only [load, hsending, tokens]
    omega
  | forwardRecv hidle hpos =>
    refine hless ?_
    simp only [load, hidle, tokens]
    omega
  | syncRecv hwaiting hpos =>
    refine hless ?_
    simp only [load, hwaiting, busy]
    omega
  | clonePolicy hreceived =>
    refine hsame ?_ ?_
    · simp only [load, hreceived, busy]
    · rw [hreceived]
      exact .left _ _ (by decide)
  | cloneSnapshot order hcloned =>
    refine hsame ?_ ?_
    · simp only [load, hcloned, busy]
    · rw [hcloned]
      exact .left _ _ (by decide)
  | mapWrite hsyncing =>
    refine hsame ?_ ?_
    · simp only [load, hsyncing, busy]
    · rw [hsyncing]
      exact .right _ (Nat.lt_succ_self _)
  | syncDone hsyncing =>
    refine hless ?_
    simp only [load, hsyncing, busy]
    omega

theorem receive_rank_lt {a a' : Agent} {push : Proto.AgentPush}
    (h : a.Step cap e (.message (some push)) a') (n : ℕ) :
    AgentRankLt (4 * n + load a', ahead a'.verdictSync)
      (4 * (n + 1) + load a, ahead a.verdictSync) := by
  refine .left _ _ ?_
  cases h with
  | message payload hidle =>
    cases push <;> simp only [Agent.receive, load, hidle, tokens] <;> omega

theorem Step.rank_lt (h : Step unmarshal cap e M ev M') (hwork : IsWork ev) :
    RankLt M'.rank M.rank := by
  cases h with
  | sigil hstep => exact .left _ _ (hstep.rank_lt hwork)
  | connect => exact hwork.elim
  | @receive push inbox a hinbox hstep =>
    refine .right _ ?_
    have hlt := receive_rank_lt hstep inbox.length
    rwa [agentRank, agentRank, hinbox, List.length_cons]
  | disconnect => exact hwork.elim
  | agent hown hstep => exact .right _ (agent_rank_lt hstep hown hwork _)

/-- An agent whose tasks can not move has nothing left to do. -/
theorem quiet_of_stuck {a : Agent} (hstuck : ∀ ae a', (∀ payload, ae ≠ .message payload) →
    (∀ we, ae ≠ .watch we) → ¬ a.Step cap e ae a') : a.Quiet := by
  have hsync : a.verdictSync = .waiting := by
    cases hs : a.verdictSync with
    | waiting => rfl
    | received => exact absurd (.clonePolicy hs) (hstuck _ _ nofun nofun)
    | clonedPolicy policy =>
      exact absurd (.cloneSnapshot (.listed _ _) hs) (hstuck _ _ nofun nofun)
    | syncing policy pods left =>
      cases left with
      | nil => exact absurd (.syncDone hs) (hstuck _ _ nofun nofun)
      | cons w left => exact absurd (.mapWrite hs) (hstuck _ _ nofun nofun)
  have hroom : (0 : ℕ) < channelCapacity := by decide
  have hchannel : a.syncChannel = 0 := by
    by_contra hne
    exact absurd (.syncRecv hsync (Nat.pos_of_ne_zero hne)) (hstuck _ _ nofun nofun)
  have hsigil : a.sigilClient = .idle := by
    cases hs : a.sigilClient with
    | idle => rfl
    | sending => exact absurd (.sigilSend hs (hchannel ▸ hroom)) (hstuck _ _ nofun nofun)
  have hforward : a.forwarder = .idle := by
    cases hs : a.forwarder with
    | idle => rfl
    | sending => exact absurd (.forwardSend hs (hchannel ▸ hroom)) (hstuck _ _ nofun nofun)
  have hpods : a.podChannel = 0 := by
    by_contra hne
    exact absurd (.forwardRecv hforward (Nat.pos_of_ne_zero hne)) (hstuck _ _ nofun nofun)
  have hwatcher : a.podWatcher = .idle := by
    cases hs : a.podWatcher with
    | idle => rfl
    | sending => exact absurd (.podSend hs (hpods ▸ hroom)) (hstuck _ _ nofun nofun)
  exact ⟨hpods, hchannel, hsync, hsigil, hwatcher, hforward⟩

/-- The agent's stream is registered and serving. -/
def Connected (M : Mesh) : Prop :=
  ∃ node sid st, M.stream = some sid ∧ M.sigil.server.dist.Serving node sid st

theorem settled_of_stuck {eng : Engine} {leafTtl : Duration} {rootKey : Proto.KeyId} {now : Time}
    {es : List MeshEvent} (h : Run (Step unmarshal cap e) (.start eng leafTtl rootKey now) es M)
    (hstuck : Stuck (Step unmarshal cap e) IsWork M) (hconnected : M.Connected)
    (hlisted : M.agent.watch.phase ≠ .relisting) : M.Settled := by
  have hsigil : Stuck (Sigil.Step unmarshal) Sigil.Event.IsWork M.sigil :=
    fun se S' hwork hstep => hstuck (.sigil se) _ hwork (.sigil hstep)
  obtain ⟨hfinished, hdrained⟩ := Sigil.done_of_stuck (sigil_of_run h) hsigil
  have hquiet : M.agent.Quiet := quiet_of_stuck fun ae a' hown hwatch hstep =>
    hstuck (.agent ae) _ hwatch (.agent hown hstep)
  obtain ⟨node, sid, st, hsid, hst⟩ := hconnected
  have hsends := hdrained sid st hst.2.1 hst.2.2
  refine ⟨hfinished, ⟨node, sid, st, hsid, hst, hsends⟩, ?_, hquiet, hlisted⟩
  cases hinbox : M.inbox with
  | nil => rfl
  | cons push inbox =>
    exact absurd (.receive hinbox (.message (some push) hquiet.sigilClient))
      (hstuck (.receive push) _ trivial)

theorem serving_of_work {S S' : Sigil.System} {se : Sigil.Event} {node : String} {sid : ℕ}
    {st : Sigil.AgentStream} (h : Sigil.Step unmarshal S se S') (hwork : se.IsWork)
    (hst : S.server.dist.Serving node sid st) : ∃ st', S'.server.dist.Serving node sid st' := by
  obtain ⟨hlookup, hopen, hphase⟩ := hst
  cases h with
  | @perform i o r server tasks hperf hexec =>
    cases o with
    | enqueue j push =>
      obtain ⟨old, -, -, rfl⟩ := hexec
      split_ifs
      · refine ⟨_, hlookup, Sigil.getElem?_modify_eq_some.mpr ⟨st, hopen, rfl⟩, ?_⟩
        split_ifs <;> exact hphase
      · exact ⟨st, hlookup, hopen, hphase⟩
    | _ =>
      refine ⟨st, ?_⟩
      rw [Sigil.Distributor.Serving, hexec.dist_eq (by nofun)]
      exact ⟨hlookup, hopen, hphase⟩
  | deliver =>
    refine ⟨_, hlookup, Sigil.getElem?_modify_eq_some.mpr ⟨st, hopen, rfl⟩, ?_⟩
    split_ifs <;> exact hphase
  | _ => exact hwork.elim

theorem Step.connected (h : Step unmarshal cap e M ev M') (hwork : IsWork ev)
    (hM : M.Connected ∧ M.agent.watch.phase ≠ .relisting) :
    M'.Connected ∧ M'.agent.watch.phase ≠ .relisting := by
  obtain ⟨⟨node, sid, st, hsid, hst⟩, hlisted⟩ := hM
  cases h with
  | sigil hstep =>
    obtain ⟨st', hst'⟩ := serving_of_work hstep hwork hst
    exact ⟨⟨node, sid, st', hsid, hst'⟩, hlisted⟩
  | connect | disconnect => exact hwork.elim
  | @receive push inbox a hinbox hstep =>
    refine ⟨⟨node, sid, st, hsid, hst⟩, ?_⟩
    cases hstep with
    | message payload hidle => cases push <;> exact hlisted
  | agent hown hstep =>
    refine ⟨⟨node, sid, st, hsid, hst⟩, ?_⟩
    cases hstep with
    | message payload => exact absurd rfl (hown payload)
    | watch we => exact absurd rfl (hwork we)
    | _ => exact hlisted

theorem work_ends : Ends (Step unmarshal cap e) IsWork :=
  .of_rank rankLt_wf rank fun _ _ _ hwork hstep => hstep.rank_lt hwork

/-- The maps are those of a sync with the agent's policy and snapshot. -/
def Synced (cap : Option ℕ) (e : Endian) (M : Mesh) : Prop :=
  Agent.Synced cap e M.agent.policyCache M.agent.watch.snapshot M.agent.maps

/-- Work does not go on for ever. From any reachable state in which the agent is connected and
its pods are listed, all is settled and synced once no work is left, whatever was done first;
and that can be reached. -/
theorem mesh_settles (eng : Engine) (leafTtl : Duration) (rootKey : Proto.KeyId) (now : Time) :
    (∀ states : ℕ → Mesh, ¬ ∀ n, ∃ ev, IsWork ev ∧
      Step unmarshal cap e (states n) ev (states (n + 1))) ∧
    ∀ es M, Run (Step unmarshal cap e) (.start eng leafTtl rootKey now) es M → M.Connected →
      M.agent.watch.phase ≠ .relisting →
      (∀ more M', Run (fun M ev M' => IsWork ev ∧ Step unmarshal cap e M ev M') M more M' →
        Stuck (Step unmarshal cap e) IsWork M' → M'.Settled ∧ M'.Synced cap e) ∧
      ∃ more M', Run (fun M ev M' => IsWork ev ∧ Step unmarshal cap e M ev M') M more M' ∧
        M'.Settled ∧ M'.Synced cap e := by
  refine ⟨work_ends.not_forever, fun es M h hconnected hlisted => ?_⟩
  have hstuck : ∀ more M', Run (fun M ev M' => IsWork ev ∧ Step unmarshal cap e M ev M') M more M' →
      Stuck (Step unmarshal cap e) IsWork M' → M'.Settled ∧ M'.Synced cap e := by
    intro more M' hwork hstuck
    have hkept : M'.Connected ∧ M'.agent.watch.phase ≠ .relisting :=
      hwork.invariant (I := fun _ M => M.Connected ∧ M.agent.watch.phase ≠ .relisting)
        ⟨hconnected, hlisted⟩ fun _ _ _ _ _ hM hstep => hstep.2.connected hstep.1 hM
    have hrun := h.append (hwork.mono fun _ _ _ hstep => hstep.2)
    have hsettled := settled_of_stuck hrun hstuck hkept.1 hkept.2
    exact ⟨hsettled, hsettled.quiet.synced (agent_of_run hrun) hsettled.listed⟩
  obtain ⟨more, M', hwork, hend⟩ := work_ends.exists_stuck M
  exact ⟨hstuck, more, M', hwork, hstuck more M' hwork hend⟩

/-- The mesh when the agent has subscribed. -/
def subscribed : Mesh where
  sigil :=
    { server :=
        { Sigil.demoBoot.server with
          dist := Sigil.demoBoot.server.dist.register Sigil.quietHello }
      tasks := Sigil.demoBoot.tasks ++ [Sigil.onConnect Sigil.quietHello] }
  agent := .boot
  stream := some 0
  inbox := []

theorem run_subscribed : Run (Step Sigil.refuseConfig verdictMapCapacity .little)
    (.start (newEngine Sigil.demoConfig) (30 * second) 0 0)
      [.connect Sigil.quietHello] subscribed :=
  Run.start.next (.connect rfl (.subscribe Sigil.quietHello (by decide)))

theorem subscribed_settles : ∃ more M',
    Run (fun M ev M' => IsWork ev ∧ Step Sigil.refuseConfig verdictMapCapacity .little M ev M')
      subscribed more M' ∧ M'.Settled ∧ M'.Synced verdictMapCapacity .little :=
  ((mesh_settles _ _ _ _).2 _ subscribed run_subscribed ⟨"node-1", 0, _, rfl, rfl, rfl, rfl⟩
    (by decide)).2

end Meshlite.Mesh
