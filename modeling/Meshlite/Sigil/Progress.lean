import Meshlite.Library.Progress
import Meshlite.Sigil.Origins

/-!
# Sigil finishes its work

A handler is never held up: every operation it comes to gets an answer. Without new
connections, requests and ticks the handlers finish and the serving streams are drained,
whoever moves first.
-/

namespace Meshlite.Sigil

open Policy Tasks Tasks.Prog Runs

/-- A push goes to a stream that was looked up. -/
def LookedUp (tr : Record) : Op → Prop
  | .enqueue sid _ => ∃ node, ⟨.lookup node, some sid⟩ ∈ tr
  | _ => True

section Handlers

variable {tr : Record}

theorem lookedUp_send (node : String) (push : Proto.AgentPush) :
    (send node push).Along LookedUp (fun _ _ => True) tr := by
  refine ⟨trivial, fun r => ?_⟩
  cases r with
  | none => trivial
  | some sid => exact ⟨⟨node, by simp⟩, fun _ => trivial⟩

theorem lookedUp_each {β : Type} {body : β → Handler Unit}
    (h : ∀ b tr, (body b).Along LookedUp (fun _ _ => True) tr) (bs : List β) :
    (each body bs).Along LookedUp (fun _ _ => True) tr :=
  along_each (K := fun _ => True) (fun b tr _ => h b tr) bs trivial

theorem lookedUp_bind {α β : Type} {p : Handler α} {f : α → Handler β}
    (hp : p.Along LookedUp (fun _ _ => True) tr)
    (hf : ∀ tr a, (f a).Along LookedUp (fun _ _ => True) tr) :
    (p.bind f).Along LookedUp (fun _ _ => True) tr :=
  along_bind (hp.mono fun tr a _ => hf tr a)

theorem lookedUp_pushCertToAll (cb : Proto.CertBundle) :
    (pushCertToAll cb).Along LookedUp (fun _ _ => True) tr :=
  ⟨trivial, fun _ => lookedUp_each (fun _ _ => lookedUp_send _ _) _⟩

theorem lookedUp_readSnapshot : readSnapshot.Along LookedUp (fun _ _ => True) tr :=
  ⟨trivial, fun _ => ⟨trivial, fun _ => ⟨trivial, fun _ => trivial⟩⟩⟩

theorem lookedUp_connectService (hello : Proto.AgentHello) (svc : String) :
    (connectService hello svc).Along LookedUp (fun _ _ => True) tr := by
  refine ⟨trivial, fun r => ?_⟩
  cases r with
  | error err => trivial
  | ok c => exact lookedUp_send _ _

theorem lookedUp_onConnect (hello : Proto.AgentHello) :
    (onConnect hello).Along LookedUp (fun _ _ => True) tr := by
  refine lookedUp_bind lookedUp_readSnapshot fun tr snap => ?_
  refine lookedUp_bind (lookedUp_send _ _) fun tr _ => ?_
  exact lookedUp_bind (lookedUp_each (fun svc _ => lookedUp_connectService hello svc) _)
    fun _ _ => trivial

theorem lookedUp_installConfig (newEng : Engine) :
    (installConfig newEng).Along LookedUp (fun _ _ => True) tr := by
  refine ⟨trivial, fun _ => ?_⟩
  refine lookedUp_bind (p := readSnapshot) lookedUp_readSnapshot fun tr snap => ?_
  refine lookedUp_bind (p := broadcastPolicy snap) ⟨trivial, fun _ => ?_⟩ fun _ _ => trivial
  exact lookedUp_each (fun _ _ => lookedUp_send _ _) _

theorem lookedUp_rotateIfDue (row : CertRow) :
    (rotateIfDue row).Along LookedUp (fun _ _ => True) tr := by
  rw [rotateIfDue_eq, along_op]
  refine ⟨trivial, fun now => ?_⟩
  by_cases hdue : now < row.rotateAt * second
  · rw [if_pos hdue]
    trivial
  · rw [if_neg hdue]
    refine ⟨trivial, fun r => ?_⟩
    cases r with
    | error err => trivial
    | ok c => exact lookedUp_pushCertToAll _

theorem lookedUp_rotationScan : rotationScan.Along LookedUp (fun _ _ => True) tr := by
  rw [rotationScan_op, along_op]
  refine ⟨trivial, fun r => ?_⟩
  cases r with
  | error err => trivial
  | ok rows =>
    exact lookedUp_bind (lookedUp_each (fun _ _ => lookedUp_rotateIfDue _) _) fun _ _ => trivial

theorem lookedUp_rotateCert (serviceId : String) :
    (rotateCert serviceId).Along LookedUp (fun _ _ => True) tr := by
  by_cases hname : serviceId = ""
  · unfold rotateCert
    rw [if_pos hname]
    trivial
  rw [rotateCert_eq hname, along_op]
  refine ⟨trivial, fun r => ?_⟩
  cases r with
  | error err => trivial
  | ok rows =>
    dsimp only
    cases rows.find? (·.serviceId = serviceId) with
    | none => trivial
    | some row =>
      refine ⟨trivial, fun r => ?_⟩
      cases r with
      | error err => trivial
      | ok c => exact lookedUp_bind (lookedUp_pushCertToAll _) fun _ _ => trivial

theorem lookedUp_handleServiceEvent (evt : ServiceEvent) :
    (handleServiceEvent evt).Along LookedUp (fun _ _ => True) tr := by
  unfold handleServiceEvent
  split_ifs with hdel
  · exact ⟨trivial, fun _ => trivial⟩
  · refine ⟨trivial, fun r => ?_⟩
    cases r with
    | error err => trivial
    | ok c =>
      exact lookedUp_bind (p := pushCert evt.nodeName c.bundle) (lookedUp_send _ _)
        fun _ _ => trivial

theorem lookedUp_enrollCluster (clusterId : Option String) :
    (enrollCluster clusterId).Along LookedUp (fun _ _ => True) tr := by
  cases clusterId with
  | none => trivial
  | some clusterId =>
    unfold enrollCluster
    dsimp only
    split_ifs with hname
    · trivial
    · refine ⟨trivial, fun r => ?_⟩
      cases r <;> trivial

theorem lookedUp_program (unmarshal : List UInt8 → Except String MeshConfig) (e : Event)
    (p : Handler Reply) (hp : e.program unmarshal = some p) :
    p.Along LookedUp (fun _ _ => True) [] := by
  cases e with
  | subscribe hello =>
    obtain rfl := Option.some.inj hp
    exact lookedUp_onConnect hello
  | scan =>
    obtain rfl := Option.some.inj hp
    exact lookedUp_rotationScan
  | request req =>
    obtain rfl := Option.some.inj hp
    cases req with
    | postConfig body =>
      change (postConfig unmarshal body).Along _ _ _
      unfold postConfig
      cases newFromBytes unmarshal (body.take configLimit) with
      | error err => trivial
      | ok newEng => exact lookedUp_installConfig newEng
    | getPolicy => exact ⟨trivial, fun _ => ⟨trivial, fun _ => ⟨trivial, fun _ => trivial⟩⟩⟩
    | rotate serviceId => exact lookedUp_rotateCert serviceId
    | serviceEvent evt => exact lookedUp_handleServiceEvent evt
    | enroll clusterId => exact lookedUp_enrollCluster clusterId
  | _ => cases hp

end Handlers

/-- What Sigil does on its own: a handler moves on, or a stream delivers. -/
def Event.IsWork : Event → Prop
  | .perform _ _ _ | .deliver _ _ => True
  | _ => False

section Progress

variable {unmarshal : List UInt8 → Except String MeshConfig} {S S' : System} {e : Event}
variable {eng : Engine} {leafTtl : Duration} {rootKey : Proto.KeyId} {now : Time}
variable {events : List Event}

theorem Server.exists_exec (s : Server) (o : Op)
    (ho : ∀ sid push, o = .enqueue sid push → ∃ st, s.dist.opened[sid]? = some st) :
    ∃ r s', s.Exec o r s' := by
  cases o with
  | enqueue sid push =>
    obtain ⟨st, hst⟩ := ho sid push rfl
    exact ⟨_, _, st, hst, rfl, rfl⟩
  | rules => exact ⟨_, s, ⟨.listed _, rfl⟩, rfl⟩
  | setEngine eng => exact ⟨(), _, rfl⟩
  | issue | issueWithDns | revoke | listCerts => exact ⟨.error "database", s, rfl⟩
  | connectedAgents => exact ⟨_, s, List.Perm.refl _, rfl⟩
  | defaultAllow | mtlsMode | now | lookup => exact ⟨_, s, rfl, rfl⟩

/-- A handler that has not finished can move. -/
theorem exists_perform (h : Run (Step unmarshal) (.boot eng leafTtl rootKey now) events S)
    {p : Handler Reply} (hp : p ∈ S.tasks) (hunfinished : ¬ ∃ a, p = .ret a) :
    ∃ i o r S', Step unmarshal S (.perform i o r) S' := by
  obtain ⟨i, hi⟩ := List.mem_iff_getElem?.mp hp
  cases p with
  | ret a => exact absurd ⟨a, rfl⟩ hunfinished
  | op o k =>
    have hexplained : Explained (fun _ => LookedUp) (fun _ _ _ => True) events S :=
      explained_run ⟨trivial, fun _ => trivial⟩ (lookedUp_program unmarshal) h
    obtain ⟨start, -, halong⟩ := hexplained.along i _ hi
    have hopen : ∀ sid push, o = .enqueue sid push →
        ∃ st, S.server.dist.opened[sid]? = some st := by
      rintro sid push rfl
      obtain ⟨node, hnode⟩ := halong.1
      obtain ⟨st, hst, -⟩ := allRegistered_run h i node sid (mem_record.mp hnode)
      exact ⟨st, hst⟩
    obtain ⟨r, s', hexec⟩ := S.server.exists_exec o hopen
    exact ⟨i, o, r, _, .perform ⟨k, hi, rfl⟩ hexec⟩

/-- What is left on the channels. -/
def System.queued (S : System) : ℕ := (S.server.dist.opened.map fun st => st.sends.length).sum

/-- What the handlers have left to do, and what is left on the channels. -/
def System.rank (S : System) : Multiset (Handler Reply) × ℕ := (↑S.tasks, S.queued)

def System.RankLt : Multiset (Handler Reply) × ℕ → Multiset (Handler Reply) × ℕ → Prop :=
  Prod.Lex (Relation.CutExpand Prog.Left) (· < ·)

theorem System.rankLt_wf : WellFounded System.RankLt :=
  WellFounded.prod_lex cutExpand_left_wf Nat.lt_wfRel.wf

theorem queued_deliver {sid : ℕ} {st : AgentStream} {push : Proto.AgentPush}
    (hst : S.server.dist.opened[sid]? = some st) (hhead : st.sends.head? = some push) :
    ({ S with server :=
      { S.server with dist := S.server.dist.deliver sid push } } : System).queued <
      S.queued := by
  obtain ⟨rest, hrest⟩ := List.head?_eq_some_iff.mp hhead
  have hset := sum_map_set (f := fun st : AgentStream => st.sends.length) (x := 1) (y := 0)
    (b := { st with sends := rest, delivered := st.delivered ++ [push] }) hst
    (by rw [hrest]; rfl)
  have hopened : (S.server.dist.deliver sid push).opened =
      S.server.dist.opened.set sid
        { st with sends := rest, delivered := st.delivered ++ [push] } := by
    change S.server.dist.opened.modify sid _ = _
    rw [List.modify_eq_set_getElem?, hst]
    simp [hrest]
  rw [System.queued, System.queued, hopened]
  omega

theorem Step.rank_lt (h : Step unmarshal S e S') (hwork : e.IsWork) :
    System.RankLt S'.rank S.rank := by
  cases h with
  | perform hperf hexec => exact .left _ _ hperf.cutExpand
  | deliver hopen hphase hhead => exact .right _ (queued_deliver hopen hhead)
  | _ => exact hwork.elim

theorem work_ends : Ends (Step unmarshal) Event.IsWork :=
  .of_rank System.rankLt_wf System.rank fun _ _ _ hwork hstep => hstep.rank_lt hwork

/-- Once Sigil's own work has ended, the handlers have finished and nothing is left on a serving
stream. -/
theorem done_of_stuck (h : Run (Step unmarshal) (.boot eng leafTtl rootKey now) events S)
    (hstuck : Stuck (Step unmarshal) Event.IsWork S) :
    Finished S.tasks ∧ ∀ (sid : ℕ) (st : AgentStream), S.server.dist.opened[sid]? = some st →
      st.phase = .serving → st.sends = [] := by
  constructor
  · intro p hp
    by_contra hunfinished
    obtain ⟨i, o, r, S', hstep⟩ := exists_perform h hp hunfinished
    exact hstuck (.perform i o r) S' trivial hstep
  · intro sid st hst hphase
    cases hsends : st.sends with
    | nil => rfl
    | cons push rest =>
      have hhead : st.sends.head? = some push := by rw [hsends, List.head?_cons]
      exact absurd (.deliver hst hphase hhead) (hstuck (.deliver sid push) _ trivial)

end Progress

end Meshlite.Sigil
