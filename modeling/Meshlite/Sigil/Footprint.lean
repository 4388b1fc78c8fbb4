import Meshlite.Sigil.System

/-!
# What the handlers do and will do

Each handler's operations, stated once over an arbitrary property of operations, and
the pushes its loops are bound to reach.
-/

namespace Meshlite.Sigil

open Policy Tasks Tasks.Prog

variable {ok : (o : Op) → o.Res → Prop}

/-- Operations that neither install a config nor push. -/
def Op.Quiet : Op → Prop
  | setEngine _ | enqueue _ _ => False
  | _ => True

/-- A property of everything the handlers do, as far as answers satisfy `ok`: every quiet
operation, every policy push, and the pushes of certificates just issued. -/
structure Allows (ok : (o : Op) → o.Res → Prop) (Q : Op → Prop) : Prop where
  quiet : ∀ o : Op, o.Quiet → Q o
  policy : ∀ sid pb, Q (.enqueue sid (.policy pb))
  cert : ∀ svc cl ns c, ok (.issue svc cl ns) (.ok c) → ∀ sid, Q (.enqueue sid (.cert c.bundle))

section Delivery

variable {Q : Op → Prop} {push : Proto.AgentPush}

/-- A property of the operations that deliver a push. -/
structure Delivers (Q : Op → Prop) (push : Proto.AgentPush) : Prop where
  agents : Q .connectedAgents
  lookup : ∀ node, Q (.lookup node)
  enqueue : ∀ sid, Q (.enqueue sid push)

theorem Delivers.send (h : Delivers Q push) (node : String) :
    (send node push).Always ok fun o _ => Q o := by
  refine ⟨h.lookup node, fun r _ => ?_⟩
  cases r with
  | none => trivial
  | some sid => exact ⟨h.enqueue sid, fun _ _ => trivial⟩

theorem Delivers.pushCertToAll {cb : Proto.CertBundle} (h : Delivers Q (.cert cb)) :
    (pushCertToAll cb).Always ok fun o _ => Q o :=
  ⟨h.agents, fun _ _ => always_each fun node _ => h.send node⟩

theorem Delivers.broadcastPolicy {snap : PolicySnapshot} (h : Delivers Q (.policy snap.bundle)) :
    (broadcastPolicy snap).Always ok fun o _ => Q o :=
  ⟨h.agents, fun _ _ => always_each fun node _ => h.send node⟩

end Delivery

section Rotation

variable {Q : Op → Prop} {row : CertRow}

/-- A property of the operations that rotate a row. -/
structure Rotates (ok : (o : Op) → o.Res → Prop) (Q : Op → Prop) (row : CertRow) : Prop where
  now : Q .now
  issue : Q (.issue row.serviceId row.clusterId row.nspace)
  push : ∀ c, ok (.issue row.serviceId row.clusterId row.nspace) (.ok c) →
    Delivers Q (.cert c.bundle)

theorem Rotates.rotateIfDue (h : Rotates ok Q row) :
    (rotateIfDue row).Always ok fun o _ => Q o := by
  rw [rotateIfDue_eq, always_op]
  refine ⟨h.now, ?_⟩
  intro now _
  by_cases hdue : now < row.rotateAt * second
  · rw [if_pos hdue]
    trivial
  · rw [if_neg hdue]
    refine ⟨h.issue, fun r hr => ?_⟩
    cases r with
    | error err => trivial
    | ok c => exact (h.push c hr).pushCertToAll

theorem always_rotationScan (hlist : Q .listCerts)
    (hrows : ∀ rows, ok .listCerts (.ok rows) → ∀ row ∈ rows, Rotates ok Q row) :
    rotationScan.Always ok fun o _ => Q o := by
  refine ⟨hlist, fun r hr => ?_⟩
  cases r with
  | error err => trivial
  | ok rows =>
    change ((each Sigil.rotateIfDue rows).bind fun _ => _).Always ok _
    exact always_bind (always_each fun row hrow => (hrows rows hr row hrow).rotateIfDue)
      fun _ => trivial

theorem always_rotateCert {serviceId : String} (hlist : Q .listCerts)
    (hrows : serviceId ≠ "" → ∀ rows, ok .listCerts (.ok rows) → ∀ row ∈ rows,
      row.serviceId = serviceId → Rotates ok Q row) :
    (rotateCert serviceId).Always ok fun o _ => Q o := by
  unfold rotateCert
  split_ifs with hname
  · trivial
  · refine ⟨hlist, fun r hr => ?_⟩
    cases r with
    | error err => trivial
    | ok rows =>
      dsimp only [Prog.bind]
      cases hfind : rows.find? (·.serviceId = serviceId) with
      | none => trivial
      | some row =>
        have hrow := hrows hname rows hr row (List.mem_of_find?_eq_some hfind)
          (by simpa using List.find?_some hfind)
        refine ⟨hrow.issue, fun r hr => ?_⟩
        cases r with
        | error err => trivial
        | ok c =>
          change ((pushCertToAll c.bundle).bind fun _ => _).Always ok _
          exact always_bind (hrow.push c hr).pushCertToAll fun _ => trivial

end Rotation

section Always

variable {Q : Op → Prop} (h : Allows ok Q)

include h

theorem Allows.delivers {push : Proto.AgentPush} (hpush : ∀ sid, Q (.enqueue sid push)) :
    Delivers Q push :=
  ⟨h.quiet _ trivial, fun _ => h.quiet _ trivial, hpush⟩

theorem Allows.rotates (row : CertRow) : Rotates ok Q row :=
  ⟨h.quiet _ trivial, h.quiet _ trivial, fun c hc => h.delivers (h.cert _ _ _ c hc)⟩

theorem always_readSnapshot : readSnapshot.Always ok fun o _ => Q o :=
  ⟨h.quiet _ trivial, fun _ _ => ⟨h.quiet _ trivial, fun _ _ => ⟨h.quiet _ trivial,
    fun _ _ => trivial⟩⟩⟩

theorem always_connectService (hello : Proto.AgentHello) (svcId : String) :
    (connectService hello svcId).Always ok fun o _ => Q o := by
  refine ⟨h.quiet _ trivial, fun r hr => ?_⟩
  cases r with
  | error err => trivial
  | ok c => exact (h.delivers (h.cert _ _ _ c hr)).send _

theorem always_onConnect (hello : Proto.AgentHello) :
    (onConnect hello).Always ok fun o _ => Q o := by
  apply always_bind (always_readSnapshot h)
  intro snap
  apply always_bind ((h.delivers fun sid => h.policy sid _).send hello.nodeId)
  intro _
  exact always_bind (always_each fun svc _ => always_connectService h hello svc) fun _ => trivial

theorem always_servePolicy : servePolicy.Always ok fun o _ => Q o :=
  ⟨h.quiet _ trivial, fun _ _ => ⟨h.quiet _ trivial, fun _ _ => ⟨h.quiet _ trivial,
    fun _ _ => trivial⟩⟩⟩

theorem always_handleServiceEvent (evt : ServiceEvent) :
    (handleServiceEvent evt).Always ok fun o _ => Q o := by
  unfold handleServiceEvent
  split_ifs with hdel
  · exact ⟨h.quiet _ trivial, fun _ _ => trivial⟩
  · refine ⟨h.quiet _ trivial, fun r hr => ?_⟩
    cases r with
    | error err => trivial
    | ok c =>
      change ((pushCert evt.nodeName c.bundle).bind fun _ => _).Always ok _
      exact always_bind ((h.delivers (h.cert _ _ _ c hr)).send _) fun _ => trivial

theorem always_enrollCluster (clusterId : Option String) :
    (enrollCluster clusterId).Always ok fun o _ => Q o := by
  cases clusterId with
  | none => trivial
  | some clusterId =>
    unfold enrollCluster
    dsimp only
    split_ifs with hname
    · trivial
    · refine ⟨h.quiet _ trivial, fun r _ => ?_⟩
      cases r <;> trivial

theorem always_issueServerCert (clusterId : String) :
    (issueServerCert clusterId).Always ok fun o _ => Q o :=
  ⟨h.quiet _ trivial, fun _ _ => trivial⟩

/-- After its first operation the handler of a config is like the others. -/
theorem always_announce (newEng : Engine) :
    ∃ k, installConfig newEng = .op (.setEngine newEng) k ∧
      (k ()).Always ok fun o _ => Q o := by
  refine ⟨_, rfl, ?_⟩
  apply always_bind (always_readSnapshot h)
  intro snap
  exact always_bind (h.delivers fun sid => h.policy sid _).broadcastPolicy fun _ => trivial

/-- What holds of quiet operations and pushes holds in every handler, the installation of
a config apart. -/
theorem always_handler {P : (o : Op) → (o.Res → Handler Reply) → Prop} (hP : ∀ o k, Q o → P o k)
    (hinstall : ∀ newEng, (installConfig newEng).Always ok P)
    (unmarshal : List UInt8 → Except String MeshConfig) (req : Request) :
    (handler unmarshal req).Always ok P := by
  cases req with
  | postConfig body =>
    change (postConfig unmarshal body).Always ok P
    unfold postConfig
    cases newFromBytes unmarshal (body.take configLimit) with
    | error err => trivial
    | ok newEng => exact hinstall newEng
  | getPolicy => exact (always_servePolicy h).mono hP
  | rotate svc =>
    exact (always_rotateCert (h.quiet _ trivial) fun _ _ _ row _ _ => h.rotates row).mono hP
  | serviceEvent evt => exact (always_handleServiceEvent h evt).mono hP
  | enroll clusterId => exact (always_enrollCluster h clusterId).mono hP

end Always

section Steps

variable {unmarshal : List UInt8 → Except String MeshConfig} {S S' : System} {e : Event}

/-- A property of every operation still ahead is kept by steps whose answers are `ok`. -/
theorem Step.always {Q : Op → Prop} (h : Step unmarshal S e S') (hQ : Allows ok Q)
    {P : (o : Op) → (o.Res → Handler Reply) → Prop} (hP : ∀ o k, Q o → P o k)
    (hinstall : ∀ newEng, (installConfig newEng).Always ok P)
    (hok : ∀ i o r, e = .perform i o r → ok o r) (hS : ∀ p ∈ S.tasks, p.Always ok P) :
    ∀ p ∈ S'.tasks, p.Always ok P := by
  cases h with
  | subscribe hello hnode =>
    exact List.forall_mem_append.mpr
      ⟨hS, List.forall_mem_singleton.mpr ((always_onConnect hQ hello).mono hP)⟩
  | request req =>
    exact List.forall_mem_append.mpr
      ⟨hS, List.forall_mem_singleton.mpr (always_handler hQ hP hinstall unmarshal req)⟩
  | scan =>
    have hscan := always_rotationScan (hQ.quiet _ trivial) fun _ _ row _ => hQ.rotates row
    exact List.forall_mem_append.mpr ⟨hS, List.forall_mem_singleton.mpr (hscan.mono hP)⟩
  | perform hperf hexec => exact hperf.always (hok _ _ _ rfl) hS
  | _ => exact hS

/-- What some handler will do is done by the step, or some handler still will do it. -/
theorem Step.will {goal : Op → Prop} (h : Step unmarshal S e S')
    (hok : ∀ i o r, e = .perform i o r → ok o r) (hw : ∃ p ∈ S.tasks, p.Will ok goal) :
    (∃ i o r, e = .perform i o r ∧ goal o) ∨ ∃ p ∈ S'.tasks, p.Will ok goal := by
  cases h with
  | perform hperf hexec =>
    rcases hperf.will (hok _ _ _ rfl) hw with hgoal | hw'
    · exact Or.inl ⟨_, _, _, rfl, hgoal⟩
    · exact Or.inr hw'
  | subscribe hello =>
    obtain ⟨p, hp, hw⟩ := hw
    exact Or.inr ⟨p, List.mem_append_left _ hp, hw⟩
  | request req =>
    obtain ⟨p, hp, hw⟩ := hw
    exact Or.inr ⟨p, List.mem_append_left _ hp, hw⟩
  | scan =>
    obtain ⟨p, hp, hw⟩ := hw
    exact Or.inr ⟨p, List.mem_append_left _ hp, hw⟩
  | _ => exact Or.inr hw

end Steps

section Answers

variable {I : Server → Prop} {node : String} {sid : ℕ}

theorem answers_lookup (hI : ∀ s, I s → s.dist.streams.lookup node = some sid) :
    ∀ r, Server.Answers I (.lookup node) r → r = some sid := by
  rintro r ⟨s, s', hs, hr, -⟩
  rw [hr, hI s hs]

theorem answers_connectedAgents (hI : ∀ s, I s → s.dist.streams.lookup node = some sid) :
    ∀ r, Server.Answers I .connectedAgents r → node ∈ r := by
  rintro r ⟨s, s', hs, hperm, -⟩
  apply hperm.mem_iff.mpr
  apply AList.lookup_isSome.mp
  rw [hI s hs]
  rfl

end Answers

section Will

variable {goal : Op → Prop} {node : String} {sid : ℕ} {push : Proto.AgentPush}

theorem will_send (hlookup : ∀ r, ok (.lookup node) r → r = some sid)
    (hgoal : goal (.enqueue sid push)) : (send node push).Will ok goal := by
  refine Or.inr fun r hr => ?_
  obtain rfl := hlookup r hr
  exact Or.inl hgoal

theorem will_broadcastPolicy {snap : PolicySnapshot}
    (hagents : ∀ r, ok .connectedAgents r → node ∈ r)
    (hlookup : ∀ r, ok (.lookup node) r → r = some sid)
    (hgoal : goal (.enqueue sid (.policy snap.bundle))) : (broadcastPolicy snap).Will ok goal :=
  Or.inr fun r hr => will_each (hagents r hr) (will_send hlookup hgoal)

end Will

end Meshlite.Sigil
