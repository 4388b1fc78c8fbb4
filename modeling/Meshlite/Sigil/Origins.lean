import Meshlite.Sigil.Provenance
import Meshlite.Sigil.Streams

/-!
# Why a certificate is pushed

Every certificate on its way to an agent was issued by the handler that pushes it, and the
event that started the handler chose the agent: its hello named the service, a pod of the
service runs on its node, or the service was rotated while the agent was connected.
-/

namespace Meshlite.Sigil

open Policy Tasks Tasks.Prog Runs

/-- The handler found the service in the table and the node among the connected agents. -/
structure Rotated (tr : Record) (node svc : String) : Prop where
  listed : ∃ rows row, ⟨.listCerts, .ok rows⟩ ∈ tr ∧ row ∈ rows ∧ row.serviceId = svc
  connected : ∃ nodes, ⟨.connectedAgents, nodes⟩ ∈ tr ∧ node ∈ nodes

/-- Why the handler that the event started pushes a certificate of the service to the node. -/
def Chooses (start : Option Event) (tr : Record) (node svc : String) : Prop :=
  match start with
  | some (.subscribe hello) => hello.nodeId = node ∧ svc ∈ hello.podServiceIds
  | some (.request (.serviceEvent evt)) =>
    evt.deleted = false ∧ evt.nodeName = node ∧ evt.serviceId = svc
  | some (.request (.rotate svc')) => svc' = svc ∧ Rotated tr node svc
  | some .scan => Rotated tr node svc
  | _ => False

/-- The handler had the certificate issued for the service. -/
def IssuedIn (tr : Record) (svc : String) (c : IssuedCert) : Prop :=
  ∃ cl ns, ⟨.issue svc cl ns, .ok c⟩ ∈ tr

/-- A certificate is pushed to the stream looked up for the node it is chosen for, as it was
issued. -/
def Warranted (start : Option Event) (tr : Record) : Op → Prop
  | .enqueue sid (.cert cb) => ∃ node svc c, ⟨.lookup node, some sid⟩ ∈ tr ∧ IssuedIn tr svc c ∧
      cb = c.bundle ∧ Chooses start tr node svc
  | _ => True

/-- A certificate answered was issued for the enrollment. -/
def Granted (start : Option Event) (tr : Record) : Reply → Prop
  | .enrolled c => ∃ cl, start = some (.request (.enroll (some cl))) ∧
      ⟨.issueWithDns ("conduit-" ++ cl) cl "meshlite-system" [cl, "conduit-" ++ cl, "localhost"],
        .ok c⟩ ∈ tr
  | _ => True

section Handlers

variable {tr tr' : Record} {node svc cl ns : String} {c : IssuedCert} {start : Option Event}

theorem Rotated.mono (h : Rotated tr node svc) (hsub : tr ⊆ tr') : Rotated tr' node svc := by
  obtain ⟨⟨rows, row, hrows, hrow⟩, nodes, hnodes, hnode⟩ := h
  exact ⟨⟨rows, row, hsub hrows, hrow⟩, nodes, hsub hnodes, hnode⟩

theorem Chooses.mono (h : Chooses start tr node svc) (hsub : tr ⊆ tr') :
    Chooses start tr' node svc := by
  unfold Chooses at h ⊢
  split at h
  · exact h
  · exact h
  · exact ⟨h.1, h.2.mono hsub⟩
  · exact h.mono hsub
  · exact h.elim

theorem issuedIn_snoc : IssuedIn (tr ++ [⟨.issue svc cl ns, .ok c⟩]) svc c :=
  ⟨cl, ns, List.mem_append_right _ List.mem_cons_self⟩

theorem IssuedIn.mono (h : IssuedIn tr svc c) (hsub : tr ⊆ tr') : IssuedIn tr' svc c := by
  obtain ⟨cl, ns, hmem⟩ := h
  exact ⟨cl, ns, hsub hmem⟩

theorem warranted_pushCert (hissue : IssuedIn tr svc c)
    (hchooses : Chooses start tr node svc) :
    (pushCert node c.bundle).Along (Warranted start) (fun tr' _ => tr ⊆ tr') tr := by
  refine ⟨trivial, fun r => ?_⟩
  have hsub : tr ⊆ tr ++ [⟨.lookup node, r⟩] := List.subset_append_left _ _
  cases r with
  | none => exact hsub
  | some sid =>
    refine ⟨⟨node, svc, c, ?_, hissue.mono hsub, rfl, hchooses.mono hsub⟩, fun _ => ?_⟩
    · exact List.mem_append_right _ List.mem_cons_self
    · exact List.Subset.trans hsub (List.subset_append_left _ _)

theorem warranted_pushCertToAll (hissue : IssuedIn tr svc c)
    (hrotates : ∀ tr' node, tr ⊆ tr' → (∃ nodes, ⟨.connectedAgents, nodes⟩ ∈ tr' ∧ node ∈ nodes) →
      Chooses start tr' node svc) :
    (pushCertToAll c.bundle).Along (Warranted start) (fun tr' _ => tr ⊆ tr') tr := by
  refine ⟨trivial, fun nodes => ?_⟩
  have hsub : tr ⊆ tr ++ [⟨.connectedAgents, nodes⟩] := List.subset_append_left _ _
  have hloop : (each (fun node => pushCert node c.bundle) nodes).Along (Warranted start)
      (fun tr' _ => tr ++ [⟨.connectedAgents, nodes⟩] ⊆ tr') (tr ++ [⟨.connectedAgents, nodes⟩]) := by
    apply along_each_of_mem _ (List.Subset.refl _)
    intro node hnode tr' htr'
    have hagents : ⟨.connectedAgents, nodes⟩ ∈ tr' :=
      htr' (List.mem_append_right _ List.mem_cons_self)
    have hpush := warranted_pushCert (hissue.mono (List.Subset.trans hsub htr'))
      (hrotates tr' node (List.Subset.trans hsub htr') ⟨nodes, hagents, hnode⟩)
    exact hpush.mono fun _ _ h => List.Subset.trans htr' h
  exact hloop.mono fun _ _ h => List.Subset.trans hsub h

theorem warranted_send_policy (pb : Proto.PolicyBundle) :
    (send node (.policy pb)).Along (Warranted start) (fun _ _ => True) tr := by
  refine ⟨trivial, fun r => ?_⟩
  cases r with
  | none => trivial
  | some sid => exact ⟨trivial, fun _ => trivial⟩

theorem warranted_readSnapshot :
    readSnapshot.Along (Warranted start) (fun _ _ => True) tr :=
  ⟨trivial, fun _ => ⟨trivial, fun _ => ⟨trivial, fun _ => trivial⟩⟩⟩

theorem warranted_onConnect (hello : Proto.AgentHello) :
    (onConnect hello).Along (Warranted (some (.subscribe hello)))
      (Granted (some (.subscribe hello))) [] := by
  apply along_bind
  apply warranted_readSnapshot.mono
  intro tr snap _
  apply along_bind
  apply (warranted_send_policy snap.bundle).mono
  intro tr _ _
  apply along_bind
  apply along_each_of_mem (K := fun _ => True) _ trivial
  intro svc hsvc tr _
  refine ⟨trivial, fun r => ?_⟩
  cases r with
  | error err => trivial
  | ok c =>
    have hchooses : Chooses (some (.subscribe hello))
        (tr ++ [⟨.issue svc hello.clusterId "default", .ok c⟩]) hello.nodeId svc := ⟨rfl, hsvc⟩
    exact (warranted_pushCert issuedIn_snoc hchooses).mono fun _ _ _ => trivial

theorem warranted_installConfig (newEng : Engine) :
    (installConfig newEng).Along (Warranted start) (Granted start) [] := by
  refine ⟨trivial, fun u => ?_⟩
  apply along_bind (p := readSnapshot)
  apply warranted_readSnapshot.mono
  intro tr snap _
  apply along_bind (p := broadcastPolicy snap)
  refine ⟨trivial, fun nodes => ?_⟩
  have hloop : (each (fun node => send node (.policy snap.bundle)) nodes).Along (Warranted start)
      (fun _ _ => True) (tr ++ [⟨.connectedAgents, nodes⟩]) :=
    along_each (fun _ _ _ => warranted_send_policy _) nodes trivial
  exact hloop.mono fun _ _ _ => trivial

theorem warranted_rotateIfDue {row : CertRow} {rows : List CertRow} (hrow : row ∈ rows)
    (hrows : ⟨.listCerts, .ok rows⟩ ∈ tr) :
    (rotateIfDue row).Along (Warranted (some .scan)) (fun tr' _ => tr ⊆ tr') tr := by
  rw [rotateIfDue_eq, along_op]
  refine ⟨trivial, fun now => ?_⟩
  have hnow : tr ⊆ tr ++ [⟨.now, now⟩] := List.subset_append_left _ _
  by_cases hdue : now < row.rotateAt * second
  · rw [if_pos hdue]
    exact hnow
  · rw [if_neg hdue]
    refine ⟨trivial, fun r => ?_⟩
    have hsub := List.Subset.trans hnow (List.subset_append_left _
      [⟨.issue row.serviceId row.clusterId row.nspace, r⟩])
    cases r with
    | error err => exact hsub
    | ok c =>
      have hpush : (pushCertToAll c.bundle).Along (Warranted (some .scan)) _ _ :=
        warranted_pushCertToAll issuedIn_snoc
          fun tr' node htr' hnode => ⟨⟨rows, row, htr' (hsub hrows), hrow, rfl⟩, hnode⟩
      exact hpush.mono fun _ _ h => List.Subset.trans hsub h

theorem warranted_rotationScan :
    rotationScan.Along (Warranted (some .scan)) (Granted (some .scan)) [] := by
  refine ⟨trivial, fun r => ?_⟩
  cases r with
  | error err => trivial
  | ok rows =>
    apply along_bind (p := each rotateIfDue rows)
    have hloop : (each rotateIfDue rows).Along (Warranted (some .scan))
        (fun tr _ => ⟨.listCerts, .ok rows⟩ ∈ tr) [⟨.listCerts, .ok rows⟩] := by
      refine along_each_of_mem (K := fun tr : Record => ⟨Op.listCerts, .ok rows⟩ ∈ tr) ?_
        List.mem_cons_self
      exact fun row hrow tr hrows => (warranted_rotateIfDue hrow hrows).mono fun _ _ h => h hrows
    exact hloop.mono fun _ _ _ => trivial

theorem warranted_rotateCert (serviceId : String) :
    (rotateCert serviceId).Along (Warranted (some (.request (.rotate serviceId))))
      (Granted (some (.request (.rotate serviceId)))) [] := by
  unfold rotateCert
  split_ifs with hname
  · trivial
  · refine ⟨trivial, fun r => ?_⟩
    cases r with
    | error err => trivial
    | ok rows =>
      dsimp only [Prog.bind]
      cases hfind : rows.find? (·.serviceId = serviceId) with
      | none => trivial
      | some row =>
        have hsvc : row.serviceId = serviceId := by simpa using List.find?_some hfind
        refine ⟨trivial, fun r => ?_⟩
        cases r with
        | error err => trivial
        | ok c =>
          apply along_bind (p := pushCertToAll c.bundle)
          apply (warranted_pushCertToAll issuedIn_snoc _).mono
          · exact fun _ _ _ => trivial
          · intro tr' node htr' hnode
            refine ⟨hsvc.symm, ⟨⟨rows, row, htr' ?_, List.mem_of_find?_eq_some hfind, rfl⟩, hnode⟩⟩
            simp

theorem warranted_handleServiceEvent (evt : ServiceEvent) :
    (handleServiceEvent evt).Along (Warranted (some (.request (.serviceEvent evt))))
      (Granted (some (.request (.serviceEvent evt)))) [] := by
  unfold handleServiceEvent
  split_ifs with hdel
  · exact ⟨trivial, fun _ => trivial⟩
  · refine ⟨trivial, fun r => ?_⟩
    cases r with
    | error err => trivial
    | ok c =>
      apply along_bind (p := pushCert evt.nodeName c.bundle)
      have hchooses : Chooses (some (.request (.serviceEvent evt)))
          [⟨.issue evt.serviceId evt.clusterId evt.nspace, .ok c⟩] evt.nodeName evt.serviceId :=
        ⟨by simpa using hdel, rfl, rfl⟩
      exact (warranted_pushCert ⟨_, _, List.mem_cons_self⟩ hchooses).mono fun _ _ _ => trivial

theorem warranted_enrollCluster (clusterId : Option String) :
    (enrollCluster clusterId).Along (Warranted start)
      (Granted (some (.request (.enroll clusterId)))) [] := by
  cases clusterId with
  | none => trivial
  | some clusterId =>
    unfold enrollCluster
    dsimp only
    split_ifs with hname
    · trivial
    · refine ⟨trivial, fun r => ?_⟩
      cases r with
      | error err => trivial
      | ok c => exact ⟨clusterId, rfl, List.mem_cons_self⟩

theorem warranted_program (unmarshal : List UInt8 → Except String MeshConfig) (e : Event)
    (p : Handler Reply) (h : e.program unmarshal = some p) :
    p.Along (Warranted (some e)) (Granted (some e)) [] := by
  cases e with
  | subscribe hello =>
    obtain rfl := Option.some.inj h
    exact warranted_onConnect hello
  | scan =>
    obtain rfl := Option.some.inj h
    exact warranted_rotationScan
  | request req =>
    obtain rfl := Option.some.inj h
    cases req with
    | postConfig body =>
      change (postConfig unmarshal body).Along _ _ []
      unfold postConfig
      cases newFromBytes unmarshal (body.take configLimit) with
      | error err => trivial
      | ok newEng => exact warranted_installConfig newEng
    | getPolicy => exact ⟨trivial, fun _ => ⟨trivial, fun _ => ⟨trivial, fun _ => trivial⟩⟩⟩
    | rotate serviceId => exact warranted_rotateCert serviceId
    | serviceEvent evt => exact warranted_handleServiceEvent evt
    | enroll clusterId => exact warranted_enrollCluster clusterId
  | _ => cases h

end Handlers

section Streams

variable {unmarshal : List UInt8 → Except String MeshConfig} {S S' : System} {e : Event}
variable {sid i : ℕ} {st st' : AgentStream} {push : Proto.AgentPush}

/-- The stream was open before, with this hello and all that is on its channel. -/
def Kept (opened : List AgentStream) (sid : ℕ) (st' : AgentStream) : Prop :=
  ∃ st, opened[sid]? = some st ∧ st'.hello = st.hello ∧ st'.sends ⊆ st.sends

/-- The same, but for what the event pushes. -/
def KeptUpTo (e : Event) (opened : List AgentStream) (sid : ℕ) (st' : AgentStream) : Prop :=
  ∃ st, opened[sid]? = some st ∧ st'.hello = st.hello ∧
    ∀ push ∈ st'.sends, push ∈ st.sends ∨ ∃ i, e = .perform i (.enqueue sid push) true

theorem Kept.of_same {opened : List AgentStream} (h : opened[sid]? = some st') :
    Kept opened sid st' := ⟨st', h, rfl, List.Subset.refl _⟩

theorem Kept.upTo {opened : List AgentStream} (h : Kept opened sid st') :
    KeptUpTo e opened sid st' := by
  obtain ⟨st, hst, hhello, hsends⟩ := h
  exact ⟨st, hst, hhello, fun push hpush => Or.inl (hsends hpush)⟩

theorem kept_of_modify {opened : List AgentStream} {f : AgentStream → AgentStream}
    (h : (opened.modify i f)[sid]? = some st') (hf : ∀ st, (f st).hello = st.hello)
    (hsends : ∀ st, (f st).sends ⊆ st.sends) : Kept opened sid st' := by
  obtain ⟨st, hst, rfl⟩ := getElem?_modify_eq_some.mp h
  refine ⟨st, hst, ?_⟩
  split_ifs
  · exact ⟨hf st, hsends st⟩
  · exact ⟨rfl, List.Subset.refl _⟩

theorem kept_of_register {d : Distributor} {hello : Proto.AgentHello}
    (h : (d.register hello).opened[sid]? = some st') :
    Kept d.opened sid st' ∨ sid = d.opened.length ∧ st' = .start hello := by
  have hcancel : ∀ st₁, (d.cancelOld hello.nodeId).opened[sid]? = some st₁ →
      Kept d.opened sid st₁ := by
    intro st₁ hst₁
    unfold Distributor.cancelOld at hst₁
    split at hst₁
    · exact kept_of_modify hst₁ (fun _ => rfl) fun _ => List.Subset.refl _
    · exact .of_same hst₁
  have h : ((d.cancelOld hello.nodeId).opened ++ [.start hello])[sid]? = some st' := h
  rw [List.getElem?_append] at h
  split_ifs at h with hlt
  · exact Or.inl (hcancel st' h)
  · obtain ⟨hzero, rfl⟩ := List.getElem?_eq_some_iff.mp h
    rw [Distributor.cancelOld_length] at hlt hzero
    rw [List.length_singleton] at hzero
    exact Or.inr ⟨by omega, by simp⟩

theorem Server.Exec.keptUpTo {s s' : Server} {o : Op} {r : o.Res} (h : s.Exec o r s')
    (hst' : s'.dist.opened[sid]? = some st') :
    KeptUpTo (.perform i o r) s.dist.opened sid st' := by
  cases o with
  | enqueue j push =>
    obtain ⟨old, -, -, rfl⟩ := h
    split_ifs at hst' with hr
    · obtain ⟨st, hst, rfl⟩ := getElem?_modify_eq_some.mp hst'
      obtain rfl : r = true := hr
      refine ⟨st, hst, by split_ifs <;> rfl, fun push' hpush' => ?_⟩
      split_ifs at hpush' with hj
      · subst hj
        rcases List.mem_append.mp hpush' with hold | hnew
        · exact Or.inl hold
        · exact Or.inr ⟨i, by rw [List.mem_singleton.mp hnew]⟩
      · exact Or.inl hpush'
    · exact (Kept.of_same hst').upTo
  | _ =>
    rw [h.dist_eq (by nofun)] at hst'
    exact (Kept.of_same hst').upTo

/-- What a step does to the streams, said once: a stream is new, or it keeps its hello and
holds what it held and what the event pushes on it. -/
theorem Step.opened (h : Step unmarshal S e S') (hst' : S'.server.dist.opened[sid]? = some st') :
    KeptUpTo e S.server.dist.opened sid st' ∨
      ∃ hello, e = .subscribe hello ∧ sid = S.server.dist.opened.length ∧ st' = .start hello := by
  have htail : ∀ st : AgentStream, st.sends.tail ⊆ st.sends := fun st => List.tail_subset _
  cases h with
  | subscribe hello =>
    rcases kept_of_register hst' with hold | ⟨hsid, hst⟩
    · exact Or.inl hold.upTo
    · exact Or.inr ⟨hello, rfl, hsid, hst⟩
  | perform hperf hexec => exact Or.inl (hexec.keptUpTo hst')
  | deliver => exact Or.inl (kept_of_modify hst' (fun _ => rfl) htail).upTo
  | sendFail => exact Or.inl (kept_of_modify hst' (fun _ => rfl) htail).upTo
  | leave => exact Or.inl (kept_of_modify hst' (fun _ => rfl) fun _ => List.Subset.refl _).upTo
  | cleanup => exact Or.inl (kept_of_modify hst' (fun _ => rfl) fun _ => List.Subset.refl _).upTo
  | _ => exact Or.inl (Kept.of_same hst').upTo

theorem Step.hello_eq (h : Step unmarshal S e S') (hst : S.server.dist.opened[sid]? = some st) :
    ∃ st', S'.server.dist.opened[sid]? = some st' ∧ st'.hello = st.hello := by
  have hlt := (List.getElem?_eq_some_iff.mp hst).1
  have hst' := List.getElem?_eq_getElem (hlt.trans_le h.opened_le)
  refine ⟨_, hst', ?_⟩
  rcases h.opened hst' with ⟨st₀, hst₀, hhello, -⟩ | ⟨hello, -, rfl, -⟩
  · rw [hhello, Option.some.inj (hst₀.symm.trans hst)]
  · exact absurd hlt (lt_irrefl _)

/-- What a channel holds was put on it. -/
def AllEnqueued (events : List Event) (S : System) : Prop :=
  ∀ sid st push, S.server.dist.opened[sid]? = some st → push ∈ st.sends →
    ∃ i, .perform i (.enqueue sid push) true ∈ events

/-- The streams that lookups found are those of the nodes looked up. -/
def AllRegistered (events : List Event) (S : System) : Prop :=
  ∀ i node sid, .perform i (.lookup node) (some sid) ∈ events →
    ∃ st, S.server.dist.opened[sid]? = some st ∧ st.hello.nodeId = node

theorem Step.allEnqueued {events : List Event} (h : Step unmarshal S e S')
    (hS : AllEnqueued events S) : AllEnqueued (events ++ [e]) S' := by
  intro sid st' push hst' hpush
  rcases h.opened hst' with ⟨st, hst, -, hsends⟩ | ⟨hello, -, -, rfl⟩
  · rcases hsends push hpush with hold | ⟨i, rfl⟩
    · obtain ⟨i, hi⟩ := hS sid st push hst hold
      exact ⟨i, List.mem_append_left _ hi⟩
    · exact ⟨i, List.mem_append_right _ List.mem_cons_self⟩
  · cases hpush

theorem Step.allRegistered {events : List Event} (h : Step unmarshal S e S')
    (hS : AllRegistered events S) : AllRegistered (events ++ [e]) S' := by
  intro i node sid hmem
  have hfound : ∃ st, S.server.dist.opened[sid]? = some st ∧ st.hello.nodeId = node := by
    rcases List.mem_append.mp hmem with hold | hnew
    · exact hS i node sid hold
    · obtain rfl := List.mem_singleton.mp hnew
      exact S.server.dist.registered node sid h.exec.1.symm
  obtain ⟨st, hst, rfl⟩ := hfound
  obtain ⟨st', hst', hhello⟩ := h.hello_eq hst
  exact ⟨st', hst', by rw [hhello]⟩

end Streams

section Runs

variable {unmarshal : List UInt8 → Except String MeshConfig} {S S' : System}
variable {eng : Engine} {leafTtl : Duration} {rootKey : Proto.KeyId} {now : Time}
variable {events : List Event} {sid : ℕ} {cb : Proto.CertBundle}

theorem allEnqueued_run (h : Run (Step unmarshal) (.boot eng leafTtl rootKey now) events S) :
    AllEnqueued events S := by
  refine h.invariant (I := AllEnqueued) ?_ fun _ _ _ _ _ hS hstep => hstep.allEnqueued hS
  intro sid st push hst
  cases hst

theorem allRegistered_run (h : Run (Step unmarshal) (.boot eng leafTtl rootKey now) events S) :
    AllRegistered events S := by
  refine h.invariant (I := AllRegistered) ?_ fun _ _ _ _ _ hS hstep => hstep.allRegistered hS
  intro i node sid hmem
  cases hmem

theorem enqueued_of_delivered {push : Proto.AgentPush}
    (h : Run (Step unmarshal) (.boot eng leafTtl rootKey now) events S)
    (hmem : .deliver sid push ∈ events) : ∃ i, .perform i (.enqueue sid push) true ∈ events := by
  obtain ⟨pre, m, m', hpre, hrun, hstep⟩ := h.step_of_mem hmem
  cases hstep with
  | deliver hopen hphase hhead =>
    obtain ⟨i, hi⟩ := allEnqueued_run hrun _ _ _ hopen (List.mem_of_head? hhead)
    exact ⟨i, hpre hi⟩

theorem serviceId_of_issued {i : ℕ} {svc cl ns : String} {c : IssuedCert}
    (h : Run (Step unmarshal) (.boot eng leafTtl rootKey now) events S)
    (hmem : .perform i (.issue svc cl ns) (.ok c) ∈ events) :
    c.serviceId = svc ∧ c.certPem.dnsNames = [] := by
  obtain ⟨pre, m, m', -, -, hstep⟩ := h.step_of_mem hmem
  obtain ⟨⟨serial, key, -, rfl⟩, -⟩ := hstep.exec
  exact ⟨rfl, rfl⟩

/-- Every handler acts and answers as its start and its record warrant. -/
theorem warranted_run (h : Run (Step unmarshal) (.boot eng leafTtl rootKey now) events S) :
    Explained Warranted Granted events S := by
  have hboot : (issueServerCert eng.clusterId).Along (Warranted none) (Granted none) [] :=
    ⟨trivial, fun _ => trivial⟩
  exact explained_run hboot (warranted_program unmarshal) h

/-- A handler that pushes a certificate had it issued, for a node its start chose. -/
theorem explained_of_enqueue {i : ℕ} {b : Bool}
    (h : Run (Step unmarshal) (.boot eng leafTtl rootKey now) events S)
    (hmem : .perform i (.enqueue sid (.cert cb)) b ∈ events) :
    ∃ start : Option Event, (starters events)[i]? = some start ∧
      Warranted start (record i events) (.enqueue sid (.cert cb)) := by
  obtain ⟨pre, post, rfl⟩ := List.append_of_mem hmem
  obtain ⟨m, m', hrun, hstep⟩ := h.step_of_split
  cases hstep with
  | perform hperf hexec =>
    obtain ⟨k, hk, -⟩ := hperf
    obtain ⟨start, hstart, halong⟩ := (warranted_run hrun).along i _ hk
    obtain ⟨node, svc, c, hlookup, hissue, hcb, hchooses⟩ := halong.1
    obtain ⟨hlt, -⟩ := List.getElem?_eq_some_iff.mp hstart
    refine ⟨start, ?_, node, svc, c, ?_, ?_, hcb, ?_⟩
    · rw [starters_append, List.getElem?_append_left hlt, hstart]
    · exact record_append pre _ ▸ List.mem_append_left _ hlookup
    · exact hissue.mono (record_append pre _ ▸ List.subset_append_left _ _)
    · exact hchooses.mono (record_append pre _ ▸ List.subset_append_left _ _)

end Runs

/-- The service is named in a hello of the node. -/
def Named (events : List Event) (node svc : String) : Prop :=
  ∃ hello, .subscribe hello ∈ events ∧ hello.nodeId = node ∧ svc ∈ hello.podServiceIds

/-- The registry reported a Running pod of the service on the node. -/
def Reported (events : List Event) (node svc : String) : Prop :=
  ∃ evt, .request (.serviceEvent evt) ∈ events ∧ evt.deleted = false ∧ evt.nodeName = node ∧
    evt.serviceId = svc

/-- A rotation of the service, started by a scan or by a rotate request for it, found it listed
and the node connected, and had this certificate issued for it. -/
def RotatedFor (events : List Event) (node : String) (cb : Proto.CertBundle) : Prop :=
  ∃ i e c, (starters events)[i]? = some (some e) ∧
    (e = .scan ∨ e = .request (.rotate cb.serviceId)) ∧
    Rotated (record i events) node cb.serviceId ∧
    IssuedIn (record i events) cb.serviceId c ∧ cb = c.bundle

/-- In every run an agent is sent a certificate of a service only if its node named the
service, or a pod of the service was reported on the node, or the certificate comes from a
rotation of the service that found the agent connected. -/
theorem cert_recipients (unmarshal : List UInt8 → Except String MeshConfig) (eng : Engine)
    (leafTtl : Duration) (rootKey : Proto.KeyId) (now : Time) (events : List Event) (S : System)
    (h : Run (Step unmarshal) (.boot eng leafTtl rootKey now) events S) (sid : ℕ)
    (cb : Proto.CertBundle) (hdel : .deliver sid (.cert cb) ∈ events) (st : AgentStream)
    (hst : S.server.dist.opened[sid]? = some st) :
    Named events st.hello.nodeId cb.serviceId ∨ Reported events st.hello.nodeId cb.serviceId ∨
      RotatedFor events st.hello.nodeId cb := by
  obtain ⟨i, hi⟩ := enqueued_of_delivered h hdel
  obtain ⟨start, hstart, node, svc, c, hlookup, hissued, rfl, hchooses⟩ :=
    explained_of_enqueue h hi
  obtain ⟨st', hst', rfl⟩ := allRegistered_run h i node sid (mem_record.mp hlookup)
  obtain rfl := Option.some.inj (hst'.symm.trans hst)
  obtain rfl : c.serviceId = svc := by
    obtain ⟨cl, ns, hissue⟩ := hissued
    exact (serviceId_of_issued h (mem_record.mp hissue)).1
  unfold Chooses at hchooses
  split at hchooses
  case h_1 hello => exact Or.inl ⟨hello, mem_of_starters hstart, hchooses⟩
  case h_2 evt => exact Or.inr (Or.inl ⟨evt, mem_of_starters hstart, hchooses⟩)
  case h_3 svc' =>
    obtain ⟨rfl, hrotated⟩ := hchooses
    exact Or.inr (Or.inr ⟨i, _, c, hstart, Or.inr rfl, hrotated, hissued, rfl⟩)
  case h_4 => exact Or.inr (Or.inr ⟨i, _, c, hstart, Or.inl rfl, hchooses, hissued, rfl⟩)
  case h_5 => exact hchooses.elim

def nodeOneHello : Proto.AgentHello where
  nodeId := "node-1"
  clusterId := "cluster-1"
  podServiceIds := ["alpha"]

def nodeTwoHello : Proto.AgentHello where
  nodeId := "node-2"
  clusterId := "cluster-1"
  podServiceIds := ["beta"]

/-- `alpha` runs on `node-1` and its agent gets its certificate. -/
def alphaServed : List Move :=
  [Move.perform 0, Move.subscribe nodeOneHello] ++ List.replicate 8 (Move.perform 1) ++
    [Move.deliver 0, Move.deliver 0]

/-- Then the agent of `node-2` connects, and `alpha` is rotated. -/
def alphaRotated : List Move :=
  alphaServed ++ [Move.subscribe nodeTwoHello, Move.request (.rotate "alpha")] ++
    List.replicate 7 (Move.perform 3) ++ [Move.deliver 1]

/-- The event delivers a certificate of the service on the stream. -/
def Event.deliversCert (sid : ℕ) (svc : String) : Event → Bool
  | .deliver sid' (.cert cb) => sid' = sid ∧ cb.serviceId = svc
  | _ => false

theorem Event.deliversCert_iff {sid : ℕ} {svc : String} {e : Event} :
    e.deliversCert sid svc = true ↔ ∃ cb, e = .deliver sid (.cert cb) ∧ cb.serviceId = svc := by
  constructor
  · intro h
    unfold Event.deliversCert at h
    split at h
    · obtain ⟨rfl, hsvc⟩ := of_decide_eq_true h
      exact ⟨_, rfl, hsvc⟩
    · cases h
  · rintro ⟨cb, rfl, hsvc⟩
    exact decide_eq_true ⟨rfl, hsvc⟩

/-- The event is no pod event, and no hello but the two. -/
def Event.onlyHellos : Event → Bool
  | .subscribe hello => hello = nodeOneHello ∨ hello = nodeTwoHello
  | .request (.serviceEvent _) => false
  | _ => true

theorem alphaServed_named : ∃ events S, Run (Step refuseConfig) demoBoot events S ∧
    ∃ cb, .deliver 0 (.cert cb) ∈ events ∧ cb.serviceId = "alpha" ∧
      (Named events "node-1" "alpha" ∨ Reported events "node-1" "alpha" ∨
        RotatedFor events "node-1" cb) := by
  obtain ⟨events, S, hrun, ⟨e, he, hdel⟩, hnode⟩ :
      ∃ events S, Run (Step refuseConfig) demoBoot events S ∧
        (∃ e ∈ events, e.deliversCert 0 "alpha" = true) ∧
        S.server.dist.opened[0]?.map (·.hello.nodeId) = some "node-1" :=
    exists_run (by decide +kernel : (demoBoot.follow refuseConfig _ alphaServed).any _ = true)
  obtain ⟨cb, rfl, hsvc⟩ := Event.deliversCert_iff.mp hdel
  obtain ⟨st, hst, hid⟩ := Option.map_eq_some_iff.mp hnode
  have hwhy := cert_recipients refuseConfig _ _ _ _ events S hrun 0 cb he st hst
  rw [hsvc, hid] at hwhy
  exact ⟨events, S, hrun, cb, he, hsvc, hwhy⟩

/-- The agent of `node-2` is sent the private key of `alpha`, which runs on `node-1` only. -/
theorem alphaRotated_leaks :
    ¬ ∀ (onNode : String → String → Prop) (events : List Event) (S : System),
      Run (Step refuseConfig) demoBoot events S →
      (∀ hello, .subscribe hello ∈ events → ∀ svc ∈ hello.podServiceIds, onNode svc hello.nodeId) →
      ∀ sid cb st, .deliver sid (.cert cb) ∈ events → S.server.dist.opened[sid]? = some st →
        Named events st.hello.nodeId cb.serviceId ∨ Reported events st.hello.nodeId cb.serviceId := by
  intro h
  obtain ⟨events, S, hrun, ⟨e, he, hdel⟩, hnode, honly⟩ :
      ∃ events S, Run (Step refuseConfig) demoBoot events S ∧
        (∃ e ∈ events, e.deliversCert 1 "alpha" = true) ∧
        S.server.dist.opened[1]?.map (·.hello.nodeId) = some "node-2" ∧
        ∀ e ∈ events, e.onlyHellos = true :=
    exists_run (by decide +kernel : (demoBoot.follow refuseConfig _ alphaRotated).any _ = true)
  obtain ⟨cb, rfl, hsvc⟩ := Event.deliversCert_iff.mp hdel
  obtain ⟨st, hst, hid⟩ := Option.map_eq_some_iff.mp hnode
  have hhello : ∀ hello, .subscribe hello ∈ events → hello = nodeOneHello ∨ hello = nodeTwoHello :=
    fun hello hmem => of_decide_eq_true (honly _ hmem)
  have hwhy := h (fun svc node => ∃ hello ∈ [nodeOneHello, nodeTwoHello],
    hello.nodeId = node ∧ svc ∈ hello.podServiceIds) events S hrun ?_ 1 cb st he hst
  · rw [hsvc, hid] at hwhy
    rcases hwhy with ⟨hello, hmem, hnode, hnamed⟩ | ⟨evt, hmem, -⟩
    · rcases hhello hello hmem with rfl | rfl
      · exact absurd hnode (by decide)
      · exact absurd hnamed (by decide)
    · exact absurd (honly _ hmem) Bool.false_ne_true
  · intro hello hmem svc hsvc
    exact ⟨hello, by simpa using hhello hello hmem, rfl, hsvc⟩

end Meshlite.Sigil
