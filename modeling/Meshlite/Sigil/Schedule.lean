import Meshlite.Sigil.System

/-!
# Running Sigil on a schedule

One answer for every operation: maps are iterated in the order they are stored, calls of
the authority succeed with the next unused serial number. A schedule says who moves
next; what it does is a run of the system.
-/

namespace Meshlite.Sigil

open Policy Tasks Runs

namespace CertTable

def nextSerial (t : CertTable) : ℕ := (t.rows.map CertRow.serial).foldr max 0 + 1

theorem serial_ne_nextSerial {t : CertTable} {row : CertRow} (h : row ∈ t.rows) :
    row.serial ≠ t.nextSerial := by
  have hle : ∀ ns : List ℕ, ∀ n ∈ ns, n ≤ ns.foldr max 0 := by
    intro ns
    induction ns with
    | nil => simp
    | cons a ns ih =>
      intro n hn
      rcases List.mem_cons.mp hn with rfl | hmem
      · exact le_max_left _ _
      · exact (ih n hmem).trans (le_max_right _ _)
  have hserial := hle _ row.serial (List.mem_map.mpr ⟨row, h, rfl⟩)
  unfold nextSerial
  omega

end CertTable

namespace Server

/-- A certificate with the next serial number, and the table that holds it. -/
def runIssue (s : Server) (serviceId clusterId nspace : String) (dnsNames : List String) :
    IssuedCert × Server :=
  let c := s.newCert serviceId clusterId nspace dnsNames s.certs.nextSerial s.certs.nextSerial
  (c, { s with certs := s.certs.insertOrReplace c.row })

theorem runIssue_issues (s : Server) (svc cl ns : String) (dns : List String) :
    s.Issues svc cl ns dns (s.runIssue svc cl ns dns).1 (s.runIssue svc cl ns dns).2 :=
  ⟨⟨_, _, fun _ h => CertTable.serial_ne_nextSerial h, rfl⟩, rfl⟩

/-- One possible effect of an operation. -/
def run (s : Server) : (o : Op) → Option (o.Res × Server)
  | .rules => some (s.eng.rules (.listed s.eng), s)
  | .defaultAllow => some (s.eng.defaultAllow, s)
  | .mtlsMode => some (s.eng.mtlsMode, s)
  | .setEngine eng => some ((), { s with eng })
  | .now => some (s.now, s)
  | .issue svc cl ns => some (.ok (s.runIssue svc cl ns []).1, (s.runIssue svc cl ns []).2)
  | .issueWithDns svc cl ns dns =>
    some (.ok (s.runIssue svc cl ns dns).1, (s.runIssue svc cl ns dns).2)
  | .revoke svc => some (.ok (), { s with certs := s.certs.delete svc })
  | .listCerts => some (.ok s.certs.list, s)
  | .connectedAgents => some (s.dist.streams.keys, s)
  | .lookup node => some (s.dist.streams.lookup node, s)
  | .enqueue sid push =>
    s.dist.opened[sid]?.map fun st =>
      if st.sends.length < sendCapacity then
        (true, { s with dist := s.dist.enqueue sid push })
      else (false, s)

theorem exec_of_run {s s' : Server} {o : Op} {r : o.Res} (h : s.run o = some (r, s')) :
    s.Exec o r s' := by
  cases o with
  | enqueue sid push =>
    obtain ⟨st, hopen, hst⟩ := Option.map_eq_some_iff.mp h
    by_cases hroom : st.sends.length < sendCapacity
    · rw [if_pos hroom] at hst
      obtain ⟨rfl, rfl⟩ := Prod.mk.inj hst
      exact ⟨st, hopen, (decide_eq_true hroom).symm, rfl⟩
    · rw [if_neg hroom] at hst
      obtain ⟨rfl, rfl⟩ := Prod.mk.inj hst
      exact ⟨st, hopen, (decide_eq_false hroom).symm, rfl⟩
  | _ =>
    obtain ⟨rfl, rfl⟩ := Prod.mk.inj (Option.some.inj h)
    first
    | exact runIssue_issues _ _ _ _ _
    | exact ⟨⟨_, rfl⟩, rfl⟩
    | exact ⟨rfl, rfl⟩
    | exact ⟨List.Perm.refl _, rfl⟩
    | rfl

end Server

/-- Who moves next. -/
inductive Move where
  | subscribe (hello : Proto.AgentHello)
  | request (req : Request)
  | scan
  | perform (task : ℕ)
  | deliver (stream : ℕ)
  | leave (stream : ℕ)
  | cleanup (stream : ℕ)
  | tick (d : Duration)

variable (unmarshal : List UInt8 → Except String MeshConfig)

/-- The event of a move and the state it leads to. -/
def System.move (S : System) : Move → Option (Event × System)
  | .subscribe hello =>
    if hello.nodeId = "" then none
    else some (.subscribe hello,
      { server := { S.server with dist := S.server.dist.register hello }
        tasks := S.tasks ++ [onConnect hello] })
  | .request req =>
    some (.request req, { S with tasks := S.tasks ++ [handler unmarshal req] })
  | .scan =>
    some (.scan,
      { server := { S.server with lastScan := S.server.now }
        tasks := S.tasks ++ [rotationScan] })
  | .perform i =>
    match S.tasks[i]? with
    | some (.op o k) =>
      match S.server.run o with
      | some (r, server) => some (.perform i o r, { server, tasks := S.tasks.set i (k r) })
      | none => none
    | _ => none
  | .deliver sid =>
    match S.server.dist.opened[sid]? with
    | some st =>
      if st.phase = .serving then
        match st.sends.head? with
        | some push => some (.deliver sid push,
            { S with server := { S.server with dist := S.server.dist.deliver sid push } })
        | none => none
      else none
    | none => none
  | .leave sid =>
    match S.server.dist.opened[sid]? with
    | some st =>
      if st.phase = .serving then
        some (.leave sid, { S with server := { S.server with dist := S.server.dist.leave sid } })
      else none
    | none => none
  | .cleanup sid =>
    match S.server.dist.opened[sid]? with
    | some st =>
      if st.phase = .returning then
        some (.cleanup sid, { S with
          server := { S.server with dist := S.server.dist.cleanup sid st.hello.nodeId } })
      else none
    | none => none
  | .tick d => some (.tick d, { S with server := { S.server with now := S.server.now + d } })

/-- The events of a schedule and the state it leads to, if each event passes the check. -/
def System.follow (check : System → Event → Bool) (S : System) (moves : List Move) :
    Option (List Event × System) :=
  Runs.follow (fun S m => (S.move unmarshal m).filter fun p => check S p.1) S moves

variable {unmarshal}

theorem step_of_move {S S' : System} {m : Move} {e : Event}
    (h : S.move unmarshal m = some (e, S')) : Step unmarshal S e S' := by
  cases m with
  | subscribe hello =>
    simp only [System.move] at h
    split_ifs at h with hnode
    obtain ⟨rfl, rfl⟩ := Prod.mk.inj (Option.some.inj h)
    exact .subscribe hello hnode
  | request req =>
    obtain ⟨rfl, rfl⟩ := Prod.mk.inj (Option.some.inj h)
    exact .request req
  | scan =>
    obtain ⟨rfl, rfl⟩ := Prod.mk.inj (Option.some.inj h)
    exact .scan
  | perform i =>
    simp only [System.move] at h
    split at h
    case h_1 o k htask =>
      split at h
      case h_1 r server hrun =>
        obtain ⟨rfl, rfl⟩ := Prod.mk.inj (Option.some.inj h)
        exact .perform ⟨k, htask, rfl⟩ (Server.exec_of_run hrun)
      case h_2 => nomatch h
    case h_2 => nomatch h
  | deliver sid =>
    simp only [System.move] at h
    split at h
    case h_1 st hopen =>
      split_ifs at h with hphase
      split at h
      case h_1 push hhead =>
        obtain ⟨rfl, rfl⟩ := Prod.mk.inj (Option.some.inj h)
        exact .deliver hopen hphase hhead
      case h_2 => nomatch h
    case h_2 => nomatch h
  | leave sid | cleanup sid =>
    simp only [System.move] at h
    split at h
    case h_1 st hopen =>
      split_ifs at h with hphase
      obtain ⟨rfl, rfl⟩ := Prod.mk.inj (Option.some.inj h)
      first
      | exact .leave hopen hphase
      | exact .cleanup hopen hphase
    case h_2 => nomatch h
  | tick d =>
    obtain ⟨rfl, rfl⟩ := Prod.mk.inj (Option.some.inj h)
    exact .tick d

theorem exists_checked_run {check : System → Event → Bool} {S : System} {moves : List Move}
    {P : List Event → System → Prop} [∀ events S, Decidable (P events S)]
    (h : ((S.follow unmarshal check moves).any fun p => decide (P p.1 p.2)) = true) :
    ∃ events S', Run (fun S e S' => Step unmarshal S e S' ∧ check S e = true) S events S' ∧
      P events S' := by
  refine exists_run_of_follow ?_ h
  intro S m e S' hmove
  obtain ⟨hmove, hcheck⟩ := Option.filter_eq_some_iff.mp hmove
  exact ⟨step_of_move hmove, hcheck⟩

theorem exists_run {S : System} {moves : List Move} {P : List Event → System → Prop}
    [∀ events S, Decidable (P events S)]
    (h : ((S.follow unmarshal (fun _ _ => true) moves).any fun p => decide (P p.1 p.2)) = true) :
    ∃ events S', Run (Step unmarshal) S events S' ∧ P events S' := by
  obtain ⟨events, S', hrun, hP⟩ := exists_checked_run h
  exact ⟨events, S', hrun.mono fun _ _ _ hstep => hstep.1, hP⟩

end Meshlite.Sigil
