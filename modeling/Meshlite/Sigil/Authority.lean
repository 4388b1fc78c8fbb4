import Meshlite.Sigil.Rotation
import Meshlite.Sigil.Delivery

/-!
# The identities of the certificate authority

A certificate names a service, its cluster and its namespace. The table has one row for
each service, so it lists the live identities, each with its last certificate, exactly
as long as no two of them are of one service.
-/

namespace Meshlite.Sigil

open Tasks Tasks.Prog Runs

/-- What the SPIFFE URI of a certificate names. -/
structure Identity where
  serviceId : String
  clusterId : String
  nspace : String
  deriving DecidableEq, Repr

/-- A call of `Issue`, `IssueWithDNS` or `Revoke` with its answer, or time passing. -/
inductive AuthorityEvent where
  | call (o : Op) (r : o.Res)
  | tick (d : Duration)

inductive AuthorityStep : Server → AuthorityEvent → Server → Prop
  | call {s s' : Server} {o : Op} {r : o.Res} :
      o.WritesCerts → s.Exec o r s' → AuthorityStep s (.call o r) s'
  | tick {s : Server} (d : Duration) : AuthorityStep s (.tick d) { s with now := s.now + d }

namespace AuthorityEvent

def issued : AuthorityEvent → Option (Identity × IssuedCert)
  | .call (.issue svc cl ns) (.ok c) => some (⟨svc, cl, ns⟩, c)
  | .call (.issueWithDns svc cl ns _) (.ok c) => some (⟨svc, cl, ns⟩, c)
  | _ => none

/-- The DNS names a call asks for; `Issue` asks for none. -/
def dnsNames : AuthorityEvent → List String
  | .call (.issueWithDns _ _ _ dns) _ => dns
  | _ => []

def revoked : AuthorityEvent → Option String
  | .call (.revoke svc) (.ok _) => some svc
  | _ => none

/-- What the event leaves of an identity: its new certificate, or nothing. -/
def leavesId (id : Identity) (e : AuthorityEvent) : Option (Option IssuedCert) :=
  match e.issued with
  | some (id', c) => if id' = id then some (some c) else none
  | none => if e.revoked = some id.serviceId then some none else none

/-- What the event leaves of a service. -/
def leavesService (svc : String) (e : AuthorityEvent) : Option (Option (Identity × IssuedCert)) :=
  match e.issued with
  | some (id, c) => if id.serviceId = svc then some (some (id, c)) else none
  | none => if e.revoked = some svc then some none else none

end AuthorityEvent

/-- The last certificate issued for an identity whose service was not revoked since. -/
def live (id : Identity) (events : List AuthorityEvent) : Option IssuedCert :=
  latest (AuthorityEvent.leavesId id) events

/-- The last certificate issued for a service that was not revoked since. -/
def lastOfService (svc : String) (events : List AuthorityEvent) :
    Option (Identity × IssuedCert) :=
  latest (AuthorityEvent.leavesService svc) events

/-- `ListCerts` shows the certificate, and the rotation loop over its answer issues the
identity again once the time has come. -/
structure Retained (s : Server) (id : Identity) (c : IssuedCert) : Prop where
  listed : c.row ∈ s.certs.list
  rotated : (each rotateIfDue s.certs.list).Will
    (Server.Answers fun s' => c.rotateAt.unix * second ≤ s'.now)
    (· = .issue id.serviceId id.clusterId id.nspace)

theorem will_rotateIfDue (row : CertRow) :
    (rotateIfDue row).Will (Server.Answers fun s => row.rotateAt * second ≤ s.now)
      (· = .issue row.serviceId row.clusterId row.nspace) := by
  rw [rotateIfDue_eq, will_op]
  refine Or.inr fun now hnow => ?_
  obtain ⟨s, s', hdue, hexec⟩ := hnow
  have hnot : ¬ now < row.rotateAt * second := by
    rw [hexec.1]
    exact Nat.not_lt.mpr hdue
  rw [if_neg hnot, will_op]
  exact Or.inl rfl

theorem Retained.of_listed {s : Server} {id : Identity} {c : IssuedCert} (h : c.row ∈ s.certs.list)
    (hid : (⟨c.serviceId, c.clusterId, c.nspace⟩ : Identity) = id) : Retained s id c where
  listed := h
  rotated := by
    subst hid
    exact will_each h (will_rotateIfDue c.row)

section Steps

variable {s s' : Server} {e : AuthorityEvent} {events : List AuthorityEvent}
variable {id id' : Identity} {c c' : IssuedCert} {svc : String}

/-- What an event is to the table: an issue, a revocation, or nothing. -/
theorem AuthorityStep.effect (h : AuthorityStep s e s') :
    (∃ id c, e.issued = some (id, c) ∧
        s.Issues id.serviceId id.clusterId id.nspace e.dnsNames c s') ∨
      (∃ svc, e.issued = none ∧ e.revoked = some svc ∧ s'.certs = s.certs.delete svc) ∨
      e.issued = none ∧ e.revoked = none ∧ s'.certs = s.certs := by
  cases h with
  | tick d => exact Or.inr (Or.inr ⟨rfl, rfl, rfl⟩)
  | @call _ o r hw hexec =>
    cases o with
    | issue svc cl ns =>
      cases r with
      | error err => exact Or.inr (Or.inr ⟨rfl, rfl, congrArg Server.certs hexec⟩)
      | ok c => exact Or.inl ⟨⟨svc, cl, ns⟩, c, rfl, hexec⟩
    | issueWithDns svc cl ns dns =>
      cases r with
      | error err => exact Or.inr (Or.inr ⟨rfl, rfl, congrArg Server.certs hexec⟩)
      | ok c => exact Or.inl ⟨⟨svc, cl, ns⟩, c, rfl, hexec⟩
    | revoke svc =>
      cases r with
      | error err => exact Or.inr (Or.inr ⟨rfl, rfl, congrArg Server.certs hexec⟩)
      | ok u => exact Or.inr (Or.inl ⟨svc, rfl, rfl, congrArg Server.certs hexec⟩)
    | _ => exact hw.elim

theorem live_snoc_issued (h : e.issued = some (id', c)) :
    live id (events ++ [e]) = if id' = id then some c else live id events := by
  rw [live, latest_snoc, AuthorityEvent.leavesId, h]
  dsimp only
  split_ifs
  · rfl
  · rfl

theorem live_snoc_of_not_issued (h : e.issued = none) :
    live id (events ++ [e]) = if e.revoked = some id.serviceId then none else live id events := by
  rw [live, latest_snoc, AuthorityEvent.leavesId, h]
  dsimp only
  split_ifs
  · rfl
  · rfl

theorem lastOfService_snoc_issued (h : e.issued = some (id, c)) :
    lastOfService svc (events ++ [e]) =
      if id.serviceId = svc then some (id, c) else lastOfService svc events := by
  rw [lastOfService, latest_snoc, AuthorityEvent.leavesService, h]
  dsimp only
  split_ifs
  · rfl
  · rfl

theorem lastOfService_snoc_of_not_issued (h : e.issued = none) :
    lastOfService svc (events ++ [e]) =
      if e.revoked = some svc then none else lastOfService svc events := by
  rw [lastOfService, latest_snoc, AuthorityEvent.leavesService, h]
  dsimp only
  split_ifs
  · rfl
  · rfl

theorem live_of_lastOfService (h : lastOfService svc events = some (id, c)) :
    id.serviceId = svc ∧ live id events = some c := by
  induction events using List.reverseRecOn with
  | nil => cases h
  | append_singleton events e ih =>
    cases he : e.issued with
    | some p =>
      obtain ⟨id', c'⟩ := p
      rw [lastOfService_snoc_issued he] at h
      rw [live_snoc_issued he]
      by_cases hsvc : id'.serviceId = svc
      · rw [if_pos hsvc] at h
        obtain ⟨rfl, rfl⟩ := Prod.mk.inj (Option.some.inj h)
        exact ⟨hsvc, if_pos rfl⟩
      · rw [if_neg hsvc] at h
        obtain ⟨hid, hlive⟩ := ih h
        have hne : id' ≠ id := by
          rintro rfl
          exact hsvc hid
        exact ⟨hid, by rw [if_neg hne, hlive]⟩
    | none =>
      rw [lastOfService_snoc_of_not_issued he] at h
      rw [live_snoc_of_not_issued he]
      by_cases hrev : e.revoked = some svc
      · rw [if_pos hrev] at h
        cases h
      · rw [if_neg hrev] at h
        obtain ⟨hid, hlive⟩ := ih h
        rw [hid, if_neg hrev]
        exact ⟨rfl, hlive⟩

theorem lastOfService_of_live (h : live id events = some c) :
    ∃ id' c', lastOfService id.serviceId events = some (id', c') := by
  induction events using List.reverseRecOn with
  | nil => cases h
  | append_singleton events e ih =>
    cases he : e.issued with
    | some p =>
      obtain ⟨id', c'⟩ := p
      rw [live_snoc_issued he] at h
      rw [lastOfService_snoc_issued he]
      by_cases hsvc : id'.serviceId = id.serviceId
      · exact ⟨id', c', if_pos hsvc⟩
      · rw [if_neg fun hid => hsvc (congrArg Identity.serviceId hid)] at h
        rw [if_neg hsvc]
        exact ih h
    | none =>
      rw [live_snoc_of_not_issued he] at h
      rw [lastOfService_snoc_of_not_issued he]
      by_cases hrev : e.revoked = some id.serviceId
      · rw [if_pos hrev] at h
        cases h
      · rw [if_neg hrev] at h
        rw [if_neg hrev]
        exact ih h

/-- The table has the last certificate of each service, and each certificate names the
identity it was issued for. -/
structure Tabulated (events : List AuthorityEvent) (s : Server) : Prop where
  rows : ∀ row, row ∈ s.certs.rows ↔
    ∃ id c, lastOfService row.serviceId events = some (id, c) ∧ c.row = row
  names : ∀ id c, live id events = some c → (⟨c.serviceId, c.clusterId, c.nspace⟩ : Identity) = id

theorem tabulated_issue {dns : List String} (h : Tabulated events s) (he : e.issued = some (id, c))
    (hissue : s.Issues id.serviceId id.clusterId id.nspace dns c s') :
    Tabulated (events ++ [e]) s' := by
  have hname : (⟨c.serviceId, c.clusterId, c.nspace⟩ : Identity) = id := by
    obtain ⟨⟨serial, key, -, rfl⟩, -⟩ := hissue
    rfl
  refine ⟨fun row => ?_, fun id' c' hlive => ?_⟩
  · rw [hissue.mem_rows, lastOfService_snoc_issued he]
    by_cases hsvc : id.serviceId = row.serviceId
    · rw [if_pos hsvc]
      constructor
      · rintro (rfl | ⟨-, hne⟩)
        · exact ⟨id, c, rfl, rfl⟩
        · exact absurd hsvc.symm hne
      · rintro ⟨id', c', heq, rfl⟩
        obtain ⟨rfl, rfl⟩ := Prod.mk.inj (Option.some.inj heq)
        exact Or.inl rfl
    · rw [if_neg hsvc, ← h.rows]
      constructor
      · rintro (rfl | ⟨hold, -⟩)
        · exact absurd hissue.row_eq.1.symm hsvc
        · exact hold
      · exact fun hold => Or.inr ⟨hold, Ne.symm hsvc⟩
  · rw [live_snoc_issued he] at hlive
    split_ifs at hlive with hid
    · obtain rfl := Option.some.inj hlive
      rw [hname, hid]
    · exact h.names id' c' hlive

theorem tabulated_keep (h : Tabulated events s) (he : e.issued = none)
    (hcerts : ∀ row, row ∈ s'.certs.rows ↔
      row ∈ s.certs.rows ∧ e.revoked ≠ some row.serviceId) :
    Tabulated (events ++ [e]) s' := by
  refine ⟨fun row => ?_, fun id' c' hlive => ?_⟩
  · rw [hcerts, lastOfService_snoc_of_not_issued he, h.rows]
    by_cases hrev : e.revoked = some row.serviceId
    · rw [if_pos hrev]
      simp [hrev]
    · rw [if_neg hrev]
      exact and_iff_left hrev
  · rw [live_snoc_of_not_issued he] at hlive
    split_ifs at hlive
    exact h.names id' c' hlive

theorem AuthorityStep.tabulated (h : AuthorityStep s e s') (hs : Tabulated events s) :
    Tabulated (events ++ [e]) s' := by
  rcases h.effect with ⟨id, c, he, hissue⟩ | ⟨svc, he, hrev, hcerts⟩ | ⟨he, hrev, hcerts⟩
  · exact tabulated_issue hs he hissue
  · apply tabulated_keep hs he
    intro row
    rw [hcerts, CertTable.mem_delete, hrev, Ne, Ne, Option.some.injEq, eq_comm]
  · apply tabulated_keep hs he
    intro row
    rw [hcerts, hrev]
    exact (and_iff_left (Option.some_ne_none _).symm).symm

theorem tabulated_run (hempty : s.certs = .empty) (h : Run AuthorityStep s events s') :
    Tabulated events s' := by
  refine h.invariant (I := Tabulated) ⟨fun row => ?_, fun id c hlive => ?_⟩ ?_
  · rw [hempty]
    refine iff_of_false List.not_mem_nil ?_
    rintro ⟨id, c, hlast, -⟩
    cases hlast
  · cases hlive
  · exact fun events s e s' _ hs hstep => hstep.tabulated hs

end Steps

/-- After every sequence of calls on a new authority, each live identity is listed with its
last certificate and will be rotated exactly if no two live identities are of one
service. -/
theorem authority_retains_live_iff (s : Server) (hempty : s.certs = .empty)
    (events : List AuthorityEvent) (s' : Server) (h : Run AuthorityStep s events s') :
    (∀ id c, live id events = some c → Retained s' id c) ↔
      ∀ id id' : Identity, (live id events).isSome → (live id' events).isSome →
        id.serviceId = id'.serviceId → id = id' := by
  have htab := tabulated_run hempty h
  constructor
  · intro hret id id' hid hid' hsvc
    obtain ⟨c, hc⟩ := Option.isSome_iff_exists.mp hid
    obtain ⟨c', hc'⟩ := Option.isSome_iff_exists.mp hid'
    have hname := htab.names id c hc
    have hname' := htab.names id' c' hc'
    have hrow : c.row = c'.row := by
      apply List.inj_on_of_nodup_map s'.certs.services_nodup
      · exact CertTable.mem_list.mp (hret id c hc).listed
      · exact CertTable.mem_list.mp (hret id' c' hc').listed
      · rw [← hname, ← hname'] at hsvc
        exact hsvc
    rw [← hname, ← hname', Identity.mk.injEq]
    exact ⟨congrArg CertRow.serviceId hrow, congrArg CertRow.clusterId hrow,
      congrArg CertRow.nspace hrow⟩
  · intro huniq id c hc
    obtain ⟨id', c', hlast⟩ := lastOfService_of_live hc
    obtain ⟨hsvc, hc'⟩ := live_of_lastOfService hlast
    obtain rfl : id' = id := huniq id' id (by rw [hc']; rfl) (by rw [hc]; rfl) hsvc
    obtain rfl : c' = c := Option.some.inj (hc'.symm.trans hc)
    have hname := htab.names id' c' hc
    apply Retained.of_listed _ hname
    rw [CertTable.mem_list, htab.rows]
    refine ⟨id', c', ?_, rfl⟩
    rw [← hlast, ← hname]
    rfl

/-- `alpha` runs in the namespace `prod`, and an agent names it in its hello. -/
def inProd : Identity := ⟨"alpha", "cluster-1", "prod"⟩

def inDefault : Identity := ⟨"alpha", "cluster-1", "default"⟩

def issueFor (s : Server) (id : Identity) : IssuedCert × Server :=
  s.runIssue id.serviceId id.clusterId id.nspace []

def issueEvent (id : Identity) (c : IssuedCert) : AuthorityEvent :=
  .call (.issue id.serviceId id.clusterId id.nspace) (.ok c)

theorem issueFor_step (s : Server) (id : Identity) :
    AuthorityStep s (issueEvent id (issueFor s id).1) (issueFor s id).2 :=
  .call trivial (s.runIssue_issues _ _ _ _)

def backEnd : Identity := ⟨"beta", "cluster-1", "default"⟩

def webTier : Identity := ⟨"web", "cluster-1", "default"⟩

theorem revoke_step (s : Server) (svc : String) :
    AuthorityStep s (.call (.revoke svc) (.ok ())) { s with certs := s.certs.delete svc } :=
  .call trivial rfl

/-- Three services are issued, `alpha` twice, and `web` is revoked. -/
theorem exists_reissued : ∃ events s, ∃ alpha beta : IssuedCert,
    Run AuthorityStep demoBoot.server events s ∧
    ∀ id, live id events =
      if "web" = id.serviceId then none
      else if inProd = id then some alpha
      else if backEnd = id then some beta
      else none := by
  let s₁ := (issueFor demoBoot.server inProd).2
  let s₂ := (issueFor s₁ backEnd).2
  let s₃ := (issueFor s₂ webTier).2
  have hrun := Run.start.next (issueFor_step demoBoot.server inProd)
    |>.next (issueFor_step s₁ backEnd) |>.next (issueFor_step s₂ webTier)
    |>.next (issueFor_step s₃ inProd) |>.next (revoke_step _ "web")
  refine ⟨_, _, (issueFor s₃ inProd).1, (issueFor s₁ backEnd).1, hrun, fun id => ?_⟩
  rw [live_snoc_of_not_issued rfl, live_snoc_issued rfl, live_snoc_issued rfl,
    live_snoc_issued rfl, live_snoc_issued rfl]
  simp only [AuthorityEvent.revoked, Option.some.injEq]
  by_cases hweb : "web" = id.serviceId
  · rw [if_pos hweb, if_pos hweb]
  · have hne : webTier ≠ id := fun h => hweb (congrArg Identity.serviceId h)
    rw [if_neg hweb, if_neg hweb, if_neg hne]
    by_cases hprod : inProd = id
    · rw [if_pos hprod, if_pos hprod]
    · rw [if_neg hprod, if_neg hprod, if_neg hprod]
      rfl

theorem reissued_retained : ∃ events s, Run AuthorityStep demoBoot.server events s ∧
    live webTier events = none ∧
    (∃ c, live inProd events = some c ∧ Retained s inProd c) ∧
    ∃ c, live backEnd events = some c ∧ Retained s backEnd c := by
  obtain ⟨events, s, alpha, beta, hrun, hlive⟩ := exists_reissued
  have honly : ∀ id, (live id events).isSome → id = inProd ∨ id = backEnd := by
    intro id hid
    rw [hlive] at hid
    by_contra hne
    rw [not_or] at hne
    rw [if_neg (Ne.symm hne.1), if_neg (Ne.symm hne.2), ite_self] at hid
    cases hid
  have hretained := (authority_retains_live_iff _ rfl _ _ hrun).mpr (by
    intro id id' hid hid' hsvc
    rcases honly id hid with rfl | rfl <;> rcases honly id' hid' with rfl | rfl
    · rfl
    · exact absurd hsvc (by decide)
    · exact absurd hsvc (by decide)
    · rfl)
  have hweb : live webTier events = none := hlive webTier
  have hprod : live inProd events = some alpha := hlive inProd
  have hback : live backEnd events = some beta := hlive backEnd
  exact ⟨events, s, hrun, hweb, ⟨alpha, hprod, hretained _ _ hprod⟩,
    ⟨beta, hback, hretained _ _ hback⟩⟩

theorem second_namespace_hides_first :
    ¬ ∀ events s, Run AuthorityStep demoBoot.server events s →
      ∀ id c, live id events = some c → Retained s id c := by
  intro h
  have hrun := (Run.start.next (issueFor_step demoBoot.server inProd)).next
    (issueFor_step _ inDefault)
  have hlisted := (h _ _ hrun inProd (issueFor demoBoot.server inProd).1 rfl).listed
  revert hlisted
  decide +kernel

end Meshlite.Sigil
