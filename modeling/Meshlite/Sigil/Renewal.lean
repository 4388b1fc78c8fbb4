import Meshlite.Sigil.Authority
import Meshlite.Sigil.Reload

/-!
# What a renewed certificate is for

A rotation issues a certificate again from the row of the old one. The row has the parts
of the SPIFFE URI but not the DNS names, and the call that issues again asks for none.
-/

namespace Meshlite.Sigil

open Tasks Tasks.Prog Runs

/-- The two ways to rotate: the loop, and the request for one service. -/
inductive RotationKind where
  | loop
  | request (serviceId : String)

def RotationKind.program : RotationKind → Handler Reply
  | loop => rotationScan
  | request serviceId => rotateCert serviceId

/-- The services it may issue a certificate for: the loop gets to all of them in time. -/
def RotationKind.Covers (svc : String) : RotationKind → Prop
  | loop => True
  | request serviceId => serviceId ≠ "" ∧ svc = serviceId

/-- An operation, some time after the last one. -/
def Server.ExecLater (s : Server) (o : Op) (r : o.Res) (s' : Server) : Prop :=
  ∃ d : Duration, ({ s with now := s.now + d } : Server).Exec o r s'

/-- The certificate says the same of its service: the SPIFFE URI and the set of DNS names. -/
structure SameNames (cert cert' : Proto.Certificate) : Prop where
  uri : cert'.uri = cert.uri
  dnsNames : ∀ name, name ∈ cert'.dnsNames ↔ name ∈ cert.dnsNames

/-- Every row is still there or replaced by one whose certificate says the same. -/
def KeepsNames (s s' : Server) : Prop :=
  ∀ row ∈ s.certs.rows, ∃ row' ∈ s'.certs.rows,
    row'.serviceId = row.serviceId ∧ SameNames row.certPem row'.certPem

/-- What the event leaves of the DNS names of a service. -/
def AuthorityEvent.leavesDnsNames (svc : String) (e : AuthorityEvent) :
    Option (Option (List String)) :=
  match e.issued with
  | some (id, _) => if id.serviceId = svc then some (some e.dnsNames) else none
  | none => if e.revoked = some svc then some none else none

/-- The DNS names that the last certificate of the service was asked for with. -/
def lastDnsNames (svc : String) (events : List AuthorityEvent) : Option (List String) :=
  latest (AuthorityEvent.leavesDnsNames svc) events

/-- The SPIFFE URI that the row would be issued again with. -/
def CertRow.uri (row : CertRow) : String :=
  certUri row.clusterId row.nspace row.serviceId

/-- The row stays, or makes way for one issued again from it. -/
structure Renews (kind : RotationKind) (row row' : CertRow) : Prop where
  serviceId : row'.serviceId = row.serviceId
  clusterId : row'.clusterId = row.clusterId
  nspace : row'.nspace = row.nspace
  cert : row' = row ∨
    kind.Covers row.serviceId ∧ row'.certPem.uri = row.uri ∧ row'.certPem.dnsNames = []

/-- What a rotation does to the table it started with. -/
structure Renewed (kind : RotationKind) (s s' : Server) : Prop where
  renewed : ∀ row ∈ s.certs.rows, ∃ row' ∈ s'.certs.rows, Renews kind row row'
  origin : ∀ row' ∈ s'.certs.rows, ∃ row ∈ s.certs.rows, Renews kind row row'

section Steps

variable {kind : RotationKind} {s s₁ s₂ : Server} {o : Op} {r : o.Res} {row : CertRow}

theorem Renewed.refl (kind : RotationKind) (s : Server) : Renewed kind s s := by
  have hrefl : ∀ row : CertRow, Renews kind row row := fun _ => ⟨rfl, rfl, rfl, Or.inl rfl⟩
  exact ⟨fun row h => ⟨row, h, hrefl row⟩, fun row h => ⟨row, h, hrefl row⟩⟩

theorem Renewed.issue {c : IssuedCert} (h : Renewed kind s s₁) (hrow : row ∈ s.certs.rows)
    (hcovers : kind.Covers row.serviceId)
    (hissue : s₁.Issues row.serviceId row.clusterId row.nspace [] c s₂) : Renewed kind s s₂ := by
  have hnew : Renews kind row c.row := by
    obtain ⟨⟨serial, key, -, rfl⟩, -⟩ := hissue
    exact ⟨rfl, rfl, rfl, Or.inr ⟨hcovers, rfl, rfl⟩⟩
  constructor
  · intro row₀ hrow₀
    by_cases hsvc : row₀.serviceId = row.serviceId
    · obtain rfl : row₀ = row := List.inj_on_of_nodup_map s.certs.services_nodup hrow₀ hrow hsvc
      exact ⟨c.row, hissue.mem_rows.mpr (Or.inl rfl), hnew⟩
    · obtain ⟨row', hrow', hrenews⟩ := h.renewed row₀ hrow₀
      refine ⟨row', hissue.mem_rows.mpr (Or.inr ⟨hrow', ?_⟩), hrenews⟩
      rwa [hrenews.serviceId]
  · intro row' hrow'
    rcases hissue.mem_rows.mp hrow' with rfl | ⟨hold, -⟩
    · exact ⟨row, hrow, hnew⟩
    · exact h.origin row' hold

/-- The operations of a rotation: those that leave the table alone, and issuing again from a
row. -/
def RenewsFrom (kind : RotationKind) (s : Server) (o : Op) : Prop :=
  ¬ o.WritesCerts ∨ ∃ row ∈ s.certs.rows, kind.Covers row.serviceId ∧
    o = .issue row.serviceId row.clusterId row.nspace

theorem Renewed.step (h : Renewed kind s s₁) (ho : RenewsFrom kind s o)
    (hexec : s₁.ExecLater o r s₂) : Renewed kind s s₂ := by
  obtain ⟨d, hexec⟩ := hexec
  rcases ho with hquiet | ⟨row, hrow, hcovers, rfl⟩
  · have hcerts : s₂.certs = s₁.certs := hexec.certs_eq hquiet
    exact ⟨hcerts ▸ h.renewed, hcerts ▸ h.origin⟩
  · cases r with
    | error err =>
      obtain rfl := hexec
      exact ⟨h.renewed, h.origin⟩
    | ok c =>
      have hlater : Renewed kind s { s₁ with now := s₁.now + d } := ⟨h.renewed, h.origin⟩
      exact hlater.issue hrow hcovers hexec

/-- A list that a rotation gets shows what its start table has become. -/
def ListsRenewed (kind : RotationKind) (s : Server) : (o : Op) → o.Res → Prop
  | .listCerts, .ok rows => ∀ row' ∈ rows, ∃ row ∈ s.certs.rows, Renews kind row row'
  | _, _ => True

theorem Renewed.lists (h : Renewed kind s s₁) (hexec : s₁.ExecLater o r s₂) :
    ListsRenewed kind s o r := by
  obtain ⟨d, hexec⟩ := hexec
  cases o with
  | listCerts =>
    cases r with
    | error err => trivial
    | ok rows =>
      obtain ⟨rfl, -⟩ := hexec
      intro row' hrow'
      exact h.origin row' (CertTable.mem_list.mp hrow')
  | _ => trivial

/-- Either way of rotating only issues again from rows it covers. -/
theorem always_renewsFrom (kind : RotationKind) (s : Server) :
    kind.program.Always (ListsRenewed kind s) fun o _ => RenewsFrom kind s o := by
  have hrotates : ∀ rows, ListsRenewed kind s .listCerts (.ok rows) → ∀ row' ∈ rows,
      kind.Covers row'.serviceId → Rotates (ListsRenewed kind s) (RenewsFrom kind s) row' := by
    intro rows hlists row' hrow' hcovers
    obtain ⟨row, hrow, hrenews⟩ := hlists row' hrow'
    have hissue : RenewsFrom kind s (.issue row'.serviceId row'.clusterId row'.nspace) := by
      rw [hrenews.serviceId, hrenews.clusterId, hrenews.nspace]
      exact Or.inr ⟨row, hrow, hrenews.serviceId ▸ hcovers, rfl⟩
    exact ⟨Or.inl id, hissue, fun _ _ => ⟨Or.inl id, fun _ => Or.inl id, fun _ => Or.inl id⟩⟩
  cases kind with
  | loop =>
    exact always_rotationScan (Or.inl id) fun rows hlists row hrow => hrotates rows hlists row hrow
      trivial
  | request serviceId =>
    exact always_rotateCert (Or.inl id) fun hne rows hlists row hrow hsvc =>
      hrotates rows hlists row hrow ⟨hne, hsvc⟩

theorem renewed_of_rotation {reply : Reply}
    (h : kind.program.Completes Server.ExecLater s reply s₂) : Renewed kind s s₂ := by
  refine h.invariant (ListsRenewed kind s) (I := Renewed kind s) (Q := RenewsFrom kind s) ?_ ?_
    (always_renewsFrom kind s) (Renewed.refl kind s)
  · exact fun s₁ o r s₂ hs hexec => hs.lists hexec
  · exact fun s₁ o r s₂ ho hexec hs => hs.step ho hexec

end Steps

section Issued

variable {s s' : Server} {e : AuthorityEvent} {events : List AuthorityEvent} {svc : String}
variable {id : Identity} {c : IssuedCert} {row : CertRow}

theorem lastDnsNames_snoc_issued (h : e.issued = some (id, c)) :
    lastDnsNames svc (events ++ [e]) =
      if id.serviceId = svc then some e.dnsNames else lastDnsNames svc events := by
  rw [lastDnsNames, latest_snoc, AuthorityEvent.leavesDnsNames, h]
  dsimp only
  split_ifs
  · rfl
  · rfl

theorem lastDnsNames_snoc_kept (h : e.issued = none) (hrev : e.revoked ≠ some svc) :
    lastDnsNames svc (events ++ [e]) = lastDnsNames svc events := by
  rw [lastDnsNames, latest_snoc, AuthorityEvent.leavesDnsNames, h]
  dsimp only
  rw [if_neg hrev]
  rfl

/-- What the rows of a table have from the calls that made it. -/
def RowsNamed (events : List AuthorityEvent) (s : Server) : Prop :=
  ∀ row ∈ s.certs.rows, lastDnsNames row.serviceId events = some row.certPem.dnsNames ∧
    row.certPem.uri = row.uri

theorem AuthorityStep.rowsNamed (h : AuthorityStep s e s') (hs : RowsNamed events s) :
    RowsNamed (events ++ [e]) s' := by
  intro row hrow
  rcases h.effect with ⟨id, c, he, hissue⟩ | ⟨svc, he, hrev, hcerts⟩ | ⟨he, hrev, hcerts⟩
  · rw [lastDnsNames_snoc_issued he]
    rcases hissue.mem_rows.mp hrow with rfl | ⟨hold, hne⟩
    · obtain ⟨⟨serial, key, -, rfl⟩, -⟩ := hissue
      exact ⟨if_pos rfl, rfl⟩
    · rw [if_neg (Ne.symm hne)]
      exact hs row hold
  · rw [hcerts, CertTable.mem_delete] at hrow
    rw [lastDnsNames_snoc_kept he (by rw [hrev]; simpa using Ne.symm hrow.2)]
    exact hs row hrow.1
  · rw [hcerts] at hrow
    rw [lastDnsNames_snoc_kept he (by simp [hrev])]
    exact hs row hrow

theorem rowsNamed_run (hempty : s.certs = .empty) (h : Run AuthorityStep s events s') :
    RowsNamed events s' := by
  refine h.invariant (I := RowsNamed) ?_ fun _ _ _ _ _ hs hstep => hstep.rowsNamed hs
  intro row hrow
  rw [hempty] at hrow
  cases hrow

end Issued

section Runs

variable {kind : RotationKind} {events : List AuthorityEvent} {s s₁ s₂ : Server} {row : CertRow}

/-- In one run of a rotation the names are kept exactly if no row that is replaced had DNS
names. -/
theorem keepsNames_iff (hnamed : RowsNamed events s₁) (hrenewed : Renewed kind s₁ s₂) :
    KeepsNames s₁ s₂ ↔ ∀ row ∈ s₁.certs.rows, row ∉ s₂.certs.rows →
      lastDnsNames row.serviceId events = some [] := by
  constructor
  · intro hkeeps row hrow hgone
    obtain ⟨row', hrow', hsvc, hsame⟩ := hkeeps row hrow
    obtain ⟨new, hnew, hrenews⟩ := hrenewed.renewed row hrow
    obtain rfl : new = row' := List.inj_on_of_nodup_map s₂.certs.services_nodup hnew hrow'
      (hrenews.serviceId.trans hsvc.symm)
    rcases hrenews.cert with rfl | ⟨-, -, hdns⟩
    · exact absurd hnew hgone
    · have hnone : row.certPem.dnsNames = [] := by
        rw [List.eq_nil_iff_forall_not_mem]
        intro name hname
        rw [← hsame.dnsNames, hdns] at hname
        cases hname
      rw [(hnamed row hrow).1, hnone]
  · intro hlast row hrow
    obtain ⟨new, hnew, hrenews⟩ := hrenewed.renewed row hrow
    refine ⟨new, hnew, hrenews.serviceId, ?_⟩
    rcases hrenews.cert with rfl | ⟨-, huri, hdns⟩
    · exact ⟨rfl, fun _ => Iff.rfl⟩
    · by_cases hkept : row ∈ s₂.certs.rows
      · obtain rfl : new = row := List.inj_on_of_nodup_map s₂.certs.services_nodup hnew hkept
          hrenews.serviceId
        exact ⟨rfl, fun _ => Iff.rfl⟩
      · have hnone := hlast row hrow hkept
        rw [(hnamed row hrow).1, Option.some.injEq] at hnone
        exact ⟨huri.trans (hnamed row hrow).2.symm, fun name => by rw [hdns, hnone]⟩

theorem Renewed.covers (h : Renewed kind s₁ s₂) (hrow : row ∈ s₁.certs.rows)
    (hgone : row ∉ s₂.certs.rows) : kind.Covers row.serviceId := by
  obtain ⟨new, hnew, hrenews⟩ := h.renewed row hrow
  rcases hrenews.cert with rfl | ⟨hcovers, -⟩
  · exact absurd hnew hgone
  · exact hcovers

end Runs

section Possible

variable {s : Server} {row : CertRow}

theorem Server.Exec.later {s' : Server} {o : Op} {r : o.Res} (h : s.Exec o r s') :
    s.ExecLater o r s' := ⟨0, h⟩

/-- A row that was issued again is no longer in the table. -/
theorem row_replaced {s' : Server} {cl ns : String} {c : IssuedCert} (hrow : row ∈ s.certs.rows)
    (h : s.Issues row.serviceId cl ns [] c s') : row ∉ s'.certs.rows := by
  rw [h.mem_rows]
  rintro (heq | ⟨-, hne⟩)
  · obtain ⟨⟨serial, key, hfresh, rfl⟩, -⟩ := h
    exact hfresh row hrow (congrArg CertRow.serial heq)
  · exact hne rfl

theorem exists_pushCertToAll (s : Server) (cb : Proto.CertBundle) :
    ∃ u s', (pushCertToAll cb).Completes Server.ExecLater s u s' ∧ s'.certs = s.certs := by
  have hpush : (pushCertToAll cb).Completes Server.Exec s () _ :=
    completes_pushCertToAll.mpr ⟨_, List.Perm.refl s.dist.streams.keys, rfl⟩
  exact ⟨(), _, hpush.mono fun _ _ _ _ h => h.later, rfl⟩

/-- The loop can get to a row when it is due. -/
theorem exists_rotateIfDue (hrow : row ∈ s.certs.rows) :
    ∃ u s', (rotateIfDue row).Completes Server.ExecLater s u s' ∧ row ∉ s'.certs.rows := by
  let due : Server := { s with now := s.now + row.rotateAt * second }
  have hissue := due.runIssue_issues row.serviceId row.clusterId row.nspace []
  obtain ⟨u, s', hpush, hcerts⟩ := exists_pushCertToAll
    (due.runIssue row.serviceId row.clusterId row.nspace []).2
    (due.runIssue row.serviceId row.clusterId row.nspace []).1.bundle
  have hnot : ¬ due.now < row.rotateAt * second := Nat.not_lt.mpr (Nat.le_add_left _ _)
  have hgone : row ∉ s'.certs.rows := by
    rw [hcerts]
    exact row_replaced (s := due) hrow hissue
  refine ⟨u, s', ?_, hgone⟩
  have hnow : s.ExecLater .now due.now due := ⟨row.rotateAt * second, rfl, rfl⟩
  rw [rotateIfDue_eq, completes_op]
  refine ⟨due.now, due, hnow, ?_⟩
  rw [if_neg hnot, completes_op]
  exact ⟨.ok _, _, Server.Exec.later hissue, hpush⟩

theorem rotateIfDue_passes (s : Server) (row : CertRow) :
    (rotateIfDue row).Completes Server.ExecLater s () s := by
  have hnow : s.ExecLater .now s.now s := ⟨0, rfl, rfl⟩
  rw [rotateIfDue_eq, completes_op]
  refine ⟨s.now, s, hnow, ?_⟩
  by_cases hdue : s.now < row.rotateAt * second
  · rw [if_pos hdue]
    exact ⟨rfl, rfl⟩
  · rw [if_neg hdue, completes_op]
    exact ⟨.error "", s, ⟨0, rfl⟩, rfl, rfl⟩

theorem exists_each_rotateIfDue {rows : List CertRow} (hmem : row ∈ rows)
    (hrow : row ∈ s.certs.rows) :
    ∃ u s', (each rotateIfDue rows).Completes Server.ExecLater s u s' ∧ row ∉ s'.certs.rows := by
  have hpasses : ∀ (rows : List CertRow) (s : Server),
      (each rotateIfDue rows).Completes Server.ExecLater s () s := by
    intro rows s
    induction rows with
    | nil => exact ⟨rfl, rfl⟩
    | cons first rest ih => exact completes_bind.mpr ⟨(), s, rotateIfDue_passes s first, ih⟩
  induction rows with
  | nil => cases hmem
  | cons first rest ih =>
    rcases List.mem_cons.mp hmem with rfl | hrest
    · obtain ⟨u, m, hfirst, hgone⟩ := exists_rotateIfDue hrow
      exact ⟨(), m, completes_bind.mpr ⟨u, m, hfirst, hpasses rest m⟩, hgone⟩
    · obtain ⟨u, s', hloop, hgone⟩ := ih hrest
      exact ⟨u, s', completes_bind.mpr ⟨(), s, rotateIfDue_passes s first, hloop⟩, hgone⟩

theorem find?_service (hrow : row ∈ s.certs.rows) :
    s.certs.list.find? (·.serviceId = row.serviceId) = some row := by
  cases hfind : s.certs.list.find? (·.serviceId = row.serviceId) with
  | none =>
    have hnone := List.find?_eq_none.mp hfind row (CertTable.mem_list.mpr hrow)
    exact absurd (decide_eq_true rfl) hnone
  | some found =>
    have hmem := CertTable.mem_list.mp (List.mem_of_find?_eq_some hfind)
    have hsvc : found.serviceId = row.serviceId := by
      simpa using List.find?_some hfind
    rw [List.inj_on_of_nodup_map s.certs.services_nodup hmem hrow hsvc]

/-- Any rotation can replace any row it covers. -/
theorem exists_rotation (kind : RotationKind) (hrow : row ∈ s.certs.rows)
    (hcovers : kind.Covers row.serviceId) :
    ∃ reply s', kind.program.Completes Server.ExecLater s reply s' ∧ row ∉ s'.certs.rows := by
  cases kind with
  | loop =>
    obtain ⟨u, s', hloop, hgone⟩ := exists_each_rotateIfDue (CertTable.mem_list.mpr hrow) hrow
    have hlist : s.ExecLater .listCerts (.ok s.certs.list) s := ⟨0, rfl, rfl⟩
    refine ⟨.none, s', ?_, hgone⟩
    rw [RotationKind.program, rotationScan_op, completes_op]
    exact ⟨.ok s.certs.list, s, hlist, completes_bind.mpr ⟨u, s', hloop, rfl, rfl⟩⟩
  | request serviceId =>
    obtain ⟨hne, rfl⟩ := hcovers
    let issued := s.runIssue row.serviceId row.clusterId row.nspace []
    have hissue : s.Issues row.serviceId row.clusterId row.nspace [] issued.1 issued.2 :=
      s.runIssue_issues row.serviceId row.clusterId row.nspace []
    obtain ⟨u, s', hpush, hcerts⟩ := exists_pushCertToAll issued.2 issued.1.bundle
    have hlist : s.ExecLater .listCerts (.ok s.certs.list) s := ⟨0, rfl, rfl⟩
    refine ⟨.rotated issued.1.serviceId issued.1.expiresAt.unix, s', ?_,
      hcerts ▸ row_replaced hrow hissue⟩
    rw [RotationKind.program, rotateCert_eq hne, completes_op]
    refine ⟨.ok s.certs.list, s, hlist, ?_⟩
    simp only [find?_service hrow]
    rw [completes_op]
    exact ⟨.ok issued.1, issued.2, Server.Exec.later hissue,
      completes_bind.mpr ⟨u, s', hpush, rfl, rfl⟩⟩

end Possible

/-- After every sequence of calls, whichever way is taken to rotate: in all its runs each
certificate is kept or replaced by one with the same SPIFFE URI and the same DNS names exactly
if each service it covers was last issued a certificate without DNS names. -/
theorem rotation_keeps_names_iff (s : Server) (hempty : s.certs = .empty)
    (events : List AuthorityEvent) (s₁ : Server) (h : Run AuthorityStep s events s₁)
    (kind : RotationKind) :
    (∀ reply s₂, kind.program.Completes Server.ExecLater s₁ reply s₂ → KeepsNames s₁ s₂) ↔
      ∀ row ∈ s₁.certs.rows, kind.Covers row.serviceId →
        lastDnsNames row.serviceId events = some [] := by
  have hnamed := rowsNamed_run hempty h
  constructor
  · intro hkeeps row hrow hcovers
    obtain ⟨reply, s₂, hrot, hgone⟩ := exists_rotation kind hrow hcovers
    exact (keepsNames_iff hnamed (renewed_of_rotation hrot)).mp (hkeeps reply s₂ hrot) row hrow hgone
  · intro hlast reply s₂ hrot
    have hrenewed := renewed_of_rotation hrot
    rw [keepsNames_iff hnamed hrenewed]
    exact fun row hrow hgone => hlast row hrow (hrenewed.covers hrow hgone)

/-- A service's certificate, from `Issue`, in a system without agents. -/
def issuedAlpha : IssuedCert × Server := issueFor demoBoot.server inProd

theorem issuedAlpha_renewed : ∃ reply s₂,
    (rotateCert "alpha").Completes Server.ExecLater issuedAlpha.2 reply s₂ ∧
      issuedAlpha.1.row ∉ s₂.certs.rows ∧ KeepsNames issuedAlpha.2 s₂ := by
  obtain ⟨reply, s₂, hrot, hgone⟩ := exists_rotation (s := issuedAlpha.2) (.request "alpha")
    (by decide +kernel : issuedAlpha.1.row ∈ issuedAlpha.2.certs.rows) ⟨by decide, rfl⟩
  have hrun := Run.start.next (issueFor_step demoBoot.server inProd)
  have hlast : ∀ row ∈ issuedAlpha.2.certs.rows, lastDnsNames row.serviceId
      [issueEvent inProd (issueFor demoBoot.server inProd).1] = some [] := by
    decide +kernel
  exact ⟨reply, s₂, hrot, hgone, (rotation_keeps_names_iff _ rfl _ _ hrun (.request "alpha")).mpr
    (fun row hrow _ => hlast row hrow) reply s₂ hrot⟩

/-- The certificate of a gateway that enrolled, from `IssueWithDNS`. -/
def issuedGateway : IssuedCert × Server :=
  demoBoot.server.runIssue "conduit-eu" "eu" "meshlite-system" ["eu", "conduit-eu", "localhost"]

theorem issuedGateway_loses_names : ¬ ∀ s : Server, s.certs = .empty → ∀ events s₁,
    Run AuthorityStep s events s₁ → ∀ (kind : RotationKind) reply s₂,
      kind.program.Completes Server.ExecLater s₁ reply s₂ → KeepsNames s₁ s₂ := by
  intro h
  have hstep : AuthorityStep demoBoot.server (.call (.issueWithDns "conduit-eu" "eu"
      "meshlite-system" ["eu", "conduit-eu", "localhost"]) (.ok issuedGateway.1))
      issuedGateway.2 := .call trivial (demoBoot.server.runIssue_issues _ _ _ _)
  have hrow : issuedGateway.1.row ∈ issuedGateway.2.certs.rows := by
    decide +kernel
  obtain ⟨reply, s₂, hrot, hgone⟩ := exists_rotation .loop hrow trivial
  have hrun := Run.start.next hstep
  have hkeeps := h _ rfl _ _ hrun .loop reply s₂ hrot
  have hlast := (keepsNames_iff (rowsNamed_run rfl hrun) (renewed_of_rotation hrot)).mp hkeeps
    _ hrow hgone
  revert hlast
  decide +kernel

end Meshlite.Sigil
