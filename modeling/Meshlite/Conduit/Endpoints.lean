import Meshlite.Sigil.Provenance
import Meshlite.Sigil.Revocation

/-!
# The certificates of the TLS endpoints

Sigil issues the certificate of its gRPC listener once, at its start, and Conduit enrolls
once. The rotation loop issues new ones in their names, but nothing hands them to the
listener or to Conduit: each endpoint presents its first certificate for good.
-/

namespace Meshlite

/-- The clock is past the end of the validity, which X.509 has in whole seconds. -/
def Proto.Certificate.Expired (cert : Proto.Certificate) (now : Time) : Prop :=
  cert.notAfter.unix * second < now

instance (cert : Proto.Certificate) (now : Time) : Decidable (cert.Expired now) :=
  inferInstanceAs (Decidable (_ < _))

namespace Tls

structure StoredCert where
  leafCertPem : Proto.Certificate
  rootCaPem : Proto.KeyId
  privateKeyPem : Proto.KeyId
  deriving DecidableEq, Repr

/-- One entry per service. -/
structure CertStore where
  certs : AList fun _ : String => StoredCert

namespace CertStore

def new : CertStore where
  certs := ∅

def update (self : CertStore) (serviceId : String) (leafCertPem : Proto.Certificate)
    (rootCaPem keyPem : Proto.KeyId) : CertStore where
  certs := self.certs.insert serviceId { leafCertPem, rootCaPem, privateKeyPem := keyPem }

/-- `first_cert`: the entry a hash map happens to iterate first. -/
def FirstCert (self : CertStore) (entry : StoredCert) : Prop :=
  ∃ serviceId, self.certs.lookup serviceId = some entry

end CertStore

end Tls

namespace Conduit

open Tls Sigil Runs

/-- The answer to `POST /api/v1/enroll-cluster`. -/
structure EnrollResponse where
  certPem : Proto.Certificate
  keyPem : Proto.KeyId
  rootCaPem : Proto.KeyId
  expiresAtUnix : ℕ

def enrollResponse (issued : IssuedCert) : EnrollResponse where
  certPem := issued.certPem
  keyPem := issued.keyPem
  rootCaPem := issued.rootCaPem
  expiresAtUnix := issued.expiresAt.unix

def applyEnroll (store : CertStore) (resp : EnrollResponse) (clusterId : String) : CertStore :=
  store.update clusterId resp.certPem resp.rootCaPem resp.keyPem

inductive Mode where
  | egress
  | ingress
  deriving DecidableEq, Repr

/-- A Conduit that enrolled, with the server config that `ingress::run` builds once. -/
structure Gateway where
  certStore : CertStore
  tlsCfg : Option StoredCert
  /-- the handler of Sigil that answered its enrollment -/
  handler : ℕ

/-- What `main` sets up once the enrollment is answered. -/
def Gateway.Starts (mode : Mode) (clusterId : String) (issued : IssuedCert) (g : Gateway) : Prop :=
  g.certStore = applyEnroll .new (enrollResponse issued) clusterId ∧
    match mode with
    | .egress => g.tlsCfg = none
    | .ingress => ∃ entry, g.certStore.FirstCert entry ∧ g.tlsCfg = some entry

/-- The certificate in a new handshake: Ingress has its config, Egress builds one from its
store for each connection. -/
def Gateway.Presents (g : Gateway) (cert : Proto.Certificate) : Prop :=
  match g.tlsCfg with
  | some entry => cert = entry.leafCertPem
  | none => ∃ entry, g.certStore.FirstCert entry ∧ cert = entry.leafCertPem

/-- Sigil, the certificate in the TLS config of its listener, and the Conduits. -/
structure Mesh where
  sigil : System
  serverCert : Option Proto.Certificate
  gateways : List Gateway

inductive MeshEvent where
  | sigil (e : Sigil.Event)
  | conduit (mode : Mode) (clusterId : String) (handler : ℕ)

def MeshEvent.ofSigil : MeshEvent → Option Sigil.Event
  | .sigil e => some e
  | .conduit _ _ _ => none

/-- What Sigil did in a run of the mesh. -/
def sigilEvents (events : List MeshEvent) : List Sigil.Event := events.filterMap MeshEvent.ofSigil

theorem sigilEvents_sigil (events : List MeshEvent) (e : Sigil.Event) :
    sigilEvents (events ++ [.sigil e]) = sigilEvents events ++ [e] := by
  simp [sigilEvents, MeshEvent.ofSigil]

theorem sigilEvents_conduit (events : List MeshEvent) (mode : Mode) (clusterId : String) (i : ℕ) :
    sigilEvents (events ++ [.conduit mode clusterId i]) = sigilEvents events := by
  simp [sigilEvents, MeshEvent.ofSigil]

/-- The certificate that `main` puts into the TLS config. -/
def serverCertOf : Sigil.Event → Option Proto.Certificate
  | .perform 0 (.issueWithDns _ _ _ _) (.ok c) => some c.certPem
  | _ => none

namespace Mesh

def boot (eng : Policy.Engine) (leafTtl : Duration) (rootKey : Proto.KeyId) (now : Time) : Mesh where
  sigil := .boot eng leafTtl rootKey now
  serverCert := none
  gateways := []

inductive Step (unmarshal : List UInt8 → Except String Policy.MeshConfig) :
    Mesh → MeshEvent → Mesh → Prop
  | sigil {M : Mesh} {e : Sigil.Event} {S : System} : Sigil.Step unmarshal M.sigil e S →
      Step unmarshal M (.sigil e)
        { M with sigil := S, serverCert := (serverCertOf e).or M.serverCert }
  | conduit {M : Mesh} {mode : Mode} {clusterId : String} {i : ℕ} {issued : IssuedCert}
      {g : Gateway} : M.sigil.tasks[i]? = some (.ret (.enrolled issued)) →
      g.Starts mode clusterId issued → g.handler = i →
      Step unmarshal M (.conduit mode clusterId i) { M with gateways := M.gateways ++ [g] }

/-- The certificates that the listener and the Conduits present. -/
def Presents (M : Mesh) (cert : Proto.Certificate) : Prop :=
  M.serverCert = some cert ∨ ∃ g ∈ M.gateways, g.Presents cert

end Mesh

def elapsed : Sigil.Event → Duration
  | .tick d => d
  | _ => 0

/-- The clock after a run of Sigil. -/
def clock (now : Time) (events : List Sigil.Event) : Time := now + (events.map elapsed).sum

/-- The clock is at most a leaf TTL past the certificate that the handler had issued with
DNS names, to the second. -/
def InLifetime (leafTtl : Duration) (now : Time) (events : List Sigil.Event) (i : ℕ) : Prop :=
  ∀ pre svc cl ns dns c post,
    events = pre ++ .perform i (.issueWithDns svc cl ns dns) (.ok c) :: post →
      clock now events ≤ Time.unix (clock now pre + leafTtl) * second

/-- The handler had this certificate issued with DNS names. -/
def Issued (events : List Sigil.Event) (i : ℕ) (cert : Proto.Certificate) : Prop :=
  ∃ svc cl ns dns c, .perform i (.issueWithDns svc cl ns dns) (.ok c) ∈ events ∧ cert = c.certPem

section Issue

variable {unmarshal : List UInt8 → Except String Policy.MeshConfig} {S : System}
variable {eng : Policy.Engine} {leafTtl : Duration} {rootKey : Proto.KeyId} {now : Time}
variable {events : List Sigil.Event} {i : ℕ} {cert : Proto.Certificate} {e : Sigil.Event}

theorem clock_snoc (now : Time) (events : List Sigil.Event) (e : Sigil.Event) :
    clock now (events ++ [e]) = clock now events + elapsed e := by
  simp [clock, Nat.add_assoc]

theorem now_eq_clock (h : Run (Sigil.Step unmarshal) (.boot eng leafTtl rootKey now) events S) :
    S.server.now = clock now events ∧ S.server.leafTtl = leafTtl := by
  refine h.invariant
    (I := fun events S => S.server.now = clock now events ∧ S.server.leafTtl = leafTtl)
    ⟨rfl, rfl⟩ ?_
  rintro es S e S' - ⟨hnow, httl⟩ hstep
  rw [clock_snoc, ← hnow, hstep.leafTtl_eq]
  refine ⟨?_, httl⟩
  cases hstep with
  | perform hperf hexec => exact hexec.clock_eq.1
  | _ => rfl

theorem notAfter_of_issue {pre post : List Sigil.Event} {svc cl ns : String} {dns : List String}
    {c : IssuedCert} (h : Run (Sigil.Step unmarshal) (.boot eng leafTtl rootKey now)
      (pre ++ .perform i (.issueWithDns svc cl ns dns) (.ok c) :: post) S) :
    c.certPem.notAfter = clock now pre + leafTtl := by
  obtain ⟨m, m', hrun, hstep⟩ := h.step_of_split
  obtain ⟨hnow, httl⟩ := now_eq_clock hrun
  obtain ⟨⟨serial, key, -, rfl⟩, -⟩ := hstep.exec
  rw [← hnow, ← httl]
  rfl

theorem inLifetime_iff (h : Run (Sigil.Step unmarshal) (.boot eng leafTtl rootKey now) events S) :
    InLifetime leafTtl now events i ↔
      ∀ cert, Issued events i cert → ¬ cert.Expired S.server.now := by
  rw [(now_eq_clock h).1]
  constructor
  · rintro hlife cert ⟨svc, cl, ns, dns, c, hmem, rfl⟩
    obtain ⟨pre, post, rfl⟩ := List.append_of_mem hmem
    rw [Proto.Certificate.Expired, notAfter_of_issue h, not_lt]
    exact hlife pre svc cl ns dns c post rfl
  · rintro hall pre svc cl ns dns c post rfl
    have hfresh := hall c.certPem ⟨svc, cl, ns, dns, c, by simp, rfl⟩
    rwa [Proto.Certificate.Expired, notAfter_of_issue h, not_lt] at hfresh

theorem issued_snoc_iff : Issued (events ++ [e]) i cert ↔ Issued events i cert ∨
    ∃ svc cl ns dns c, e = .perform i (.issueWithDns svc cl ns dns) (.ok c) ∧ cert = c.certPem := by
  constructor
  · rintro ⟨svc, cl, ns, dns, c, hmem, rfl⟩
    rcases List.mem_append.mp hmem with hmem | hmem
    · exact Or.inl ⟨svc, cl, ns, dns, c, hmem, rfl⟩
    · exact Or.inr ⟨svc, cl, ns, dns, c, (List.mem_singleton.mp hmem).symm, rfl⟩
  · rintro (⟨svc, cl, ns, dns, c, hmem, rfl⟩ | ⟨svc, cl, ns, dns, c, rfl, rfl⟩)
    · exact ⟨svc, cl, ns, dns, c, List.mem_append_left _ hmem, rfl⟩
    · exact ⟨svc, cl, ns, dns, c, by simp, rfl⟩

theorem issued_snoc
    (h : Run (Sigil.Step unmarshal) (.boot eng leafTtl rootKey now) (events ++ [e]) S)
    (hold : record i events ≠ []) : Issued (events ++ [e]) i cert ↔ Issued events i cert := by
  rw [issued_snoc_iff]
  refine or_iff_left ?_
  rintro ⟨svc, cl, ns, dns, c, rfl, -⟩
  exact hold (sourced_of_perform h)

theorem serverCertOf_eq_some : serverCertOf e = some cert ↔
    ∃ svc cl ns dns c, e = .perform 0 (.issueWithDns svc cl ns dns) (.ok c) ∧ cert = c.certPem := by
  constructor
  · intro h
    unfold serverCertOf at h
    split at h
    · exact ⟨_, _, _, _, _, rfl, (Option.some.inj h).symm⟩
    · cases h
  · rintro ⟨svc, cl, ns, dns, c, rfl, rfl⟩
    rfl

end Issue

section Endpoints

variable {unmarshal : List UInt8 → Except String Policy.MeshConfig}
variable {eng : Policy.Engine} {leafTtl : Duration} {rootKey : Proto.KeyId} {now : Time}
variable {events : List MeshEvent} {M : Mesh}

theorem firstCert_applyEnroll {resp : EnrollResponse} {clusterId : String} {entry : StoredCert} :
    (applyEnroll .new resp clusterId).FirstCert entry ↔ entry =
      { leafCertPem := resp.certPem, rootCaPem := resp.rootCaPem, privateKeyPem := resp.keyPem } := by
  unfold CertStore.FirstCert applyEnroll CertStore.update
  constructor
  · rintro ⟨serviceId, hl⟩
    by_cases h : serviceId = clusterId
    · subst h
      rw [AList.lookup_insert] at hl
      exact (Option.some.inj hl).symm
    · rw [AList.lookup_insert_ne h] at hl
      simp [CertStore.new] at hl
  · rintro rfl
    exact ⟨clusterId, AList.lookup_insert _⟩

/-- Either kind of Conduit presents the certificate of its enrollment. -/
theorem Gateway.Starts.presents {mode : Mode} {clusterId : String} {issued : IssuedCert}
    {g : Gateway} (h : g.Starts mode clusterId issued) (cert : Proto.Certificate) :
    g.Presents cert ↔ cert = issued.certPem := by
  obtain ⟨hstore, hcfg⟩ := h
  unfold Gateway.Presents
  cases mode with
  | egress =>
    have hnone : g.tlsCfg = none := hcfg
    rw [hnone, hstore]
    simp [firstCert_applyEnroll, enrollResponse]
  | ingress =>
    obtain ⟨entry, hentry, hsome⟩ := hcfg
    rw [hstore, firstCert_applyEnroll] at hentry
    rw [hsome, hentry]
    rfl

theorem sigil_run (h : Run (Mesh.Step unmarshal) (.boot eng leafTtl rootKey now) events M) :
    Run (Sigil.Step unmarshal) (.boot eng leafTtl rootKey now) (sigilEvents events) M.sigil := by
  induction h with
  | start => exact .start
  | next _ hlast ih =>
    cases hlast with
    | sigil hstep =>
      rw [sigilEvents_sigil]
      exact ih.next hstep
    | conduit =>
      rw [sigilEvents_conduit]
      exact ih

/-- The listener and every Conduit present what their handlers had issued. -/
structure Attested (events : List MeshEvent) (M : Mesh) : Prop where
  listener : ∀ cert, M.serverCert = some cert ↔ Issued (sigilEvents events) 0 cert
  gateways : ∀ g ∈ M.gateways, record g.handler (sigilEvents events) ≠ [] ∧
    ∀ cert, g.Presents cert ↔ Issued (sigilEvents events) g.handler cert

theorem Attested.sigil {e : Sigil.Event} {S : System} (hM : Attested events M)
    (h : Run (Sigil.Step unmarshal) (.boot eng leafTtl rootKey now)
      (sigilEvents events ++ [e]) S) :
    Attested (events ++ [.sigil e])
      { M with sigil := S, serverCert := (serverCertOf e).or M.serverCert } := by
  have hevents := sigilEvents_sigil events e
  refine ⟨fun cert => ?_, fun g hg => ?_⟩
  · rw [hevents, issued_snoc_iff, ← serverCertOf_eq_some, ← hM.listener]
    cases hcert : serverCertOf e with
    | none => simp
    | some new =>
      -- the first certificate of the handler
      obtain ⟨svc, cl, ns, dns, c, rfl, rfl⟩ := serverCertOf_eq_some.mp hcert
      have hempty : record 0 (sigilEvents events) = [] := sourced_of_perform h
      have hnone : ¬ M.serverCert = some cert := by
        rw [hM.listener]
        rintro ⟨svc', cl', ns', dns', c', hmem, -⟩
        rw [← mem_record, hempty] at hmem
        simp at hmem
      simp [hnone]
  · obtain ⟨hne, hpresents⟩ := hM.gateways g hg
    rw [hevents]
    refine ⟨by simp [record_append, hne], fun cert => ?_⟩
    rw [issued_snoc h hne, hpresents]

theorem Attested.conduit {mode : Mode} {clusterId : String} {issued : IssuedCert} {g : Gateway}
    (hM : Attested events M) (hstart : g.Starts mode clusterId issued)
    (h : Answered (record g.handler (sigilEvents events)) (.enrolled issued)) :
    Attested (events ++ [.conduit mode clusterId g.handler])
      { M with gateways := M.gateways ++ [g] } := by
  have hevents := sigilEvents_conduit events mode clusterId g.handler
  rw [← hevents] at h
  refine ⟨fun cert => by rw [hevents]; exact hM.listener cert, fun g' hg => ?_⟩
  rcases List.mem_append.mp hg with hg | hg
  · rw [hevents]
    exact hM.gateways g' hg
  · obtain rfl := List.mem_singleton.mp hg
    obtain ⟨svc, cl, ns, dns, hrecord⟩ := h
    refine ⟨by simp [hrecord], fun cert => ?_⟩
    rw [hstart.presents]
    constructor
    · rintro rfl
      exact ⟨svc, cl, ns, dns, issued, mem_record.mp (by simp [hrecord]), rfl⟩
    · rintro ⟨svc', cl', ns', dns', c', hmem, rfl⟩
      rw [← mem_record, hrecord, List.mem_singleton] at hmem
      cases hmem
      rfl

theorem attested_run (h : Run (Mesh.Step unmarshal) (.boot eng leafTtl rootKey now) events M) :
    Attested events M := by
  refine h.invariant (I := Attested) ⟨?_, by simp [Mesh.boot]⟩ ?_
  · simp [Mesh.boot, Issued, sigilEvents]
  · intro es M e M' hrun hM hstep
    cases hstep with
    | sigil hsigil => exact hM.sigil ((sigil_run hrun).next hsigil)
    | conduit hreply hstart hi =>
      subst hi
      exact hM.conduit hstart (answered_of_reply (sigil_run hrun) hreply)

end Endpoints

variable {unmarshal : List UInt8 → Except String Policy.MeshConfig}

/-- In every state of a run no endpoint presents an expired certificate, exactly if the clock is
within a leaf TTL of Sigil's start and of the enrollment of every Conduit. -/
theorem presented_unexpired_iff (eng : Policy.Engine) (leafTtl : Duration) (rootKey : Proto.KeyId)
    (now : Time) (events : List MeshEvent) (M : Mesh)
    (h : Run (Mesh.Step unmarshal) (.boot eng leafTtl rootKey now) events M) :
    (∀ cert, M.Presents cert → ¬ cert.Expired M.sigil.server.now) ↔
      InLifetime leafTtl now (sigilEvents events) 0 ∧
      ∀ g ∈ M.gateways, InLifetime leafTtl now (sigilEvents events) g.handler := by
  have hM := attested_run h
  simp only [inLifetime_iff (sigil_run h), ← hM.listener]
  constructor
  · intro hall
    refine ⟨fun cert hcert => hall cert (Or.inl hcert), fun g hg cert hcert => ?_⟩
    exact hall cert (Or.inr ⟨g, hg, ((hM.gateways g hg).2 cert).mpr hcert⟩)
  · rintro ⟨hlistener, hgateways⟩ cert (hcert | ⟨g, hg, hcert⟩)
    · exact hlistener cert hcert
    · exact hgateways g hg cert (((hM.gateways g hg).2 cert).mp hcert)

theorem inLifetime_of_le {leafTtl : Duration} {now : Time} {events : List Sigil.Event} {i : ℕ}
    (h : clock now events ≤ Time.unix (now + leafTtl) * second) :
    InLifetime leafTtl now events i := by
  rintro pre svc cl ns dns c post -
  refine h.trans (Nat.mul_le_mul_right _ (Nat.div_le_div_right ?_))
  unfold clock
  omega

theorem exists_mesh_run {boot S : System} {events : List Sigil.Event}
    (h : Run (Sigil.Step unmarshal) boot events S) :
    ∃ M, M.sigil = S ∧ Run (Mesh.Step unmarshal) ⟨boot, none, []⟩ (events.map .sigil) M := by
  induction h with
  | start => exact ⟨_, rfl, .start⟩
  | next _ hlast ih =>
    obtain ⟨M, rfl, hrun⟩ := ih
    rw [List.map_append]
    exact ⟨_, rfl, hrun.next (.sigil hlast)⟩

theorem sigilEvents_map (events : List Sigil.Event) : sigilEvents (events.map .sigil) = events := by
  induction events with
  | nil => rfl
  | cons e es ih => exact congrArg (e :: ·) ih

/-- The certificate a handler has answered an enrollment with. -/
def enrolledBy (S : System) (i : ℕ) : Option IssuedCert :=
  match S.tasks[i]? with
  | some (.ret (.enrolled issued)) => some issued
  | _ => none

theorem enrolledBy_eq_some {S : System} {i : ℕ} {issued : IssuedCert}
    (h : enrolledBy S i = some issued) : S.tasks[i]? = some (.ret (.enrolled issued)) := by
  unfold enrolledBy at h
  split at h
  · obtain rfl := Option.some.inj h
    assumption
  · cases h

/-- A Conduit enrolls while Sigil starts, and five seconds pass. -/
def youngMesh : List Move :=
  [.perform 0, .request (.enroll (some "cluster-1")), .perform 1, .tick (5 * second)]

theorem youngMesh_unexpired :
    ∃ events M, Run (Mesh.Step refuseConfig) (.boot (Policy.newEngine demoConfig) (6 * second) 0 0)
        events M ∧ M.gateways ≠ [] ∧ M.sigil.server.now = 5 * second ∧
      ∀ cert, M.Presents cert → ¬ cert.Expired M.sigil.server.now := by
  obtain ⟨events, S, hrun, hclock, hnow, henrolled⟩ :
      ∃ events S, Run (Sigil.Step refuseConfig) shortBoot events S ∧
        clock 0 events ≤ Time.unix (0 + 6 * second) * second ∧ S.server.now = 5 * second ∧
        (enrolledBy S 1).isSome :=
    exists_run (by decide +kernel : (shortBoot.follow refuseConfig _ youngMesh).any _ = true)
  obtain ⟨issued, hissued⟩ := Option.isSome_iff_exists.mp henrolled
  obtain ⟨M, rfl, hmesh⟩ := exists_mesh_run hrun
  have hstarts : Gateway.Starts .egress "cluster-1" issued
      { certStore := applyEnroll .new (enrollResponse issued) "cluster-1"
        tlsCfg := none
        handler := 1 } := ⟨rfl, rfl⟩
  have hfinal := hmesh.next (.conduit (enrolledBy_eq_some hissued) hstarts rfl)
  have hevents := (sigilEvents_conduit (events.map .sigil) .egress "cluster-1" 1).trans
    (sigilEvents_map events)
  refine ⟨_, _, hfinal, by simp, hnow, ?_⟩
  apply (presented_unexpired_iff (Policy.newEngine demoConfig) (6 * second) 0 0 _ _ hfinal).mpr
  rw [hevents]
  exact ⟨inLifetime_of_le hclock, fun g _ => inLifetime_of_le hclock⟩

/-- The scan issues a new certificate for `sigil` after five seconds, and two more pass. -/
def agedListener : List Move :=
  [.perform 0, .tick (5 * second), .scan, .perform 1, .perform 1, .perform 1, .perform 1,
    .tick (2 * second)]

theorem agedListener_expired :
    ¬ ∀ events M, Run (Mesh.Step refuseConfig)
        (.boot (Policy.newEngine demoConfig) (6 * second) 0 0) events M →
      ∀ cert, M.Presents cert → ¬ cert.Expired M.sigil.server.now := by
  intro h
  obtain ⟨events, S, hrun, -, e, he, cert, hcert, hexpired⟩ :
      ∃ events S, Run (Sigil.Step refuseConfig) shortBoot events S ∧
        (∃ row ∈ S.server.certs.rows,
          row.serviceId = "sigil" ∧ S.server.now < row.expiresAt * second) ∧
        ∃ e ∈ events, ∃ cert ∈ serverCertOf e, cert.Expired S.server.now :=
    exists_run (by decide +kernel : (shortBoot.follow refuseConfig _ agedListener).any _ = true)
  obtain ⟨M, rfl, hmesh⟩ := exists_mesh_run hrun
  obtain ⟨svc, cl, ns, dns, c, rfl, rfl⟩ := serverCertOf_eq_some.mp hcert
  have hissued : Issued (sigilEvents (events.map .sigil)) 0 c.certPem := by
    rw [sigilEvents_map]
    exact ⟨svc, cl, ns, dns, c, he, rfl⟩
  exact h _ M hmesh _ (Or.inl (((attested_run hmesh).listener _).mpr hissued)) hexpired

end Conduit

end Meshlite
