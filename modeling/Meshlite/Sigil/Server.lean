import Meshlite.Library.Escapes
import Meshlite.Library.Tasks
import Meshlite.Policy.Export
import Meshlite.Sigil.CertTable
import Meshlite.Sigil.Distributor

/-!
# The shared state of Sigil

The engine, the certificate authority, the distributor and the clock, and the atomic
operations on them. What one call of a handler does under a lock, in one database
statement or on a channel is one operation.
-/

namespace Meshlite.Sigil

open Policy

/-- `IssuedCert`; a root certificate is named by its key. -/
structure IssuedCert where
  serviceId : String
  clusterId : String
  nspace : String
  certPem : Proto.Certificate
  keyPem : Proto.KeyId
  rootCaPem : Proto.KeyId
  expiresAt : Time
  rotateAt : Time
  serialNumber : ℕ
  deriving DecidableEq, Repr

/-- The `CertBundle` every caller of `Issue` builds for `PushCert`. -/
def IssuedCert.bundle (c : IssuedCert) : Proto.CertBundle where
  serviceId := c.serviceId
  serviceCertPem := c.certPem
  rootCaPem := c.rootCaPem
  expiresAtUnix := c.expiresAt.unix
  rotateAtUnix := c.rotateAt.unix
  keyPem := c.keyPem

/-- The row `persistCert` writes. -/
def IssuedCert.row (c : IssuedCert) : CertRow where
  serial := c.serialNumber
  serviceId := c.serviceId
  clusterId := c.clusterId
  nspace := c.nspace
  certPem := c.certPem
  expiresAt := c.expiresAt.unix
  rotateAt := c.rotateAt.unix

def spiffeScheme : String := "spiffe"

def spiffeTrustDomain : String := "meshlite.local"

def buildSpiffeUri (clusterId nspace serviceId : String) : String :=
  spiffeScheme ++ "://" ++ spiffeTrustDomain ++ "/cluster/" ++ clusterId ++ "/ns/" ++ nspace ++
    "/svc/" ++ serviceId

/-- Scheme and host of every SPIFFE URI, which parsing leaves as they are. -/
def spiffeOrigin : String := spiffeScheme ++ "://" ++ spiffeTrustDomain

/-- What stands behind the host in the URI of a service. -/
def spiffePath (clusterId nspace serviceId : String) : List Char :=
  (buildSpiffeUri clusterId nspace serviceId).toList.drop spiffeOrigin.length

/-- The URI of the certificate: `url.Parse` reads what `buildSPIFFEURI` wrote, and
`CreateCertificate` writes the parsed URL with `String`. -/
def certUri (clusterId nspace serviceId : String) : String :=
  spiffeOrigin ++
    .ofList (Escapes.Reference.ofText (spiffePath clusterId nspace serviceId)).string

/-- `rotateAt` of the TTL, truncated to nanoseconds: exactly 0.8 of it, where the source
multiplies in float64. -/
def rotateDelay (leafTtl : Duration) : Duration := leafTtl * 4 / 5

structure Server where
  eng : Engine
  leafTtl : Duration
  rootKey : Proto.KeyId
  certs : CertTable
  dist : Distributor
  now : Time
  /-- when the rotation ticker fired last -/
  lastScan : Time

/-- The atomic operations of the handlers. -/
inductive Op where
  | rules
  | defaultAllow
  | mtlsMode
  | setEngine (eng : Engine)
  | now
  | issue (serviceId clusterId nspace : String)
  | issueWithDns (serviceId clusterId nspace : String) (dnsNames : List String)
  | revoke (serviceId : String)
  | listCerts
  | connectedAgents
  | lookup (nodeId : String)
  | enqueue (stream : ℕ) (push : Proto.AgentPush)

/-- What an operation answers; a call of the authority can fail. -/
@[reducible] def Op.Res : Op → Type
  | rules => List AllowRule
  | defaultAllow => Bool
  | mtlsMode => String
  | setEngine _ => Unit
  | now => Time
  | issue _ _ _ => Except String IssuedCert
  | issueWithDns _ _ _ _ => Except String IssuedCert
  | revoke _ => Except String Unit
  | listCerts => Except String (List CertRow)
  | connectedAgents => List String
  | lookup _ => Option ℕ
  | enqueue _ _ => Bool

/-- The operations that write the certificate table. -/
def Op.WritesCerts : Op → Prop
  | issue _ _ _ | issueWithDns _ _ _ _ | revoke _ => True
  | _ => False

namespace Server

/-- The certificate signed at the current time. -/
def newCert (s : Server) (serviceId clusterId nspace : String) (dnsNames : List String)
    (serial : ℕ) (key : Proto.KeyId) : IssuedCert where
  serviceId := serviceId
  clusterId := clusterId
  nspace := nspace
  certPem :=
    { serialNumber := serial
      commonName := serviceId
      uri := certUri clusterId nspace serviceId
      dnsNames := dnsNames
      notBefore := s.now
      notAfter := s.now + s.leafTtl
      publicKey := key }
  keyPem := key
  rootCaPem := s.rootKey
  expiresAt := s.now + s.leafTtl
  rotateAt := s.now + rotateDelay s.leafTtl
  serialNumber := serial

/-- `Issue` and `IssueWithDNS` once they succeed. The serial number is 128 random bits,
taken not to repeat one of the table. -/
def Issues (s : Server) (serviceId clusterId nspace : String) (dnsNames : List String)
    (c : IssuedCert) (s' : Server) : Prop :=
  (∃ serial key, (∀ row ∈ s.certs.rows, row.serial ≠ serial) ∧
      c = s.newCert serviceId clusterId nspace dnsNames serial key) ∧
    s' = { s with certs := s.certs.insertOrReplace c.row }

/-- The effect of an operation, with its answer. -/
def Exec (s : Server) : (o : Op) → o.Res → Server → Prop
  | .rules, r, s' => (∃ order, r = s.eng.rules order) ∧ s' = s
  | .defaultAllow, r, s' => r = s.eng.defaultAllow ∧ s' = s
  | .mtlsMode, r, s' => r = s.eng.mtlsMode ∧ s' = s
  | .setEngine eng, _, s' => s' = { s with eng }
  | .now, r, s' => r = s.now ∧ s' = s
  | .issue svc cl ns, .ok c, s' => s.Issues svc cl ns [] c s'
  | .issueWithDns svc cl ns dns, .ok c, s' => s.Issues svc cl ns dns c s'
  | .revoke svc, .ok _, s' => s' = { s with certs := s.certs.delete svc }
  | .listCerts, .ok certs, s' => certs = s.certs.list ∧ s' = s
  | .issue _ _ _, .error _, s' => s' = s
  | .issueWithDns _ _ _ _, .error _, s' => s' = s
  | .revoke _, .error _, s' => s' = s
  | .listCerts, .error _, s' => s' = s
  | .connectedAgents, r, s' => List.Perm r s.dist.streams.keys ∧ s' = s
  | .lookup node, r, s' => r = s.dist.streams.lookup node ∧ s' = s
  | .enqueue sid push, r, s' => ∃ st, s.dist.opened[sid]? = some st ∧
      r = decide (st.sends.length < sendCapacity) ∧
      s' = if r then { s with dist := s.dist.enqueue sid push } else s

/-- The answers operations can get from servers of which `I` holds. -/
def Answers (I : Server → Prop) (o : Op) (r : o.Res) : Prop := ∃ s s', I s ∧ s.Exec o r s'

/-- What an operation can change, said once: nothing, the engine, the table, one channel. -/
theorem Exec.effect {s s' : Server} {o : Op} {r : o.Res} (h : s.Exec o r s') :
    s' = s ∨ (∃ eng, o = .setEngine eng ∧ s' = { s with eng }) ∨
      (∃ certs, o.WritesCerts ∧ s' = { s with certs }) ∨
      ∃ sid push, o = .enqueue sid push ∧ s' = { s with dist := s.dist.enqueue sid push } := by
  have hcerts : ∀ svc cl ns dns c, s.Issues svc cl ns dns c s' → o.WritesCerts →
      ∃ certs, o.WritesCerts ∧ s' = { s with certs } := by
    rintro svc cl ns dns c ⟨-, rfl⟩ hw
    exact ⟨_, hw, rfl⟩
  cases o with
  | setEngine eng => exact Or.inr (Or.inl ⟨eng, rfl, h⟩)
  | issue svc cl ns =>
    cases r with
    | error err => exact Or.inl h
    | ok c => exact Or.inr (Or.inr (Or.inl (hcerts _ _ _ _ _ h trivial)))
  | issueWithDns svc cl ns dns =>
    cases r with
    | error err => exact Or.inl h
    | ok c => exact Or.inr (Or.inr (Or.inl (hcerts _ _ _ _ _ h trivial)))
  | revoke svc =>
    cases r with
    | error err => exact Or.inl h
    | ok u => exact Or.inr (Or.inr (Or.inl ⟨_, trivial, h⟩))
  | listCerts =>
    cases r with
    | error err => exact Or.inl h
    | ok certs => exact Or.inl h.2
  | enqueue sid push =>
    obtain ⟨st, -, -, hs'⟩ := h
    split_ifs at hs'
    · exact Or.inr (Or.inr (Or.inr ⟨sid, push, rfl, hs'⟩))
    · exact Or.inl hs'
  | rules => exact Or.inl h.2
  | defaultAllow => exact Or.inl h.2
  | mtlsMode => exact Or.inl h.2
  | now => exact Or.inl h.2
  | connectedAgents => exact Or.inl h.2
  | lookup node => exact Or.inl h.2

variable {s s' : Server} {o : Op} {r : o.Res}

theorem Exec.dist_eq (h : s.Exec o r s') (ho : ∀ sid push, o ≠ .enqueue sid push) :
    s'.dist = s.dist := by
  rcases h.effect with rfl | ⟨eng, -, rfl⟩ | ⟨certs, -, rfl⟩ | ⟨sid, push, rfl, -⟩
  · rfl
  · rfl
  · rfl
  · exact absurd rfl (ho sid push)

theorem Exec.clock_eq (h : s.Exec o r s') :
    s'.now = s.now ∧ s'.lastScan = s.lastScan ∧ s'.leafTtl = s.leafTtl := by
  rcases h.effect with rfl | ⟨eng, -, rfl⟩ | ⟨certs, -, rfl⟩ | ⟨sid, push, -, rfl⟩ <;>
    exact ⟨rfl, rfl, rfl⟩

theorem Exec.eng_eq (h : s.Exec o r s') (ho : ∀ eng, o ≠ .setEngine eng) : s'.eng = s.eng := by
  rcases h.effect with rfl | ⟨eng, rfl, -⟩ | ⟨certs, -, rfl⟩ | ⟨sid, push, -, rfl⟩
  · rfl
  · exact absurd rfl (ho eng)
  · rfl
  · rfl

theorem Exec.certs_eq (h : s.Exec o r s') (ho : ¬ o.WritesCerts) : s'.certs = s.certs := by
  rcases h.effect with rfl | ⟨eng, -, rfl⟩ | ⟨certs, hw, -⟩ | ⟨sid, push, -, rfl⟩
  · rfl
  · rfl
  · exact absurd hw ho
  · rfl

end Server

end Meshlite.Sigil
