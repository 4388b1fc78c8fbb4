import Mathlib.Tactic

/-!
# The messages of `sigil.proto`

PEM blocks are carried as the certificate or key they encode. Times are
nanoseconds since the Unix epoch; `unix` is Go's `Time.Unix`.
-/

namespace Meshlite

/-- Nanoseconds since the Unix epoch. -/
abbrev Time := ℕ

/-- A span of time in nanoseconds, as Go's `time.Duration`. -/
abbrev Duration := ℕ

def second : Duration := 1000000000

/-- `Time.Unix`: whole seconds, rounded down. -/
def Time.unix (t : Time) : ℕ := t / second

namespace Proto

/-- Names a key pair; a private key is its pair. -/
abbrev KeyId := ℕ

/-- The fields of an issued X.509 certificate that `ca.go` sets. -/
structure Certificate where
  serialNumber : ℕ
  commonName : String
  uri : String
  dnsNames : List String
  notBefore : Time
  notAfter : Time
  publicKey : KeyId
  deriving DecidableEq, Repr

structure CertBundle where
  serviceId : String
  serviceCertPem : Certificate
  rootCaPem : KeyId
  expiresAtUnix : ℕ
  rotateAtUnix : ℕ
  keyPem : KeyId
  deriving DecidableEq, Repr

structure AllowRule where
  fromService : String
  toServices : List String
  deriving DecidableEq, Repr

structure PolicyBundle where
  rules : List AllowRule
  defaultAllow : Bool
  mtlsMode : String
  deriving DecidableEq, Repr

structure AgentHello where
  nodeId : String
  clusterId : String
  podServiceIds : List String
  deriving DecidableEq, Repr

/-- The payload of an `AgentPush`. -/
inductive AgentPush where
  | cert (bundle : CertBundle)
  | policy (bundle : PolicyBundle)
  deriving DecidableEq, Repr

end Proto

end Meshlite
