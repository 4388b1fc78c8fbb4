import Meshlite.Library.FirstMatch
import Meshlite.Proto.Messages

/-!
# The policy cache of the agents

The Rust crate shared by the kprobe agent and the Conduit gateway. `is_allowed`
stops at the first rule of the source; `is_allowed_destination` ignores sources.
-/

namespace Meshlite.Tls

structure AllowRule where
  fromService : String
  toServices : List String
  deriving DecidableEq, Repr

structure PolicyCache where
  rules : List AllowRule
  defaultAllow : Bool
  mtlsMode : String
  deriving DecidableEq, Repr

namespace PolicyCache

/-- The cache before the first bundle: allow everything. -/
def new : PolicyCache where
  rules := []
  defaultAllow := true
  mtlsMode := "off"

def update (_self : PolicyCache) (rules : List AllowRule) (defaultAllow : Bool)
    (mtlsMode : String) : PolicyCache :=
  { rules, defaultAllow, mtlsMode }

/-- The first rule whose source is `fromSvc` decides; a destination it does not
list is denied even when `defaultAllow` is set. -/
def isAllowed (self : PolicyCache) (fromSvc toSvc : String) : Bool :=
  FirstMatch.scan AllowRule.fromService AllowRule.toServices self.defaultAllow fromSvc toSvc
    self.rules

def isAllowedDestination (self : PolicyCache) (toSvc : String) : Bool :=
  self.rules.any (fun rule => rule.toServices.any (· = toSvc)) || self.defaultAllow

end PolicyCache

/-- `apply_policy_bundle`: every pushed bundle replaces the whole cache. -/
def applyPolicyBundle (pb : Proto.PolicyBundle) (cache : PolicyCache) : PolicyCache :=
  cache.update (pb.rules.map fun r => { fromService := r.fromService, toServices := r.toServices })
    pb.defaultAllow pb.mtlsMode

end Meshlite.Tls
