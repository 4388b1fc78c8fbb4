import Meshlite.Sigil.Server

/-!
# The handlers of Sigil

Every goroutine of `main.go` that touches the shared state, as a program over its
atomic operations.
-/

namespace Meshlite.Sigil

open Policy Tasks Tasks.Prog

abbrev Handler := Prog Op Op.Res

abbrev call (o : Op) : Handler o.Res := perform o

/-- What a handler leaves behind: nothing, or the answer to its request. -/
inductive Reply where
  | none
  | error (status : ℕ) (text : String)
  | accepted
  | policy (resp : PolicyResp)
  | rotated (serviceId : String) (expiresAtUnix : ℕ)
  | enrolled (issued : IssuedCert)

section Distributor

/-- `send`: look the stream up, then put the push on its channel if there is room. -/
def send (nodeId : String) (push : Proto.AgentPush) : Handler Unit := do
  match ← call (.lookup nodeId) with
  | none => pure ()
  | some sid =>
    let _ ← call (.enqueue sid push)
    pure ()

def pushCert (nodeId : String) (cb : Proto.CertBundle) : Handler Unit := send nodeId (.cert cb)

def pushPolicy (nodeId : String) (snap : PolicySnapshot) : Handler Unit :=
  send nodeId (.policy snap.bundle)

def broadcastPolicy (snap : PolicySnapshot) : Handler Unit := do
  let nodeIds ← call .connectedAgents
  each (fun nodeId => send nodeId (.policy snap.bundle)) nodeIds

/-- The certificate is pushed to every connected agent. -/
def pushCertToAll (cb : Proto.CertBundle) : Handler Unit := do
  let nodeIds ← call .connectedAgents
  each (fun nodeId => pushCert nodeId cb) nodeIds

end Distributor

/-- `Rules()`, `DefaultAllow()` and `MTLSMode()`, read one after the other. -/
def readSnapshot : Handler PolicySnapshot := do
  let rules ← call .rules
  let defaultAllow ← call .defaultAllow
  let mtlsMode ← call .mtlsMode
  pure { rules := protoRules rules, defaultAllow, mtlsMode }

/-- The body of the loop of `OnConnect` over the services of the hello. -/
def connectService (hello : Proto.AgentHello) (svcId : String) : Handler Unit := do
  match ← call (.issue svcId hello.clusterId "default") with
  | .error _ => pure ()
  | .ok issued => pushCert hello.nodeId issued.bundle

/-- `dist.OnConnect`. -/
def onConnect (hello : Proto.AgentHello) : Handler Reply := do
  let snap ← readSnapshot
  pushPolicy hello.nodeId snap
  each (connectService hello) hello.podServiceIds
  pure .none

/-- `POST /api/v1/config` once the body is parsed. -/
def installConfig (newEng : Engine) : Handler Reply := do
  call (.setEngine newEng)
  let snap ← readSnapshot
  broadcastPolicy snap
  pure .accepted

/-- The request body is cut at 1 MB. -/
def configLimit : ℕ := 1048576

def postConfig (unmarshal : List UInt8 → Except String MeshConfig) (body : List UInt8) :
    Handler Reply :=
  match newFromBytes unmarshal (body.take configLimit) with
  | .error err => pure (.error 400 ("invalid config: " ++ err))
  | .ok newEng => installConfig newEng

/-- `GET /api/v1/policy`. -/
def servePolicy : Handler Reply := do
  let mtlsMode ← call .mtlsMode
  let defaultAllow ← call .defaultAllow
  let rules ← call .rules
  pure (.policy { mtlsMode, defaultAllow, rules })

/-- `POST /api/v1/certs/{serviceID}/rotate`. -/
def rotateCert (serviceId : String) : Handler Reply := do
  if serviceId = "" then pure (.error 400 "serviceID required")
  else
    match ← call .listCerts with
    | .error err => pure (.error 500 err)
    | .ok certs =>
      match certs.find? (·.serviceId = serviceId) with
      | none => pure (.error 404 "404 page not found")
      | some current =>
        match ← call (.issue current.serviceId current.clusterId current.nspace) with
        | .error err => pure (.error 500 ("rotate failed: " ++ err))
        | .ok issued =>
          pushCertToAll issued.bundle
          pure (.rotated issued.serviceId issued.expiresAt.unix)

theorem rotateCert_eq {serviceId : String} (hne : serviceId ≠ "") :
    rotateCert serviceId = .op .listCerts fun r => match r with
      | .error err => .ret (.error 500 err)
      | .ok certs => match certs.find? (·.serviceId = serviceId) with
        | none => .ret (.error 404 "404 page not found")
        | some current => .op (.issue current.serviceId current.clusterId current.nspace) fun r =>
          match r with
          | .error err => .ret (.error 500 ("rotate failed: " ++ err))
          | .ok issued => (pushCertToAll issued.bundle).bind fun _ =>
              .ret (.rotated issued.serviceId issued.expiresAt.unix) := by
  unfold rotateCert
  rw [if_neg hne]
  rfl

/-- The body of the rotation loop for one row. -/
def rotateIfDue (c : CertRow) : Handler Unit := do
  let now ← call .now
  if now < c.rotateAt * second then pure ()
  else
    match ← call (.issue c.serviceId c.clusterId c.nspace) with
    | .error _ => pure ()
    | .ok issued => pushCertToAll issued.bundle

theorem rotateIfDue_eq (c : CertRow) :
    rotateIfDue c = .op .now fun now =>
      if now < c.rotateAt * second then .ret ()
      else .op (.issue c.serviceId c.clusterId c.nspace) fun r =>
        match r with
        | .error _ => .ret ()
        | .ok issued => pushCertToAll issued.bundle := by
  unfold rotateIfDue
  rfl

/-- One tick of the rotation loop. -/
def rotationScan : Handler Reply := do
  match ← call .listCerts with
  | .error _ => pure .none
  | .ok certs =>
    each rotateIfDue certs
    pure .none

theorem rotationScan_op : rotationScan = .op .listCerts fun r => match r with
    | .error _ => .ret .none
    | .ok rows => (each rotateIfDue rows).bind fun _ => .ret .none := rfl

/-- `registry.ServiceEvent`. -/
structure ServiceEvent where
  serviceId : String
  nodeName : String
  nspace : String
  clusterId : String
  deleted : Bool
  deriving DecidableEq, Repr

def handleServiceEvent (evt : ServiceEvent) : Handler Reply := do
  if evt.deleted then
    let _ ← call (.revoke evt.serviceId)
    pure .none
  else
    match ← call (.issue evt.serviceId evt.clusterId evt.nspace) with
    | .error _ => pure .none
    | .ok issued =>
      pushCert evt.nodeName issued.bundle
      pure .none

/-- `POST /api/v1/enroll-cluster`, with the `cluster_id` its body decodes to. -/
def enrollCluster (clusterId : Option String) : Handler Reply :=
  match clusterId with
  | none => pure (.error 400 "invalid JSON body")
  | some clusterId =>
    if clusterId = "" then pure (.error 400 "cluster_id required")
    else do
      let serviceId := "conduit-" ++ clusterId
      match ← call (.issueWithDns serviceId clusterId "meshlite-system"
          [clusterId, serviceId, "localhost"]) with
      | .error err => pure (.error 500 ("issue failed: " ++ err))
      | .ok issued => pure (.enrolled issued)

/-- The certificate of Sigil's own listener, issued before it serves. -/
def issueServerCert (clusterId : String) : Handler Reply := do
  let _ ← call (.issueWithDns "sigil" clusterId "meshlite-system"
    ["sigil.meshlite-system.svc.cluster.local", "sigil.meshlite-system.svc",
      "sigil.meshlite-system", "sigil", "localhost"])
  pure .none

/-- What can arrive from outside, agents' hellos apart. -/
inductive Request where
  | postConfig (body : List UInt8)
  | getPolicy
  | rotate (serviceId : String)
  | serviceEvent (evt : ServiceEvent)
  | enroll (clusterId : Option String)

def handler (unmarshal : List UInt8 → Except String MeshConfig) : Request → Handler Reply
  | .postConfig body => postConfig unmarshal body
  | .getPolicy => servePolicy
  | .rotate serviceId => rotateCert serviceId
  | .serviceEvent evt => handleServiceEvent evt
  | .enroll clusterId => enrollCluster clusterId

end Meshlite.Sigil
