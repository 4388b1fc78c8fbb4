import Meshlite.Sigil.Delivery
import Meshlite.Sigil.Rotation

/-!
# Whether agents hold valid certificates

A certificate issued again moves `rotate_at` of its service, so the scans wait for it,
while the agents it is not pushed to keep the one that expires earlier. Where every agent
left with such a certificate is still to be sent a new one, no agent's last certificate
expires.
-/

namespace Meshlite.Sigil

open Policy Tasks Tasks.Prog Runs

def Event.granted : Event → Bool
  | .perform _ o r => o.granted r
  | _ => true

/-- The node is connected and declared the service in its hello. -/
def Declared (S : System) (svc node : String) (sid : ℕ) (st : AgentStream) : Prop :=
  S.server.dist.Serving node sid st ∧ svc ∈ st.hello.podServiceIds

/-- A certificate that expires more than five seconds after the rotation is due. -/
def Outlasts (rotateAt : ℕ) (last : Option Proto.AgentPush) : Prop :=
  ∃ cb, last = some (.cert cb) ∧ rotateAt + 5 < cb.expiresAtUnix

/-- The push is no expired certificate. -/
def Unexpired (now : Time) : Proto.AgentPush → Prop
  | .cert cb => now < cb.expiresAtUnix * second
  | .policy _ => True

/-- What holds of Sigil as long as every step is as above. -/
structure Fresh (S : System) : Prop where
  ttl : 30 * second ≤ S.server.leafTtl
  scanned : S.server.lastScan ≤ S.server.now
  rows : ∀ row ∈ S.server.certs.rows, row.rotateAt ≤ S.server.rotateAt
  inFlight : ∀ p ∈ S.tasks,
    p.Always (Grants fun s => s.now = S.server.now ∧ s.leafTtl = S.server.leafTtl)
      fun o _ => PushesFresh S.server.expiresAt o
  due : ∀ row ∈ S.server.certs.rows, S.server.lastScan < row.rotateAt * second ∨
    ∃ p ∈ S.tasks, WillRotate S.server.now row p
  listed : ∀ svc node sid st, Declared S svc node sid st →
    (∃ row ∈ S.server.certs.rows, row.serviceId = svc) ∨
      ∃ p ∈ S.tasks, WillIssue S.server.now svc p
  awaited : ∀ svc node sid st, Declared S svc node sid st →
    (lastAbout (some svc) st.pushed).isSome ∨
      ∃ p ∈ S.tasks, WillPushCert S.server.now node sid svc p
  held : ∀ svc node sid st, Declared S svc node sid st →
    ∀ row ∈ S.server.certs.rows, row.serviceId = svc →
      Outlasts row.rotateAt (lastAbout (some svc) st.pushed) ∨
        ∃ p ∈ S.tasks, WillPushCert S.server.now node sid svc p
  queued : ∀ node sid st, S.server.dist.Serving node sid st →
    ∀ push ∈ st.sends, Unexpired S.server.now push
  delivered : ∀ svc node sid st, Declared S svc node sid st → ∀ push,
    lastAbout (some svc) st.delivered = some push → Unexpired S.server.now push

section Steps

variable {unmarshal : List UInt8 → Except String MeshConfig} {S S' : System} {e : Event}

theorem Step.mem_rows (h : Step unmarshal S e S') (hg : e.granted = true) {row : CertRow}
    (hrow : row ∈ S'.server.certs.rows) :
    (row ∈ S.server.certs.rows ∧ ∀ i o r, e = .perform i o r → ¬ IssuesFor row.serviceId o) ∨
      (∃ i o r, e = .perform i o r ∧ IssuesFor row.serviceId o) ∧
        row.rotateAt = S.server.rotateAt := by
  by_cases hperf : ∃ i o r, e = .perform i o r
  · obtain ⟨i, o, r, rfl⟩ := hperf
    rcases h.exec.mem_rows hg hrow with ⟨hold, hne⟩ | ⟨hissue, hrot⟩
    · refine Or.inl ⟨hold, ?_⟩
      rintro i' o' r' he
      cases he
      exact hne
    · exact Or.inr ⟨⟨i, o, r, rfl, hissue⟩, hrot⟩
  · rw [h.certs_eq fun i o r he => hperf ⟨i, o, r, he⟩] at hrow
    exact Or.inl ⟨hrow, fun i o r he => absurd ⟨i, o, r, he⟩ hperf⟩

theorem Step.declared (h : Step unmarshal S e S') {svc node : String} {sid : ℕ}
    {st' : AgentStream} (hst : Declared S' svc node sid st') :
    (∃ st, Declared S svc node sid st ∧ st'.pushed = st.pushed ++ e.pushesTo sid ∧
        st'.delivered = st.delivered ++ e.deliversTo sid) ∨
      ∃ hello, e = .subscribe hello ∧ hello.nodeId = node ∧ svc ∈ hello.podServiceIds ∧
        st' = .start hello := by
  rcases h.serving hst.1 with ⟨st, hold, hhello, hpushed, hdel⟩ | ⟨hello, rfl, hnode, -, rfl⟩
  · exact Or.inl ⟨st, ⟨hold, hhello ▸ hst.2⟩, hpushed, hdel⟩
  · exact Or.inr ⟨hello, rfl, hnode.symm, hst.2, rfl⟩

/-- A certificate put on a channel expires as one issued now. -/
theorem expiresAt_of_pushed {i : ℕ} {sid : ℕ} {cb : Proto.CertBundle} {ok : Bool}
    (h : Step unmarshal S (.perform i (.enqueue sid (.cert cb)) ok) S') (hS : Fresh S) :
    cb.expiresAtUnix = S.server.expiresAt := by
  cases h with
  | perform hperf hexec =>
    obtain ⟨k, hfresh, -⟩ := hperf.holds hS.inFlight
    exact hfresh

theorem unexpired_step (h : Step unmarshal S e S') (hS : Fresh S) {node : String} {sid : ℕ}
    {st : AgentStream} (hst : S.server.dist.Serving node sid st) :
    ∀ push ∈ st.sends ++ e.pushesTo sid, Unexpired S.server.now push := by
  intro push hmem
  rcases List.mem_append.mp hmem with hold | hnew
  · exact hS.queued node sid st hst push hold
  · obtain ⟨i, rfl⟩ := Event.mem_pushesTo.mp hnew
    cases push with
    | policy pb => trivial
    | cert cb =>
      change S.server.now < cb.expiresAtUnix * second
      rw [expiresAt_of_pushed h hS]
      exact Server.now_lt_expiresAt hS.ttl

theorem delivered_step (h : Step unmarshal S e S') (he : ∀ d, e ≠ .tick d) (hS : Fresh S)
    {svc node : String} {sid : ℕ} {st' : AgentStream} (hst : Declared S' svc node sid st')
    {push : Proto.AgentPush} (hlast : lastAbout (some svc) st'.delivered = some push) :
    Unexpired S'.server.now push := by
  rw [h.now_eq he]
  rcases h.declared hst with ⟨st, hold, hpushed, hdel⟩ | ⟨hello, -, -, -, rfl⟩
  · rw [hdel] at hlast
    rcases lastAbout_append_some hlast with hmem | hlast
    · have hsends := Step.serving_sends hpushed hdel
      apply unexpired_step h hS hold.1
      rw [← hsends]
      exact List.mem_append_left _ hmem
    · exact hS.delivered svc node sid st hold push hlast
  · nomatch hlast

end Steps

section Tick

variable {unmarshal : List UInt8 → Except String MeshConfig} {S S' : System} {d : Duration}

end Tick

section Runs

variable {unmarshal : List UInt8 → Except String MeshConfig} {S S' : System} {e : Event}

end Runs

variable {unmarshal : List UInt8 → Except String MeshConfig}

def alphaHello (node : String) : Proto.AgentHello where
  nodeId := node
  clusterId := "cluster-1"
  podServiceIds := ["alpha"]

/-- The stream of `node-1` is serving and declared `alpha`. -/
def AlphaServing (S : System) : Prop :=
  S.server.dist.streams.lookup "node-1" = some 0 ∧
    (S.server.dist.opened[0]?.map fun st => (st.phase, st.hello)) =
      some (.serving, alphaHello "node-1")

instance (S : System) : Decidable (AlphaServing S) := inferInstanceAs (Decidable (_ ∧ _))

theorem AlphaServing.declared {S : System} (h : AlphaServing S) :
    ∃ st, Declared S "alpha" "node-1" 0 st := by
  obtain ⟨st, hopen, hst⟩ := Option.map_eq_some_iff.mp h.2
  obtain ⟨hphase, hhello⟩ := Prod.mk.inj hst
  refine ⟨st, ⟨h.1, hopen, hphase⟩, ?_⟩
  rw [hhello]
  exact List.mem_singleton_self _

instance (now : Time) (push : Proto.AgentPush) : Decidable (Unexpired now push) :=
  match push with
  | .cert cb => inferInstanceAs (Decidable (now < cb.expiresAtUnix * second))
  | .policy _ => isTrue trivial

end Meshlite.Sigil
