import Meshlite.Library.DerivedSet
import Meshlite.Sigil.Revocation

/-!
# The pod registry

Every change of a pod is reconciled: a Running pod on a node has a certificate issued
for its app label, and a pod that is gone has the service of its own name revoked, since
its label is not known any more. The table matches the pods as long as a pod is named as
its label and no other pod needs that certificate.
-/

namespace Meshlite.Sigil

open Tasks Tasks.Prog Runs DerivedSet

/-- `types.NamespacedName`. -/
structure NamespacedName where
  nspace : String
  name : String
  deriving DecidableEq, Repr

inductive PodPhase where
  | pending
  | running
  | succeeded
  | failed
  | unknown
  deriving DecidableEq, Repr

/-- What `Reconcile` reads of a pod. -/
structure Pod where
  nspace : String
  labels : AList fun _ : String => String
  phase : PodPhase
  nodeName : String

/-- The app label; a pod without one has the empty label. -/
def Pod.serviceId (pod : Pod) : String := (pod.labels.lookup "app").getD ""

/-- The pod is Running with a node assigned. -/
def Pod.runs (pod : Pod) : Bool := pod.phase = .running ∧ pod.nodeName ≠ ""

inductive GetError where
  | notFound
  | other (text : String)

/-- `Registry.Reconcile`: the event it hands to its handler, if any. -/
def reconcile (clusterId : String) (req : NamespacedName) :
    Except GetError Pod → Except String (Option ServiceEvent)
  | .error .notFound =>
    .ok (some
      { serviceId := req.name
        nodeName := ""
        nspace := req.nspace
        clusterId
        deleted := true })
  | .error (.other text) => .error ("registry: get pod: " ++ text)
  | .ok pod =>
    if pod.serviceId = "" then .ok none
    else if pod.phase ≠ .running ∨ pod.nodeName = "" then .ok none
    else
      .ok (some
        { serviceId := pod.serviceId
          nodeName := pod.nodeName
          nspace := pod.nspace
          clusterId
          deleted := false })

/-- An existing pod, and whether `Reconcile` has seen it Running with a node. -/
structure Tracked where
  pod : Pod
  seen : Bool

inductive PodChange where
  | created (pod : Pod)
  | updated (phase : PodPhase) (nodeName : String)
  | deleted

namespace PodChange

def Fits : PodChange → Option Tracked → Prop
  | created _, t => t = none
  | updated _ _, t | deleted, t => t ≠ none

def apply : PodChange → Option Tracked → Option Tracked
  | created pod, _ => some { pod, seen := pod.runs }
  | updated phase nodeName, t => t.map fun t =>
      { pod := { t.pod with phase, nodeName }
        seen := t.seen || Pod.runs { t.pod with phase, nodeName } }
  | deleted, _ => none

end PodChange

/-- A change of a pod, and whether the authority fails in the handling of it. -/
structure PodEvent where
  key : NamespacedName
  change : PodChange
  fails : Bool

/-- The call of the authority fails. -/
def Op.fails : (o : Op) → o.Res → Bool
  | issue _ _ _, r => !r.isOk
  | issueWithDns _ _ _ _, r => !r.isOk
  | revoke _, r => !r.isOk
  | _, _ => false

/-- `Exec` with the authority failing or not. -/
def Server.ExecIf (fails : Bool) (s : Server) (o : Op) (r : o.Res) (s' : Server) : Prop :=
  s.Exec o r s' ∧ (o.WritesCerts → o.fails r = fails)

/-- The pods of the cluster and Sigil's shared state. -/
structure Registry where
  pods : NamespacedName → Option Tracked
  server : Server

namespace Registry

/-- No pods and no certificates. -/
def start (s : Server) : Registry where
  pods := fun _ => none
  server := { s with certs := .empty }

def get (R : Registry) (key : NamespacedName) : Except GetError Pod :=
  match R.pods key with
  | none => .error .notFound
  | some t => .ok t.pod

/-- A pod changes and is reconciled. -/
def Step (clusterId : String) (R : Registry) (e : PodEvent) (R' : Registry) : Prop :=
  e.change.Fits (R.pods e.key) ∧
    R'.pods = Function.update R.pods e.key (e.change.apply (R.pods e.key)) ∧
    match reconcile clusterId e.key (R'.get e.key) with
    | .ok (some evt) => ∃ reply,
        (handleServiceEvent evt).Completes (Server.ExecIf e.fails) R.server reply R'.server
    | _ => R'.server = R.server

end Registry

/-- The pod has this app label and was seen Running with a node; an empty label is none. -/
def Tracked.Shows (t : Tracked) (svc : String) : Prop :=
  t.pod.serviceId = svc ∧ svc ≠ "" ∧ t.seen = true

namespace Registry

/-- A service has a certificate just when some existing pod shows it. -/
def Exact (R : Registry) : Prop :=
  ∀ svc, Listed svc R.server ↔ ∃ key t, R.pods key = some t ∧ t.Shows svc

/-- An existing pod other than the one named shows the service. -/
def ShownByOther (R : Registry) (key : NamespacedName) (svc : String) : Prop :=
  ∃ key' t, key' ≠ key ∧ R.pods key' = some t ∧ t.Shows svc

/-- What the event asks of the authority is what the pods need. -/
def Tracks (R : Registry) (e : PodEvent) : Prop :=
  match e.change with
  | .created _ | .updated _ _ => ∀ t, e.change.apply (R.pods e.key) = some t →
      t.pod.runs = true → t.pod.serviceId ≠ "" → e.fails = true →
      ∃ key t', R.pods key = some t' ∧ t'.Shows t.pod.serviceId
  | .deleted =>
      (e.fails = false → ¬ R.ShownByOther e.key e.key.name) ∧
      ∀ t svc, R.pods e.key = some t → t.Shows svc →
        e.fails = false ∧ svc = e.key.name ∨ R.ShownByOther e.key svc

end Registry

section Rows

/-- The services that have a certificate. -/
def rows (s : Server) : Set String := {svc | Listed svc s}

variable {s s' : Server} {fails : Bool}

theorem rows_issues {svc cl ns : String} {dns : List String} {c : IssuedCert}
    (h : s.Issues svc cl ns dns c s') : rows s' = add (rows s) (some svc) := by
  ext x
  simp only [rows, add, Set.mem_ofPred_eq, Server.listed_iff, h.mem_rows, Option.some.injEq]
  constructor
  · rintro ⟨row, rfl | ⟨hold, -⟩, rfl⟩
    · exact Or.inl h.row_eq.1.symm
    · exact Or.inr ⟨row, hold, rfl⟩
  · rintro (rfl | ⟨row, hold, rfl⟩)
    · exact ⟨c.row, Or.inl rfl, h.row_eq.1⟩
    · by_cases heq : row.serviceId = svc
      · exact ⟨c.row, Or.inl rfl, h.row_eq.1.trans heq.symm⟩
      · exact ⟨row, Or.inr ⟨hold, heq⟩, rfl⟩

theorem rows_delete (s : Server) (svc : String) :
    rows { s with certs := s.certs.delete svc } = remove (rows s) (some svc) := by
  ext x
  simp only [rows, remove, Set.mem_ofPred_eq, Server.listed_iff, CertTable.mem_delete, ne_eq,
    Option.some.injEq]
  constructor
  · rintro ⟨row, ⟨hrow, hne⟩, rfl⟩
    exact ⟨⟨row, hrow, rfl⟩, Ne.symm hne⟩
  · rintro ⟨⟨row, hrow, rfl⟩, hne⟩
    exact ⟨row, ⟨hrow, Ne.symm hne⟩, rfl⟩

theorem certs_of_pushCert {node : String} {cb : Proto.CertBundle} {reply : Reply}
    (h : ((pushCert node cb).bind fun _ => .ret .none).Completes (Server.ExecIf fails) s reply s') :
    s'.certs = s.certs := by
  refine h.invariant (fun _ _ => True) (I := fun t => t.certs = s.certs)
    (Q := fun o => ¬ o.WritesCerts) (fun _ _ _ _ _ _ => trivial) ?_ ?_ rfl
  · intro t o r t' ho hexec ht
    rw [hexec.1.certs_eq ho, ht]
  · refine ⟨id, fun r _ => ?_⟩
    cases r with
    | none => trivial
    | some sid => exact ⟨id, fun _ _ => trivial⟩

/-- What the handler of an event does to the services. -/
theorem rows_handled {evt : ServiceEvent} {reply : Reply}
    (h : (handleServiceEvent evt).Completes (Server.ExecIf fails) s reply s') :
    rows s' = if fails then rows s
      else if evt.deleted then remove (rows s) (some evt.serviceId)
      else add (rows s) (some evt.serviceId) := by
  unfold handleServiceEvent at h
  split_ifs at h with hdel
  · obtain ⟨r, s₁, ⟨hexec, hfails⟩, -, rfl⟩ := h
    have hr := hfails trivial
    rw [if_pos hdel]
    cases r with
    | error err =>
      obtain rfl : s' = s := hexec
      exact (if_pos hr.symm).symm
    | ok u =>
      obtain rfl : s' = { s with certs := s.certs.delete evt.serviceId } := hexec
      obtain rfl : false = fails := hr
      exact rows_delete s evt.serviceId
  · obtain ⟨r, s₁, ⟨hexec, hfails⟩, hrest⟩ := h
    have hr := hfails trivial
    rw [if_neg hdel]
    cases r with
    | error err =>
      obtain rfl : s₁ = s := hexec
      obtain ⟨-, rfl⟩ := hrest
      exact (if_pos hr.symm).symm
    | ok c =>
      obtain rfl : false = fails := hr
      have hcerts : s'.certs = s₁.certs := certs_of_pushCert hrest
      have hissue : s.Issues evt.serviceId evt.clusterId evt.nspace [] c s₁ := hexec
      rw [if_neg Bool.false_ne_true, ← rows_issues hissue]
      simp only [rows, Listed, hcerts]

end Rows

/-- The service a pod shows. -/
def Tracked.item (t : Tracked) : Option String :=
  if t.pod.serviceId ≠ "" ∧ t.seen = true then some t.pod.serviceId else none

/-- The service a certificate is issued for when the pod is reconciled. -/
def Pod.wanted (pod : Pod) : Option String := Tracked.item { pod, seen := pod.runs }

theorem Tracked.item_eq_some {t : Tracked} {svc : String} : t.item = some svc ↔ t.Shows svc := by
  unfold Tracked.item Tracked.Shows
  split_ifs with h
  · rw [Option.some.injEq]
    constructor
    · rintro rfl
      exact ⟨rfl, h.1, h.2⟩
    · exact fun hs => hs.1
  · constructor
    · intro hs
      cases hs
    · rintro ⟨rfl, hne, hseen⟩
      exact absurd ⟨hne, hseen⟩ h

theorem Pod.wanted_eq_some {pod : Pod} {svc : String} :
    pod.wanted = some svc ↔ pod.serviceId = svc ∧ svc ≠ "" ∧ pod.runs = true :=
  Tracked.item_eq_some

theorem reconcile_found (clusterId : String) (req : NamespacedName) (pod : Pod) :
    reconcile clusterId req (.ok pod) =
      .ok (pod.wanted.map fun svc =>
        { serviceId := svc
          nodeName := pod.nodeName
          nspace := pod.nspace
          clusterId
          deleted := false }) := by
  unfold reconcile Pod.wanted Tracked.item Pod.runs
  by_cases hsvc : pod.serviceId = ""
  · simp [hsvc]
  · by_cases hrun : pod.phase ≠ .running ∨ pod.nodeName = ""
    · have hseen : ¬ (pod.phase = .running ∧ pod.nodeName ≠ "") := by tauto
      simp [hsvc, hrun, hseen]
    · have hseen : pod.phase = .running ∧ pod.nodeName ≠ "" := by tauto
      simp [hsvc, hseen]

/-- After a change a pod shows what it is wanted for now and what it showed before. -/
theorem PodChange.apply_item {change : PodChange} {old : Option Tracked} (h : change.Fits old)
    (hdel : change ≠ .deleted) : ∃ t, change.apply old = some t ∧
      ∀ svc, t.item = some svc ↔ t.pod.wanted = some svc ∨ old.bind Tracked.item = some svc := by
  cases change with
  | created pod =>
    obtain rfl : old = none := h
    refine ⟨_, rfl, fun svc => ?_⟩
    rw [Option.bind_none, iff_false_intro (Option.some_ne_none svc).symm, or_false]
    rfl
  | updated phase nodeName =>
    obtain ⟨t, rfl⟩ := Option.ne_none_iff_exists'.mp h
    refine ⟨_, rfl, fun svc => ?_⟩
    have hlabel : ({ t.pod with phase, nodeName } : Pod).serviceId = t.pod.serviceId := rfl
    rw [Option.bind_some, Tracked.item_eq_some, Pod.wanted_eq_some, Tracked.item_eq_some]
    simp only [Tracked.Shows, hlabel, Bool.or_eq_true]
    tauto
  | deleted => exact absurd rfl hdel

namespace Registry

variable {clusterId : String} {R R' : Registry} {e : PodEvent}

theorem Step.rows_found (h : R.Step clusterId e R') {t : Tracked} (ht : R'.pods e.key = some t) :
    rows R'.server =
      if e.fails then rows R.server else add (rows R.server) t.pod.wanted := by
  obtain ⟨-, -, hmatch⟩ := h
  rw [get, ht] at hmatch
  simp only [reconcile_found] at hmatch
  cases hwanted : t.pod.wanted with
  | none =>
    have hnone : add (rows R.server) none = rows R.server := by
      ext x
      simp [add]
    rw [hwanted] at hmatch
    rw [hnone, ite_self]
    exact congrArg rows hmatch
  | some svc =>
    rw [hwanted] at hmatch
    obtain ⟨reply, hdone⟩ := hmatch
    rw [rows_handled hdone]
    rfl

/-- Reconciling a pod that is gone revokes the service of its name. -/
theorem Step.rows_gone (h : R.Step clusterId e R') (hgone : R'.pods e.key = none) :
    rows R'.server =
      if e.fails then rows R.server else remove (rows R.server) (some e.key.name) := by
  obtain ⟨-, -, hmatch⟩ := h
  rw [get, hgone] at hmatch
  obtain ⟨reply, hdone⟩ := hmatch
  rw [rows_handled hdone]
  rfl

/-- The service each existing pod shows. -/
def store (R : Registry) : NamespacedName → Option String :=
  fun key => (R.pods key).bind Tracked.item

theorem store_eq_some {key : NamespacedName} {svc : String} :
    R.store key = some svc ↔ ∃ t, R.pods key = some t ∧ t.Shows svc := by
  simp only [store, Option.bind_eq_some_iff, Tracked.item_eq_some]

theorem heldElsewhere_store {key : NamespacedName} {svc : String} :
    HeldElsewhere R.store key svc ↔ R.ShownByOther key svc := by
  simp only [HeldElsewhere, store_eq_some, ShownByOther, exists_and_left]

theorem exact_iff_rows : R.Exact ↔ rows R.server = held R.store := by
  simp only [Exact, Set.ext_iff, rows, held, Set.mem_ofPred_eq, store_eq_some]

theorem Step.store_eq (h : R.Step clusterId e R') : R'.store =
    Function.update R.store e.key ((e.change.apply (R.pods e.key)).bind Tracked.item) := by
  have hpods := congrArg ((Option.bind · Tracked.item) ∘ ·) h.2.1
  exact hpods.trans (Function.comp_update _ R.pods e.key _)

/-- A change that keeps the pod is tracked unless the authority fails and nothing else
holds the certificate. -/
theorem Step.exact_iff_found (h : R.Step clusterId e R') (hR : R.Exact)
    (hdel : e.change ≠ .deleted) : R'.Exact ↔ ∀ t, e.change.apply (R.pods e.key) = some t →
      t.pod.runs = true → t.pod.serviceId ≠ "" → e.fails = true →
      ∃ key t', R.pods key = some t' ∧ t'.Shows t.pod.serviceId := by
  obtain ⟨t, ht, hitem⟩ := PodChange.apply_item h.1 hdel
  have hkeep : ∀ svc, R.store e.key = some svc → t.item = some svc :=
    fun svc hsvc => (hitem svc).mpr (Or.inr hsvc)
  have hfound : R'.pods e.key = some t := by rw [h.2.1, Function.update_self, ht]
  have hrows := exact_iff_rows.mp hR
  rw [exact_iff_rows, h.rows_found hfound, h.store_eq, ht, Option.bind_some, hrows]
  cases hfails : e.fails with
  | false =>
    have hadd : add (held R.store) t.pod.wanted = add (held R.store) t.item := by
      ext svc
      simp only [add, Set.mem_ofPred_eq, hitem svc, or_assoc]
      have hold : R.store e.key = some svc → svc ∈ held R.store := fun hsvc => ⟨_, hsvc⟩
      change _ ↔ _ ∨ R.store e.key = some svc ∨ _
      tauto
    rw [if_neg Bool.false_ne_true, hadd, add_held_eq_iff]
    constructor
    · rintro - t' - - - hfail
      cases hfail
    · intro _ svc hsvc
      exact Or.inl (hkeep svc hsvc)
  | true =>
    rw [if_pos rfl, held_eq_iff, and_iff_right fun svc hsvc => Or.inl (hkeep svc hsvc)]
    constructor
    · rintro hall t' ht' hruns hsvc -
      obtain rfl := Option.some.inj ht'
      obtain ⟨key, hkey⟩ :=
        hall _ ((hitem _).mpr (Or.inl (Pod.wanted_eq_some.mpr ⟨rfl, hsvc, hruns⟩)))
      exact ⟨key, store_eq_some.mp hkey⟩
    · intro hall svc hsvc
      rcases (hitem svc).mp hsvc with hwanted | hold
      · obtain ⟨rfl, hne, hruns⟩ := Pod.wanted_eq_some.mp hwanted
        obtain ⟨key, hkey⟩ := hall t rfl hruns hne rfl
        exact ⟨key, store_eq_some.mpr hkey⟩
      · exact ⟨e.key, hold⟩

/-- A deletion is tracked when the name of the pod is what it alone showed. -/
theorem Step.exact_iff_gone (h : R.Step clusterId e R') (hR : R.Exact)
    (hdel : e.change = .deleted) : R'.Exact ↔
      (e.fails = false → ¬ R.ShownByOther e.key e.key.name) ∧
      ∀ t svc, R.pods e.key = some t → t.Shows svc →
        e.fails = false ∧ svc = e.key.name ∨ R.ShownByOther e.key svc := by
  have hgone : R'.pods e.key = none := by rw [h.2.1, Function.update_self, hdel, PodChange.apply]
  have hshown : ∀ P : String → Prop, (∀ svc, R.store e.key = some svc → P svc) ↔
      ∀ t svc, R.pods e.key = some t → t.Shows svc → P svc := by
    intro P
    constructor
    · intro hall t svc ht hs
      exact hall svc (store_eq_some.mpr ⟨t, ht, hs⟩)
    · intro hall svc hsvc
      obtain ⟨t, ht, hs⟩ := store_eq_some.mp hsvc
      exact hall t svc ht hs
  rw [exact_iff_rows, h.rows_gone hgone, h.store_eq, hdel, PodChange.apply, Option.bind_none,
    exact_iff_rows.mp hR]
  cases hfails : e.fails with
  | false =>
    rw [if_neg Bool.false_ne_true, remove_held_eq_iff, hshown]
    simp [heldElsewhere_store, eq_comm]
  | true =>
    rw [if_pos rfl, held_eq_iff, hshown]
    simp [heldElsewhere_store]

theorem Step.exact_iff (h : R.Step clusterId e R') (hR : R.Exact) : R'.Exact ↔ R.Tracks e := by
  unfold Tracks
  cases hchange : e.change with
  | created pod =>
    rw [h.exact_iff_found hR (by simp [hchange]), hchange]
  | updated phase nodeName =>
    rw [h.exact_iff_found hR (by simp [hchange]), hchange]
  | deleted => exact h.exact_iff_gone hR hchange

theorem exact_start (s : Server) : (start s).Exact := by
  simp [Exact, start, Listed, CertTable.empty]

end Registry

/-- The runs in which the table matches the pods after every event are those in which each
event asks for what the pods need. -/
theorem registry_exact_iff (clusterId : String) (s : Server) (events : List PodEvent)
    (R : Registry) :
    Run (fun R e R' => R.Step clusterId e R' ∧ R'.Exact) (.start s) events R ↔
      Run (fun R e R' => R.Step clusterId e R' ∧ R.Tracks e) (.start s) events R := by
  have hstart := Registry.exact_start s
  constructor
  · intro h
    apply h.mono_of_invariant (I := Registry.Exact) hstart
    · rintro R e R' - ⟨-, hexact⟩
      exact hexact
    · rintro R e R' hR ⟨hstep, hexact⟩
      exact ⟨hstep, (hstep.exact_iff hR).mp hexact⟩
  · intro h
    apply h.mono_of_invariant (I := Registry.Exact) hstart
    · rintro R e R' hR ⟨hstep, htracks⟩
      exact (hstep.exact_iff hR).mpr htracks
    · rintro R e R' hR ⟨hstep, htracks⟩
      exact ⟨hstep, (hstep.exact_iff hR).mpr htracks⟩

/-- A pod as a ReplicaSet names it, before it is scheduled. -/
def webPod : Pod where
  nspace := "default"
  labels := (∅ : AList fun _ : String => String).insert "app" "alpha"
  phase := .pending
  nodeName := ""

def webKey : NamespacedName where
  nspace := "default"
  name := "web-1"

/-- The pod once it is Running. -/
def webRunning : Tracked where
  pod := { webPod with phase := .running, nodeName := "node-1" }
  seen := true

/-- A cluster of this pod only. -/
def webRegistry (t : Option Tracked) (server : Server) : Registry where
  pods := Function.update (fun _ => none) webKey t
  server := server

theorem webRegistry_pods {t : Option Tracked} {server : Server} {key : NamespacedName}
    (h : key ≠ webKey) : (webRegistry t server).pods key = none := by
  simp [webRegistry, h]

def webServer : Server := { demoBoot.server with certs := .empty }

def webIssued : IssuedCert × Server := webServer.runIssue "alpha" "cluster-1" "default" []

theorem webPod_created :
    (Registry.start demoBoot.server).Step "cluster-1"
      { key := webKey, change := .created webPod, fails := false }
      (webRegistry (some { pod := webPod, seen := false }) webServer) :=
  ⟨rfl, rfl, rfl⟩

theorem webPod_started :
    (webRegistry (some { pod := webPod, seen := false }) webServer).Step "cluster-1"
      { key := webKey, change := .updated .running "node-1", fails := false }
      (webRegistry (some webRunning) webIssued.2) := by
  refine ⟨Option.some_ne_none _, (Function.update_idem _ _ _).symm, .none, ?_⟩
  refine ⟨.ok webIssued.1, webIssued.2, ⟨webServer.runIssue_issues _ _ _ _, fun _ => rfl⟩, ?_⟩
  exact ⟨none, webIssued.2, ⟨⟨rfl, rfl⟩, fun h => h.elim⟩, rfl, rfl⟩

theorem webPod_deleted :
    (webRegistry (some webRunning) webIssued.2).Step "cluster-1"
      { key := webKey, change := .deleted, fails := false }
      (webRegistry none { webIssued.2 with certs := webIssued.2.certs.delete "web-1" }) :=
  ⟨Option.some_ne_none _, (Function.update_idem _ _ _).symm, .none, .ok (), _,
    ⟨rfl, fun _ => rfl⟩, rfl, rfl⟩

/-- The deletion revokes `web-1`, and the certificate of `alpha` stays. -/
theorem replica_keeps_certificate :
    ¬ ∀ clusterId s events R, Run (Registry.Step clusterId) (.start s) events R → R.Exact := by
  intro h
  have hrun := Run.start.next webPod_created |>.next webPod_started
  have hexact := h _ _ _ _ (hrun.next webPod_deleted)
  obtain ⟨-, htracks⟩ := (webPod_deleted.exact_iff (h _ _ _ _ hrun)).mp hexact
  have hshows : webRunning.Shows "alpha" := ⟨by decide, by decide, rfl⟩
  rcases htracks webRunning "alpha" rfl hshows with ⟨-, hname⟩ | ⟨key, t, hne, hkey, -⟩
  · exact absurd hname (by decide)
  · rw [webRegistry_pods hne] at hkey
    cases hkey

end Meshlite.Sigil
