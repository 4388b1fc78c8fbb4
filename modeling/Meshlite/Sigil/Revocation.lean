import Meshlite.Sigil.Delivery
import Meshlite.Sigil.Provenance
import Meshlite.Sigil.Rotation

/-!
# Revocation against rotation

A rotation reads the table and later issues what it read, whether or not the row is
still there. A revoked service stays off the table until a pod, a hello or an enrollment
asks for it again, exactly as long as no handler that was running at the revocation
issues it.
-/

namespace Meshlite.Sigil

open Policy Tasks Tasks.Prog Runs

/-- The handlers started in a run; the first one is there from the start. -/
def started (events : List Event) : ℕ := events.countP Event.starts + 1

/-- A hello, a Running pod or an enrollment. -/
def Event.admits : Event → Bool
  | .subscribe _ => true
  | .request (.serviceEvent evt) => !evt.deleted
  | .request (.enroll _) => true
  | _ => false

/-- In a run that goes on after `pre` with `post`, the handler `i` was started in `post`,
by an event that admits services. -/
def AdmittedSince (pre post : List Event) (i : ℕ) : Prop :=
  ∃ before e after, post = before ++ e :: after ∧ e.admits = true ∧ i = started (pre ++ before)

/-- In `post` a certificate of the service was issued for an event of `post`. -/
def Reissued (svc : String) (pre post : List Event) : Prop :=
  ∃ mid i o r rest, post = mid ++ .perform i o r :: rest ∧ AdmittedSince pre mid i ∧
    IssuesFor svc o ∧ o.granted r = true

/-- The service is in the answer of `ListCerts`. -/
def Listed (svc : String) (s : Server) : Prop := ∃ row ∈ s.certs.list, row.serviceId = svc

/-- A revoked service is listed only if it was issued for a later event. -/
def StaysRevoked (events : List Event) (S : System) : Prop :=
  ∀ svc pre i post, events = pre ++ .perform i (.revoke svc) (.ok ()) :: post →
    Listed svc S.server → Reissued svc pre post

/-- A service that is not listed is issued only by a handler started after its
revocations. -/
def StartedSince (events : List Event) (S : System) : Event → Prop
  | .perform i o r => ∀ svc, IssuesFor svc o → o.granted r = true → ¬ Listed svc S.server →
      ∀ pre j post, events = pre ++ .perform j (.revoke svc) (.ok ()) :: post → started pre ≤ i
  | _ => True

section Handlers

variable {svc : String} {ok : (o : Op) → o.Res → Prop}

/-- As long as the service is not listed, the handler does not issue it. -/
def Harmless (svc : String) (p : Handler Reply) : Prop :=
  p.Always (Server.Answers fun s => ¬ Listed svc s) fun o _ => ¬ IssuesFor svc o

theorem delivers_harmless (push : Proto.AgentPush) : Delivers (fun o => ¬ IssuesFor svc o) push :=
  ⟨id, fun _ => id, fun _ => id⟩

theorem rotates_of_ne {row : CertRow} (h : row.serviceId ≠ svc) :
    Rotates ok (fun o => ¬ IssuesFor svc o) row :=
  ⟨id, h, fun _ _ => delivers_harmless _⟩

theorem ne_of_answers {rows : List CertRow}
    (h : Server.Answers (fun s => ¬ Listed svc s) .listCerts (.ok rows)) {row : CertRow}
    (hrow : row ∈ rows) : row.serviceId ≠ svc := by
  obtain ⟨s, s', hs, hexec⟩ := h
  obtain rfl : rows = s.certs.list := hexec.1
  exact fun heq => hs ⟨row, hrow, heq⟩

theorem harmless_installConfig (newEng : Engine) : Harmless svc (installConfig newEng) := by
  refine ⟨id, fun _ _ => ⟨id, fun _ _ => ⟨id, fun _ _ => ⟨id, fun _ _ => ?_⟩⟩⟩⟩
  exact always_bind (p := broadcastPolicy _) (delivers_harmless _).broadcastPolicy fun _ => trivial

theorem harmless_rotationScan : Harmless svc rotationScan :=
  always_rotationScan id fun _ hr _ hrow => rotates_of_ne (ne_of_answers hr hrow)

theorem harmless_rotateCert (serviceId : String) : Harmless svc (rotateCert serviceId) :=
  always_rotateCert id fun _ _ hr _ hrow _ => rotates_of_ne (ne_of_answers hr hrow)

/-- Requests that admit no service. -/
theorem harmless_handler (unmarshal : List UInt8 → Except String MeshConfig) {req : Request}
    (h : (Event.request req).admits = false) : Harmless svc (handler unmarshal req) := by
  cases req with
  | postConfig body =>
    change Harmless svc (postConfig unmarshal body)
    unfold postConfig
    cases newFromBytes unmarshal (body.take configLimit) with
    | error err => trivial
    | ok newEng => exact harmless_installConfig newEng
  | getPolicy => exact ⟨id, fun _ _ => ⟨id, fun _ _ => ⟨id, fun _ _ => trivial⟩⟩⟩
  | rotate serviceId => exact harmless_rotateCert serviceId
  | serviceEvent evt =>
    have hdel : evt.deleted = true := by simpa [Event.admits] using h
    change Harmless svc (handleServiceEvent evt)
    unfold handleServiceEvent
    rw [if_pos hdel]
    exact ⟨id, fun _ _ => trivial⟩
  | enroll clusterId => nomatch h

end Handlers

namespace Server

variable {s s' : Server} {o : Op} {r : o.Res} {svc : String}

theorem listed_iff : Listed svc s ↔ ∃ row ∈ s.certs.rows, row.serviceId = svc := by
  simp [Listed]

theorem Exec.issues_of_listed (h : s.Exec o r s') (hs : ¬ Listed svc s) (hs' : Listed svc s') :
    IssuesFor svc o ∧ o.granted r = true := by
  cases hr : o.granted r with
  | false =>
    rw [h.eq_of_not_granted hr] at hs'
    exact absurd hs' hs
  | true =>
    obtain ⟨row, hrow, rfl⟩ := listed_iff.mp hs'
    rcases h.mem_rows hr hrow with ⟨hold, -⟩ | ⟨ho, -⟩
    · exact absurd (listed_iff.mpr ⟨row, hold, rfl⟩) hs
    · exact ⟨ho, rfl⟩

theorem Exec.revokes_of_not_listed (h : s.Exec o r s') (hs : Listed svc s)
    (hs' : ¬ Listed svc s') : o = .revoke svc := by
  by_contra ho
  apply hs'
  cases hr : o.granted r with
  | false => rwa [h.eq_of_not_granted hr]
  | true => exact listed_iff.mpr (h.listed hr ho (listed_iff.mp hs))

theorem not_listed_of_revoke (h : s.Exec (.revoke svc) (.ok ()) s') : ¬ Listed svc s' := by
  obtain rfl : s' = { s with certs := s.certs.delete svc } := h
  rw [listed_iff]
  rintro ⟨row, hrow, heq⟩
  exact (CertTable.mem_delete.mp hrow).2 heq

/-- The answer of an operation determines its effect. -/
theorem Exec.unique {s₁ s₂ : Server} (h₁ : s.Exec o r s₁) (h₂ : s.Exec o r s₂) : s₁ = s₂ := by
  cases o with
  | setEngine eng => exact Eq.trans h₁ (Eq.symm h₂)
  | issue svc cl ns =>
    cases r with
    | error err => exact Eq.trans h₁ (Eq.symm h₂)
    | ok c => exact h₁.2.trans h₂.2.symm
  | issueWithDns svc cl ns dns =>
    cases r with
    | error err => exact Eq.trans h₁ (Eq.symm h₂)
    | ok c => exact h₁.2.trans h₂.2.symm
  | revoke svc =>
    cases r with
    | error err => exact Eq.trans h₁ (Eq.symm h₂)
    | ok u => exact Eq.trans h₁ (Eq.symm h₂)
  | listCerts =>
    cases r with
    | error err => exact Eq.trans h₁ (Eq.symm h₂)
    | ok rows => exact h₁.2.trans h₂.2.symm
  | enqueue sid push =>
    obtain ⟨st₁, -, -, h₁⟩ := h₁
    obtain ⟨st₂, -, -, h₂⟩ := h₂
    rw [h₁, h₂]
  | _ => exact h₁.2.trans h₂.2.symm

end Server

section Steps

variable {unmarshal : List UInt8 → Except String MeshConfig} {S S' : System} {e : Event}
variable {svc : String} {pre post : List Event}

theorem Step.unique {S₁ S₂ : System} (h₁ : Step unmarshal S e S₁) (h₂ : Step unmarshal S e S₂) :
    S₁ = S₂ := by
  cases h₁ with
  | perform hperf₁ hexec₁ =>
    cases h₂ with
    | perform hperf₂ hexec₂ =>
      obtain ⟨k₁, hk₁, rfl⟩ := hperf₁
      obtain ⟨k₂, hk₂, rfl⟩ := hperf₂
      obtain ⟨-, hk⟩ := Prog.op.inj (Option.some.inj (hk₁.symm.trans hk₂))
      rw [eq_of_heq hk, hexec₁.unique hexec₂]
  | cleanup hopen₁ hphase₁ =>
    cases h₂ with
    | cleanup hopen₂ hphase₂ => rw [Option.some.inj (hopen₁.symm.trans hopen₂)]
  | _ => cases h₂; rfl

theorem run_unique {init S₁ S₂ : System} {events : List Event}
    (h₁ : Run (Step unmarshal) init events S₁) (h₂ : Run (Step unmarshal) init events S₂) :
    S₁ = S₂ :=
  h₁.unique (fun _ _ _ _ hs₁ hs₂ => hs₁.unique hs₂) h₂

theorem Step.tasks_length (h : Step unmarshal S e S') :
    S'.tasks.length = S.tasks.length + [e].countP Event.starts := by
  cases h with
  | perform hperf hexec =>
    obtain ⟨k, -, rfl⟩ := hperf
    exact List.length_set
  | subscribe hello => exact List.length_append
  | request req => exact List.length_append
  | scan => exact List.length_append
  | _ => rfl

theorem started_append (events events' : List Event) :
    started (events ++ events') = started events + events'.countP Event.starts := by
  simp only [started, List.countP_append]
  omega

theorem tasks_length_eq {init : System} (hinit : init.tasks.length = 1) {events : List Event}
    (h : Run (Step unmarshal) init events S) : S.tasks.length = started events := by
  refine h.invariant (I := fun events S => S.tasks.length = started events) hinit ?_
  intro es S e S' _ hS hstep
  rw [hstep.tasks_length, hS, started_append]

theorem Step.revokes_of_not_listed (h : Step unmarshal S e S') (hs : Listed svc S.server)
    (hs' : ¬ Listed svc S'.server) : ∃ i, e = .perform i (.revoke svc) (.ok ()) := by
  cases h with
  | @perform i o r server tasks hperf hexec =>
    obtain rfl := hexec.revokes_of_not_listed hs hs'
    cases r with
    | error err =>
      obtain rfl : server = S.server := hexec
      exact absurd hs hs'
    | ok u => exact ⟨i, rfl⟩
  | _ => exact absurd hs hs'

theorem exists_revocation {init m : System} (hpre : Run (Step unmarshal) init pre m)
    (h : Run (Step unmarshal) init (pre ++ post) S) (hs : Listed svc m.server)
    (hs' : ¬ Listed svc S.server) :
    ∃ before i after, post = before ++ .perform i (.revoke svc) (.ok ()) :: after := by
  induction post using List.reverseRecOn generalizing S with
  | nil =>
    rw [List.append_nil] at h
    rw [run_unique h hpre] at hs'
    exact absurd hs hs'
  | append_singleton post e ih =>
    rw [← List.append_assoc] at h
    obtain ⟨m', hrun, hlast⟩ := h.snoc_inv
    by_cases hm' : Listed svc m'.server
    · obtain ⟨i, rfl⟩ := hlast.revokes_of_not_listed hm' hs'
      exact ⟨post, i, [], rfl⟩
    · obtain ⟨before, i, after, rfl⟩ := ih hrun hm'
      exact ⟨before, i, after ++ [e], by simp⟩

theorem AdmittedSince.append {i : ℕ} (h : AdmittedSince pre post i) (post' : List Event) :
    AdmittedSince pre (post ++ post') i := by
  obtain ⟨before, e, after, rfl, he, hi⟩ := h
  exact ⟨before, e, after ++ post', by simp, he, hi⟩

theorem AdmittedSince.started_le {i : ℕ} (h : AdmittedSince pre post i) : started pre ≤ i := by
  obtain ⟨before, e, after, -, -, rfl⟩ := h
  rw [started_append]
  omega

theorem Reissued.append (h : Reissued svc pre post) (post' : List Event) :
    Reissued svc pre (post ++ post') := by
  obtain ⟨mid, i, o, r, rest, rfl, hi, ho, hr⟩ := h
  exact ⟨mid, i, o, r, rest ++ post', by simp, hi, ho, hr⟩

/-- Since a revocation the service was issued again, or it is off the table and each handler
started since is admitted or harmless. -/
def Settled (svc : String) (pre post : List Event) (S : System) : Prop :=
  Reissued svc pre post ∨ ¬ Listed svc S.server ∧
    ∀ i p, started pre ≤ i → S.tasks[i]? = some p → AdmittedSince pre post i ∨ Harmless svc p

theorem settled_start {p : Handler Reply} (hlen : S.tasks.length = started (pre ++ post))
    (hS : Settled svc pre post S) (hserver : S'.server.certs = S.server.certs)
    (htasks : S'.tasks = S.tasks ++ [p]) (hp : e.admits = true ∨ Harmless svc p) :
    Settled svc pre (post ++ [e]) S' := by
  rcases hS with hre | ⟨hout, hold⟩
  · exact Or.inl (hre.append _)
  refine Or.inr ⟨by rwa [Listed, hserver], fun i q hi hq => ?_⟩
  rw [htasks] at hq
  by_cases hlt : i < S.tasks.length
  · rw [List.getElem?_append_left hlt] at hq
    exact (hold i q hi hq).imp (·.append _) id
  · obtain ⟨hilen, -⟩ := List.getElem?_eq_some_iff.mp hq
    rw [List.length_append, List.length_singleton] at hilen
    obtain rfl : i = S.tasks.length := by omega
    rw [List.getElem?_concat_length] at hq
    obtain rfl := Option.some.inj hq
    exact hp.imp (fun he => ⟨post, e, [], rfl, he, hlen⟩) id

/-- Only a handler started since the revocation performs an issue, so it is admitted. -/
theorem settled_perform {i : ℕ} {o : Op} {r : o.Res} {server : Server}
    {tasks : List (Handler Reply)} (hperf : Performs S.tasks i o r tasks)
    (hexec : S.server.Exec o r server)
    (hsince : IssuesFor svc o → o.granted r = true → ¬ Listed svc S.server → started pre ≤ i)
    (hS : Settled svc pre post S) :
    Settled svc pre (post ++ [.perform i o r]) { server, tasks } := by
  rcases hS with hre | ⟨hout, hold⟩
  · exact Or.inl (hre.append _)
  obtain ⟨k, hk, rfl⟩ := hperf
  by_cases hin : Listed svc server
  · obtain ⟨ho, hr⟩ := hexec.issues_of_listed hout hin
    rcases hold i _ (hsince ho hr hout) hk with hadm | hharm
    · exact Or.inl ⟨post, i, o, r, [], rfl, hadm, ho, hr⟩
    · exact absurd ho hharm.1
  · refine Or.inr ⟨hin, fun j q hj hq => ?_⟩
    by_cases hij : i = j
    · subst hij
      rw [List.getElem?_set_self (List.getElem?_eq_some_iff.mp hk).1] at hq
      obtain rfl := Option.some.inj hq
      exact (hold i _ hj hk).imp (·.append _) fun hharm => hharm.2 r ⟨_, _, hout, hexec⟩
    · rw [List.getElem?_set_ne hij] at hq
      exact (hold j q hj hq).imp (·.append _) id

theorem settled_step (h : Step unmarshal S e S') (hlen : S.tasks.length = started (pre ++ post))
    (hsince : ∀ i o r, e = .perform i o r → IssuesFor svc o → o.granted r = true →
      ¬ Listed svc S.server → started pre ≤ i)
    (hS : Settled svc pre post S) : Settled svc pre (post ++ [e]) S' := by
  cases h with
  | perform hperf hexec => exact settled_perform hperf hexec (hsince _ _ _ rfl) hS
  | subscribe hello => exact settled_start hlen hS rfl rfl (Or.inl rfl)
  | request req =>
    refine settled_start (p := handler unmarshal req) hlen hS rfl rfl ?_
    cases hadm : (Event.request req).admits with
    | true => exact Or.inl rfl
    | false => exact Or.inr (harmless_handler unmarshal hadm)
  | scan => exact settled_start hlen hS rfl rfl (Or.inr harmless_rotationScan)
  | _ =>
    exact hS.imp (·.append _) fun ⟨hout, hold⟩ =>
      ⟨hout, fun i p hi hp => (hold i p hi hp).imp (·.append _) id⟩

/-- Every state of a run in which handlers that were running at a revocation do not issue
the service. -/
theorem settled_run {init : System} (hinit : init.tasks.length = 1) {i : ℕ}
    (hsince : ∀ before e m, before ++ [e] <+: pre ++ .perform i (.revoke svc) (.ok ()) :: post →
      Run (Step unmarshal) init before m → StartedSince before m e)
    (h : Run (Step unmarshal) init (pre ++ .perform i (.revoke svc) (.ok ()) :: post) S) :
    Settled svc pre post S := by
  induction post using List.reverseRecOn generalizing S with
  | nil =>
    obtain ⟨m, hrun, hlast⟩ := h.snoc_inv
    refine Or.inr ⟨Server.not_listed_of_revoke hlast.exec, fun j p hj hp => ?_⟩
    obtain ⟨hlt, -⟩ := List.getElem?_eq_some_iff.mp hp
    rw [hlast.tasks_length, tasks_length_eq hinit hrun] at hlt
    exact absurd hj hlt.not_ge
  | append_singleton post e ih =>
    rw [← List.cons_append, ← List.append_assoc] at h hsince
    obtain ⟨m, hrun, hlast⟩ := h.snoc_inv
    have hm := ih (fun before e' m' hpre => hsince before e' m' (hpre.trans ⟨[e], rfl⟩)) hrun
    have hlen : m.tasks.length = started (pre ++ post) := by
      rw [tasks_length_eq hinit hrun]
      simp [started, Event.starts]
    refine settled_step hlast hlen ?_ hm
    rintro j o r rfl ho hr hout
    exact hsince _ _ m (List.prefix_refl _) hrun svc ho hr hout pre i post rfl

/-- An unlisted service that a step lists is issued by a handler started since its
revocations, if what the step leads to is well. -/
theorem startedSince_of_staysRevoked {init : System} {events : List Event} {i : ℕ} {o : Op}
    {r : o.Res} (h : Run (Step unmarshal) init events S)
    (hstep : Step unmarshal S (.perform i o r) S')
    (hup : StaysRevoked (events ++ [.perform i o r]) S') :
    StartedSince events S (.perform i o r) := by
  intro svc ho hr hout pre j post hevents
  -- the later of two revocations first
  induction hlen : post.length using Nat.strong_induction_on generalizing pre j post with
  | _ n ih =>
  have hin : Listed svc S'.server := Server.listed_iff.mpr (hstep.exec.listed_of_issues hr ho)
  obtain ⟨mid, i', o', r', rest, hpost, hadm, ho', hr'⟩ :=
    hup svc pre j (post ++ [.perform i o r]) (by simp [hevents]) hin
  rcases List.eq_nil_or_concat rest with rfl | ⟨rest, last, rfl⟩
  · -- the issue is this one
    obtain ⟨-, hlast⟩ := List.append_inj' hpost rfl
    cases hlast
    exact hadm.started_le
  · obtain ⟨rfl, -⟩ := List.append_inj' (by simpa using hpost :
      post ++ [.perform i o r] = (mid ++ .perform i' o' r' :: rest) ++ [last]) rfl
    subst hevents
    have hsplit : pre ++ .perform j (.revoke svc) (.ok ()) :: (mid ++ .perform i' o' r' :: rest) =
        (pre ++ .perform j (.revoke svc) (.ok ()) :: mid) ++ .perform i' o' r' :: rest := by simp
    rw [hsplit] at h
    obtain ⟨m, m', hrun, hissue⟩ := h.step_of_split
    have hin' : Listed svc m'.server := Server.listed_iff.mpr (hissue.exec.listed_of_issues hr' ho')
    rw [List.append_cons] at h
    obtain ⟨before, k, after, rfl⟩ := exists_revocation (hrun.next hissue) h hin' hout
    have hlater := ih after.length (by simp at hlen; omega)
      (pre ++ .perform j (.revoke svc) (.ok ()) :: (mid ++ .perform i' o' r' :: before)) k after
      (by simp) rfl
    rw [started_append] at hlater
    omega

end Steps

variable {unmarshal : List UInt8 → Except String MeshConfig}

/-- In every state of a run a revoked service is listed only if it was issued for an event
after the revocation, exactly if no handler running at a revocation issues the service
while it is not listed. -/
theorem stays_revoked_iff (eng : Engine) (leafTtl : Duration) (rootKey : Proto.KeyId) (now : Time)
    (events : List Event) (S : System)
    (h : Run (Step unmarshal) (.boot eng leafTtl rootKey now) events S) :
    (∀ pre m, pre <+: events → Run (Step unmarshal) (.boot eng leafTtl rootKey now) pre m →
        StaysRevoked pre m) ↔
      ∀ pre e m, pre ++ [e] <+: events →
        Run (Step unmarshal) (.boot eng leafTtl rootKey now) pre m → StartedSince pre m e := by
  constructor
  · intro hup pre e m hpre hrun
    obtain ⟨post, rfl⟩ := hpre
    rw [List.append_assoc] at h
    obtain ⟨m', S', hrun', hstep⟩ := h.step_of_split
    obtain rfl := run_unique hrun hrun'
    cases e with
    | perform i o r =>
      refine startedSince_of_staysRevoked hrun hstep (hup _ _ ?_ (hrun.next hstep))
      exact ⟨post, by simp⟩
    | _ => trivial
  · intro hsince pre m hpre hrun svc before i post hevents hin
    subst hevents
    rcases settled_run rfl (fun pre' e m' hpre' => hsince pre' e m' (hpre'.trans hpre)) hrun with
      hre | ⟨hout, -⟩
    · exact hre
    · exact absurd hin hout

/-- The service an event revokes. -/
def Event.revokes : Event → Option String
  | .perform _ (.revoke svc) (.ok _) => some svc
  | _ => none

theorem Event.revokes_eq_some {e : Event} {svc : String} (h : e.revokes = some svc) :
    ∃ i, e = .perform i (.revoke svc) (.ok ()) := by
  unfold Event.revokes at h
  split at h
  · obtain rfl := Option.some.inj h
    exact ⟨_, rfl⟩
  · cases h

def Event.issues : Event → Bool
  | .perform _ (.issue _ _ _) _ | .perform _ (.issueWithDns _ _ _ _) _ => true
  | _ => false

theorem Event.issues_of_issuesFor {i : ℕ} {o : Op} {r : o.Res} {svc : String}
    (h : IssuesFor svc o) : (Event.perform i o r).issues = true := by
  cases o with
  | issue svc' cl ns => rfl
  | issueWithDns svc' cl ns dns => rfl
  | _ => exact h.elim

def podEvent (deleted : Bool) : Request :=
  .serviceEvent
    { serviceId := "alpha"
      nodeName := if deleted then "" else "node-1"
      nspace := "default"
      clusterId := "cluster-1"
      deleted }

/-- Sigil with a leaf TTL of 6 s, so that certificates are due at the first scan. -/
def shortBoot : System := .boot (newEngine demoConfig) (6 * second) 0 0

/-- The pod of `alpha` comes and goes, and then its certificate is to be rotated. -/
def rotatedLate : List Move :=
  [.perform 0, .request (podEvent false), .perform 1, .perform 1, .request (podEvent true),
    .perform 2, .request (.rotate "alpha"), .perform 3]

theorem rotatedLate_stays_revoked :
    ∃ events S, Run (Step refuseConfig) shortBoot events S ∧
      (∃ e ∈ events, e.revokes = some "alpha") ∧
      ∀ pre m, pre <+: events → Run (Step refuseConfig) shortBoot pre m → StaysRevoked pre m := by
  obtain ⟨events, S, hrun, hrevoked, horder⟩ :
      ∃ events S, Run (Step refuseConfig) shortBoot events S ∧
        (∃ e ∈ events, e.revokes = some "alpha") ∧
        events.Pairwise fun e e' => ¬ (e.revokes.isSome ∧ e'.issues) :=
    exists_run (by decide +kernel : (shortBoot.follow refuseConfig _ rotatedLate).any _ = true)
  refine ⟨events, S, hrun, hrevoked, (stays_revoked_iff _ _ _ _ events S hrun).mpr ?_⟩
  rintro pre e m ⟨post, rfl⟩ -
  cases e with
  | perform i o r =>
    rintro svc ho - - before j after rfl
    simp only [List.append_assoc, List.cons_append] at horder
    have hafter := (List.pairwise_cons.mp (List.pairwise_append.mp horder).2.1).1
      (.perform i o r) (by simp)
    exact absurd ⟨rfl, Event.issues_of_issuesFor ho⟩ hafter
  | _ => trivial

/-- The scan has listed the certificate of `alpha` when its pod is deleted. -/
def rotatedAcross : List Move :=
  [.perform 0, .request (podEvent false), .perform 1, .perform 1, .tick (5 * second), .scan,
    .perform 2, .request (podEvent true), .perform 3, .perform 2, .perform 2]

theorem rotatedAcross_lists_revoked :
    ¬ ∀ events S, Run (Step refuseConfig) shortBoot events S → StaysRevoked events S := by
  intro h
  obtain ⟨events, S, hrun, ⟨e, he, hrevoked⟩, horder, hin⟩ :
      ∃ events S, Run (Step refuseConfig) shortBoot events S ∧
        (∃ e ∈ events, e.revokes = some "alpha") ∧
        (events.Pairwise fun e e' => ¬ (e.revokes = some "alpha" ∧ e'.admits)) ∧
        ∃ row ∈ S.server.certs.list, row.serviceId = "alpha" :=
    exists_run (by decide +kernel : (shortBoot.follow refuseConfig _ rotatedAcross).any _ = true)
  obtain ⟨pre, post, rfl⟩ := List.append_of_mem he
  obtain ⟨i, rfl⟩ := Event.revokes_eq_some hrevoked
  obtain ⟨mid, j, o, r, rest, rfl, ⟨before, e', after, rfl, hadm, -⟩, -⟩ :=
    h _ S hrun "alpha" pre i post rfl hin
  have hafter := (List.pairwise_cons.mp (List.pairwise_append.mp horder).2.1).1 e' (by simp)
  exact hafter ⟨rfl, hadm⟩

end Meshlite.Sigil
