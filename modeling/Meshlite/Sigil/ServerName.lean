import Meshlite.Sigil.Origins
import Meshlite.Sigil.Revocation

/-!
# The name of Sigil's own server

Agents take whoever has a certificate for one of these names for Sigil. What agents are
sent carries no DNS names at all, and what an enrollment is answered carries the cluster
id it was given.
-/

namespace Meshlite.Sigil

open Policy Tasks Tasks.Prog Runs

def sigilNames : List String :=
  ["sigil", "sigil.meshlite-system", "sigil.meshlite-system.svc",
    "sigil.meshlite-system.svc.cluster.local"]

/-- The certificates that left Sigil with their keys: pushed to an agent, or answered to an
enrollment. -/
def HandedOut (events : List Event) (S : System) (cert : Proto.Certificate) : Prop :=
  (∃ sid cb, .deliver sid (.cert cb) ∈ events ∧ cb.serviceCertPem = cert) ∨
    ∃ (i : ℕ) (c : IssuedCert), S.tasks[i]? = some (.ret (.enrolled c)) ∧ c.certPem = cert

/-- What can come from outside: a hello with a node id, a request, the ticker. -/
def Event.Arrives : Event → Prop
  | .subscribe hello => hello.nodeId ≠ ""
  | .request _ | .scan => True
  | _ => False

section

variable {unmarshal : List UInt8 → Except String MeshConfig} {S : System} {events : List Event}
variable {eng : Engine} {leafTtl : Duration} {rootKey : Proto.KeyId} {now : Time} {e : Event}
variable {cert : Proto.Certificate}

theorem dnsNames_of_handedOut (h : Run (Step unmarshal) (.boot eng leafTtl rootKey now) events S)
    (hout : HandedOut events S cert) : cert.dnsNames = [] ∨
      ∃ cl, .request (.enroll (some cl)) ∈ events ∧
        cert.dnsNames = [cl, "conduit-" ++ cl, "localhost"] := by
  rcases hout with ⟨sid, cb, hdel, rfl⟩ | ⟨i, c, hreply, rfl⟩
  · obtain ⟨i, hi⟩ := enqueued_of_delivered h hdel
    obtain ⟨start, -, node, svc, c, -, ⟨cl, ns, hissue⟩, rfl, -⟩ := explained_of_enqueue h hi
    exact Or.inl (serviceId_of_issued h (mem_record.mp hissue)).2
  · obtain ⟨start, hstart, cl, rfl, hissue⟩ := (warranted_run h).along i _ hreply
    refine Or.inr ⟨cl, mem_of_starters hstart, ?_⟩
    obtain ⟨pre, m, m', -, -, hstep⟩ := h.step_of_mem (mem_record.mp hissue)
    obtain ⟨⟨serial, key, -, rfl⟩, -⟩ := hstep.exec
    rfl

theorem sigilName_ne_conduit {name : String} (h : name ∈ sigilNames) (cl : String) :
    name ≠ "conduit-" ++ cl := by
  have hfirst : ∀ name ∈ sigilNames, name.toList.head? = some 's' := by decide
  rintro rfl
  have hs := hfirst _ h
  rw [String.toList_append, List.head?_append] at hs
  cases hs

theorem Event.Arrives.starts (h : e.Arrives) : e.starts = true := by
  cases e with
  | subscribe hello => rfl
  | request req => rfl
  | scan => rfl
  | _ => exact h.elim

variable (unmarshal) in
/-- What arrives can be taken at any time: its handler is started and nothing else runs. -/
theorem Event.Arrives.step (S : System) (h : e.Arrives) : ∃ S', Step unmarshal S e S' ∧
    ∃ p, e.program unmarshal = some p ∧ S'.tasks = S.tasks ++ [p] := by
  cases e with
  | subscribe hello => exact ⟨_, .subscribe hello h, _, rfl, rfl⟩
  | request req => exact ⟨_, .request req, _, rfl, rfl⟩
  | scan => exact ⟨_, .scan, _, rfl, rfl⟩
  | _ => exact h.elim

variable (unmarshal) in
theorem exists_run_of_arrivals (init : System) (inputs : List Event)
    (hin : ∀ e ∈ inputs, e.Arrives) : ∃ S, Run (Step unmarshal) init inputs S ∧
      ∀ e ∈ inputs, ∃ p ∈ S.tasks, e.program unmarshal = some p := by
  induction inputs using List.reverseRecOn with
  | nil => exact ⟨init, .start, nofun⟩
  | append_singleton inputs e ih =>
    obtain ⟨S, hrun, htasks⟩ := ih fun e' he' => hin e' (List.mem_append_left _ he')
    have he : e.Arrives := hin e (List.mem_append_right _ List.mem_cons_self)
    obtain ⟨S', hstep, p, hp, hS'⟩ := he.step unmarshal S
    refine ⟨S', hrun.next hstep, fun e' he' => ?_⟩
    rw [hS']
    rcases List.mem_append.mp he' with hold | hnew
    · obtain ⟨q, hq, hprog⟩ := htasks e' hold
      exact ⟨q, List.mem_append_left _ hq, hprog⟩
    · obtain rfl := List.mem_singleton.mp hnew
      exact ⟨p, List.mem_append_right _ List.mem_cons_self, hp⟩

variable (unmarshal) in
theorem exists_enrolled {cl : String} (hcl : cl ≠ "")
    (hmem : enrollCluster (some cl) ∈ S.tasks) : ∃ e S', Step unmarshal S e S' ∧
      e.starts = false ∧ ∃ (i : ℕ) (c : IssuedCert), S'.tasks[i]? = some (.ret (.enrolled c)) ∧
        c.certPem.dnsNames = [cl, "conduit-" ++ cl, "localhost"] := by
  obtain ⟨i, hi⟩ := List.mem_iff_getElem?.mp hmem
  unfold enrollCluster at hi
  dsimp only at hi
  rw [if_neg hcl] at hi
  let issued := S.server.runIssue ("conduit-" ++ cl) cl "meshlite-system"
    [cl, "conduit-" ++ cl, "localhost"]
  have hexec : S.server.Exec (.issueWithDns ("conduit-" ++ cl) cl "meshlite-system"
      [cl, "conduit-" ++ cl, "localhost"]) (.ok issued.1) issued.2 :=
    S.server.runIssue_issues _ _ _ _
  refine ⟨_, _, .perform ⟨_, hi, rfl⟩ hexec, rfl, i, issued.1, ?_, rfl⟩
  exact List.getElem?_set_self (List.getElem?_eq_some_iff.mp hi).1

variable (unmarshal) in
/-- Whatever else arrives, a cluster that enrolls can be handed a certificate of its name. -/
theorem exists_handedOut {inputs : List Event} (hin : ∀ e ∈ inputs, e.Arrives) {cl : String}
    (hcl : cl ≠ "") (hmem : .request (.enroll (some cl)) ∈ inputs) :
    ∃ events S cert, Run (Step unmarshal) (.boot eng leafTtl rootKey now) events S ∧
      events.filter Event.starts = inputs ∧ HandedOut events S cert ∧ cl ∈ cert.dnsNames := by
  obtain ⟨S, hrun, htasks⟩ := exists_run_of_arrivals unmarshal
    (.boot eng leafTtl rootKey now) inputs hin
  obtain ⟨p, hp, hprog⟩ := htasks _ hmem
  obtain rfl := Option.some.inj hprog
  obtain ⟨e, S', hstep, he, i, c, hreply, hdns⟩ := exists_enrolled unmarshal hcl hp
  refine ⟨_, S', c.certPem, hrun.next hstep, ?_, Or.inr ⟨i, c, hreply, rfl⟩, ?_⟩
  · have hall : inputs.filter Event.starts = inputs :=
      List.filter_eq_self.mpr fun e he => (hin e he).starts
    rw [List.filter_append, hall, List.filter_singleton, he]
    exact List.append_nil inputs
  · rw [hdns]
    exact List.mem_cons_self

theorem enrolled_of_sigilName (h : Run (Step unmarshal) (.boot eng leafTtl rootKey now) events S)
    (hout : HandedOut events S cert) {name : String} (hname : name ∈ sigilNames)
    (hdns : name ∈ cert.dnsNames) : .request (.enroll (some name)) ∈ events := by
  rcases dnsNames_of_handedOut h hout with hempty | ⟨cl, henroll, heq⟩
  · rw [hempty] at hdns
    cases hdns
  · rw [heq] at hdns
    have hcases : name = cl ∨ name = "conduit-" ++ cl ∨ name = "localhost" := by
      simpa using hdns
    rcases hcases with rfl | hconduit | rfl
    · exact henroll
    · exact absurd hconduit (sigilName_ne_conduit hname cl)
    · exact absurd hname (by decide)

end

/-- Whatever arrives, and in whatever order the handlers run: no certificate handed out has a
name of Sigil, exactly if no enrollment gives one as its cluster id. -/
theorem no_sigil_name_iff (unmarshal : List UInt8 → Except String MeshConfig) (eng : Engine)
    (leafTtl : Duration) (rootKey : Proto.KeyId) (now : Time) (inputs : List Event)
    (hin : ∀ e ∈ inputs, e.Arrives) :
    (∀ events S, Run (Step unmarshal) (.boot eng leafTtl rootKey now) events S →
        events.filter Event.starts = inputs → ∀ cert, HandedOut events S cert →
          ∀ name ∈ sigilNames, name ∉ cert.dnsNames) ↔
      ∀ cl ∈ sigilNames, .request (.enroll (some cl)) ∉ inputs := by
  constructor
  · intro hsafe cl hcl hmem
    have hname : cl ≠ "" := by
      rintro rfl
      exact absurd hcl (by decide)
    obtain ⟨events, S, cert, hrun, hevents, hout, hdns⟩ := exists_handedOut unmarshal hin hname hmem
    exact hsafe events S hrun hevents cert hout cl hcl hdns
  · intro hnone events S hrun hevents cert hout name hname hdns
    apply hnone name hname
    rw [← hevents]
    exact List.mem_filter.mpr ⟨enrolled_of_sigilName hrun hout hname hdns, rfl⟩

theorem enrolled_eu_safe : ¬ ∃ events S cert, Run (Step refuseConfig) demoBoot events S ∧
    events.filter Event.starts = [.request (.enroll (some "eu"))] ∧ HandedOut events S cert ∧
      "sigil" ∈ cert.dnsNames := by
  rintro ⟨events, S, cert, hrun, hstarts, hcert, hname⟩
  have hsafe := (no_sigil_name_iff refuseConfig (newEngine demoConfig) (30 * second) 0 0
    [.request (.enroll (some "eu"))] ?_).mpr ?_
  · exact hsafe events S hrun hstarts cert hcert "sigil" (by decide) hname
  · intro e he
    obtain rfl := List.mem_singleton.mp he
    trivial
  · intro cl hcl hmem
    obtain ⟨rfl⟩ : cl = "eu" := by simpa using hmem
    exact absurd hcl (by decide)

/-- A cluster that calls itself `sigil` is given a certificate of that name. -/
def enrolledAsSigil : List Move :=
  [.perform 0, .request (.enroll (some "sigil")), .perform 1]

/-- The certificate the handler has answered its enrollment with. -/
def enrolledCert (S : System) (i : ℕ) : Option Proto.Certificate :=
  match S.tasks[i]? with
  | some (.ret (.enrolled c)) => some c.certPem
  | _ => none

theorem enrolledAsSigil_takes_name :
    ¬ ∀ events S, Run (Step refuseConfig) demoBoot events S → ∀ cert, HandedOut events S cert →
      ∀ name ∈ sigilNames, name ∉ cert.dnsNames := by
  intro h
  obtain ⟨events, S, hrun, hdns⟩ :
      ∃ events S, Run (Step refuseConfig) demoBoot events S ∧
        (enrolledCert S 1).any (fun cert => "sigil" ∈ cert.dnsNames) = true :=
    exists_run (by decide +kernel : (demoBoot.follow refuseConfig _ enrolledAsSigil).any _ = true)
  obtain ⟨cert, hcert, hname⟩ := (Option.any_eq_true _ _).mp hdns
  unfold enrolledCert at hcert
  split at hcert
  · case _ c hreply =>
    obtain rfl := Option.some.inj hcert
    exact h events S hrun _ (Or.inr ⟨1, c, hreply, rfl⟩) "sigil" (by decide) (by simpa using hname)
  · cases hcert

end Meshlite.Sigil
