import Meshlite.Conduit.Emission
import Meshlite.Library.Separators
import Mathlib.Data.Nat.Digits.Defs

/-!
# Which failures Ingress reports as a rejected handshake

`ingress::run` has only the text of the error that ended a connection, and takes it for a TLS
rejection when it contains one of two words. The text of a failed connect contains the name
of the backend, which the request chose.
-/

namespace Meshlite.Conduit

open Bytes Separators

/-- The words that `ingress::run` looks for. -/
def MentionsTls (text : String) : Prop :=
  "certificate".toList <:+: text.toList ∨ "alert".toList <:+: text.toList

instance (text : String) : Decidable (MentionsTls text) := inferInstanceAs (Decidable (_ ∨ _))

/-- The host that Ingress looks up. -/
def backendName (svcDomainSuffix host : String) : String :=
  if '.' ∈ host.toList then host else host ++ svcDomainSuffix

/-- An operation does not fail with a text that mentions TLS. -/
def Unmentioned {α : Type} (result : Except String α) : Prop :=
  ∀ e, result = .error e → ¬ MentionsTls e

/-- Whichever operation after the handshake ends the connection, its error does not mention
TLS; and where no connection to the backend comes about, its name does not either. -/
def IngressIo.Distinguishable (io : IngressIo) (svcDomainSuffix : String) (svcPort : ℕ) : Prop :=
  Unmentioned io.read ∧ ∀ header, io.read = .ok header → header ≠ [] →
    match extractHost header with
    | none => Unmentioned io.writeBadRequest
    | some host =>
      match io.connectBackend (backendAddr svcDomainSuffix svcPort host) with
      | .error e => ¬ MentionsTls e ∧ ¬ MentionsTls (backendName svcDomainSuffix host)
      | .ok () => Unmentioned io.forward ∧ (io.forward = .ok () → Unmentioned io.copyBidirectional)

section Text

theorem verdictOfError_eq (msg : String) :
    verdictOfError msg = if MentionsTls msg then "tls_reject" else "error" := rfl

theorem verdictOfError_eq_error {msg : String} :
    verdictOfError msg = "error" ↔ ¬ MentionsTls msg := by
  rw [verdictOfError_eq]
  split_ifs with h <;> simp [h]

theorem backendAddr_eq (svcDomainSuffix : String) (svcPort : ℕ) (host : String) :
    backendAddr svcDomainSuffix svcPort host =
      backendName svcDomainSuffix host ++ ":" ++ toString svcPort := by
  unfold backendAddr backendName
  split_ifs <;> rfl

theorem not_infix_port {word : List Char} {c : Char} (hc : c ∈ word) (hdigit : ¬ c.isDigit)
    (port : ℕ) : ¬ word <:+: (toString port).toList := by
  intro h
  have hmem : c ∈ Nat.toDigits 10 port := by simpa using h.subset hc
  exact hdigit (Nat.isDigit_of_mem_toDigits (by decide) (by decide) hmem)

theorem toList_connectError (svcDomainSuffix : String) (svcPort : ℕ) (host e : String) :
    s!"connect to backend {backendAddr svcDomainSuffix svcPort host}: {e}".toList =
      "connect to backend".toList ++ ' ' :: ((backendName svcDomainSuffix host).toList ++ ':' ::
        ((toString svcPort).toList ++ ':' :: ([] ++ ' ' :: e.toList))) := by
  have hopening : "connect to backend ".toList = "connect to backend".toList ++ [' '] := by decide
  have hport : ":".toList = [':'] := by decide
  have herror : ": ".toList = [':', ' '] := by decide
  rw [backendAddr_eq]
  change ("connect to backend " ++ (_ ++ ":" ++ toString svcPort) ++ ": " ++ e).toList = _
  simp only [String.toList_append, hopening, hport, herror, List.append_assoc, List.cons_append,
    List.nil_append]

/-- A word without blanks and colons that has a letter lies within the name of the backend or
the error behind it. -/
theorem infix_connectError {word : List Char} {c : Char} (hspace : ' ' ∉ word)
    (hcolon : ':' ∉ word) (hc : c ∈ word) (hdigit : ¬ c.isDigit)
    (hfixed : ¬ word <:+: "connect to backend".toList) (svcDomainSuffix : String) (svcPort : ℕ)
    (host e : String) :
    word <:+: s!"connect to backend {backendAddr svcDomainSuffix svcPort host}: {e}".toList ↔
      word <:+: (backendName svcDomainSuffix host).toList ∨ word <:+: e.toList := by
  have hempty : ¬ word <:+: [] := by
    rw [List.infix_nil]
    exact List.ne_nil_of_mem hc
  rw [toList_connectError, infix_append_cons_iff hspace, infix_append_cons_iff hcolon,
    infix_append_cons_iff hcolon, infix_append_cons_iff hspace, or_iff_right hfixed,
    or_iff_right (not_infix_port hc hdigit svcPort), or_iff_right hempty]

/-- The error of a failed connect mentions TLS with the name of the backend or with the error
of the operating system. -/
theorem mentionsTls_connectError (svcDomainSuffix : String) (svcPort : ℕ) (host e : String) :
    MentionsTls s!"connect to backend {backendAddr svcDomainSuffix svcPort host}: {e}" ↔
      MentionsTls (backendName svcDomainSuffix host) ∨ MentionsTls e := by
  rw [MentionsTls, MentionsTls, MentionsTls,
    infix_connectError (c := 'a') (by decide) (by decide) (by decide) (by decide) (by decide),
    infix_connectError (c := 'a') (by decide) (by decide) (by decide) (by decide) (by decide)]
  exact or_or_or_comm

end Text

section Handler

variable {io : IngressIo}

theorem Unmentioned.ok {α : Type} (a : α) : Unmentioned (.ok a : Except String α) := by
  intro e h
  cases h

theorem unmentioned_error {α : Type} {e : String} :
    Unmentioned (.error e : Except String α) ↔ ¬ MentionsTls e := by
  constructor
  · exact fun h => h e rfl
  · rintro h _ ⟨⟩
    exact h

/-- After a handshake the text of the error is that of the operation that failed. -/
theorem IngressIo.unmentioned_iff (hhandshake : io.handshake = .ok ()) (svcDomainSuffix : String)
    (svcPort : ℕ) : Unmentioned (io.handleConnection svcDomainSuffix svcPort) ↔
      io.Distinguishable svcDomainSuffix svcPort := by
  unfold IngressIo.handleConnection IngressIo.Distinguishable
  cases hread : io.read with
  | error e => simp [bind, Except.bind, hhandshake, unmentioned_error]
  | ok header =>
    by_cases hnil : header = []
    · simp [bind, Except.bind, pure, Except.pure, hhandshake, hnil, Unmentioned.ok]
    · cases hhost : extractHost header with
      | none => simp [bind, Except.bind, hhandshake, hnil, hhost, Unmentioned.ok]
      | some host =>
        have hmentions := mentionsTls_connectError svcDomainSuffix svcPort host
        cases hconnect : io.connectBackend (backendAddr svcDomainSuffix svcPort host) with
        | error e =>
          simp [bind, Except.bind, Except.mapError, hhandshake, hnil, hhost, hconnect, hmentions,
            Unmentioned.ok, unmentioned_error, and_comm]
        | ok =>
          cases hforward : io.forward <;>
            simp [bind, Except.bind, Except.mapError, hhandshake, hnil, hhost, hconnect,
              Unmentioned.ok, unmentioned_error]

end Handler

/-- Ingress reports a rejected handshake only for one, and a later failure as an error, exactly
when the text of no later failure mentions TLS and the name of an unreachable backend neither. -/
theorem tls_reject_iff (io : IngressIo) (clusterId svcDomainSuffix : String) (svcPort : ℕ) :
    (∀ r ∈ io.serve clusterId svcDomainSuffix svcPort,
      (r.verdict = "tls_reject" → ∃ e, io.handshake = .error e) ∧
        (io.handshake = .ok () → r.verdict = "error")) ↔
      (io.handshake = .ok () → io.Distinguishable svcDomainSuffix svcPort) := by
  cases hhandshake : io.handshake with
  | error e => simp
  | ok =>
    rw [← io.unmentioned_iff hhandshake]
    unfold IngressIo.serve
    cases hrun : io.handleConnection svcDomainSuffix svcPort with
    | ok => simp [Unmentioned.ok]
    | error msg =>
      rw [unmentioned_error]
      constructor
      · intro h _
        exact verdictOfError_eq_error.mp ((h _ (List.mem_singleton_self _)).2 rfl)
      · intro h r hr
        obtain rfl := List.mem_singleton.mp hr
        have herror := verdictOfError_eq_error.mpr (h rfl)
        exact ⟨fun hreject => absurd (hreject.symm.trans herror) (by decide), fun _ => herror⟩

/-- A request to a backend that is down, whose name happens to contain one of the words. -/
def alertingIo : IngressIo :=
  { refusingIo with read := .ok (utf8 "GET / HTTP/1.1\r\nHost: alertmanager\r\n\r\n") }

theorem alertmanager_rejected : ¬ ∀ (io : IngressIo) (clusterId svcDomainSuffix : String)
    (svcPort : ℕ), ∀ r ∈ io.serve clusterId svcDomainSuffix svcPort,
      (r.verdict = "tls_reject" → ∃ e, io.handshake = .error e) ∧
        (io.handshake = .ok () → r.verdict = "error") := by
  intro h
  have hserve : (alertingIo.serve "cluster-2" ".meshlite-test.svc.cluster.local" 8080).map
      (·.verdict) = ["tls_reject"] := by decide +kernel
  obtain ⟨r, hr, hverdict⟩ : ∃ r ∈ alertingIo.serve "cluster-2"
      ".meshlite-test.svc.cluster.local" 8080, r.verdict = "tls_reject" := by
    rw [← List.mem_map, hserve]
    exact List.mem_singleton_self _
  have herror := (h alertingIo _ _ _ r hr).2 rfl
  exact absurd (hverdict.symm.trans herror) (by decide)

end Meshlite.Conduit
