import Meshlite.Sigil.Footprint

/-!
# Certificates on their way

What a call of the authority does to the table, and the handlers that are still to issue
a certificate or to push one, as long as the clock stands still.
-/

namespace Meshlite.Sigil

open Tasks Tasks.Prog

/-- The authority and its table answer. -/
def Op.granted : (o : Op) → o.Res → Bool
  | issue _ _ _, r => r.isOk
  | issueWithDns _ _ _ _, r => r.isOk
  | listCerts, r => r.isOk
  | _, _ => true

/-- The answers from servers of which `I` holds, when the authority does not fail. -/
def Grants (I : Server → Prop) (o : Op) (r : o.Res) : Prop :=
  Server.Answers I o r ∧ o.granted r = true

/-- The operation issues a certificate of the service. -/
def IssuesFor (svc : String) : Op → Prop
  | .issue svc' _ _ | .issueWithDns svc' _ _ _ => svc' = svc
  | _ => False

theorem IssuesFor.unique {svc svc' : String} {o : Op} (h : IssuesFor svc o)
    (h' : IssuesFor svc' o) : svc = svc' := by
  cases o with
  | issue svc₀ cl ns => exact h.symm.trans h'
  | issueWithDns svc₀ cl ns dns => exact h.symm.trans h'
  | _ => exact h.elim

/-- The operation puts a certificate of the service on the channel of the stream. -/
def PushesCert (svc : String) (sid : ℕ) : Op → Prop
  | .enqueue sid' (.cert cb) => sid' = sid ∧ cb.serviceId = svc
  | _ => False

/-- A certificate put on a channel expires at this Unix time. -/
def PushesFresh (expires : ℕ) : Op → Prop
  | .enqueue _ (.cert cb) => cb.expiresAtUnix = expires
  | _ => True

/-- The handler is still to issue a certificate of the service. -/
def WillIssue (now : Time) (svc : String) (p : Handler Reply) : Prop :=
  p.Will (Grants fun s => s.now = now) (IssuesFor svc)

/-- The handler is still to push a certificate of the service to the node. -/
def WillPushCert (now : Time) (node : String) (sid : ℕ) (svc : String) (p : Handler Reply) :
    Prop :=
  p.Will (Grants fun s => s.now = now ∧ s.dist.streams.lookup node = some sid)
    (PushesCert svc sid)

/-- As long as the row is in the table, the handler is still to issue a certificate of its
service. -/
def WillRotate (now : Time) (row : CertRow) (p : Handler Reply) : Prop :=
  p.Will (Grants fun s => s.now = now ∧ row ∈ s.certs.rows) (IssuesFor row.serviceId)

namespace Server

variable {s s' : Server} {o : Op} {r : o.Res} {svc : String} {row : CertRow}

/-- `rotate_at` of a certificate issued now. -/
def rotateAt (s : Server) : ℕ := (s.now + rotateDelay s.leafTtl).unix

/-- `expires_at` of a certificate issued now. -/
def expiresAt (s : Server) : ℕ := (s.now + s.leafTtl).unix

/-- A certificate lasts more than five seconds after its rotation is due. -/
theorem rotateAt_add_five_lt (h : 30 * second ≤ s.leafTtl) : s.rotateAt + 5 < s.expiresAt := by
  have httl : (30000000000 : ℕ) ≤ s.leafTtl := h
  unfold rotateAt expiresAt rotateDelay Time.unix second
  omega

theorem lt_unix_mul_second {t u : ℕ} (h : t + second ≤ u) : t < Time.unix u * second := by
  unfold Time.unix second at *
  omega

theorem now_lt_expiresAt (h : 30 * second ≤ s.leafTtl) : s.now < s.expiresAt * second := by
  apply lt_unix_mul_second
  have httl : (30000000000 : ℕ) ≤ s.leafTtl := h
  unfold second
  omega

theorem now_lt_rotateAt (h : 30 * second ≤ s.leafTtl) : s.now < s.rotateAt * second := by
  apply lt_unix_mul_second
  have httl : (30000000000 : ℕ) ≤ s.leafTtl := h
  unfold rotateDelay second
  omega

theorem Issues.mem_rows {cl ns : String} {dns : List String} {c : IssuedCert}
    (h : s.Issues svc cl ns dns c s') : row ∈ s'.certs.rows ↔
      row = c.row ∨ row ∈ s.certs.rows ∧ row.serviceId ≠ svc := by
  obtain ⟨⟨serial, key, hfresh, rfl⟩, rfl⟩ := h
  exact CertTable.mem_insertOrReplace_fresh hfresh

theorem Issues.row_eq {cl ns : String} {dns : List String} {c : IssuedCert}
    (h : s.Issues svc cl ns dns c s') : c.row.serviceId = svc ∧ c.row.rotateAt = s.rotateAt := by
  obtain ⟨⟨serial, key, -, rfl⟩, -⟩ := h
  exact ⟨rfl, rfl⟩

theorem Issues.bundle_eq {cl ns : String} {dns : List String} {c : IssuedCert}
    (h : s.Issues svc cl ns dns c s') :
    c.bundle.serviceId = svc ∧ c.bundle.expiresAtUnix = s.expiresAt := by
  obtain ⟨⟨serial, key, -, rfl⟩, -⟩ := h
  exact ⟨rfl, rfl⟩

theorem Exec.issues (h : s.Exec o r s') (hr : o.granted r = true) (ho : IssuesFor svc o) :
    ∃ cl ns dns c, s.Issues svc cl ns dns c s' := by
  cases o with
  | issue svc' cl ns =>
    obtain rfl : svc' = svc := ho
    cases r with
    | error err => nomatch hr
    | ok c => exact ⟨cl, ns, [], c, h⟩
  | issueWithDns svc' cl ns dns =>
    obtain rfl : svc' = svc := ho
    cases r with
    | error err => nomatch hr
    | ok c => exact ⟨cl, ns, dns, c, h⟩
  | _ => exact ho.elim

theorem Exec.mem_rows_of_not_issues (h : s.Exec o r s') (ho : ∀ svc, ¬ IssuesFor svc o)
    (hrow : row ∈ s'.certs.rows) : row ∈ s.certs.rows := by
  cases o with
  | issue svc cl ns => exact absurd rfl (ho svc)
  | issueWithDns svc cl ns dns => exact absurd rfl (ho svc)
  | revoke svc =>
    cases r with
    | error err =>
      obtain rfl : s' = s := h
      exact hrow
    | ok u =>
      obtain rfl : s' = { s with certs := s.certs.delete svc } := h
      exact (CertTable.mem_delete.mp hrow).1
  | _ =>
    rw [h.certs_eq (by nofun)] at hrow
    exact hrow

/-- A refused call of the authority changes nothing. -/
theorem Exec.eq_of_not_granted (h : s.Exec o r s') (hr : o.granted r = false) : s' = s := by
  cases o with
  | issue svc cl ns =>
    cases r with
    | error err => exact h
    | ok c => nomatch hr
  | issueWithDns svc cl ns dns =>
    cases r with
    | error err => exact h
    | ok c => nomatch hr
  | listCerts =>
    cases r with
    | error err => exact h
    | ok rows => nomatch hr
  | _ => nomatch hr

theorem Exec.mem_rows (h : s.Exec o r s') (hr : o.granted r = true) (hrow : row ∈ s'.certs.rows) :
    row ∈ s.certs.rows ∧ ¬ IssuesFor row.serviceId o ∨
      IssuesFor row.serviceId o ∧ row.rotateAt = s.rotateAt := by
  by_cases ho : ∃ svc, IssuesFor svc o
  · obtain ⟨svc, ho⟩ := ho
    obtain ⟨cl, ns, dns, c, hissue⟩ := h.issues hr ho
    rcases hissue.mem_rows.mp hrow with rfl | ⟨hold, hne⟩
    · obtain ⟨hsvc, hrot⟩ := hissue.row_eq
      exact Or.inr ⟨by rwa [hsvc], hrot⟩
    · exact Or.inl ⟨hold, fun hrow => hne (hrow.unique ho)⟩
  · rw [not_exists] at ho
    exact Or.inl ⟨h.mem_rows_of_not_issues ho hrow, ho _⟩

/-- Only a revocation takes a service off the table. -/
theorem Exec.listed (h : s.Exec o r s') (hr : o.granted r = true) (ho : o ≠ .revoke svc)
    (hlisted : ∃ row ∈ s.certs.rows, row.serviceId = svc) :
    ∃ row ∈ s'.certs.rows, row.serviceId = svc := by
  obtain ⟨row, hrow, rfl⟩ := hlisted
  by_cases hissue : ∃ svc, IssuesFor svc o
  · obtain ⟨svc, hsvc⟩ := hissue
    obtain ⟨cl, ns, dns, c, hissue⟩ := h.issues hr hsvc
    by_cases heq : row.serviceId = svc
    · exact ⟨c.row, hissue.mem_rows.mpr (Or.inl rfl), by rw [heq, hissue.row_eq.1]⟩
    · exact ⟨row, hissue.mem_rows.mpr (Or.inr ⟨hrow, heq⟩), rfl⟩
  · refine ⟨row, ?_, rfl⟩
    cases o with
    | issue svc cl ns => exact absurd ⟨svc, rfl⟩ hissue
    | issueWithDns svc cl ns dns => exact absurd ⟨svc, rfl⟩ hissue
    | revoke svc =>
      cases r with
      | error err =>
        obtain rfl : s' = s := h
        exact hrow
      | ok u =>
        obtain rfl : s' = { s with certs := s.certs.delete svc } := h
        exact CertTable.mem_delete.mpr ⟨hrow, fun heq => ho (by rw [heq])⟩
    | _ =>
      rw [h.certs_eq (by nofun)]
      exact hrow

theorem Exec.listed_of_issues (h : s.Exec o r s') (hr : o.granted r = true)
    (ho : IssuesFor svc o) : ∃ row ∈ s'.certs.rows, row.serviceId = svc := by
  obtain ⟨cl, ns, dns, c, hissue⟩ := h.issues hr ho
  exact ⟨c.row, hissue.mem_rows.mpr (Or.inl rfl), hissue.row_eq.1⟩

end Server

section Handlers

variable {now : Time} {node : String} {sid : ℕ} {svc : String}

/-- A scan re-issues the certificate of a row that is due. -/
theorem willRotate_rotationScan {row : CertRow} (hdue : row.rotateAt * second ≤ now) :
    WillRotate now row rotationScan := by
  refine Or.inr fun r hr => ?_
  obtain ⟨⟨s, s', ⟨-, hrow⟩, hexec⟩, hr⟩ := hr
  cases r with
  | error err => nomatch hr
  | ok rows =>
    obtain rfl : rows = s.certs.list := hexec.1
    change ((each rotateIfDue s.certs.list).bind fun _ => _).Will _ _
    apply will_bind_of_left
    apply will_each (CertTable.mem_list.mpr hrow)
    rw [rotateIfDue_eq, will_op]
    refine Or.inr ?_
    intro now' hnow
    obtain ⟨⟨s₁, s₁', ⟨rfl, -⟩, rfl, -⟩, -⟩ := hnow
    rw [if_neg hdue.not_gt]
    exact Or.inl rfl

end Handlers

end Meshlite.Sigil
