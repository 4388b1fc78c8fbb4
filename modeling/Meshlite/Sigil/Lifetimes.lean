import Meshlite.Sigil.Delivery
import Meshlite.Sigil.Rotation

/-!
# No row outlives its certificate

The rotation loop next to calls of the authority at any time. A row is due five seconds
before it expires, and a scan that lists the table re-issues every row that is due before
the clock moves on.
-/

namespace Meshlite.Sigil

open Tasks Tasks.Prog Runs

/-- Sigil's state, what is left of the last scan, and when a scan last listed the table. -/
structure Rotator where
  server : Server
  scan : Handler Reply
  listedAt : Time

inductive RotatorEvent where
  /-- an operation of anyone else, at any time -/
  | call (o : Op) (r : o.Res)
  | ticker
  /-- the scan performs its next operation -/
  | perform (o : Op) (r : o.Res)
  | tick (d : Duration)

/-- When the table was listed last, once a scan has performed the operation. -/
def Rotator.listedAfter (R : Rotator) : (o : Op) → o.Res → Time
  | .listCerts, .ok _ => R.server.now
  | _, _ => R.listedAt

/-- The steps: a scan starts when the last one is done, what it issues is issued, and the
clock moves between scans, up to five seconds from one listing to the next. -/
inductive RotatorStep : Rotator → RotatorEvent → Rotator → Prop
  | call {R : Rotator} {o : Op} {r : o.Res} {server : Server} :
      R.server.Exec o r server → RotatorStep R (.call o r) { R with server }
  | ticker {R : Rotator} :
      (∃ a, R.scan = .ret a) → RotatorStep R .ticker { R with scan := rotationScan }
  | perform {R : Rotator} {o : Op} {r : o.Res} {k : o.Res → Handler Reply} {server : Server} :
      R.scan = .op o k → R.server.Exec o r server →
      (∀ svc, IssuesFor svc o → o.granted r = true) →
      RotatorStep R (.perform o r) { server, scan := k r, listedAt := R.listedAfter o r }
  | tick {R : Rotator} (d : Duration) :
      (∃ a, R.scan = .ret a) → R.server.now + d ≤ R.listedAt + 5 * second →
      RotatorStep R (.tick d) { R with server := { R.server with now := R.server.now + d } }

/-- Before the first scan the ticker counts from the start. -/
def Rotator.start (server : Server) : Rotator where
  server := server
  scan := .ret .none
  listedAt := server.now

namespace Server

variable {s s' : Server} {o : Op} {r : o.Res} {row : CertRow}

theorem Exec.row_origin (h : s.Exec o r s') (hrow : row ∈ s'.certs.rows) :
    row ∈ s.certs.rows ∨ row.rotateAt = s.rotateAt ∧ row.expiresAt = s.expiresAt := by
  cases hr : o.granted r with
  | false =>
    obtain rfl := h.eq_of_not_granted hr
    exact Or.inl hrow
  | true =>
    by_cases ho : ∃ svc, IssuesFor svc o
    · obtain ⟨svc, ho⟩ := ho
      obtain ⟨cl, ns, dns, c, hissue⟩ := h.issues hr ho
      rcases hissue.mem_rows.mp hrow with rfl | ⟨hold, -⟩
      · exact Or.inr ⟨hissue.row_eq.2, hissue.bundle_eq.2⟩
      · exact Or.inl hold
    · rw [not_exists] at ho
      exact Or.inl (h.mem_rows_of_not_issues ho hrow)

end Server

/-- The handler does not list the table. -/
def ListsNothing (p : Handler Reply) : Prop :=
  p.Always (fun _ _ => True) fun o _ => o ≠ .listCerts

/-- The row is not due at the last listing, or the scan in progress is to issue it again. -/
def Rotator.Attended (R : Rotator) (row : CertRow) : Prop :=
  R.listedAt < row.rotateAt * second ∨ WillRotate R.server.now row R.scan

/-- What every step keeps. -/
structure Rotator.Sound (R : Rotator) : Prop where
  ttl : 30 * second ≤ R.server.leafTtl
  listed : R.listedAt ≤ R.server.now
  lasts : ∀ row ∈ R.server.certs.rows,
    R.server.now < row.expiresAt * second ∧ row.rotateAt + 5 < row.expiresAt
  due : (R.scan = rotationScan ∧ ∀ row ∈ R.server.certs.rows, R.listedAt < row.rotateAt * second) ∨
    (ListsNothing R.scan ∧ ∀ row ∈ R.server.certs.rows, R.Attended row)

section Scan

variable {now : Time} {row : CertRow}

theorem listsNothing_each (rows : List CertRow) :
    ListsNothing ((each rotateIfDue rows).bind fun _ => .ret .none) := by
  have hrotates : ∀ row, Rotates (fun _ _ => True) (fun o => o ≠ .listCerts) row := by
    intro row
    exact ⟨nofun, nofun, fun c _ => ⟨nofun, nofun, nofun⟩⟩
  exact always_bind (always_each fun row _ => (hrotates row).rotateIfDue) fun _ => trivial

end Scan

section Steps

variable {R R' : Rotator} {e : RotatorEvent} {server : Server} {o : Op} {r : o.Res}

theorem Rotator.Sound.issued (hR : R.Sound) {row : CertRow}
    (h : row.rotateAt = R.server.rotateAt ∧ row.expiresAt = R.server.expiresAt) :
    R.listedAt < row.rotateAt * second ∧ R.server.now < row.expiresAt * second ∧
      row.rotateAt + 5 < row.expiresAt := by
  rw [h.1, h.2]
  exact ⟨hR.listed.trans_lt (Server.now_lt_rotateAt hR.ttl), Server.now_lt_expiresAt hR.ttl,
    Server.rotateAt_add_five_lt hR.ttl⟩

theorem Rotator.Sound.lasts_exec (hR : R.Sound) (h : R.server.Exec o r server) :
    ∀ row ∈ server.certs.rows,
      server.now < row.expiresAt * second ∧ row.rotateAt + 5 < row.expiresAt := by
  intro row hrow
  rw [h.clock_eq.1]
  rcases h.row_origin hrow with hold | hnew
  · exact hR.lasts row hold
  · exact (hR.issued hnew).2

theorem sound_call (hR : R.Sound) (h : R.server.Exec o r server) :
    Rotator.Sound { R with server } := by
  obtain ⟨hnow, -, httl⟩ := h.clock_eq
  refine ⟨httl ▸ hR.ttl, hnow ▸ hR.listed, hR.lasts_exec h, ?_⟩
  rcases hR.due with ⟨hscan, hdue⟩ | ⟨hlists, hdue⟩
  · refine Or.inl ⟨hscan, fun row hrow => ?_⟩
    rcases h.row_origin hrow with hold | hnew
    · exact hdue row hold
    · exact (hR.issued hnew).1
  · refine Or.inr ⟨hlists, fun row hrow => ?_⟩
    rcases h.row_origin hrow with hold | hnew
    · rw [Rotator.Attended, hnow]
      exact hdue row hold
    · exact Or.inl (hR.issued hnew).1

/-- No row waits for a scan that is done. -/
theorem Rotator.Sound.due_of_done (hR : R.Sound) (hdone : ∃ a, R.scan = .ret a) :
    ∀ row ∈ R.server.certs.rows, R.listedAt < row.rotateAt * second := by
  obtain ⟨a, hdone⟩ := hdone
  rcases hR.due with ⟨-, hdue⟩ | ⟨-, hdue⟩
  · exact hdue
  · intro row hrow
    rcases hdue row hrow with hlater | hwill
    · exact hlater
    · rw [hdone] at hwill
      exact hwill.elim

theorem sound_tick (hR : R.Sound) (hdone : ∃ a, R.scan = .ret a) {d : Duration}
    (hd : R.server.now + d ≤ R.listedAt + 5 * second) :
    Rotator.Sound { R with server := { R.server with now := R.server.now + d } } := by
  have hdue := hR.due_of_done hdone
  refine ⟨hR.ttl, hR.listed.trans (Nat.le_add_right _ _), fun row hrow => ?_, ?_⟩
  · obtain ⟨-, hlasts⟩ := hR.lasts row hrow
    refine ⟨?_, hlasts⟩
    calc R.server.now + d ≤ R.listedAt + 5 * second := hd
      _ < row.rotateAt * second + 5 * second := Nat.add_lt_add_right (hdue row hrow) _
      _ = (row.rotateAt + 5) * second := (Nat.add_mul _ _ _).symm
      _ ≤ row.expiresAt * second := Nat.mul_le_mul_right _ hlasts.le
  · obtain ⟨a, hdone⟩ := hdone
    refine Or.inr ⟨?_, fun row hrow => Or.inl (hdue row hrow)⟩
    rw [hdone]
    trivial

/-- The scan lists the table: what is due now is about to be issued again. -/
theorem sound_list (hR : R.Sound) {rows : List CertRow}
    (h : R.server.Exec .listCerts (.ok rows) server) :
    Rotator.Sound
      { server, scan := (each rotateIfDue rows).bind fun _ => .ret .none,
        listedAt := R.server.now } := by
  obtain ⟨rfl, rfl⟩ := h
  refine ⟨hR.ttl, le_refl _, hR.lasts, Or.inr ⟨listsNothing_each _, fun row hrow => ?_⟩⟩
  by_cases hdue : R.server.now < row.rotateAt * second
  · exact Or.inl hdue
  · have hwill : WillRotate R.server.now row rotationScan :=
      willRotate_rotationScan (not_lt.mp hdue)
    rw [rotationScan_op] at hwill
    have hlist : Grants (fun s => s.now = R.server.now ∧ row ∈ s.certs.rows) .listCerts
        (.ok R.server.certs.list) := ⟨⟨_, _, ⟨rfl, hrow⟩, rfl, rfl⟩, rfl⟩
    exact Or.inr (hwill.resolve_left (fun h => h.elim) _ hlist)

/-- The scan goes on after the listing: a row it had to issue again is replaced, or still to
be. -/
theorem sound_perform (hR : R.Sound) {k : o.Res → Handler Reply} (hk : R.scan = .op o k)
    (h : R.server.Exec o r server) (hgranted : ∀ svc, IssuesFor svc o → o.granted r = true)
    (hlists : ListsNothing R.scan) (hdue : ∀ row ∈ R.server.certs.rows, R.Attended row) :
    Rotator.Sound { server, scan := k r, listedAt := R.listedAfter o r } := by
  obtain ⟨hnow, -, httl⟩ := h.clock_eq
  rw [hk] at hlists
  have hlisted : R.listedAfter o r = R.listedAt := by
    cases o with
    | listCerts => exact absurd rfl hlists.1
    | _ => rfl
  have hok : o.granted r = true := by
    cases o with
    | listCerts => exact absurd rfl hlists.1
    | issue svc cl ns => exact hgranted svc rfl
    | issueWithDns svc cl ns dns => exact hgranted svc rfl
    | _ => rfl
  rw [hlisted]
  refine ⟨httl ▸ hR.ttl, hnow ▸ hR.listed, hR.lasts_exec h,
    Or.inr ⟨hlists.2 r trivial, fun row hrow => ?_⟩⟩
  rw [Rotator.Attended, hnow]
  rcases h.mem_rows hok hrow with ⟨hold, hother⟩ | ⟨-, hnew⟩
  · rcases hdue row hold with hlater | hwill
    · exact Or.inl hlater
    · rw [hk] at hwill
      exact Or.inr (hwill.resolve_left hother r ⟨⟨_, _, ⟨rfl, hold⟩, h⟩, hok⟩)
  · rw [hnew]
    exact Or.inl (hR.listed.trans_lt (Server.now_lt_rotateAt hR.ttl))

theorem RotatorStep.sound (h : RotatorStep R e R') (hR : R.Sound) : R'.Sound := by
  cases h with
  | call hexec => exact sound_call hR hexec
  | ticker hdone =>
    exact ⟨hR.ttl, hR.listed, hR.lasts, Or.inl ⟨rfl, hR.due_of_done hdone⟩⟩
  | tick d hdone hd => exact sound_tick hR hdone hd
  | @perform o r k server hk hexec hgranted =>
    rcases hR.due with ⟨hscan, hdue⟩ | ⟨hlists, hdue⟩
    · rw [hscan, rotationScan_op] at hk
      cases hk
      cases r with
      | ok rows => exact sound_list hR hexec
      | error err =>
        obtain rfl : server = R.server := hexec
        exact ⟨hR.ttl, hR.listed, hR.lasts, Or.inr ⟨trivial, fun row hrow => Or.inl (hdue row hrow)⟩⟩
    · exact sound_perform hR hk hexec hgranted hlists hdue

theorem sound_start {server : Server} (httl : 30 * second ≤ server.leafTtl)
    (hempty : server.certs = .empty) : (Rotator.start server).Sound where
  ttl := httl
  listed := le_refl _
  lasts := by simp [Rotator.start, hempty, CertTable.empty]
  due := Or.inr ⟨trivial, by simp [Rotator.start, hempty, CertTable.empty]⟩

end Steps

/-- With certificates of at least thirty seconds, from an empty table, no row of the table is
ever expired, whatever is issued and revoked next to the rotation loop and when. -/
theorem rows_unexpired (server : Server) (httl : 30 * second ≤ server.leafTtl)
    (hempty : server.certs = .empty) (events : List RotatorEvent) (R : Rotator)
    (hrun : Run RotatorStep (.start server) events R) :
    ∀ row ∈ R.server.certs.rows, R.server.now < row.expiresAt * second := by
  have hsound : R.Sound := by
    refine hrun.invariant (I := fun _ R => R.Sound) (sound_start httl hempty) ?_
    intro _ R e R' _ hR hstep
    exact hstep.sound hR
  exact fun row hrow => (hsound.lasts row hrow).1

/-- Who moves next. -/
inductive RotatorMove where
  | call (o : Op)
  | ticker
  | perform
  | tick (d : Duration)

def Rotator.move (R : Rotator) : RotatorMove → Option (RotatorEvent × Rotator)
  | .call o => (R.server.run o).map fun p => (.call o p.1, { R with server := p.2 })
  | .ticker =>
    match R.scan with
    | .ret _ => some (.ticker, { R with scan := rotationScan })
    | .op _ _ => none
  | .perform =>
    match R.scan with
    | .ret _ => none
    | .op o k => (R.server.run o).map fun p =>
      (.perform o p.1, { server := p.2, scan := k p.1, listedAt := R.listedAfter o p.1 })
  | .tick d =>
    match R.scan with
    | .ret _ =>
      if R.server.now + d ≤ R.listedAt + 5 * second then
        some (.tick d, { R with server := { R.server with now := R.server.now + d } })
      else none
    | .op _ _ => none

theorem Server.granted_of_run {s s' : Server} {o : Op} {r : o.Res} (h : s.run o = some (r, s'))
    {svc : String} (ho : IssuesFor svc o) : o.granted r = true := by
  cases o with
  | issue | issueWithDns =>
    obtain ⟨rfl, -⟩ := Prod.mk.inj (Option.some.inj h)
    rfl
  | _ => exact ho.elim

theorem rotatorStep_of_move {R R' : Rotator} {m : RotatorMove} {e : RotatorEvent}
    (h : R.move m = some (e, R')) : RotatorStep R e R' := by
  cases m with
  | call o =>
    obtain ⟨⟨r, server⟩, hrun, hend⟩ := Option.map_eq_some_iff.mp h
    obtain ⟨rfl, rfl⟩ := Prod.mk.inj hend
    exact .call (Server.exec_of_run hrun)
  | ticker =>
    simp only [Rotator.move] at h
    split at h
    case h_1 a hscan =>
      obtain ⟨rfl, rfl⟩ := Prod.mk.inj (Option.some.inj h)
      exact .ticker ⟨a, hscan⟩
    case h_2 => cases h
  | perform =>
    simp only [Rotator.move] at h
    split at h
    case h_1 => cases h
    case h_2 o k hscan =>
      obtain ⟨⟨r, server⟩, hrun, hend⟩ := Option.map_eq_some_iff.mp h
      obtain ⟨rfl, rfl⟩ := Prod.mk.inj hend
      exact .perform hscan (Server.exec_of_run hrun) fun svc => Server.granted_of_run hrun
  | tick d =>
    simp only [Rotator.move] at h
    split at h
    case h_1 a hscan =>
      split_ifs at h with hd
      obtain ⟨rfl, rfl⟩ := Prod.mk.inj (Option.some.inj h)
      exact .tick d ⟨a, hscan⟩ hd
    case h_2 => cases h

/-- Five seconds pass, and a scan finds the one row not due. -/
def idleScan : List RotatorMove := [.tick (5 * second), .ticker, .perform, .perform]

/-- `alpha` is issued at once, the scan after 25 seconds issues it again, and the first
certificate expires. -/
def alphaRotation : List RotatorMove :=
  .call (.issue "alpha" "cluster-1" "default") ::
    ((List.replicate 4 idleScan).flatten ++ idleScan ++ [.perform, .perform, .tick (5 * second)])

theorem alphaRow_unexpired : ∃ events R, Run RotatorStep (.start demoBoot.server) events R ∧
    R.server.now = 30 * second ∧ R.server.certs.rows ≠ [] ∧
    ∀ row ∈ R.server.certs.rows, R.server.now < row.expiresAt * second := by
  obtain ⟨events, R, hrun, hnow, hrows⟩ : ∃ events R,
      Run RotatorStep (.start demoBoot.server) events R ∧ R.server.now = 30 * second ∧
      R.server.certs.rows ≠ [] :=
    exists_run_of_follow (fun _ _ _ _ => rotatorStep_of_move)
      (by decide +kernel :
        ((follow Rotator.move (.start demoBoot.server) alphaRotation).any _) = true)
  exact ⟨events, R, hrun, hnow, hrows,
    rows_unexpired demoBoot.server (by decide) rfl events R hrun⟩

end Meshlite.Sigil
