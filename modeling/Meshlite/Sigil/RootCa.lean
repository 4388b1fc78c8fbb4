import Meshlite.Proto.Messages

/-!
# The root key pair on disk

`New` loads the root key and the root certificate when both files exist and otherwise makes
a new pair, writing first the key and then the certificate. A run can stop before, between
or after the two writes, and the next run starts from what it left.
-/

namespace Meshlite.Sigil

/-- A PEM file by what reading its first block gives. -/
inductive PemFile (α : Type) where
  | block (contents : α)
  | noBlock
  | unparsable (err : String)
  deriving DecidableEq, Repr

/-- The files at `keyPath` and `certPath`, where they exist. -/
structure RootFiles where
  key : Option (PemFile Proto.KeyId)
  cert : Option (PemFile Proto.Certificate)
  deriving DecidableEq, Repr

/-- The root of a `CA`; `rootPem` is cached as it was read or written. -/
structure CA where
  rootKey : Proto.KeyId
  rootCert : Proto.Certificate
  rootPem : PemFile Proto.Certificate
  leafTtl : Duration
  deriving DecidableEq, Repr

/-- Where a run that does not return a CA ends, by a crash or by an error of its own. -/
inductive StopPoint where
  | beforeKey
  | betweenWrites
  | afterCert
  deriving DecidableEq, Repr

/-- One run of `New`: what it draws and reads off the clock, and where it stops. -/
structure Attempt where
  key : Proto.KeyId
  serial : ℕ
  notBefore : Time
  expiresFrom : Time
  leafTtl : ℤ
  stop : Option StopPoint
  deriving DecidableEq, Repr

def defaultLeafTtl : Duration := 24 * 3600 * second

def rootTtl : Duration := 10 * 365 * 24 * 3600 * second

/-- The self-signed certificate of a new root. -/
def Attempt.rootCert (a : Attempt) : Proto.Certificate where
  serialNumber := a.serial
  commonName := "MeshLite Root CA"
  uri := ""
  dnsNames := []
  notBefore := a.notBefore
  notAfter := a.expiresFrom + rootTtl
  publicKey := a.key

/-- The root as both helpers of `New` return it. -/
abbrev Root := Proto.KeyId × Proto.Certificate × PemFile Proto.Certificate

def generateRootCa (a : Attempt) (files : RootFiles) : RootFiles × Option Root :=
  let keyWritten := { files with key := some (.block a.key) }
  let bothWritten := { keyWritten with cert := some (.block a.rootCert) }
  match a.stop with
  | some .beforeKey => (files, none)
  | some .betweenWrites => (keyWritten, none)
  | some .afterCert => (bothWritten, none)
  | none => (bothWritten, some (a.key, a.rootCert, .block a.rootCert))

/-- Nothing compares the key with the certificate. -/
def loadRootCa (keyPem : PemFile Proto.KeyId) (certPem : PemFile Proto.Certificate) :
    Except String Root :=
  match keyPem with
  | .noBlock => .error "root key PEM is empty or malformed"
  | .unparsable err => .error ("parse root key: " ++ err)
  | .block key =>
    match certPem with
    | .noBlock => .error "root cert PEM is empty or malformed"
    | .unparsable err => .error ("parse root cert: " ++ err)
    | .block cert => .ok (key, cert, certPem)

/-- The CA `New` builds around a root. -/
def Attempt.ca (a : Attempt) (root : Root) : CA where
  rootKey := root.1
  rootCert := root.2.1
  rootPem := root.2.2
  leafTtl := if a.leafTtl ≤ 0 then defaultLeafTtl else a.leafTtl.toNat

/-- `New`: the files it leaves, and its answer unless it stopped. -/
def newCa (files : RootFiles) (a : Attempt) : RootFiles × Option (Except String CA) :=
  match files.key, files.cert with
  | some keyPem, some certPem =>
    if a.stop.isSome then (files, none)
    else match loadRootCa keyPem certPem with
      | .error err => (files, some (.error ("ca: load existing root CA: " ++ err)))
      | .ok root => (files, some (.ok (a.ca root)))
  | _, _ =>
    let (files', made) := generateRootCa a files
    (files', made.map fun root => .ok (a.ca root))

/-- The CAs that runs of `New`, one after the other, return. -/
def returned (files : RootFiles) : List Attempt → List CA
  | [] => []
  | a :: attempts =>
    match newCa files a with
    | (files', some (.ok ca)) => ca :: returned files' attempts
    | (files', _) => returned files' attempts

/-- The key of the CA is the one its certificate names. -/
def CA.Matches (ca : CA) : Prop := ca.rootCert.publicKey = ca.rootKey

instance (ca : CA) : Decidable ca.Matches := inferInstanceAs (Decidable (_ = _))

namespace RootFiles

/-- If both files are present they hold a key and a certificate for it. -/
def Matched (files : RootFiles) : Prop :=
  ∀ keyPem certPem, files.key = some keyPem → files.cert = some certPem →
    ∃ key cert, keyPem = .block key ∧ certPem = .block cert ∧ cert.publicKey = key

/-- A certificate whose key file is gone. -/
def Orphan (files : RootFiles) (cert : Proto.Certificate) : Prop :=
  files.key = none ∧ files.cert = some (.block cert)

/-- No later run can find a pair that does not match. -/
structure Safe (files : RootFiles) : Prop where
  pair : ∀ key cert, files.key = some (.block key) → files.cert = some (.block cert) →
    cert.publicKey = key
  no_orphan : ∀ cert, ¬ files.Orphan cert

end RootFiles

/-- The certificate's key is gone, and the first run that writes stops before it replaces the
certificate; a later run returns. -/
def PairsWithOldCert (files : RootFiles) (attempts : List Attempt) : Prop :=
  ∃ cert pre a rest, files.Orphan cert ∧ attempts = pre ++ a :: rest ∧
    (∀ b ∈ pre, b.stop = some .beforeKey) ∧
    a.stop = some .betweenWrites ∧ a.key ≠ cert.publicKey ∧ ∃ b ∈ rest, b.stop = none

section Runs

variable {files : RootFiles} {a : Attempt} {attempts : List Attempt}
variable {key : Proto.KeyId} {cert : Proto.Certificate}

theorem mem_returned_cons {ca : CA} : ca ∈ returned files (a :: attempts) ↔
    (newCa files a).2 = some (.ok ca) ∨ ca ∈ returned (newCa files a).1 attempts := by
  rw [returned]
  cases hnew : newCa files a with
  | mk files' answer =>
    rcases answer with _ | _ | made
    · simp
    · simp
    · simp [eq_comm]

theorem loadRootCa_eq_ok {keyPem : PemFile Proto.KeyId} {certPem : PemFile Proto.Certificate}
    {root : Root} : loadRootCa keyPem certPem = .ok root ↔
      ∃ key cert, keyPem = .block key ∧ certPem = .block cert ∧ root = (key, cert, certPem) := by
  cases keyPem <;> cases certPem <;> simp [loadRootCa, eq_comm]

theorem newCa_present {keyPem : PemFile Proto.KeyId} {certPem : PemFile Proto.Certificate}
    (hkey : files.key = some keyPem) (hcert : files.cert = some certPem) :
    (newCa files a).1 = files ∧ ∀ ca, (newCa files a).2 = some (.ok ca) ↔
      a.stop = none ∧ ∃ root, loadRootCa keyPem certPem = .ok root ∧ ca = a.ca root := by
  rw [newCa, hkey, hcert]
  dsimp only
  cases hstop : a.stop with
  | some point => simp
  | none =>
    cases hload : loadRootCa keyPem certPem with
    | error err => simp
    | ok root => simp [eq_comm]

theorem newCa_absent (h : files.key = none ∨ files.cert = none) :
    newCa files a = ((generateRootCa a files).1,
      (generateRootCa a files).2.map fun root => .ok (a.ca root)) := by
  rw [newCa]
  split
  · simp_all
  · rfl

theorem safe_written (a : Attempt) :
    RootFiles.Safe { key := some (.block a.key), cert := some (.block a.rootCert) } where
  pair := by
    intro key cert hkey hcert
    simp only [Option.some.injEq, PemFile.block.injEq] at hkey hcert
    rw [← hkey, ← hcert]
    rfl
  no_orphan cert h := by cases h.1

/-- From files with no old certificate to meet, a run leaves such files, and what it returns
matches. -/
theorem RootFiles.Safe.newCa (h : files.Safe) (a : Attempt) :
    (newCa files a).1.Safe ∧ ∀ ca, (newCa files a).2 = some (.ok ca) → ca.Matches := by
  by_cases habsent : files.key = none ∨ files.cert = none
  · rw [newCa_absent habsent, generateRootCa]
    cases hstop : a.stop with
    | none => exact ⟨safe_written a, by simp [CA.Matches, Attempt.ca, Attempt.rootCert]⟩
    | some point =>
      refine ⟨?_, by cases point <;> simp⟩
      cases point with
      | beforeKey => exact h
      | afterCert => exact safe_written a
      | betweenWrites =>
        refine ⟨fun key cert hkey hcert => ?_, fun cert horphan => by cases horphan.1⟩
        -- the certificate the new key meets does not parse, as it is no orphan
        rcases habsent with hkey | hnone
        · exact absurd ⟨hkey, hcert⟩ (h.no_orphan cert)
        · rw [hnone] at hcert
          cases hcert
  · obtain ⟨hkey, hcert⟩ := not_or.mp habsent
    obtain ⟨keyPem, hkey⟩ := Option.ne_none_iff_exists'.mp hkey
    obtain ⟨certPem, hcert⟩ := Option.ne_none_iff_exists'.mp hcert
    obtain ⟨hfiles, hanswer⟩ := newCa_present (a := a) hkey hcert
    rw [hfiles]
    refine ⟨h, fun ca hca => ?_⟩
    obtain ⟨-, root, hload, rfl⟩ := (hanswer ca).mp hca
    obtain ⟨key, cert, rfl, rfl, rfl⟩ := loadRootCa_eq_ok.mp hload
    exact h.pair key cert hkey hcert

theorem RootFiles.Safe.returned (h : files.Safe) (attempts : List Attempt) :
    ∀ ca ∈ returned files attempts, ca.Matches := by
  induction attempts generalizing files with
  | nil => simp [Sigil.returned]
  | cons a attempts ih =>
    intro ca hca
    rcases mem_returned_cons.mp hca with hfirst | hlater
    · exact (h.newCa a).2 ca hfirst
    · exact ih (h.newCa a).1 ca hlater

/-- A pair that does not match is loaded by every run that returns. -/
theorem returned_mismatched (hkey : files.key = some (.block key))
    (hcert : files.cert = some (.block cert)) (hne : cert.publicKey ≠ key) :
    (∀ ca ∈ returned files attempts, ca.Matches) ↔ ∀ b ∈ attempts, b.stop ≠ none := by
  induction attempts with
  | nil => simp [returned]
  | cons a attempts ih =>
    obtain ⟨hfiles, hanswer⟩ := newCa_present (a := a) hkey hcert
    simp only [mem_returned_cons, hanswer, hfiles, or_imp, forall_and, ih, List.forall_mem_cons]
    refine and_congr_left' ⟨?_, ?_⟩
    · intro hmatches hstop
      exact hne (hmatches _ ⟨hstop, _, rfl, rfl⟩)
    · intro hstop ca hca
      exact absurd hca.1 hstop

/-- What a run does next to an old certificate: nothing yet, a new key beside it, or a new
pair. -/
theorem RootFiles.Orphan.newCa (h : files.Orphan cert) (a : Attempt) :
    (a.stop = some .beforeKey ∧ newCa files a = (files, none)) ∨
    (a.stop = some .betweenWrites ∧
      newCa files a = ({ key := some (.block a.key), cert := some (.block cert) }, none)) ∨
    (a.stop ≠ some .beforeKey ∧ a.stop ≠ some .betweenWrites ∧ (newCa files a).1.Safe ∧
      ∀ ca, (newCa files a).2 = some (.ok ca) → ca.Matches) := by
  rw [newCa_absent (Or.inl h.1), generateRootCa]
  cases hstop : a.stop with
  | none =>
    exact Or.inr (Or.inr ⟨by simp, by simp, safe_written a,
      by simp [CA.Matches, Attempt.ca, Attempt.rootCert]⟩)
  | some point =>
    cases point with
    | beforeKey => exact Or.inl ⟨rfl, rfl⟩
    | betweenWrites => exact Or.inr (Or.inl ⟨rfl, by simp [h.2]⟩)
    | afterCert => exact Or.inr (Or.inr ⟨by simp, by simp, safe_written a, by simp⟩)

theorem pairsWithOldCert_cons (h : files.Orphan cert) : PairsWithOldCert files (a :: attempts) ↔
    (a.stop = some .beforeKey ∧ PairsWithOldCert files attempts) ∨
    (a.stop = some .betweenWrites ∧ a.key ≠ cert.publicKey ∧ ∃ b ∈ attempts, b.stop = none) := by
  constructor
  · rintro ⟨cert', pre, torn, rest, horphan, hsplit, hpre, htorn⟩
    cases pre with
    | nil =>
      obtain ⟨rfl, rfl⟩ := List.cons.inj hsplit
      obtain rfl : cert = cert' := by
        have hcert := h.2.symm.trans horphan.2
        simpa using hcert
      exact Or.inr htorn
    | cons b pre =>
      obtain ⟨rfl, rfl⟩ := List.cons.inj hsplit
      rw [List.forall_mem_cons] at hpre
      exact Or.inl ⟨hpre.1, cert', pre, torn, rest, horphan, rfl, hpre.2, htorn⟩
  · rintro (⟨hstop, cert', pre, torn, rest, horphan, rfl, hpre, htorn⟩ | htorn)
    · exact ⟨cert', a :: pre, torn, rest, horphan, rfl, List.forall_mem_cons.mpr ⟨hstop, hpre⟩,
        htorn⟩
    · exact ⟨cert, [], a, attempts, h, rfl, by simp, htorn⟩

/-- Next to an old certificate everything returned matches unless a new key is paired with
it. -/
theorem RootFiles.Orphan.returned (h : files.Orphan cert) (attempts : List Attempt) :
    (∀ ca ∈ returned files attempts, ca.Matches) ↔ ¬ PairsWithOldCert files attempts := by
  induction attempts with
  | nil =>
    refine iff_of_true (by simp [Sigil.returned]) ?_
    rintro ⟨cert', pre, torn, rest, -, hsplit, -⟩
    simp at hsplit
  | cons a attempts ih =>
    rw [pairsWithOldCert_cons h]
    simp only [mem_returned_cons, or_imp, forall_and]
    rcases h.newCa a with ⟨hstop, hnew⟩ | ⟨hstop, hnew⟩ | ⟨hbefore, hbetween, hsafe, hmatches⟩
    · rw [hnew, ih, hstop]
      simp
    · rw [hnew, hstop]
      by_cases hkey : a.key = cert.publicKey
      · have hsafe : RootFiles.Safe { key := some (.block a.key), cert := some (.block cert) } :=
          ⟨by simp [hkey], fun _ horphan => by cases horphan.1⟩
        refine iff_of_true ⟨by simp, hsafe.returned attempts⟩ (by simp [hkey])
      · rw [returned_mismatched rfl rfl (Ne.symm hkey)]
        simp [hkey]
    · exact iff_of_true ⟨hmatches, hsafe.returned attempts⟩ (by simp [hbefore, hbetween])

end Runs

/-- Over any number of runs from files that match if both are there, every CA returned has the
key its certificate names exactly if no run leaves a new key beside an old certificate for a
later run to load. -/
theorem returned_match_iff (files : RootFiles) (h : files.Matched) (attempts : List Attempt) :
    (∀ ca ∈ returned files attempts, ca.Matches) ↔ ¬ PairsWithOldCert files attempts := by
  by_cases horphan : ∃ cert, files.Orphan cert
  · obtain ⟨cert, horphan⟩ := horphan
    exact horphan.returned attempts
  · have hsafe : files.Safe := by
      refine ⟨fun key cert hkey hcert => ?_, fun cert hcert => horphan ⟨cert, hcert⟩⟩
      obtain ⟨key', cert', hkey', hcert', hmatch⟩ := h _ _ hkey hcert
      cases hkey'
      cases hcert'
      exact hmatch
    refine iff_of_true (hsafe.returned attempts) ?_
    rintro ⟨cert, pre, a, rest, hcert, -⟩
    exact horphan ⟨cert, hcert⟩

/-- A run with the given key. -/
def runWith (key : Proto.KeyId) (stop : Option StopPoint) : Attempt where
  key
  serial := 7
  notBefore := 0
  expiresFrom := 0
  leafTtl := 0
  stop

/-- The key file is lost, the certificate is that of key 1. -/
def keyLost : RootFiles where
  key := none
  cert := some (.block (runWith 1 none).rootCert)

theorem keyLost_matched : keyLost.Matched := by
  intro keyPem certPem hkey
  cases hkey

/-- A run stops before it writes, the next one replaces both files, and the last one loads
them. -/
theorem keyLost_replaced :
    (∀ ca ∈ returned keyLost [runWith 2 (some .beforeKey), runWith 3 none, runWith 4 none],
      ca.Matches) ∧
    (returned keyLost [runWith 2 (some .beforeKey), runWith 3 none, runWith 4 none]).length = 2 := by
  refine ⟨(returned_match_iff keyLost keyLost_matched _).mpr ?_, by decide⟩
  rintro ⟨cert, pre, torn, rest, -, hsplit, -, hstop, -⟩
  have hmem : torn ∈ [runWith 2 (some .beforeKey), runWith 3 none, runWith 4 none] := by
    rw [hsplit]
    exact List.mem_append_right pre List.mem_cons_self
  simp only [List.mem_cons, List.not_mem_nil, or_false] at hmem
  rcases hmem with rfl | rfl | rfl <;> cases hstop

/-- The first run stops between its writes and the second loads key 2 with the certificate of
key 1. -/
theorem keyLost_mismatched :
    ¬ ∀ files : RootFiles, files.Matched → ∀ attempts,
      ∀ ca ∈ returned files attempts, ca.Matches := by
  intro h
  have hmatches := h keyLost keyLost_matched [runWith 2 (some .betweenWrites), runWith 3 none]
  exact absurd hmatches (by decide)

end Meshlite.Sigil
