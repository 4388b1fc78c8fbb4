import Meshlite.Conduit.Endpoints
import Meshlite.Policy.PolicyCache
import Meshlite.Library.Bytes

/-!
# The client's way back to Sigil

`SigilClient::run` bootstraps over the plaintext port, stores the certificates it is
sent and from then on trusts the root stored with them. The channel over TLS connects
lazily, so a Sigil that the stored root does not vouch for is met by `subscribe`, not by
`build_tls_channel`.
-/

namespace Meshlite.Kprobe

open Bytes Tls Runs

/-- `StoredCert`, the PEM blocks as they were received. -/
structure StoredPem where
  leafCertPem : Bytes
  rootCaPem : Bytes
  privateKeyPem : Bytes
  deriving DecidableEq

/-- `CertStore`. -/
abbrev PemStore := AList fun _ : String => StoredPem

/-- `push.payload`. -/
inductive Payload where
  | cert (serviceId : String) (bundle : StoredPem)
  | policy (bundle : Proto.PolicyBundle)

/-- What the client uses of rustls and tonic: the PEM readers, the root store, the settings
of an endpoint, and the check of a server's chain against a root. -/
structure TlsLibrary where
  certs : Bytes → List Bytes
  pkcs8PrivateKeys : Bytes → List Bytes
  addRoot : Bytes → Except String Unit
  tlsConfig : Bytes → Bytes → Bytes → Except String Unit
  ChainsTo : Proto.Certificate → Bytes → Prop

/-- A channel that has yet to connect: the identity it presents and the root it trusts. -/
structure TlsChannel where
  identity : Bytes × Bytes
  caCertificate : Bytes

/-- The identity and the root that a channel takes from an entry. -/
def StoredPem.channel (cert : StoredPem) : TlsChannel where
  identity := (cert.leafCertPem, cert.privateKeyPem)
  caCertificate := cert.rootCaPem

/-- A Sigil process: the root it hands out and the certificate of its TLS port. -/
structure SigilProcess where
  rootCaPem : Bytes
  serverCert : Proto.Certificate

/-- Every certificate is sent with the root of the process. -/
def SigilProcess.Sends (s : SigilProcess) (payload : Option Payload) : Prop :=
  ∀ serviceId bundle, payload = some (.cert serviceId bundle) → bundle.rootCaPem = s.rootCaPem

/-- Where the loop of `run` stands; a stream leads to the process with that number. -/
inductive ClientState where
  | bootstrap
  | bootstrapStream (peer : ℕ)
  | upgradingTls
  | connectedTls
  | connectedStream (peer : ℕ)
  deriving DecidableEq

/-- The client and the Sigil process that is up, if one is. `firstCert` is the entry that
the store iterates first, until the next update. -/
structure SigilLink where
  state : ClientState
  certStore : PemStore
  firstCert : Option StoredPem
  policyCache : PolicyCache
  sigil : Option SigilProcess
  started : ℕ
  now : Time

inductive LinkEvent where
  | sigilUp (s : SigilProcess)
  | sigilDown
  | tick (d : Duration)
  | subscribed
  | subscribeFailed
  | buildFailed
  | message (payload : Option Payload)
  | closed

/-- Not a start or an end of Sigil. -/
def LinkEvent.KeepsSigil : LinkEvent → Prop
  | .sigilUp _ | .sigilDown => False
  | _ => True

def LinkEvent.IsBundle (e : LinkEvent) : Prop := ∃ payload, e = .message (some payload)

section Client

variable (lib : TlsLibrary)

def buildTlsChannel (firstCert : Option StoredPem) : Except String TlsChannel := do
  let some cert := firstCert | throw "CertStore is empty"
  let rootCerts := lib.certs cert.rootCaPem
  if rootCerts = [] then throw "CertStore root CA PEM contains no certificates"
  if lib.pkcs8PrivateKeys cert.privateKeyPem = [] then throw "No PKCS#8 private key found in PEM"
  forM rootCerts lib.addRoot
  lib.tlsConfig cert.leafCertPem cert.privateKeyPem cert.rootCaPem
  return cert.channel

/-- The handshake under a `subscribe` over TLS. -/
def SigilProcess.Verifies (s : SigilProcess) (rootCaPem : Bytes) (now : Time) : Prop :=
  lib.ChainsTo s.serverCert rootCaPem ∧ ¬ s.serverCert.Expired now

namespace SigilLink

def boot (now : Time) : SigilLink where
  state := .bootstrap
  certStore := ∅
  firstCert := none
  policyCache := .new
  sigil := none
  started := 0
  now := now

/-- The stream leads to the process that is up. -/
def Live (w : SigilLink) (peer : ℕ) (s : SigilProcess) : Prop :=
  w.sigil = some s ∧ peer = w.started

/-- A subscription over TLS goes through. -/
def Accepts (w : SigilLink) (channel : TlsChannel) : Prop :=
  ∃ s, w.sigil = some s ∧ s.Verifies lib channel.caCertificate w.now

/-- The arms of `push.payload`: an update of the store, which then iterates some entry
first, or of the policy. -/
inductive Receives : SigilLink → Option Payload → SigilLink → Prop
  | cert {w : SigilLink} {serviceId svc : String} {bundle entry : StoredPem} :
      (w.certStore.insert serviceId bundle).lookup svc = some entry →
      Receives w (some (.cert serviceId bundle))
        { w with certStore := w.certStore.insert serviceId bundle, firstCert := some entry }
  | policy {w : SigilLink} (pb : Proto.PolicyBundle) :
      Receives w (some (.policy pb)) { w with policyCache := applyPolicyBundle pb w.policyCache }
  | empty {w : SigilLink} : Receives w none w

/-- The bootstrap stream is drained up to its first certificate. -/
def afterBootstrap (peer : ℕ) : Option Payload → ClientState
  | some (.cert _ _) => .upgradingTls
  | _ => .bootstrapStream peer

inductive Step : SigilLink → LinkEvent → SigilLink → Prop
  | sigilUp {w : SigilLink} (s : SigilProcess) :
      Step w (.sigilUp s) { w with sigil := some s, started := w.started + 1 }
  | sigilDown {w : SigilLink} : Step w .sigilDown { w with sigil := none }
  | tick {w : SigilLink} (d : Duration) : Step w (.tick d) { w with now := w.now + d }
  | bootstrap {w : SigilLink} {s : SigilProcess} : w.state = .bootstrap → w.sigil = some s →
      Step w .subscribed { w with state := .bootstrapStream w.started }
  | bootstrapFailed {w : SigilLink} : w.state = .bootstrap → w.sigil = none →
      Step w .subscribeFailed w
  | bootstrapMessage {w m : SigilLink} {peer : ℕ} {s : SigilProcess} {payload : Option Payload} :
      w.state = .bootstrapStream peer → w.Live peer s → s.Sends payload → w.Receives payload m →
      Step w (.message payload) { m with state := afterBootstrap peer payload }
  | bootstrapClosed {w : SigilLink} {peer : ℕ} : w.state = .bootstrapStream peer →
      Step w .closed { w with state := .bootstrap }
  | upgrade {w : SigilLink} {channel : TlsChannel} : w.state = .upgradingTls →
      buildTlsChannel lib w.firstCert = .ok channel → w.Accepts lib channel →
      Step w .subscribed { w with state := .connectedTls }
  | upgradeFailed {w : SigilLink} {channel : TlsChannel} : w.state = .upgradingTls →
      buildTlsChannel lib w.firstCert = .ok channel → ¬ w.Accepts lib channel →
      Step w .subscribeFailed w
  | fallBack {w : SigilLink} {err : String} : w.state = .upgradingTls →
      buildTlsChannel lib w.firstCert = .error err →
      Step w .buildFailed { w with state := .bootstrap }
  | connect {w : SigilLink} {channel : TlsChannel} : w.state = .connectedTls →
      buildTlsChannel lib w.firstCert = .ok channel → w.Accepts lib channel →
      Step w .subscribed { w with state := .connectedStream w.started }
  | connectFailed {w : SigilLink} {channel : TlsChannel} : w.state = .connectedTls →
      buildTlsChannel lib w.firstCert = .ok channel → ¬ w.Accepts lib channel →
      Step w .subscribeFailed { w with state := .upgradingTls }
  | rebuildFailed {w : SigilLink} {err : String} : w.state = .connectedTls →
      buildTlsChannel lib w.firstCert = .error err →
      Step w .buildFailed { w with state := .upgradingTls }
  | connectedMessage {w m : SigilLink} {peer : ℕ} {s : SigilProcess} {payload : Option Payload} :
      w.state = .connectedStream peer → w.Live peer s → s.Sends payload → w.Receives payload m →
      Step w (.message payload) m
  | connectedClosed {w : SigilLink} {peer : ℕ} : w.state = .connectedStream peer →
      Step w .closed { w with state := .upgradingTls }

end SigilLink

/-- The PEM blocks from which a channel can be built. -/
def TlsLibrary.Usable (entry : StoredPem) : Prop :=
  lib.certs entry.rootCaPem ≠ [] ∧ lib.pkcs8PrivateKeys entry.privateKeyPem ≠ [] ∧
    (∀ cert ∈ lib.certs entry.rootCaPem, lib.addRoot cert = .ok ()) ∧
    lib.tlsConfig entry.leafCertPem entry.privateKeyPem entry.rootCaPem = .ok ()

/-- Some continuation, Sigil staying up, delivers a bundle. -/
def SigilLink.CanReceive (w : SigilLink) : Prop :=
  CanReach (SigilLink.Step lib) LinkEvent.KeepsSigil LinkEvent.IsBundle w

/-- The client is still in Bootstrap, or on a live stream, or the entry it would connect with
either sends it back to Bootstrap or is one that Sigil's certificate verifies against. -/
def SigilLink.Recovers (w : SigilLink) (s : SigilProcess) : Prop :=
  w.state = .bootstrap ∨ (∃ peer, w.state = .bootstrapStream peer) ∨
    w.state = .connectedStream w.started ∨
    ∃ entry, w.firstCert = some entry ∧
      (¬ lib.Usable entry ∨ s.Verifies lib entry.rootCaPem w.now)

end Client

section Channel

variable {lib : TlsLibrary}

theorem forM_eq_ok_iff {α ε : Type} {f : α → Except ε Unit} {items : List α} :
    forM items f = .ok () ↔ ∀ x ∈ items, f x = .ok () := by
  induction items with
  | nil => simp [pure, Except.pure]
  | cons x xs ih =>
    rw [List.forM_cons, List.forall_mem_cons, ← ih]
    cases hx : f x <;> simp [bind, Except.bind]

theorem buildTlsChannel_cases (lib : TlsLibrary) (entry : StoredPem) :
    lib.Usable entry ∧ buildTlsChannel lib (some entry) = .ok entry.channel ∨
      ¬ lib.Usable entry ∧ ∃ err, buildTlsChannel lib (some entry) = .error err := by
  unfold TlsLibrary.Usable buildTlsChannel
  rw [← forM_eq_ok_iff]
  by_cases hroots : lib.certs entry.rootCaPem = []
  · simp [hroots, bind, Except.bind, throw, throwThe, MonadExceptOf.throw]
  · by_cases hkeys : lib.pkcs8PrivateKeys entry.privateKeyPem = []
    · simp [hroots, hkeys, bind, Except.bind, throw, throwThe, MonadExceptOf.throw]
    · cases hadd : forM (lib.certs entry.rootCaPem) lib.addRoot <;>
        cases hconfig : lib.tlsConfig entry.leafCertPem entry.privateKeyPem entry.rootCaPem <;>
          simp [hroots, hkeys, hadd, hconfig, bind, Except.bind, pure, Except.pure]

end Channel

namespace SigilLink

section Recovery

variable {lib : TlsLibrary} {w : SigilLink} {s : SigilProcess} {entry : StoredPem}

theorem isBundle_policy (pb : Proto.PolicyBundle) :
    LinkEvent.IsBundle (.message (some (.policy pb))) := ⟨_, rfl⟩

theorem sends_policy (s : SigilProcess) (pb : Proto.PolicyBundle) :
    s.Sends (some (.policy pb)) := nofun

theorem canReceive_live (hsigil : w.sigil = some s) (hstate : w.state = .connectedStream w.started) :
    w.CanReceive lib :=
  .now (.connectedMessage hstate ⟨hsigil, rfl⟩ (sends_policy s ⟨[], true, ""⟩) (.policy _)) trivial
    (isBundle_policy _)

theorem canReceive_bootstrap (hsigil : w.sigil = some s) (hstate : w.state = .bootstrap) :
    w.CanReceive lib := by
  refine .later (.bootstrap hstate hsigil) trivial ?_
  exact .now (.bootstrapMessage rfl ⟨hsigil, rfl⟩ (sends_policy s ⟨[], true, ""⟩) (.policy _))
    trivial (isBundle_policy _)

theorem canReceive_bootstrapStream {peer : ℕ} (hsigil : w.sigil = some s)
    (hstate : w.state = .bootstrapStream peer) : w.CanReceive lib :=
  .later (.bootstrapClosed hstate) trivial (canReceive_bootstrap hsigil rfl)

theorem canReceive_upgrading (hsigil : w.sigil = some s) (hstate : w.state = .upgradingTls)
    (hfirst : w.firstCert = some entry)
    (h : ¬ lib.Usable entry ∨ s.Verifies lib entry.rootCaPem w.now) : w.CanReceive lib := by
  rcases buildTlsChannel_cases lib entry with ⟨husable, hbuild⟩ | ⟨-, err, hbuild⟩
  · rw [← hfirst] at hbuild
    have haccepts : w.Accepts lib entry.channel := ⟨s, hsigil, h.resolve_left fun hn => hn husable⟩
    refine .later (.upgrade hstate hbuild haccepts) trivial ?_
    exact .later (.connect rfl hbuild haccepts) trivial (canReceive_live hsigil rfl)
  · rw [← hfirst] at hbuild
    exact .later (.fallBack hstate hbuild) trivial (canReceive_bootstrap hsigil rfl)

theorem canReceive_connected (hsigil : w.sigil = some s) (hstate : w.state = .connectedTls)
    (hfirst : w.firstCert = some entry)
    (h : ¬ lib.Usable entry ∨ s.Verifies lib entry.rootCaPem w.now) : w.CanReceive lib := by
  rcases buildTlsChannel_cases lib entry with ⟨husable, hbuild⟩ | ⟨-, err, hbuild⟩
  · rw [← hfirst] at hbuild
    have haccepts : w.Accepts lib entry.channel := ⟨s, hsigil, h.resolve_left fun hn => hn husable⟩
    exact .later (.connect hstate hbuild haccepts) trivial (canReceive_live hsigil rfl)
  · rw [← hfirst] at hbuild
    exact .later (.rebuildFailed hstate hbuild) trivial (canReceive_upgrading hsigil rfl hfirst h)

theorem canReceive_connectedStream {peer : ℕ} (hsigil : w.sigil = some s)
    (hstate : w.state = .connectedStream peer) (hfirst : w.firstCert = some entry)
    (h : ¬ lib.Usable entry ∨ s.Verifies lib entry.rootCaPem w.now) : w.CanReceive lib :=
  .later (.connectedClosed hstate) trivial (canReceive_upgrading hsigil rfl hfirst h)

/-- The client would connect with an entry that Sigil's certificate does not verify against. -/
structure Trapped (lib : TlsLibrary) (s : SigilProcess) (entry : StoredPem) (w : SigilLink) :
    Prop where
  sigil : w.sigil = some s
  first : w.firstCert = some entry
  usable : lib.Usable entry
  rejects : ¬ s.Verifies lib entry.rootCaPem w.now
  state : w.state = .upgradingTls ∨ w.state = .connectedTls ∨
    ∃ peer, w.state = .connectedStream peer ∧ peer ≠ w.started

theorem Trapped.build_eq (h : w.Trapped lib s entry) :
    buildTlsChannel lib w.firstCert = .ok entry.channel := by
  rw [h.first]
  rcases buildTlsChannel_cases lib entry with ⟨-, hok⟩ | ⟨hunusable, -⟩
  · exact hok
  · exact absurd h.usable hunusable

theorem Trapped.not_accepts {channel : TlsChannel} (h : w.Trapped lib s entry)
    (hbuild : buildTlsChannel lib w.firstCert = .ok channel) : ¬ w.Accepts lib channel := by
  rintro ⟨s', hsigil, hverifies⟩
  obtain rfl : s' = s := Option.some.inj (hsigil.symm.trans h.sigil)
  obtain rfl : channel = entry.channel := Except.ok.inj (hbuild.symm.trans h.build_eq)
  exact h.rejects hverifies

theorem not_verifies_later {rootCaPem : Bytes} {now : Time} (d : Duration)
    (h : ¬ s.Verifies lib rootCaPem now) : ¬ s.Verifies lib rootCaPem (now + d) := by
  rintro ⟨hchains, hvalid⟩
  refine h ⟨hchains, fun hexpired => hvalid ?_⟩
  unfold Proto.Certificate.Expired at hexpired ⊢
  omega

/-- Of the steps that keep Sigil up, a trapped client can only retry. -/
theorem Trapped.keep {e : LinkEvent} {w' : SigilLink} (h : w.Trapped lib s entry)
    (hkeeps : e.KeepsSigil) (hstep : Step lib w e w') : w'.Trapped lib s entry := by
  have hstate := h.state
  cases hstep with
  | sigilUp s' => exact absurd hkeeps id
  | sigilDown => exact absurd hkeeps id
  | tick d => exact { h with rejects := not_verifies_later d h.rejects }
  | bootstrap hs => simp [hs] at hstate
  | bootstrapFailed hs => exact h
  | bootstrapMessage hs => simp [hs] at hstate
  | bootstrapClosed hs => simp [hs] at hstate
  | upgrade hs hbuild haccepts => exact absurd haccepts (h.not_accepts hbuild)
  | upgradeFailed => exact h
  | fallBack hs hbuild => exact absurd (hbuild.symm.trans h.build_eq) nofun
  | connect hs hbuild haccepts => exact absurd haccepts (h.not_accepts hbuild)
  | connectFailed hs => exact { h with state := Or.inl rfl }
  | rebuildFailed hs => exact { h with state := Or.inl rfl }
  | connectedMessage hs hlive => simp [hs, hlive.2] at hstate
  | connectedClosed hs => exact { h with state := Or.inl rfl }

theorem Trapped.no_bundle {e : LinkEvent} {w' : SigilLink} (h : w.Trapped lib s entry)
    (hstep : Step lib w e w') : ¬ e.IsBundle := by
  have hstate := h.state
  rintro ⟨payload, rfl⟩
  cases hstep with
  | bootstrapMessage hs => simp [hs] at hstate
  | connectedMessage hs hlive => simp [hs, hlive.2] at hstate

theorem Trapped.not_canReceive (h : w.Trapped lib s entry) : ¬ w.CanReceive lib :=
  not_canReach (I := Trapped lib s entry) h
    (fun _ _ _ ht hkeeps hstep => ht.keep hkeeps hstep) (fun _ _ _ ht hstep => ht.no_bundle hstep)

end Recovery

section Runs

variable {lib : TlsLibrary} {w w' m : SigilLink} {s : SigilProcess} {events : List LinkEvent}
variable {now : Time}

/-- The store holds what the processes of the run sent, and is empty in Bootstrap only. -/
structure Provenance (events : List LinkEvent) (w : SigilLink) : Prop where
  up : ∀ s, w.sigil = some s → .sigilUp s ∈ events
  stored : ∀ svc entry, w.certStore.lookup svc = some entry →
    ∃ s, .sigilUp s ∈ events ∧ entry.rootCaPem = s.rootCaPem
  first : ∀ entry, w.firstCert = some entry → ∃ svc, w.certStore.lookup svc = some entry
  empty : w.firstCert = none → w.state = .bootstrap ∨ ∃ peer, w.state = .bootstrapStream peer

theorem Provenance.mono (h : Provenance events w) (e : LinkEvent) :
    Provenance (events ++ [e]) w where
  up s hs := List.mem_append_left _ (h.up s hs)
  stored svc entry hl := by
    obtain ⟨s, hmem, hroot⟩ := h.stored svc entry hl
    exact ⟨s, List.mem_append_left _ hmem, hroot⟩
  first := h.first
  empty := h.empty

theorem Provenance.receive {payload : Option Payload} (h : Provenance events w)
    (hup : .sigilUp s ∈ events) (hsends : s.Sends payload) (hrec : w.Receives payload m) :
    Provenance events m := by
  cases hrec with
  | @cert serviceId svc' bundle entry' hfirst =>
    refine { h with
      stored := ?_, first := fun entry he => ⟨svc', ?_⟩, empty := nofun }
    · intro svc entry hl
      by_cases hsvc : svc = serviceId
      · subst hsvc
        rw [AList.lookup_insert] at hl
        obtain rfl := Option.some.inj hl
        exact ⟨s, hup, hsends _ _ rfl⟩
      · rw [AList.lookup_insert_ne hsvc] at hl
        exact h.stored svc entry hl
    · rw [← he]
      exact hfirst
  | policy pb => exact { h with }
  | empty => exact h

theorem Provenance.of_state (h : Provenance events w) {state : ClientState}
    (hstate : w.firstCert = none → state = .bootstrap ∨ ∃ peer, state = .bootstrapStream peer) :
    Provenance events { w with state := state } :=
  { h with empty := hstate }

theorem provenance_of_run (h : Run (Step lib) (boot now) events w) : Provenance events w := by
  refine h.invariant (I := Provenance)
    ⟨by simp [boot], by simp [boot], by simp [boot], fun _ => Or.inl rfl⟩ ?_
  intro es w e w' _ ih hstep
  have hmono := ih.mono e
  cases hstep with
  | sigilUp s =>
    exact { hmono with up := fun s' hs' => by simp [Option.some.inj hs'] }
  | sigilDown => exact { hmono with up := nofun }
  | tick d => exact { hmono with }
  | bootstrap => exact hmono.of_state fun _ => Or.inr ⟨_, rfl⟩
  | bootstrapFailed => exact hmono
  | @bootstrapMessage m peer s payload hs hlive hsends hrec =>
    refine (hmono.receive (hmono.up s hlive.1) hsends hrec).of_state ?_
    cases hrec with
    | cert hfirst => nofun
    | policy pb => exact fun _ => Or.inr ⟨peer, rfl⟩
    | empty => exact fun _ => Or.inr ⟨peer, rfl⟩
  | bootstrapClosed => exact hmono.of_state fun _ => Or.inl rfl
  | upgrade hs => exact hmono.of_state fun hnone => by simpa [hs] using ih.empty hnone
  | upgradeFailed => exact hmono
  | fallBack => exact hmono.of_state fun _ => Or.inl rfl
  | connect hs => exact hmono.of_state fun hnone => by simpa [hs] using ih.empty hnone
  | connectFailed hs => exact hmono.of_state fun hnone => by simpa [hs] using ih.empty hnone
  | rebuildFailed hs => exact hmono.of_state fun hnone => by simpa [hs] using ih.empty hnone
  | @connectedMessage m peer s payload hs hlive hsends hrec =>
    exact hmono.receive (hmono.up s hlive.1) hsends hrec
  | connectedClosed hs => exact hmono.of_state fun hnone => by simpa [hs] using ih.empty hnone

theorem canReceive_of_recovers (hsigil : w.sigil = some s) (h : w.Recovers lib s) :
    w.CanReceive lib := by
  rcases h with hboot | ⟨peer, hstream⟩ | hlive | ⟨entry, hfirst, hentry⟩
  · exact canReceive_bootstrap hsigil hboot
  · exact canReceive_bootstrapStream hsigil hstream
  · exact canReceive_live hsigil hlive
  · cases hstate : w.state with
    | bootstrap => exact canReceive_bootstrap hsigil hstate
    | bootstrapStream peer => exact canReceive_bootstrapStream hsigil hstate
    | upgradingTls => exact canReceive_upgrading hsigil hstate hfirst hentry
    | connectedTls => exact canReceive_connected hsigil hstate hfirst hentry
    | connectedStream peer => exact canReceive_connectedStream hsigil hstate hfirst hentry

/-- A client of a run that does not recover is trapped. -/
theorem trapped_of_not_recovers (h : Run (Step lib) (boot now) events w)
    (hsigil : w.sigil = some s) (hnot : ¬ w.Recovers lib s) :
    ∃ entry, w.Trapped lib s entry := by
  simp only [Recovers, not_or, not_exists] at hnot
  obtain ⟨hboot, hstream, hlive, hentry⟩ := hnot
  cases hfirst : w.firstCert with
  | none =>
    rcases (provenance_of_run h).empty hfirst with hs | ⟨peer, hs⟩
    · exact absurd hs hboot
    · exact absurd hs (hstream peer)
  | some entry =>
    have hrejects := fun hbad => hentry entry ⟨hfirst, hbad⟩
    rw [imp_false, not_or, not_not] at hrejects
    refine ⟨entry, hsigil, hfirst, hrejects.1, hrejects.2, ?_⟩
    cases hstate : w.state with
    | bootstrap => exact absurd hstate hboot
    | bootstrapStream peer => exact absurd hstate (hstream peer)
    | upgradingTls => exact Or.inl rfl
    | connectedTls => exact Or.inr (Or.inl rfl)
    | connectedStream peer =>
      exact Or.inr (Or.inr ⟨peer, rfl, fun hpeer => hlive (hpeer ▸ hstate)⟩)

/-- Where every process of a run has a certificate that chains to the root of every other and
has not expired, no state of the run is a trap. -/
theorem canReceive_of_kept_root (h : Run (Step lib) (boot now) events w)
    (hsigil : w.sigil = some s)
    (hchains : ∀ s₁ s₂, .sigilUp s₁ ∈ events → .sigilUp s₂ ∈ events →
      s₁.Verifies lib s₂.rootCaPem w.now) : w.CanReceive lib := by
  have hprov := provenance_of_run h
  refine canReceive_of_recovers hsigil ?_
  cases hfirst : w.firstCert with
  | none =>
    rcases hprov.empty hfirst with hs | hs
    · exact Or.inl hs
    · exact Or.inr (Or.inl hs)
  | some entry =>
    obtain ⟨svc, hl⟩ := hprov.first entry hfirst
    obtain ⟨sender, hmem, hroot⟩ := hprov.stored svc entry hl
    have hverifies := hchains s sender (hprov.up s hsigil) hmem
    rw [← hroot] at hverifies
    exact Or.inr (Or.inr (Or.inr ⟨entry, hfirst, Or.inr hverifies⟩))

end Runs

end SigilLink

/-- In every state that a run reaches with Sigil up, some continuation receives a bundle just
when the client recovers; otherwise it is trapped for as long as that Sigil is up. -/
theorem recovers_iff (lib : TlsLibrary) (now : Time) (events : List LinkEvent) (w : SigilLink)
    (s : SigilProcess) (h : Run (SigilLink.Step lib) (.boot now) events w)
    (hsigil : w.sigil = some s) : w.CanReceive lib ↔ w.Recovers lib s := by
  constructor
  · intro hreceive
    by_contra hnot
    obtain ⟨entry, htrapped⟩ := SigilLink.trapped_of_not_recovers h hsigil hnot
    exact htrapped.not_canReceive hreceive
  · exact SigilLink.canReceive_of_recovers hsigil

/-- The certificate of Sigil's TLS port. -/
def sigilCert (serialNumber : ℕ) : Proto.Certificate where
  serialNumber := serialNumber
  commonName := "sigil"
  uri := "spiffe://meshlite.local/cluster/dev/ns/meshlite-system/svc/sigil"
  dnsNames := ["sigil", "localhost"]
  notBefore := 0
  notAfter := 24 * 3600 * second
  publicKey := serialNumber

def firstSigil : SigilProcess where
  rootCaPem := utf8 "root 1"
  serverCert := sigilCert 1

/-- Sigil with a new volume, and so with a new root. -/
def secondSigil : SigilProcess where
  rootCaPem := utf8 "root 2"
  serverCert := sigilCert 2

/-- Every block is a certificate or a key; each Sigil's certificate chains to its own root. -/
def demoLibrary : TlsLibrary where
  certs pem := if pem = [] then [] else [pem]
  pkcs8PrivateKeys pem := if pem = [] then [] else [pem]
  addRoot _ := .ok ()
  tlsConfig _ _ _ := .ok ()
  ChainsTo cert rootCaPem :=
    ∃ sigil ∈ [firstSigil, secondSigil], cert = sigil.serverCert ∧ rootCaPem = sigil.rootCaPem

def nodeBundle : StoredPem where
  leafCertPem := utf8 "leaf"
  rootCaPem := firstSigil.rootCaPem
  privateKeyPem := utf8 "key"

/-- The client has its first certificate. -/
def enrolling : List LinkEvent :=
  [.sigilUp firstSigil, .subscribed, .message (some (.cert "node-1" nodeBundle))]

def enrolled : SigilLink where
  state := .upgradingTls
  certStore := (∅ : PemStore).insert "node-1" nodeBundle
  firstCert := some nodeBundle
  policyCache := .new
  sigil := some firstSigil
  started := 1
  now := 0

theorem nodeBundle_sent : firstSigil.Sends (some (.cert "node-1" nodeBundle)) := by
  intro serviceId bundle h
  cases h
  rfl

theorem run_enrolling : Run (SigilLink.Step demoLibrary) (.boot 0) enrolling enrolled :=
  ((Run.start.next (.sigilUp firstSigil)).next (.bootstrap rfl rfl)).next
    (.bootstrapMessage rfl ⟨rfl, rfl⟩ nodeBundle_sent (.cert (AList.lookup_insert _)))

theorem firstSigil_verifies : firstSigil.Verifies demoLibrary nodeBundle.rootCaPem 0 :=
  ⟨⟨firstSigil, by simp, rfl, rfl⟩, by decide⟩

theorem enrolled_recovers : enrolled.CanReceive demoLibrary :=
  (recovers_iff demoLibrary 0 enrolling enrolled firstSigil run_enrolling rfl).mpr
    (Or.inr (Or.inr (Or.inr ⟨nodeBundle, rfl, Or.inr firstSigil_verifies⟩)))

/-- Sigil comes back with a new root, and the client never hears from it again. -/
theorem newRoot_traps : ∃ w : SigilLink,
    Run (SigilLink.Step demoLibrary) (.boot 0)
      (enrolling ++ [.sigilDown] ++ [.sigilUp secondSigil]) w ∧
    w.sigil = some secondSigil ∧ ¬ w.CanReceive demoLibrary := by
  refine ⟨{ enrolled with sigil := some secondSigil, started := 2 },
    (run_enrolling.next .sigilDown).next (.sigilUp secondSigil), rfl, ?_⟩
  have hrejects : ¬ secondSigil.Verifies demoLibrary nodeBundle.rootCaPem 0 := by
    rintro ⟨⟨sigil, hmem, hcert, hroot⟩, -⟩
    rcases List.mem_pair.mp hmem with rfl | rfl
    · exact absurd hcert (by decide)
    · exact absurd hroot (by decide)
  have husable : demoLibrary.Usable nodeBundle := by
    simp [TlsLibrary.Usable, demoLibrary, nodeBundle]
    decide
  have htrapped : SigilLink.Trapped demoLibrary secondSigil nodeBundle
      { enrolled with sigil := some secondSigil, started := 2 } :=
    ⟨rfl, rfl, husable, hrejects, Or.inl rfl⟩
  exact htrapped.not_canReceive

end Meshlite.Kprobe
