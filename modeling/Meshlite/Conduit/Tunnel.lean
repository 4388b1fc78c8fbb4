import Meshlite.Conduit.HttpClient
import Meshlite.Library.Runs
import Meshlite.Policy.PolicyCache

/-!
# A request through both gateways

Egress forwards what its first read returned and then waits for response bytes before
it relays anything else; Ingress pipes both ways once it has forwarded its first read.
The backend answers when it has the whole request, so what Egress did not read at first
never reaches it.
-/

namespace Meshlite.Conduit

open Bytes Runs Tls

/-- The buffer of a first read. -/
def readBuffer : ℕ := 8192

/-- `egress::handle_connection`, from the first read to `copy_bidirectional`; `refused`
after a 400 or 403. -/
inductive EgressSide where
  | reading
  | connecting (header : Bytes)
  | waiting (header : Bytes)
  | piping
  | refused
  deriving DecidableEq

/-- `ingress::handle_connection` after the handshake. -/
inductive IngressSide where
  | reading
  | connecting (header : Bytes)
  | piping
  | refused
  deriving DecidableEq

/-- One connection: the segments the client has still to send, the bytes each party has
been sent and has not read, and what the backend and the client have received. -/
structure Tunnel where
  unsent : List Bytes
  toEgress : Bytes
  egress : EgressSide
  toIngress : Bytes
  ingress : IngressSide
  received : Bytes
  answered : Bool
  backToIngress : Bytes
  backToEgress : Bytes
  response : Bytes

inductive TunnelEvent where
  | send
  | egressRead
  | egressForward
  | egressResponse
  | egressUp
  | egressDown
  | ingressRead
  | ingressForward
  | ingressUp
  | ingressDown
  | answer
  deriving DecidableEq

/-- The first read shows a host that the policy allows. -/
def AllowedHost (policy : PolicyCache) (header : Bytes) : Prop :=
  ∃ destination, extractHost header = some destination ∧
    policy.isAllowedDestination destination = true

instance (policy : PolicyCache) (header : Bytes) : Decidable (AllowedHost policy header) :=
  decidable_of_iff (∃ destination ∈ extractHost header,
    policy.isAllowedDestination destination = true) Iff.rfl

/-- A request without a host is answered 400, one that is not allowed 403. -/
def EgressSide.ofRead (policy : PolicyCache) (header : Bytes) : EgressSide :=
  if AllowedHost policy header then .connecting header else .refused

def IngressSide.ofRead (header : Bytes) : IngressSide :=
  if (extractHost header).isSome then .connecting header else .refused

theorem EgressSide.ofRead_eq {policy : PolicyCache} {header : Bytes}
    (h : EgressSide.ofRead policy header ≠ .refused) :
    AllowedHost policy header ∧ EgressSide.ofRead policy header = .connecting header := by
  rw [EgressSide.ofRead] at h ⊢
  split_ifs at h ⊢ with hallowed
  · exact ⟨hallowed, rfl⟩
  · exact absurd rfl h

theorem IngressSide.ofRead_eq {header : Bytes} (h : IngressSide.ofRead header ≠ .refused) :
    IngressSide.ofRead header = .connecting header := by
  rw [IngressSide.ofRead] at h ⊢
  split_ifs at h ⊢
  · rfl
  · exact absurd rfl h

namespace Tunnel

def start (segments : List Bytes) : Tunnel where
  unsent := segments
  toEgress := []
  egress := .reading
  toIngress := []
  ingress := .reading
  received := []
  answered := false
  backToIngress := []
  backToEgress := []
  response := []

variable (policy : PolicyCache) (request answer : Bytes)

/-- The steps of the four parties: connects and handshakes succeed, nobody closes, and the
backend answers once it has the whole request. -/
inductive Step : Tunnel → TunnelEvent → Tunnel → Prop
  | send {t : Tunnel} {segment : Bytes} {rest : List Bytes} : t.unsent = segment :: rest →
      Step t .send { t with unsent := rest, toEgress := t.toEgress ++ segment }
  | egressRead {t : Tunnel} : t.egress = .reading → t.toEgress ≠ [] →
      Step t .egressRead
        { t with
          toEgress := t.toEgress.drop readBuffer
          egress := .ofRead policy (t.toEgress.take readBuffer) }
  | egressForward {t : Tunnel} {header : Bytes} : t.egress = .connecting header →
      Step t .egressForward
        { t with toIngress := t.toIngress ++ header, egress := .waiting header }
  | egressResponse {t : Tunnel} {header : Bytes} : t.egress = .waiting header →
      t.backToEgress ≠ [] →
      Step t .egressResponse
        { t with
          egress := .piping
          backToEgress := t.backToEgress.drop readBuffer
          response := t.response ++ t.backToEgress.take readBuffer }
  | egressUp {t : Tunnel} : t.egress = .piping → t.toEgress ≠ [] →
      Step t .egressUp
        { t with
          toEgress := t.toEgress.drop readBuffer
          toIngress := t.toIngress ++ t.toEgress.take readBuffer }
  | egressDown {t : Tunnel} : t.egress = .piping → t.backToEgress ≠ [] →
      Step t .egressDown
        { t with
          backToEgress := t.backToEgress.drop readBuffer
          response := t.response ++ t.backToEgress.take readBuffer }
  | ingressRead {t : Tunnel} : t.ingress = .reading → t.toIngress ≠ [] →
      Step t .ingressRead
        { t with
          toIngress := t.toIngress.drop readBuffer
          ingress := .ofRead (t.toIngress.take readBuffer) }
  | ingressForward {t : Tunnel} {header : Bytes} : t.ingress = .connecting header →
      Step t .ingressForward { t with received := t.received ++ header, ingress := .piping }
  | ingressUp {t : Tunnel} : t.ingress = .piping → t.toIngress ≠ [] →
      Step t .ingressUp
        { t with
          toIngress := t.toIngress.drop readBuffer
          received := t.received ++ t.toIngress.take readBuffer }
  | ingressDown {t : Tunnel} : t.ingress = .piping → t.backToIngress ≠ [] →
      Step t .ingressDown
        { t with
          backToIngress := t.backToIngress.drop readBuffer
          backToEgress := t.backToEgress ++ t.backToIngress.take readBuffer }
  | answer {t : Tunnel} : t.received = request → t.answered = false →
      Step t .answer { t with answered := true, backToIngress := t.backToIngress ++ answer }

/-- Neither gateway has refused the request. -/
def Accepted (t : Tunnel) : Prop := t.egress ≠ .refused ∧ t.ingress ≠ .refused

/-- Everything is sent, the backend misses bytes, and no party can take a step. -/
def Stuck (t : Tunnel) : Prop :=
  t.unsent = [] ∧ t.received ≠ request ∧ ∀ e t', ¬ t.Step policy request answer e t'

end Tunnel

/-- What Egress can find at its first read once the first `j` segments are delivered. -/
def firstRead (segments : List Bytes) (j : ℕ) : Bytes := (segments.take j).flatten.take readBuffer

/-- No accepted run reaches a stuck state. -/
def NeverStuck (policy : PolicyCache) (segments : List Bytes) (answer : Bytes) : Prop :=
  ∀ es t, Run (Tunnel.Step policy segments.flatten answer) (.start segments) es t → t.Accepted →
    ¬ t.Stuck policy segments.flatten answer

/-- The header that a gateway has read and not yet passed on. -/
def EgressSide.pending : EgressSide → Bytes
  | .connecting header => header
  | _ => []

def IngressSide.pending : IngressSide → Bytes
  | .connecting header => header
  | _ => []

namespace Tunnel

/-- The request bytes that Egress has passed on. -/
def passed (t : Tunnel) : Bytes := t.received ++ t.ingress.pending ++ t.toIngress

/-- What Egress writes to Ingress in a step. -/
def written (t : Tunnel) : TunnelEvent → Bytes
  | .egressForward => t.egress.pending
  | .egressUp => t.toEgress.take readBuffer
  | _ => []

section Invariant

variable {policy : PolicyCache} {request answer : Bytes} {segments : List Bytes}
variable {t t' : Tunnel} {e : TunnelEvent}

/-- The request bytes in the order in which they stand behind each other. -/
def Conserves (request : Bytes) (t : Tunnel) : Prop :=
  t.passed ++ (t.egress.pending ++ (t.toEgress ++ t.unsent.flatten)) = request

/-- A first read that Egress can have accepted. -/
def FirstRead (policy : PolicyCache) (segments : List Bytes) (header : Bytes) : Prop :=
  header ≠ [] ∧ AllowedHost policy header ∧ ∃ j, header = firstRead segments j

/-- Until it pipes, Egress has passed on nothing but its first read. -/
structure FollowsRead (policy : PolicyCache) (segments : List Bytes) (t : Tunnel) : Prop where
  reading : t.egress = .reading → t.passed = [] ∧
    ∃ j, t.toEgress = (segments.take j).flatten ∧ t.unsent = segments.drop j
  connecting : ∀ header, t.egress = .connecting header →
    t.passed = [] ∧ FirstRead policy segments header
  waiting : ∀ header, t.egress = .waiting header →
    t.passed = header ∧ FirstRead policy segments header

theorem Step.accepted (h : t.Step policy request answer e t') (ha : t'.Accepted) : t.Accepted := by
  cases h with
  | egressRead hr _ => exact ⟨by simp [hr], ha.2⟩
  | egressForward hc => exact ⟨by simp [hc], ha.2⟩
  | egressResponse hw _ => exact ⟨by simp [hw], ha.2⟩
  | ingressRead hr _ => exact ⟨ha.1, by simp [hr]⟩
  | ingressForward hc => exact ⟨ha.1, by simp [hc]⟩
  | _ => exact ha

theorem Step.passed_eq (h : t.Step policy request answer e t') (ha : t'.Accepted) :
    t'.passed = t.passed ++ t.written e := by
  cases h with
  | egressForward hc => simp [passed, written, hc, EgressSide.pending]
  | egressUp => simp [passed, written]
  | ingressRead hr _ =>
    simp [passed, written, hr, IngressSide.ofRead_eq ha.2, IngressSide.pending]
  | ingressForward hc => simp [passed, written, hc, IngressSide.pending]
  | ingressUp hp _ => simp [passed, written, hp, IngressSide.pending]
  | _ => simp [passed, written]

theorem Step.conserves (h : t.Step policy request answer e t') (ha : t'.Accepted)
    (hc : t.Conserves request) : t'.Conserves request := by
  rw [Conserves, h.passed_eq ha]
  rw [Conserves] at hc
  have hsplit := List.take_append_drop readBuffer t.toEgress
  cases h with
  | send hs => simpa [written, hs] using hc
  | egressRead hr _ =>
    rw [hr, ← hsplit] at hc
    simpa only [written, (EgressSide.ofRead_eq ha.1).2, EgressSide.pending, List.nil_append,
      List.append_nil, List.append_assoc] using hc
  | egressForward hs =>
    rw [hs] at hc
    simpa [written, hs, EgressSide.pending] using hc
  | egressResponse hs _ =>
    rw [hs] at hc
    simpa [written, EgressSide.pending] using hc
  | egressUp hs _ =>
    rw [hs, ← hsplit] at hc
    simpa only [written, hs, EgressSide.pending, List.nil_append, List.append_assoc] using hc
  | _ => simpa [written] using hc

theorem FollowsRead.congr (hf : t.FollowsRead policy segments) (hegress : t'.egress = t.egress)
    (hpassed : t'.passed = t.passed) (hto : t'.toEgress = t.toEgress)
    (hun : t'.unsent = t.unsent) : t'.FollowsRead policy segments where
  reading := by
    rw [hegress, hpassed, hto, hun]
    exact hf.reading
  connecting := by
    rw [hegress, hpassed]
    exact hf.connecting
  waiting := by
    rw [hegress, hpassed]
    exact hf.waiting

theorem followsRead_of_piping (h : t.egress = .piping) : t.FollowsRead policy segments where
  reading hr := by simp [h] at hr
  connecting header hc := by simp [h] at hc
  waiting header hw := by simp [h] at hw

theorem next_segment {segment : Bytes} {rest : List Bytes} {j : ℕ}
    (h : segment :: rest = segments.drop j) :
    (segments.take (j + 1)).flatten = (segments.take j).flatten ++ segment ∧
      rest = segments.drop (j + 1) := by
  constructor
  · have hj : segments[j]? = some segment := by
      rw [← List.head?_drop, ← h]
      rfl
    rw [List.take_add_one, hj, List.flatten_append]
    simp
  · rw [← List.tail_drop, ← h]
    rfl

theorem Step.followsRead (h : t.Step policy request answer e t') (ha : t'.Accepted)
    (hf : t.FollowsRead policy segments) : t'.FollowsRead policy segments := by
  have hpassed := h.passed_eq ha
  cases h with
  | @send segment rest hs =>
    have hsame : t.passed ++ t.written .send = t.passed := List.append_nil _
    rw [hsame] at hpassed
    refine ⟨fun hr => ⟨hpassed.trans (hf.reading hr).1, ?_⟩, fun header hc => ?_,
      fun header hw => ?_⟩
    · obtain ⟨-, j, hto, hun⟩ := hf.reading hr
      rw [hs] at hun
      obtain ⟨htake, hdrop⟩ := next_segment hun
      exact ⟨j + 1, by rw [htake, ← hto], hdrop⟩
    · rw [hpassed]
      exact hf.connecting header hc
    · rw [hpassed]
      exact hf.waiting header hw
  | egressRead hr hne =>
    have hsame : t.passed ++ t.written .egressRead = t.passed := List.append_nil _
    rw [hsame] at hpassed
    obtain ⟨hnil, j, hto, -⟩ := hf.reading hr
    obtain ⟨hallowed, hstage⟩ := EgressSide.ofRead_eq ha.1
    refine ⟨fun hr' => ?_, fun header hc => ?_, fun header hw => ?_⟩
    · cases hstage.symm.trans hr'
    · obtain rfl := EgressSide.connecting.inj (hstage.symm.trans hc)
      refine ⟨hpassed.trans hnil, ?_, hallowed, j, by rw [hto, firstRead]⟩
      simpa [readBuffer] using hne
    · cases hstage.symm.trans hw
  | @egressForward header hs =>
    obtain ⟨hnil, hfirst⟩ := hf.connecting header hs
    refine ⟨fun hr => ?_, fun header' hc => ?_, fun header' hw => ?_⟩
    · cases hr
    · cases hc
    · obtain rfl := EgressSide.waiting.inj hw
      rw [hpassed, hnil, written, hs]
      exact ⟨rfl, hfirst⟩
  | egressResponse => exact followsRead_of_piping rfl
  | egressUp hp _ => exact followsRead_of_piping hp
  | _ => exact hf.congr rfl (hpassed.trans (List.append_nil _)) rfl rfl

end Invariant

end Tunnel

namespace Tunnel

variable {policy : PolicyCache} {answer : Bytes} {segments : List Bytes} {t : Tunnel}

theorem invariant_of_run {es : List TunnelEvent}
    (h : Run (Step policy segments.flatten answer) (start segments) es t) (ha : t.Accepted) :
    t.Conserves segments.flatten ∧ t.FollowsRead policy segments := by
  refine h.invariant (I := fun _ t => t.Accepted →
    t.Conserves segments.flatten ∧ t.FollowsRead policy segments) ?_ ?_ ha
  · refine fun _ => ⟨rfl, fun _ => ⟨rfl, 0, rfl, rfl⟩, fun header hc => ?_, fun header hw => ?_⟩
    · cases hc
    · cases hw
  · intro es t e t' _ ih hstep ha'
    obtain ⟨hc, hf⟩ := ih (hstep.accepted ha')
    exact ⟨hstep.conserves ha' hc, hstep.followsRead ha' hf⟩

/-- With nothing left before Ingress, some party can move or the backend has it all. -/
theorem Stuck.received_eq (h : t.Stuck policy segments.flatten answer) (ha : t.Accepted)
    (hpassed : t.passed = segments.flatten) : False := by
  obtain ⟨-, hmiss, hno⟩ := h
  cases hstage : t.ingress with
  | reading =>
    have hto : t.toIngress = [] := by
      by_contra hne
      exact hno _ _ (.ingressRead hstage hne)
    exact hmiss (by simpa [passed, hstage, hto, IngressSide.pending] using hpassed)
  | connecting header => exact hno _ _ (.ingressForward hstage)
  | piping =>
    have hto : t.toIngress = [] := by
      by_contra hne
      exact hno _ _ (.ingressUp hstage hne)
    exact hmiss (by simpa [passed, hstage, hto, IngressSide.pending] using hpassed)
  | refused => exact ha.2 hstage

/-- An accepted run that gets stuck has Egress waiting after a first read that was short. -/
theorem Stuck.short_read {es : List TunnelEvent}
    (h : Run (Step policy segments.flatten answer) (start segments) es t) (ha : t.Accepted)
    (hs : t.Stuck policy segments.flatten answer) :
    ∃ header, FirstRead policy segments header ∧ header ≠ segments.flatten := by
  obtain ⟨hc, hf⟩ := invariant_of_run h ha
  have hno := hs.2.2
  rw [Conserves, hs.1, List.flatten_nil, List.append_nil] at hc
  cases hstage : t.egress with
  | reading =>
    have hto : t.toEgress = [] := by
      by_contra hne
      exact hno _ _ (.egressRead hstage hne)
    exact (hs.received_eq ha (by simpa [hstage, hto, EgressSide.pending] using hc)).elim
  | connecting header => exact (hno _ _ (.egressForward hstage)).elim
  | waiting header =>
    obtain ⟨hpassed, hfirst⟩ := hf.waiting header hstage
    exact ⟨header, hfirst, fun heq => hs.received_eq ha (hpassed.trans heq)⟩
  | piping =>
    have hto : t.toEgress = [] := by
      by_contra hne
      exact hno _ _ (.egressUp hstage hne)
    exact (hs.received_eq ha (by simpa [hstage, hto, EgressSide.pending] using hc)).elim
  | refused => exact (ha.1 hstage).elim

theorem run_sends {request : Bytes} {init : Tunnel} {es : List TunnelEvent}
    (h : Run (Step policy request answer) init es t) (k : ℕ) :
    ∃ es', Run (Step policy request answer) init es'
      { t with
        unsent := t.unsent.drop k
        toEgress := t.toEgress ++ (t.unsent.take k).flatten } := by
  induction k generalizing t es with
  | zero => exact ⟨es, by simpa using h⟩
  | succ k ih =>
    cases hun : t.unsent with
    | nil =>
      refine ⟨es, ?_⟩
      rw [List.drop_nil, List.take_nil, List.flatten_nil, List.append_nil, ← hun]
      exact h
    | cons segment rest =>
      obtain ⟨es', hrun⟩ := ih (h.next (.send hun))
      exact ⟨es', by simpa using hrun⟩

/-- Egress waits for a response, its first read is all the backend has. -/
def short (header unread : Bytes) (unsent : List Bytes) : Tunnel where
  unsent := unsent
  toEgress := unread
  egress := .waiting header
  toIngress := []
  ingress := .piping
  received := header
  answered := false
  backToIngress := []
  backToEgress := []
  response := []

theorem stuck_short {request header unread : Bytes} (h : header ≠ request) :
    (short header unread []).Stuck policy request answer := by
  refine ⟨rfl, h, fun e t' hstep => ?_⟩
  cases hstep with
  | send hs => cases hs
  | egressRead hr => cases hr
  | egressForward hc => cases hc
  | egressResponse _ hne => exact hne rfl
  | egressUp hp => cases hp
  | egressDown hp => cases hp
  | ingressRead hr => cases hr
  | ingressForward hc => cases hc
  | ingressUp _ hne => exact hne rfl
  | ingressDown _ hne => exact hne rfl
  | answer hall => exact h hall

/-- A first read that Egress accepts leads to the backend having just that, with Egress
waiting. -/
theorem run_short {header : Bytes} (hfirst : FirstRead policy segments header) :
    ∃ es unread, Run (Step policy segments.flatten answer) (start segments) es
      (short header unread []) := by
  obtain ⟨hne, hallowed, j, rfl⟩ := hfirst
  have hto : (segments.take j).flatten ≠ [] := fun h => hne (by rw [firstRead, h]; rfl)
  have hsmall : (firstRead segments j).take readBuffer = firstRead segments j := by
    rw [firstRead, List.take_take, Nat.min_self]
  have hrest : (firstRead segments j).drop readBuffer = [] :=
    List.drop_eq_nil_of_le (List.length_take_le _ _)
  have hegress : EgressSide.ofRead policy (firstRead segments j) =
      .connecting (firstRead segments j) := if_pos hallowed
  have hingress : IngressSide.ofRead (firstRead segments j) =
      .connecting (firstRead segments j) := by
    obtain ⟨destination, hhost, -⟩ := hallowed
    rw [IngressSide.ofRead, hhost]
    rfl
  have hstart : Run (Step policy segments.flatten answer) (start segments) [] (start segments) :=
    .start
  obtain ⟨es, hsent⟩ := run_sends hstart j
  have hread := hsent.next (.egressRead rfl hto)
  simp only [start, List.nil_append] at hread
  rw [show (segments.take j).flatten.take readBuffer = firstRead segments j from rfl,
    hegress] at hread
  have hforward := hread.next (.egressForward rfl)
  have hrelay := hforward.next (.ingressRead rfl hne)
  simp only [List.nil_append, hsmall, hrest, hingress] at hrelay
  obtain ⟨es', hall⟩ := run_sends (hrelay.next (.ingressForward rfl)) segments.length
  simp only [List.nil_append, List.drop_drop] at hall
  rw [List.drop_eq_nil_of_le (by omega)] at hall
  exact ⟨es', _, hall⟩

end Tunnel

/-- The tunnel cannot get stuck just when every first read that shows Egress an allowed
host is the whole request. -/
theorem neverStuck_iff (policy : PolicyCache) (segments : List Bytes) (answer : Bytes) :
    NeverStuck policy segments answer ↔
      ∀ j, firstRead segments j ≠ [] → AllowedHost policy (firstRead segments j) →
        firstRead segments j = segments.flatten := by
  constructor
  · intro h j hne hallowed
    by_contra hshort
    obtain ⟨es, unread, hrun⟩ := Tunnel.run_short ⟨hne, hallowed, j, rfl⟩
    exact h es _ hrun ⟨by simp [Tunnel.short], by simp [Tunnel.short]⟩
      (Tunnel.stuck_short hshort)
  · intro h es t hrun ha hstuck
    obtain ⟨header, ⟨hne, hallowed, j, rfl⟩, hshort⟩ := hstuck.short_read hrun ha
    exact hshort (h j hne hallowed)

/-- A request for `beta` whose body comes in a second segment. -/
def postBeta : List Bytes :=
  [utf8 "POST / HTTP/1.1\r\nHost: beta\r\nContent-Length: 2\r\n\r\n", utf8 "hi"]

/-- Egress waits for an answer to a request it has not relayed. -/
theorem postBeta_stuck :
    ¬ ∀ policy segments answer, NeverStuck policy segments answer := by
  intro h
  have hfirst : Tunnel.FirstRead .new postBeta (firstRead postBeta 1) :=
    ⟨by decide, by decide, 1, rfl⟩
  have hshort : firstRead postBeta 1 ≠ postBeta.flatten := by decide
  obtain ⟨es, unread, hrun⟩ := Tunnel.run_short hfirst
  exact h _ _ (utf8 "HTTP/1.1 200 OK\r\n\r\n") es _ hrun
    ⟨by simp [Tunnel.short], by simp [Tunnel.short]⟩
    (Tunnel.stuck_short hshort)

end Meshlite.Conduit
