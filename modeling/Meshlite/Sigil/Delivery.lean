import Meshlite.Sigil.Schedule

/-!
# What reaches an agent

A push is refused exactly when 64 are waiting. The pushes that found room are
delivered in order, so once a channel is drained the last push of each kind has been
delivered unless it was refused itself.
-/

namespace Meshlite.Sigil

open Policy Tasks Runs

/-- The attempts to push on the channel of a stream, with their outcome. -/
def Event.triesOn (sid : ℕ) : Event → List (Proto.AgentPush × Bool)
  | .perform _ (.enqueue sid' push) r => if sid' = sid then [(push, r)] else []
  | _ => []

section History

variable (sid : ℕ) (events : List Event)

def tries : List (Proto.AgentPush × Bool) := events.flatMap (Event.triesOn sid)

def taken : List Proto.AgentPush := events.flatMap (Event.pushesTo sid)

def deliveries : List Proto.AgentPush := events.flatMap (Event.deliversTo sid)

end History

/-- The last delivery about a topic. -/
def lastDelivery (sid : ℕ) (events : List Event) (t : Option String) : Option Proto.AgentPush :=
  lastAbout t (deliveries sid events)

/-- The last attempt to push something about a topic, with its outcome. -/
def lastTry (sid : ℕ) (events : List Event) (t : Option String) :
    Option (Proto.AgentPush × Bool) :=
  ((tries sid events).filter (topic ·.1 = t)).getLast?

variable {unmarshal : List UInt8 → Except String MeshConfig}

theorem pushesTo_eq (sid : ℕ) (e : Event) :
    e.pushesTo sid = (e.triesOn sid).filterMap fun a => if a.2 then some a.1 else none := by
  cases e with
  | perform i o r =>
    cases o with
    | enqueue sid' push =>
      by_cases hsid : sid' = sid <;> by_cases hr : r = true <;>
        simp [Event.pushesTo, Event.triesOn, hsid, hr]
    | _ => rfl
  | _ => rfl

theorem taken_eq (sid : ℕ) (events : List Event) :
    taken sid events = (tries sid events).filterMap fun a => if a.2 then some a.1 else none := by
  unfold taken tries
  rw [List.filterMap_flatMap]
  exact congrArg (events.flatMap ·) (funext (pushesTo_eq sid))

theorem filter_taken (sid : ℕ) (events : List Event) (t : Option String) :
    (taken sid events).filter (topic · = t) =
      ((tries sid events).filter (topic ·.1 = t)).filterMap fun a =>
        if a.2 then some a.1 else none := by
  rw [taken_eq, List.filter_filterMap, List.filterMap_filter]
  apply List.filterMap_congr
  rintro ⟨p, ok⟩ -
  cases ok <;> simp [Option.filter]

theorem taken_snoc (sid : ℕ) (events : List Event) (e : Event) :
    taken sid (events ++ [e]) = taken sid events ++ e.pushesTo sid := by
  simp [taken]

theorem deliveries_snoc (sid : ℕ) (events : List Event) (e : Event) :
    deliveries sid (events ++ [e]) = deliveries sid events ++ e.deliversTo sid := by
  simp [deliveries]

section Run

variable {init S S' : System} {events : List Event} {e : Event}

theorem Step.quiet_on (h : Step unmarshal S e S') {sid : ℕ}
    (hsid : S.server.dist.opened.length ≤ sid) : e.pushesTo sid = [] ∧ e.deliversTo sid = [] := by
  cases h with
  | @perform i o r server tasks hperf hexec =>
    cases o with
    | enqueue j push =>
      obtain ⟨st, hopen, -, -⟩ := hexec
      have hlt := (List.getElem?_eq_some_iff.mp hopen).1
      have hne : j ≠ sid := by omega
      simp [Event.pushesTo, Event.deliversTo, hne]
    | _ => exact ⟨rfl, rfl⟩
  | @deliver j st push hopen hphase hhead =>
    have hlt := (List.getElem?_eq_some_iff.mp hopen).1
    have hne : j ≠ sid := by omega
    simp [Event.pushesTo, Event.deliversTo, hne]
  | _ => exact ⟨rfl, rfl⟩

theorem quiet_on_unopened (h : Run (Step unmarshal) init events S) {sid : ℕ}
    (hsid : S.server.dist.opened.length ≤ sid) :
    taken sid events = [] ∧ deliveries sid events = [] := by
  refine h.invariant (I := fun events S => ∀ sid, S.server.dist.opened.length ≤ sid →
    taken sid events = [] ∧ deliveries sid events = []) (fun _ _ => ⟨rfl, rfl⟩) ?_ sid hsid
  intro es S e S' _ ih hstep sid hsid
  have hopened := hstep.opened_le
  obtain ⟨ht, hd⟩ := ih sid (by omega)
  have hbefore : S.server.dist.opened.length ≤ sid := by omega
  obtain ⟨hpush, hdel⟩ := hstep.quiet_on hbefore
  rw [taken_snoc, deliveries_snoc, ht, hd, hpush, hdel]
  exact ⟨rfl, rfl⟩

/-- A serving stream holds the history of its channel. -/
theorem serving_history (h : Run (Step unmarshal) init events S)
    (hinit : init.server.dist = .new) {node : String} {sid : ℕ} {st : AgentStream}
    (hst : S.server.dist.Serving node sid st) :
    st.pushed = taken sid events ∧ st.delivered = deliveries sid events := by
  refine h.invariant (I := fun events S => ∀ node sid st, S.server.dist.Serving node sid st →
    st.pushed = taken sid events ∧ st.delivered = deliveries sid events) ?_ ?_ node sid st hst
  · rintro node sid st ⟨hl, -, -⟩
    rw [hinit] at hl
    exact absurd hl nofun
  · intro es S e S' hrun ih hstep node sid st' hst'
    rw [taken_snoc, deliveries_snoc]
    rcases hstep.serving hst' with ⟨st, hold, -, hpushed, hdel⟩ | ⟨hello, rfl, -, rfl, rfl⟩
    · obtain ⟨hp, hd⟩ := ih node sid st hold
      rw [hpushed, hdel, hp, hd]
      exact ⟨rfl, rfl⟩
    · obtain ⟨ht, hd⟩ := quiet_on_unopened hrun (le_refl _)
      rw [ht, hd]
      exact ⟨rfl, rfl⟩

end Run

/-- In every run, for every stream that stays registered: its pushes are refused exactly
when 64 are waiting, the others are delivered in order, and once its channel is drained
the last push about each topic has been delivered unless it was refused. -/
theorem last_push_delivered (init : System) (events : List Event) (S : System)
    (h : Run (Step unmarshal) init events S) (hinit : init.server.dist = .new) (node : String)
    (sid : ℕ) (st : AgentStream) (hst : S.server.dist.Serving node sid st) :
    (∀ pre post i push r, events = pre ++ .perform i (.enqueue sid push) r :: post →
      ∃ m st', Run (Step unmarshal) init pre m ∧ m.server.dist.opened[sid]? = some st' ∧
        (r = true ↔ st'.sends.length < 64)) ∧
    deliveries sid events ++ st.sends =
      (tries sid events).filterMap (fun a => if a.2 then some a.1 else none) ∧
    (st.sends = [] → ∀ t push, lastTry sid events t = some (push, true) →
      lastDelivery sid events t = some push) := by
  obtain ⟨hpushed, hdel⟩ := serving_history h hinit hst
  refine ⟨?_, ?_, ?_⟩
  · rintro pre post i push r rfl
    obtain ⟨m, m', hrun, hstep⟩ := h.step_of_split
    cases hstep with
    | perform hperf hexec =>
      obtain ⟨st', hopen, hr, -⟩ := hexec
      exact ⟨m, st', hrun, hopen, hr ▸ decide_eq_true_iff⟩
  · rw [← taken_eq, ← hpushed, ← hdel]
    rfl
  · intro hdrained t push hlast
    have hall : deliveries sid events = taken sid events := by
      rw [← hpushed, ← hdel, AgentStream.pushed, hdrained, List.append_nil]
    obtain ⟨earlier, hearlier⟩ := List.getLast?_eq_some_iff.mp hlast
    rw [lastDelivery, lastAbout, hall, filter_taken, hearlier]
    simp

/-- `alpha → [beta]`, deny by default. -/
def demoConfig : MeshConfig where
  mesh := { name := "demo", clusterId := "cluster-1" }
  policy :=
    { mtlsMode := "enforce"
      defaultAllow := false
      allow := .of [{ fromSvc := "alpha", toSvcs := .of ["beta"] }] }

/-- Sigil with a leaf TTL of 30 s. -/
def demoBoot : System := .boot (newEngine demoConfig) (30 * second) 0 0

/-- A parser that refuses every config. -/
def refuseConfig (_ : List UInt8) : Except String MeshConfig := .error "yaml"

def quietHello : Proto.AgentHello where
  nodeId := "node-1"
  clusterId := "cluster-1"
  podServiceIds := []

def demoBundle : Proto.PolicyBundle := (snapshot (newEngine demoConfig) (.listed _)).bundle

/-- The stream of `node-1` is serving and drained. -/
def Drained (S : System) : Prop :=
  S.server.dist.streams.lookup "node-1" = some 0 ∧
    (S.server.dist.opened[0]?.map fun st => (st.phase, st.sends)) = some (.serving, [])

instance (S : System) : Decidable (Drained S) := inferInstanceAs (Decidable (_ ∧ _))

theorem Drained.serving {S : System} (h : Drained S) :
    ∃ st, S.server.dist.Serving "node-1" 0 st ∧ st.sends = [] := by
  obtain ⟨st, hopen, hst⟩ := Option.map_eq_some_iff.mp h.2
  obtain ⟨hphase, hsends⟩ := Prod.mk.inj hst
  exact ⟨st, ⟨h.1, hopen, hphase⟩, hsends⟩

/-- `alpha` is named twice. -/
def crowdedHello : Proto.AgentHello where
  nodeId := "node-1"
  clusterId := "cluster-1"
  podServiceIds := "alpha" :: "alpha" :: (List.range 62).map fun i => "svc-" ++ toString i

/-- The callback of the hello finishes before the loop delivers anything. -/
def burst : List Move :=
  .subscribe crowdedHello ::
    (List.replicate 197 (Move.perform 1) ++ List.replicate 64 (Move.deliver 0))

/-- The certificate of the last service of the hello finds the channel full. -/
theorem exists_burst : ∃ events S, Run (Step refuseConfig) demoBoot events S ∧ Drained S ∧
    (tries 0 events).countP (fun a => topic a.1 = some "alpha") = 2 ∧
    (lastTry 0 events (some "alpha")).map Prod.snd = some true ∧
    (lastTry 0 events (some "svc-61")).map Prod.snd = some false ∧
    lastDelivery 0 events (some "svc-61") = none :=
  exists_run (by decide +kernel : (demoBoot.follow refuseConfig _ burst).any _ = true)

/-- The second certificate of `alpha` is the last one delivered. -/
theorem burst_delivers_alpha : ∃ events S push, Run (Step refuseConfig) demoBoot events S ∧
    (tries 0 events).countP (fun a => topic a.1 = some "alpha") = 2 ∧
    (lastTry 0 events (some "svc-61")).map Prod.snd = some false ∧
    lastTry 0 events (some "alpha") = some (push, true) ∧
    lastDelivery 0 events (some "alpha") = some push := by
  obtain ⟨events, S, hrun, hdrained, htwice, halpha, hrefused, -⟩ := exists_burst
  obtain ⟨st, hst, hsends⟩ := hdrained.serving
  obtain ⟨⟨push, _⟩, hlast, rfl⟩ := Option.map_eq_some_iff.mp halpha
  obtain ⟨-, -, hdelivered⟩ :=
    last_push_delivered demoBoot events S hrun rfl "node-1" 0 st hst
  exact ⟨events, S, push, hrun, htwice, hrefused, hlast, hdelivered hsends _ push hlast⟩

/-- The certificate of the last service of the hello was pushed, and is lost. -/
theorem burst_loses_last_cert :
    ¬ ∀ events S node sid st, Run (Step refuseConfig) demoBoot events S →
      S.server.dist.Serving node sid st → st.sends = [] → ∀ t push ok,
      lastTry sid events t = some (push, ok) → lastDelivery sid events t = some push := by
  intro h
  obtain ⟨events, S, hrun, hdrained, -, -, hrefused, hlost⟩ := exists_burst
  obtain ⟨st, hst, hsends⟩ := hdrained.serving
  obtain ⟨⟨push, ok⟩, hlast, -⟩ := Option.map_eq_some_iff.mp hrefused
  have hdelivered := h events S "node-1" 0 st hrun hst hsends _ push ok hlast
  rw [hlost] at hdelivered
  nomatch hdelivered

end Meshlite.Sigil
