import Meshlite.Conduit.PolicyFetch
import Meshlite.Library.Runs

/-!
# The Egress gateway

One task polls Sigil and replaces the shared policy cache; one task for each accepted
connection reads a request, checks its destination against the cache and tunnels it.
A step is what one task does between two awaits, or under the lock of the cache.
-/

namespace Meshlite.Conduit

open Bytes Policy Tls

/-- Where `handle_connection` stands. -/
inductive Stage where
  | reading
  | checking (header : Bytes) (destination : String)
  | admitted (header : Bytes) (destination : String)
  | forwarded (header : Bytes) (destination : String)
  | denied (destination : String)
  | closed
  deriving DecidableEq, Repr

/-- The shared cache and the connections accepted so far. -/
structure Egress where
  policyCache : PolicyCache
  conns : List Stage
  deriving DecidableEq, Repr

inductive Event where
  /-- a tick of the poll, with what the connection to Sigil delivered -/
  | poll (got : Except String Bytes)
  | accept
  /-- the first read; empty when the client closed or the read failed -/
  | read (conn : ℕ) (header : Bytes)
  /-- the policy check, with its outcome -/
  | check (conn : ℕ) (destination : String) (allowed : Bool)
  /-- connect and handshake succeeded, the header went to the peer -/
  | forward (conn : ℕ) (destination : String)
  /-- any error that ends the connection -/
  | fail (conn : ℕ)

/-- An empty read ends the connection; a request without a host is answered 400. -/
def stageOfRead (header : Bytes) : Stage :=
  if header = [] then .closed
  else match extractHost header with
    | some destination => .checking header destination
    | none => .closed

/-- A denied request is answered 403. -/
def stageOfCheck (header : Bytes) (destination : String) (allowed : Bool) : Stage :=
  if allowed then .admitted header destination else .denied destination

section System

variable (fromSlice : Bytes → Except String Json)

/-- One tick of `start_policy_poll`: a failed fetch leaves the cache as it is. -/
def pollStep (cache : PolicyCache) (got : Except String Bytes) : PolicyCache :=
  match fetchPolicy fromSlice got with
  | .ok snap => cache.update snap.rules snap.defaultAllow snap.mtlsMode
  | .error _ => cache

/-- The steps of the gateway. -/
inductive Step : Egress → Event → Egress → Prop
  | poll {s : Egress} (got : Except String Bytes) :
      Step s (.poll got) { s with policyCache := pollStep fromSlice s.policyCache got }
  | accept {s : Egress} : Step s .accept { s with conns := s.conns ++ [.reading] }
  | read {s : Egress} {i : ℕ} (header : Bytes) : s.conns[i]? = some .reading →
      Step s (.read i header) { s with conns := s.conns.set i (stageOfRead header) }
  | check {s : Egress} {i : ℕ} {header : Bytes} {destination : String} :
      s.conns[i]? = some (.checking header destination) →
      Step s (.check i destination (s.policyCache.isAllowedDestination destination))
        { s with conns := s.conns.set i (stageOfCheck header destination
          (s.policyCache.isAllowedDestination destination)) }
  | forward {s : Egress} {i : ℕ} {header : Bytes} {destination : String} :
      s.conns[i]? = some (.admitted header destination) →
      Step s (.forward i destination)
        { s with conns := s.conns.set i (.forwarded header destination) }
  | fail {s : Egress} {i : ℕ} : i < s.conns.length →
      Step s (.fail i) { s with conns := s.conns.set i .closed }

/-- The gateway at its start. -/
def Egress.boot : Egress where
  policyCache := .new
  conns := []

/-- The policy of the last successful fetch. -/
def lastFetched (events : List Event) : Option PolicySnapshot :=
  events.foldl (fun last e => match e with
    | .poll got => match fetchPolicy fromSlice got with
      | .ok snap => some snap
      | .error _ => last
    | _ => last) none

end System

/-- `is_allowed_destination` on the rules of a snapshot. -/
def PolicySnapshot.Permits (snap : PolicySnapshot) (destination : String) : Prop :=
  (∃ r ∈ snap.rules, destination ∈ r.toServices) ∨ snap.defaultAllow = true

/-- The cache that holds a snapshot. -/
def PolicySnapshot.cache (snap : PolicySnapshot) : PolicyCache :=
  PolicyCache.new.update snap.rules snap.defaultAllow snap.mtlsMode

theorem isAllowedDestination_cache (snap : PolicySnapshot) (destination : String) :
    snap.cache.isAllowedDestination destination = true ↔ snap.Permits destination := by
  simp [PolicyCache.isAllowedDestination, PolicySnapshot.cache, PolicyCache.update,
    PolicySnapshot.Permits]

section Runs

open Runs

variable {fromSlice : Bytes → Except String Json} {events : List Event} {s : Egress}

theorem lastFetched_snoc (events : List Event) (e : Event) :
    lastFetched fromSlice (events ++ [e]) = match e with
      | .poll got => match fetchPolicy fromSlice got with
        | .ok snap => some snap
        | .error _ => lastFetched fromSlice events
      | _ => lastFetched fromSlice events := by
  unfold lastFetched
  rw [List.foldl_append]
  rfl

theorem policyCache_eq (h : Run (Step fromSlice) .boot events s) :
    s.policyCache = ((lastFetched fromSlice events).map PolicySnapshot.cache).getD .new := by
  refine h.invariant (I := fun events s => s.policyCache =
    ((lastFetched fromSlice events).map PolicySnapshot.cache).getD .new) rfl ?_
  intro es s e s' _ ih hstep
  rw [lastFetched_snoc]
  cases hstep with
  | poll got =>
    simp only [pollStep]
    cases fetchPolicy fromSlice got with
    | ok snap => rfl
    | error err => exact ih
  | _ => exact ih

/-- What a passed check says about the policies fetched before it. -/
def PassedCheck (fromSlice : Bytes → Except String Json) (events : List Event) (conn : ℕ)
    (destination : String) : Prop :=
  ∃ before after, events = before ++ .check conn destination true :: after ∧
    (lastFetched fromSlice before = none ∨
      ∃ snap, lastFetched fromSlice before = some snap ∧ snap.Permits destination)

theorem PassedCheck.snoc {conn : ℕ} {destination : String}
    (h : PassedCheck fromSlice events conn destination) (e : Event) :
    PassedCheck fromSlice (events ++ [e]) conn destination := by
  obtain ⟨before, after, rfl, hfetched⟩ := h
  exact ⟨before, after ++ [e], by simp, hfetched⟩

theorem isAllowedDestination_unfetched (h : Run (Step fromSlice) .boot events s)
    (hnone : lastFetched fromSlice events = none) (destination : String) :
    s.policyCache.isAllowedDestination destination = true := by
  rw [policyCache_eq h, hnone]
  rfl

theorem passedCheck_of_allowed (h : Run (Step fromSlice) .boot events s) {conn : ℕ}
    {destination : String} (hallowed : s.policyCache.isAllowedDestination destination = true) :
    PassedCheck fromSlice (events ++ [.check conn destination true]) conn destination := by
  refine ⟨events, [], rfl, ?_⟩
  cases hl : lastFetched fromSlice events with
  | none => exact Or.inl rfl
  | some snap =>
    rw [policyCache_eq h, hl] at hallowed
    exact Or.inr ⟨snap, rfl, (isAllowedDestination_cache snap destination).mp hallowed⟩

theorem admitted_of_set {conns : List Stage} {i j : ℕ} {stage : Stage} {header : Bytes}
    {destination : String} (hne : stage ≠ .admitted header destination)
    (h : (conns.set i stage)[j]? = some (.admitted header destination)) :
    conns[j]? = some (.admitted header destination) := by
  by_cases hij : i = j
  · subst hij
    rw [List.getElem?_set_self'] at h
    cases hc : conns[i]? with
    | none => simp [hc] at h
    | some old => exact absurd (by simpa [hc] using h) hne
  · rwa [List.getElem?_set_ne hij] at h

theorem stageOfRead_ne (header : Bytes) (header' : Bytes) (destination : String) :
    stageOfRead header ≠ .admitted header' destination := by
  unfold stageOfRead
  split
  · nofun
  · split <;> nofun

/-- Every admitted connection passed the check. -/
theorem passedCheck_of_admitted (h : Run (Step fromSlice) .boot events s) {conn : ℕ}
    {header : Bytes} {destination : String}
    (hadm : s.conns[conn]? = some (.admitted header destination)) :
    PassedCheck fromSlice events conn destination := by
  refine h.invariant (I := fun events s => ∀ conn header destination,
    s.conns[conn]? = some (.admitted header destination) →
      PassedCheck fromSlice events conn destination) (by simp [Egress.boot]) ?_ _ _ _ hadm
  intro es s e s' hrun ih hstep conn header destination hadm
  cases hstep with
  | poll got => exact (ih _ _ _ hadm).snoc _
  | accept =>
    rcases Nat.lt_or_ge conn s.conns.length with hlt | hge
    · rw [List.getElem?_append_left hlt] at hadm
      exact (ih _ _ _ hadm).snoc _
    · rw [List.getElem?_append_right hge] at hadm
      have hmem := List.mem_of_getElem? hadm
      simp at hmem
  | read header' hreading =>
    exact (ih _ _ _ (admitted_of_set (stageOfRead_ne _ _ _) hadm)).snoc _
  | @check i header' destination' hchecking =>
    by_cases hall : s.policyCache.isAllowedDestination destination' = true
    · rw [hall] at hadm ⊢
      by_cases hij : i = conn
      · subst hij
        rw [List.getElem?_set_self', hchecking] at hadm
        obtain ⟨rfl, rfl⟩ : header' = header ∧ destination' = destination := by
          simpa [stageOfCheck] using hadm
        exact passedCheck_of_allowed hrun hall
      · rw [List.getElem?_set_ne hij] at hadm
        exact (ih _ _ _ hadm).snoc _
    · rw [Bool.not_eq_true] at hall
      rw [hall] at hadm
      exact (ih _ _ _ (admitted_of_set (by nofun) hadm)).snoc _
  | forward _ => exact (ih _ _ _ (admitted_of_set (by nofun) hadm)).snoc _
  | fail _ => exact (ih _ _ _ (admitted_of_set (by nofun) hadm)).snoc _

theorem step_check_allowed {i : ℕ} {header : Bytes} {destination : String}
    (hchecking : s.conns[i]? = some (.checking header destination))
    (hallowed : s.policyCache.isAllowedDestination destination = true) :
    Step fromSlice s (.check i destination true)
      { s with conns := s.conns.set i (.admitted header destination) } := by
  have hstep : Step fromSlice s _ _ := .check hchecking
  rw [hallowed] at hstep
  exact hstep

theorem exists_admitted (h : Run (Step fromSlice) .boot events s) {header : Bytes}
    {destination : String} (hread : stageOfRead header = .checking header destination)
    (hallowed : s.policyCache.isAllowedDestination destination = true) :
    ∃ s', Run (Step fromSlice) .boot (events ++ [.accept] ++ [.read s.conns.length header] ++
        [.check s.conns.length destination true]) s' ∧
      s'.conns[s.conns.length]? = some (.admitted header destination) := by
  have hnew : (s.conns ++ [Stage.reading])[s.conns.length]? = some .reading := by simp
  have hrun := (h.next .accept).next (.read header hnew)
  have hchecking : ((s.conns ++ [Stage.reading]).set s.conns.length
      (stageOfRead header))[s.conns.length]? = some (.checking header destination) := by
    rw [List.getElem?_set_self', hnew, hread]
    rfl
  refine ⟨_, hrun.next (step_check_allowed hchecking hallowed), ?_⟩
  rw [List.getElem?_set_self', hchecking]
  rfl

end Runs

/-- In every run, a request is forwarded only after a check that found no policy fetched
yet, or the last fetched policy permitting the destination; and before the first fetch
every check passes. -/
theorem forwarded_was_checked (fromSlice : Bytes → Except String Json) (events : List Event)
    (s : Egress) (h : Runs.Run (Step fromSlice) .boot events s) :
    (∀ pre post conn destination, events = pre ++ .forward conn destination :: post →
      PassedCheck fromSlice pre conn destination) ∧
    (∀ pre post conn destination allowed,
      events = pre ++ .check conn destination allowed :: post →
      lastFetched fromSlice pre = none → allowed = true) := by
  constructor
  · rintro pre post conn destination rfl
    obtain ⟨m, m', hrun, hstep⟩ := h.step_of_split
    cases hstep with
    | forward hadm => exact passedCheck_of_admitted hrun hadm
  · rintro pre post conn destination allowed rfl hnone
    obtain ⟨m, m', hrun, hstep⟩ := h.step_of_split
    cases hstep with
    | check _ => exact isAllowedDestination_unfetched hrun hnone destination

/-- A request is forwarded only to a destination that the last fetched policy permits. -/
def ForwardsPermitted (fromSlice : Bytes → Except String Json) (events : List Event) : Prop :=
  ∀ pre post conn destination, events = pre ++ .forward conn destination :: post →
    ∃ snap, lastFetched fromSlice pre = some snap ∧ snap.Permits destination

/-- `alpha → [gamma]`, deny by default. -/
def revisedConfig : MeshConfig where
  mesh := demoMesh
  policy :=
    { mtlsMode := "enforce"
      defaultAllow := false
      allow := .of [{ fromSvc := "alpha", toSvcs := .of ["gamma"] }] }

/-- The parser on the bodies of the two policies. -/
def demoParser : Bytes → Except String Json :=
  parserOf [servedJson servedConfig, servedJson revisedConfig]

def demoAnswer (cfg : MeshConfig) : Event :=
  .poll (.ok (Sigil.getPolicy contentType _ (listedOrder cfg)))

def requestBeta : Bytes := utf8 "GET / HTTP/1.1\r\nHost: beta\r\n\r\n"

/-- The events of one forwarded request to `beta`, but for what comes before them. -/
def admitBeta : List Event := [.accept, .read 0 requestBeta, .check 0 "beta" true]

theorem fetch_served :
    fetchPolicy demoParser (.ok (Sigil.getPolicy contentType _ (listedOrder servedConfig))) =
      .ok (snapshotOf (listedOrder servedConfig)) :=
  fetchPolicy_ok _ contentType (parserOf_reads _ _) (by decide) (by decide)

theorem fetch_revised :
    fetchPolicy demoParser (.ok (Sigil.getPolicy contentType _ (listedOrder revisedConfig))) =
      .ok (snapshotOf (listedOrder revisedConfig)) :=
  fetchPolicy_ok _ contentType (parserOf_reads_second (by decide)) (by decide) (by decide)

theorem exists_served_run :
    ∃ s, Runs.Run (Step demoParser) .boot ([demoAnswer servedConfig] ++ admitBeta) s ∧
      s.conns[0]? = some (.admitted requestBeta "beta") := by
  have hfetched : Runs.Run (Step demoParser) .boot [demoAnswer servedConfig] _ :=
    Runs.Run.start.next (.poll _)
  refine exists_admitted hfetched (by decide) ?_
  simp only [pollStep, fetch_served]
  decide

theorem exists_unfetched_run :
    ∃ s, Runs.Run (Step demoParser) .boot admitBeta s ∧
      s.conns[0]? = some (.admitted requestBeta "beta") :=
  exists_admitted .start (by decide) (by decide)

theorem served_request_was_checked :
    PassedCheck demoParser ([demoAnswer servedConfig] ++ admitBeta) 0 "beta" := by
  obtain ⟨s, hrun, hadm⟩ := exists_served_run
  exact (forwarded_was_checked demoParser _ _ (hrun.next (.forward hadm))).1 _ [] 0 "beta" rfl

/-- A request is forwarded before any policy is fetched; and one that passed its check
is forwarded although the policy fetched meanwhile denies its destination. -/
theorem forwards_unpermitted :
    (∃ s, Runs.Run (Step demoParser) .boot (admitBeta ++ [.forward 0 "beta"]) s ∧
      ¬ ForwardsPermitted demoParser (admitBeta ++ [.forward 0 "beta"])) ∧
    (∃ s, Runs.Run (Step demoParser) .boot ([demoAnswer servedConfig] ++ admitBeta ++
        [demoAnswer revisedConfig] ++ [.forward 0 "beta"]) s ∧
      ¬ ForwardsPermitted demoParser ([demoAnswer servedConfig] ++ admitBeta ++
        [demoAnswer revisedConfig] ++ [.forward 0 "beta"])) := by
  constructor
  · obtain ⟨s, hrun, hadm⟩ := exists_unfetched_run
    refine ⟨_, hrun.next (.forward hadm), fun h => ?_⟩
    obtain ⟨snap, hsnap, -⟩ := h admitBeta [] 0 "beta" rfl
    exact absurd hsnap nofun
  · obtain ⟨s, hrun, hadm⟩ := exists_served_run
    refine ⟨_, (hrun.next (.poll _)).next (.forward hadm), fun h => ?_⟩
    obtain ⟨snap, hsnap, hpermits⟩ := h _ [] 0 "beta" rfl
    rw [lastFetched_snoc] at hsnap
    simp only [demoAnswer, fetch_revised, Option.some.injEq] at hsnap
    subst hsnap
    exact absurd ((isAllowedDestination_cache _ _).mpr hpermits) (by decide)

end Meshlite.Conduit
