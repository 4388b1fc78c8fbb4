import Meshlite.Sigil.System

/-!
# Where the answers of the handlers come from

Each handler's own operations, with the answers it got, are its record. A policy it
pushes or answers with is made of what it has read of the engine, each accessor called
once, and a certificate it answers with is the one it had issued.
-/

namespace Meshlite.Sigil

open Policy Tasks Tasks.Prog Runs

abbrev Record := List ((o : Op) × o.Res)

def Event.recordOf (i : ℕ) : Event → Record
  | .perform j o r => if j = i then [⟨o, r⟩] else []
  | _ => []

/-- What the handler did in a run. -/
def record (i : ℕ) (events : List Event) : Record := events.flatMap (Event.recordOf i)

/-- The answers of the three accessors. -/
structure Reads (tr : Record) (rules : List AllowRule) (defaultAllow : Bool) (mtlsMode : String) :
    Prop where
  rules : ⟨.rules, rules⟩ ∈ tr
  defaultAllow : ⟨.defaultAllow, defaultAllow⟩ ∈ tr
  mtlsMode : ⟨.mtlsMode, mtlsMode⟩ ∈ tr

def Unread (o : Op) (tr : Record) : Prop := ∀ r, ⟨o, r⟩ ∉ tr

/-- The bundle of the three values. -/
def bundleOf (rules : List AllowRule) (defaultAllow : Bool) (mtlsMode : String) :
    Proto.PolicyBundle :=
  PolicySnapshot.bundle { rules := protoRules rules, defaultAllow, mtlsMode }

/-- What an operation rests on: an accessor is called once, a policy pushed was read, a
certificate with DNS names is the first thing a handler asks for. -/
def Sourced (tr : Record) : Op → Prop
  | .rules => Unread .rules tr
  | .defaultAllow => Unread .defaultAllow tr
  | .mtlsMode => Unread .mtlsMode tr
  | .issueWithDns _ _ _ _ => tr = []
  | .enqueue _ (.policy pb) => ∃ rules defaultAllow mtlsMode,
      Reads tr rules defaultAllow mtlsMode ∧ pb = bundleOf rules defaultAllow mtlsMode
  | _ => True

/-- What a reply rests on. -/
def Answered (tr : Record) : Reply → Prop
  | .policy resp => Reads tr resp.rules resp.defaultAllow resp.mtlsMode
  | .enrolled c => ∃ svc cl ns dns, tr = [⟨.issueWithDns svc cl ns dns, .ok c⟩]
  | _ => True

section Handlers

variable {tr : Record}

theorem along_pushCert (node : String) (cb : Proto.CertBundle) :
    (pushCert node cb).Along Sourced (fun _ _ => True) tr := by
  refine ⟨trivial, fun r => ?_⟩
  cases r with
  | none => trivial
  | some sid => exact ⟨trivial, fun _ => trivial⟩

theorem along_pushCertToAll (cb : Proto.CertBundle) :
    (pushCertToAll cb).Along Sourced (fun _ _ => True) tr :=
  ⟨trivial, fun _ => along_each (fun _ _ _ => along_pushCert _ _) _ trivial⟩

theorem Reads.append {rules : List AllowRule} {defaultAllow : Bool} {mtlsMode : String}
    (h : Reads tr rules defaultAllow mtlsMode) (tr' : Record) :
    Reads (tr ++ tr') rules defaultAllow mtlsMode where
  rules := List.mem_append_left _ h.rules
  defaultAllow := List.mem_append_left _ h.defaultAllow
  mtlsMode := List.mem_append_left _ h.mtlsMode

theorem along_send_policy {rules : List AllowRule} {defaultAllow : Bool} {mtlsMode : String}
    (h : Reads tr rules defaultAllow mtlsMode) (node : String) :
    (send node (.policy (bundleOf rules defaultAllow mtlsMode))).Along Sourced
      (fun tr _ => Reads tr rules defaultAllow mtlsMode) tr := by
  refine ⟨trivial, fun r => ?_⟩
  cases r with
  | none => exact h.append _
  | some sid =>
    exact ⟨⟨rules, defaultAllow, mtlsMode, h.append _, rfl⟩, fun _ => (h.append _).append _⟩

/-- A handler that has called no accessor yet reads its snapshot. -/
theorem along_readSnapshot {R : Record → PolicySnapshot → Prop} (hrules : Unread .rules tr)
    (hdefault : Unread .defaultAllow tr) (hmode : Unread .mtlsMode tr)
    (hR : ∀ rules defaultAllow mtlsMode tr', Reads tr' rules defaultAllow mtlsMode →
      R tr' { rules := protoRules rules, defaultAllow, mtlsMode }) :
    readSnapshot.Along Sourced R tr := by
  refine ⟨hrules, fun rules => ⟨?_, fun defaultAllow => ⟨?_, fun mtlsMode => ?_⟩⟩⟩
  · intro r hr
    rcases List.mem_append.mp hr with hold | hnew
    · exact hdefault r hold
    · simp at hnew
  · intro r hr
    simp only [List.append_assoc, List.mem_append, List.mem_singleton] at hr
    rcases hr with hold | hnew | hnew
    · exact hmode r hold
    · cases hnew
    · cases hnew
  · refine hR rules defaultAllow mtlsMode _ ⟨?_, ?_, ?_⟩ <;> simp

theorem along_onConnect (hello : Proto.AgentHello) :
    (onConnect hello).Along Sourced Answered [] := by
  apply along_bind
  apply along_readSnapshot (by simp [Unread]) (by simp [Unread]) (by simp [Unread])
  intro rules defaultAllow mtlsMode tr h
  apply along_bind
  apply (along_send_policy h hello.nodeId).mono
  intro tr _ _
  apply along_bind
  refine along_each (K := fun _ => True) ?_ _ trivial
  intro svc tr _
  refine ⟨trivial, fun r => ?_⟩
  cases r with
  | error err => trivial
  | ok c => exact along_pushCert _ _

theorem along_installConfig (newEng : Engine) :
    (installConfig newEng).Along Sourced Answered [] := by
  refine ⟨trivial, fun u => ?_⟩
  apply along_bind (p := readSnapshot)
  apply along_readSnapshot (by simp [Unread]) (by simp [Unread]) (by simp [Unread])
  intro rules defaultAllow mtlsMode tr h
  apply along_bind (p := broadcastPolicy _)
  refine ⟨trivial, fun nodes => ?_⟩
  have hloop := along_each (P := Sourced)
    (K := fun tr => Reads tr rules defaultAllow mtlsMode) (fun node _ h => along_send_policy h node)
    nodes (h.append [⟨.connectedAgents, nodes⟩])
  exact hloop.mono fun _ _ _ => trivial

theorem along_servePolicy : servePolicy.Along Sourced Answered [] := by
  refine ⟨?_, fun mtlsMode => ⟨?_, fun defaultAllow => ⟨?_, fun rules => ?_⟩⟩⟩
  · simp [Sourced, Unread]
  · simp [Sourced, Unread]
  · simp [Sourced, Unread]
  · refine ⟨?_, ?_, ?_⟩ <;> simp

theorem along_rotateCert (serviceId : String) :
    (rotateCert serviceId).Along Sourced Answered [] := by
  unfold rotateCert
  split_ifs with hname
  · trivial
  · refine ⟨trivial, fun r => ?_⟩
    cases r with
    | error err => trivial
    | ok rows =>
      dsimp only [Prog.bind]
      cases rows.find? (·.serviceId = serviceId) with
      | none => trivial
      | some row =>
        refine ⟨trivial, fun r => ?_⟩
        cases r with
        | error err => trivial
        | ok c => exact along_bind (p := pushCertToAll c.bundle) (along_pushCertToAll _)

theorem along_rotationScan : rotationScan.Along Sourced Answered [] := by
  refine ⟨trivial, fun r => ?_⟩
  cases r with
  | error err => trivial
  | ok rows =>
    apply along_bind (p := each rotateIfDue rows)
    refine along_each (K := fun _ => True) ?_ _ trivial
    intro row tr _
    rw [rotateIfDue_eq, along_op]
    refine ⟨trivial, ?_⟩
    intro now
    by_cases hdue : now < row.rotateAt * second
    · rw [if_pos hdue]
      trivial
    · rw [if_neg hdue]
      refine ⟨trivial, fun r => ?_⟩
      cases r with
      | error err => trivial
      | ok c => exact along_pushCertToAll _

theorem along_handleServiceEvent (evt : ServiceEvent) :
    (handleServiceEvent evt).Along Sourced Answered [] := by
  unfold handleServiceEvent
  split_ifs with hdel
  · exact ⟨trivial, fun _ => trivial⟩
  · refine ⟨trivial, fun r => ?_⟩
    cases r with
    | error err => trivial
    | ok c => exact along_bind (p := pushCert evt.nodeName c.bundle) (along_pushCert _ _)

theorem along_enrollCluster (clusterId : Option String) :
    (enrollCluster clusterId).Along Sourced Answered [] := by
  cases clusterId with
  | none => trivial
  | some clusterId =>
    unfold enrollCluster
    dsimp only
    split_ifs with hname
    · trivial
    · refine ⟨rfl, fun r => ?_⟩
      cases r with
      | error err => trivial
      | ok c => exact ⟨_, _, _, _, rfl⟩

theorem along_issueServerCert (clusterId : String) :
    (issueServerCert clusterId).Along Sourced Answered [] :=
  ⟨rfl, fun _ => trivial⟩

theorem along_handler (unmarshal : List UInt8 → Except String MeshConfig) (req : Request) :
    (handler unmarshal req).Along Sourced Answered [] := by
  cases req with
  | postConfig body =>
    change (postConfig unmarshal body).Along Sourced Answered []
    unfold postConfig
    cases newFromBytes unmarshal (body.take configLimit) with
    | error err => trivial
    | ok newEng => exact along_installConfig newEng
  | getPolicy => exact along_servePolicy
  | rotate serviceId => exact along_rotateCert serviceId
  | serviceEvent evt => exact along_handleServiceEvent evt
  | enroll clusterId => exact along_enrollCluster clusterId

end Handlers

section Runs

variable {unmarshal : List UInt8 → Except String MeshConfig} {S S' : System} {e : Event}
variable {events : List Event} {i : ℕ}

theorem record_append (events events' : List Event) :
    record i (events ++ events') = record i events ++ record i events' :=
  List.flatMap_append

theorem record_snoc (events : List Event) (e : Event) :
    record i (events ++ [e]) = record i events ++ e.recordOf i := by
  rw [record_append, record, record, List.flatMap_singleton]

theorem mem_record {o : Op} {r : o.Res} : ⟨o, r⟩ ∈ record i events ↔ .perform i o r ∈ events := by
  rw [record, List.mem_flatMap]
  constructor
  · rintro ⟨e, he, hr⟩
    cases e with
    | perform j o' r' =>
      simp only [Event.recordOf, List.mem_ite_nil_right, List.mem_singleton] at hr
      obtain ⟨rfl, heq⟩ := hr
      cases heq
      exact he
    | _ => simp [Event.recordOf] at hr
  · exact fun he => ⟨_, he, by simp [Event.recordOf]⟩

/-- The handler an event starts. -/
def Event.program (unmarshal : List UInt8 → Except String MeshConfig) :
    Event → Option (Handler Reply)
  | .subscribe hello => some (onConnect hello)
  | .request req => some (handler unmarshal req)
  | .scan => some rotationScan
  | _ => none

/-- The events that start a handler. -/
def Event.starts : Event → Bool
  | .subscribe _ | .request _ | .scan => true
  | _ => false

/-- What started each handler; the first one runs from the start on. -/
def starters (events : List Event) : List (Option Event) :=
  none :: (events.filter Event.starts).map some

theorem starters_append (events events' : List Event) :
    starters (events ++ events') = starters events ++ (events'.filter Event.starts).map some := by
  simp [starters]

theorem starters_snoc (events : List Event) (e : Event) :
    starters (events ++ [e]) = starters events ++ if e.starts then [some e] else [] := by
  rw [starters_append]
  split_ifs with he <;> simp [he]

theorem mem_of_starters (h : (starters events)[i]? = some (some e)) : e ∈ events := by
  have hmem := List.mem_of_getElem? h
  rw [starters, List.mem_cons, List.mem_map] at hmem
  rcases hmem with hnone | ⟨e', he', heq⟩
  · cases hnone
  · exact Option.some.inj heq ▸ List.mem_of_mem_filter he'

/-- Every handler acts and answers as the event that started it and its record bear out;
those not started have none. -/
structure Explained (P : Option Event → Record → Op → Prop)
    (R : Option Event → Record → Reply → Prop) (events : List Event) (S : System) : Prop where
  length : (starters events).length = S.tasks.length
  along : ∀ i (p : Handler Reply), S.tasks[i]? = some p → ∃ start : Option Event,
    (starters events)[i]? = some start ∧ p.Along (P start) (R start) (record i events)
  idle : ∀ i, S.tasks.length ≤ i → record i events = []

section Explained

variable {P : Option Event → Record → Op → Prop} {R : Option Event → Record → Reply → Prop}

theorem Explained.keep (h : Explained P R events S) (he : ∀ i, e.recordOf i = [])
    (hnone : e.starts = false) (htasks : S'.tasks = S.tasks) :
    Explained P R (events ++ [e]) S' := by
  have hsame : starters (events ++ [e]) = starters events := by
    simp [starters_snoc, hnone]
  refine ⟨by rw [hsame, htasks, h.length], fun i p hp => ?_, fun i hi => ?_⟩
  · rw [hsame, record_snoc, he, List.append_nil]
    exact h.along i p (htasks ▸ hp)
  · rw [record_snoc, he, List.append_nil]
    exact h.idle i (htasks ▸ hi)

theorem Explained.start {p : Handler Reply} (h : Explained P R events S)
    (he : ∀ i, e.recordOf i = []) (hstarts : e.starts = true) (htasks : S'.tasks = S.tasks ++ [p])
    (hp : p.Along (P (some e)) (R (some e)) []) : Explained P R (events ++ [e]) S' := by
  have hmore : starters (events ++ [e]) = starters events ++ [some e] := by
    simp [starters_snoc, hstarts]
  refine ⟨by simp [hmore, htasks, h.length], fun i q hq => ?_, fun i hi => ?_⟩
  · rw [hmore, record_snoc, he, List.append_nil, List.getElem?_append, h.length]
    rw [htasks, List.getElem?_append] at hq
    split_ifs at hq with hlt
    · rw [if_pos hlt]
      exact h.along i q hq
    · have hone : i - S.tasks.length = 0 ∧ q = p := by
        simpa [List.getElem?_singleton, eq_comm] using hq
      rw [if_neg hlt, hone.1, hone.2, h.idle i (by omega)]
      exact ⟨some e, rfl, hp⟩
  · rw [record_snoc, he, List.append_nil]
    rw [htasks, List.length_append] at hi
    exact h.idle i (by omega)

theorem Explained.perform {i : ℕ} {o : Op} {r : o.Res} {tasks : List (Handler Reply)}
    {server : Server} (h : Explained P R events S) (hperf : Performs S.tasks i o r tasks) :
    Explained P R (events ++ [.perform i o r]) ⟨server, tasks⟩ := by
  have hsame : starters (events ++ [.perform i o r]) = starters events := by
    simp [starters_snoc, Event.starts]
  have hlength : tasks.length = S.tasks.length := by
    obtain ⟨k, -, rfl⟩ := hperf
    exact List.length_set
  refine ⟨by rw [hsame, h.length, hlength], fun j p hp => ?_, fun j hj => ?_⟩
  · rw [hsame, record_snoc, Event.recordOf]
    rcases hperf.getElem?_eq hp with ⟨rfl, k, hk, rfl⟩ | ⟨hne, hold⟩
    · obtain ⟨start, hstart, halong⟩ := h.along i _ hk
      rw [if_pos rfl]
      exact ⟨start, hstart, halong.2 r⟩
    · rw [if_neg hne, List.append_nil]
      exact h.along j p hold
  · obtain ⟨k, hk, rfl⟩ := hperf
    obtain ⟨hlt, -⟩ := List.getElem?_eq_some_iff.mp hk
    have hj : S.tasks.length ≤ j := by simpa using hj
    rw [record_snoc, h.idle j hj, Event.recordOf, if_neg (by omega), List.append_nil]

theorem explained_step
    (hstart : ∀ (e : Event) (p : Handler Reply), e.program unmarshal = some p →
      p.Along (P (some e)) (R (some e)) [])
    (h : Step unmarshal S e S') (hS : Explained P R events S) :
    Explained P R (events ++ [e]) S' := by
  cases h with
  | subscribe hello => exact hS.start (fun _ => rfl) rfl rfl (hstart (.subscribe hello) _ rfl)
  | request req => exact hS.start (fun _ => rfl) rfl rfl (hstart (.request req) _ rfl)
  | scan => exact hS.start (fun _ => rfl) rfl rfl (hstart .scan _ rfl)
  | perform hperf hexec => exact hS.perform hperf
  | _ => exact hS.keep (fun _ => rfl) rfl rfl

theorem explained_run {eng : Engine} {leafTtl : Duration} {rootKey : Proto.KeyId} {now : Time}
    (hboot : (issueServerCert eng.clusterId).Along (P none) (R none) [])
    (hstart : ∀ (e : Event) (p : Handler Reply), e.program unmarshal = some p →
      p.Along (P (some e)) (R (some e)) [])
    (h : Run (Step unmarshal) (.boot eng leafTtl rootKey now) events S) :
    Explained P R events S := by
  refine h.invariant (I := Explained P R) ⟨rfl, fun i p hp => ?_, fun _ _ => rfl⟩ ?_
  · obtain ⟨rfl, rfl⟩ : i = 0 ∧ p = issueServerCert eng.clusterId := by
      simpa [System.boot, List.getElem?_singleton, eq_comm] using hp
    exact ⟨none, rfl, hboot⟩
  · exact fun es S e S' _ hS hstep => explained_step hstart hstep hS

end Explained

/-- Every handler acts and answers as its record bears out; those not started have none. -/
structure Documented (events : List Event) (S : System) : Prop where
  along : ∀ i (p : Handler Reply), S.tasks[i]? = some p → p.Along Sourced Answered (record i events)
  idle : ∀ i, S.tasks.length ≤ i → record i events = []

theorem documented_run {eng : Engine} {leafTtl : Duration} {rootKey : Proto.KeyId} {now : Time}
    (h : Run (Step unmarshal) (.boot eng leafTtl rootKey now) events S) : Documented events S := by
  have hexp : Explained (fun _ => Sourced) (fun _ => Answered) events S := by
    apply explained_run (along_issueServerCert _) _ h
    intro e p hp
    cases e with
    | subscribe hello =>
      obtain rfl := Option.some.inj hp
      exact along_onConnect hello
    | request req =>
      obtain rfl := Option.some.inj hp
      exact along_handler unmarshal req
    | scan =>
      obtain rfl := Option.some.inj hp
      exact along_rotationScan
    | _ => cases hp
  refine ⟨fun i p hp => ?_, hexp.idle⟩
  obtain ⟨-, -, halong⟩ := hexp.along i p hp
  exact halong

theorem sourced_of_perform {eng : Engine} {leafTtl : Duration} {rootKey : Proto.KeyId} {now : Time}
    {pre post : List Event} {o : Op} {r : o.Res}
    (h : Run (Step unmarshal) (.boot eng leafTtl rootKey now) (pre ++ .perform i o r :: post) S) :
    Sourced (record i pre) o := by
  obtain ⟨m, m', hrun, hstep⟩ := h.step_of_split
  cases hstep with
  | perform hperf hexec =>
    obtain ⟨k, hk, -⟩ := hperf
    exact ((documented_run hrun).along i _ hk).1

theorem answered_of_reply {eng : Engine} {leafTtl : Duration} {rootKey : Proto.KeyId} {now : Time}
    {reply : Reply} (h : Run (Step unmarshal) (.boot eng leafTtl rootKey now) events S)
    (hreply : S.tasks[i]? = some (.ret reply)) : Answered (record i events) reply :=
  (documented_run h).along i _ hreply

end Runs

end Meshlite.Sigil
