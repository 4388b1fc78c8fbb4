import Meshlite.Conduit.CutAnswers
import Meshlite.Conduit.Egress
import Meshlite.Library.Progress
import Meshlite.Sigil.Mixtures

/-!
# Sigil and an Egress gateway

The gateway asks for the policy, one request at a time, and is handed as much of the answer as
arrives before the connection ends. What it then lets through is what configs accepted
by Sigil let through.
-/

namespace Meshlite

open Bytes Policy Runs

structure Gateway where
  sigil : Sigil.System
  egress : Conduit.Egress
  /-- the handler of the request that is under way -/
  asked : Option ℕ

inductive GatewayEvent where
  /-- Sigil moves, or another client -/
  | sigil (e : Sigil.Event)
  | ask
  /-- the connection ends, and this much of the answer arrived -/
  | answer (got : Bytes)
  /-- no connection, or one that ends with an error -/
  | fail (err : String)
  /-- a connection of the gateway moves -/
  | egress (e : Conduit.Event)

def GatewayEvent.sigilEvent : GatewayEvent → Option Sigil.Event
  | .sigil e => some e
  | .ask => some (.request .getPolicy)
  | _ => none

def GatewayEvent.egressEvent : GatewayEvent → Option Conduit.Event
  | .answer got => some (.poll (.ok got))
  | .fail err => some (.poll (.error err))
  | .egress e => some e
  | _ => none

namespace Gateway

def start (eng : Engine) (leafTtl : Duration) (rootKey : Proto.KeyId) (now : Time) : Gateway where
  sigil := .boot eng leafTtl rootKey now
  egress := .boot
  asked := none

variable (unmarshal : List UInt8 → Except String MeshConfig)
variable (fromSlice : Bytes → Except String Json)

inductive Step : Gateway → GatewayEvent → Gateway → Prop
  | sigil {G : Gateway} {ev : Sigil.Event} {S : Sigil.System}
      (hstep : Sigil.Step unmarshal G.sigil ev S) : Step G (.sigil ev) { G with sigil := S }
  | ask {G : Gateway} {S : Sigil.System} (hnone : G.asked = none)
      (hstep : Sigil.Step unmarshal G.sigil (.request .getPolicy) S) :
      Step G .ask { G with sigil := S, asked := some G.sigil.tasks.length }
  | answer {G : Gateway} {i : ℕ} {resp : Sigil.PolicyResp} {header : Sigil.HeaderLines}
      {got : Bytes} {E : Conduit.Egress} (hasked : G.asked = some i)
      (hserves : Sigil.Serves G.sigil i resp) (hgot : got <+: Sigil.writeJson header resp.encode)
      (hstep : Conduit.Step fromSlice G.egress (.poll (.ok got)) E) :
      Step G (.answer got) { G with egress := E, asked := none }
  | fail {G : Gateway} {err : String} {E : Conduit.Egress}
      (hstep : Conduit.Step fromSlice G.egress (.poll (.error err)) E) :
      Step G (.fail err) { G with egress := E, asked := none }
  | egress {G : Gateway} {ev : Conduit.Event} {E : Conduit.Egress} (hown : ∀ got, ev ≠ .poll got)
      (hstep : Conduit.Step fromSlice G.egress ev E) : Step G (.egress ev) { G with egress := E }

variable {unmarshal fromSlice}
variable {G G' : Gateway} {ev : GatewayEvent} {es : List GatewayEvent}
variable {eng : Engine} {leafTtl : Duration} {rootKey : Proto.KeyId} {now : Time}

section Projections

theorem sigil_of_run (h : Run (Step unmarshal fromSlice) (.start eng leafTtl rootKey now) es G) :
    Run (Sigil.Step unmarshal) (.boot eng leafTtl rootKey now)
      (es.filterMap GatewayEvent.sigilEvent) G.sigil := by
  refine h.project (f := Gateway.sigil) (g := GatewayEvent.sigilEvent) ?_ ?_
  · rintro G ev G' se hstep hev
    cases hstep with
    | sigil hstep | ask _ hstep =>
      cases hev
      exact hstep
    | answer | fail | egress => cases hev
  · rintro G ev G' hstep hev
    cases hstep with
    | sigil | ask => cases hev
    | answer | fail | egress => rfl

theorem egress_of_run (h : Run (Step unmarshal fromSlice) (.start eng leafTtl rootKey now) es G) :
    Run (Conduit.Step fromSlice) .boot (es.filterMap GatewayEvent.egressEvent) G.egress := by
  refine h.project (f := Gateway.egress) (g := GatewayEvent.egressEvent) ?_ ?_
  · rintro G ev G' ee hstep hev
    cases hstep with
    | answer _ _ _ hstep | fail hstep | egress _ hstep =>
      cases hev
      exact hstep
    | sigil | ask => cases hev
  · rintro G ev G' hstep hev
    cases hstep with
    | answer | fail | egress => cases hev
    | sigil | ask => rfl

end Projections

section Fetched

open Conduit

/-- The snapshot is the policy of a mixture of the configs accepted so far. -/
def Decreed (eng : Engine) (es : List GatewayEvent) (snap : PolicySnapshot) : Prop :=
  ∃ (E : Engine) (order : E.RangeOrder),
    Sigil.Mixed (Sigil.accepted eng (es.filterMap GatewayEvent.sigilEvent)) E ∧
      snap = snapshotOf order

theorem Decreed.append {es es' : List GatewayEvent} {snap : PolicySnapshot}
    (h : Decreed eng es snap) : Decreed eng (es ++ es') snap := by
  obtain ⟨E, order, hE, rfl⟩ := h
  rw [Decreed, List.filterMap_append, Sigil.accepted_append]
  exact ⟨E, order, hE.mono (List.subset_append_left _ _), rfl⟩

theorem decreed_of_step (hreads : ReadsJson fromSlice)
    (h : Run (Step unmarshal fromSlice) (.start eng leafTtl rootKey now) es G)
    (hstep : Step unmarshal fromSlice G ev G') {got : Except String Bytes} {snap : PolicySnapshot}
    (hev : ev.egressEvent = some (.poll got)) (hsnap : fetchPolicy fromSlice got = .ok snap) :
    Decreed eng es snap := by
  cases hstep with
  | @answer i resp header got E hasked hserves hgot hstep =>
    obtain rfl := Conduit.Event.poll.inj (Option.some.inj hev)
    obtain ⟨E, order, hE, rfl⟩ := Sigil.mixed_of_served (sigil_of_run h) hserves
    rw [List.prefix_iff_eq_take.mp hgot] at hsnap
    exact ⟨E, order, hE, (fetchPolicy_take order hreads header hsnap).1⟩
  | fail =>
    obtain rfl := Conduit.Event.poll.inj (Option.some.inj hev)
    cases hsnap
  | egress hown => exact absurd (Option.some.inj hev) (hown got)
  | sigil | ask => cases hev

/-- The policy that the gateway fetched last is decreed. -/
theorem decreed_of_run (hreads : ReadsJson fromSlice)
    (h : Run (Step unmarshal fromSlice) (.start eng leafTtl rootKey now) es G)
    {snap : PolicySnapshot}
    (hlast : lastFetched fromSlice (es.filterMap GatewayEvent.egressEvent) = some snap) :
    Decreed eng es snap := by
  induction h generalizing snap with
  | start => cases hlast
  | @next es G G' ev hrun hstep ih =>
    rw [List.filterMap_append] at hlast
    cases hev : ev.egressEvent with
    | none =>
      rw [List.filterMap_cons_none hev, List.filterMap_nil, List.append_nil] at hlast
      exact (ih hlast).append
    | some ee =>
      rw [List.filterMap_cons_some hev, List.filterMap_nil, lastFetched_snoc] at hlast
      cases ee with
      | poll got =>
        dsimp only at hlast
        cases hfetch : fetchPolicy fromSlice got with
        | error err =>
          rw [hfetch] at hlast
          exact (ih hlast).append
        | ok snap' =>
          rw [hfetch] at hlast
          obtain rfl := Option.some.inj hlast
          exact (decreed_of_step hreads hrun hstep hev hfetch).append
      | _ => exact (ih hlast).append

theorem exists_check {before after : List Conduit.Event} {conn : ℕ} {destination : String}
    {allowed : Bool} (h : es.filterMap GatewayEvent.egressEvent =
      before ++ .check conn destination allowed :: after) :
    ∃ pre post, es = pre ++ .egress (.check conn destination allowed) :: post ∧
      pre.filterMap GatewayEvent.egressEvent = before := by
  obtain ⟨pre, post, rfl, hpre, hpost⟩ := List.filterMap_eq_append_iff.mp h
  obtain ⟨quiet, ev, post, rfl, hquiet, hev, -⟩ := List.filterMap_eq_cons_iff.mp hpost
  have hcheck : ev = .egress (.check conn destination allowed) := by
    cases ev with
    | egress ee => rw [Option.some.inj hev]
    | answer | fail | sigil | ask => cases hev
  refine ⟨pre ++ quiet, post, by rw [hcheck, List.append_assoc], ?_⟩
  rw [List.filterMap_append, hpre, List.filterMap_eq_nil_iff.mpr hquiet, List.append_nil]

/-- What a decreed policy permits, accepted configs do. -/
theorem Decreed.permits {es : List GatewayEvent} {snap : PolicySnapshot} (h : Decreed eng es snap)
    {destination : String} (hpermits : snap.Permits destination) :
    ∃ E, Sigil.Mixed (Sigil.accepted eng (es.filterMap GatewayEvent.sigilEvent)) E ∧
      ((∃ src, E.allow.Lists src destination) ∨ E.defaultAllow = true) := by
  obtain ⟨E, order, hE, rfl⟩ := h
  refine ⟨E, hE, hpermits.imp_left ?_⟩
  rintro ⟨r, hr, hdest⟩
  exact ⟨r.fromService, ((snapshotOf_carries order).pairs _ _).mp ⟨r, hr, rfl, hdest⟩⟩

end Fetched

end Gateway

open Gateway in
/-- In every run of Sigil and an Egress gateway, whichever answers break off wherever, a request
is forwarded only after a check at which no policy had been fetched yet, or at which the
destination was permitted by a policy made of configs accepted until then. -/
theorem forwarded_by_accepted (unmarshal : List UInt8 → Except String MeshConfig)
    (fromSlice : Bytes → Except String Json) (hreads : Conduit.ReadsJson fromSlice) (eng : Engine)
    (leafTtl : Duration) (rootKey : Proto.KeyId) (now : Time) (es : List GatewayEvent) (G : Gateway)
    (h : Run (Step unmarshal fromSlice) (.start eng leafTtl rootKey now) es G)
    (pre post : List GatewayEvent) (conn : ℕ) (destination : String)
    (hes : es = pre ++ .egress (.forward conn destination) :: post) :
    ∃ before after, pre = before ++ .egress (.check conn destination true) :: after ∧
      (Conduit.lastFetched fromSlice (before.filterMap GatewayEvent.egressEvent) = none ∨
        ∃ E, Sigil.Mixed (Sigil.accepted eng (before.filterMap GatewayEvent.sigilEvent)) E ∧
          ((∃ src, E.allow.Lists src destination) ∨ E.defaultAllow = true)) := by
  subst hes
  obtain ⟨m, m', hrun, hstep⟩ := h.step_of_split
  cases hstep with
  | egress hown hstep =>
    cases hstep with
    | forward hadmitted =>
      obtain ⟨before, after, hsplit, hchecked⟩ :=
        Conduit.passedCheck_of_admitted (egress_of_run hrun) hadmitted
      obtain ⟨before, after, rfl, rfl⟩ := exists_check hsplit
      refine ⟨before, after, rfl, hchecked.imp_right ?_⟩
      rintro ⟨snap, hlast, hpermits⟩
      obtain ⟨m₀, -, hbefore, -⟩ := hrun.step_of_split
      exact (decreed_of_run hreads hbefore hlast).permits hpermits

section Demo

open Sigil Conduit

def demoOrder : (newEngine demoConfig).RangeOrder := .listed _

/-- The gateway asks, the handler reads the policy, and the line feed of the answer gets lost. -/
def polled : List GatewayEvent :=
  [.ask, .sigil (.perform 1 .mtlsMode "enforce"), .sigil (.perform 1 .defaultAllow false),
    .sigil (.perform 1 .rules ((newEngine demoConfig).rules demoOrder)),
    .answer ((getPolicy contentType _ demoOrder).take 176)]

theorem run_polled : ∃ G, Run (Gateway.Step refuseConfig jsonReader)
    (.start (newEngine demoConfig) (30 * second) 0 0) polled G ∧ G.egress.conns = [] ∧
      G.egress.policyCache.isAllowedDestination "beta" = true := by
  have hfetch : fetchPolicy jsonReader (.ok ((getPolicy contentType _ demoOrder).take 176)) =
      .ok (snapshotOf demoOrder) :=
    fetchPolicy_take_ok demoOrder contentType (jsonReader_whole _) (by decide +kernel)
      (by decide) (by decide +kernel)
  have hasked : Run (Gateway.Step refuseConfig jsonReader)
      (.start (newEngine demoConfig) (30 * second) 0 0) [.ask]
      { sigil := { demoBoot with tasks := demoBoot.tasks ++ [servePolicy] }
        egress := .boot
        asked := some 1 } := Run.start.next (.ask rfl (.request .getPolicy))
  have hmode := hasked.next
    (.sigil (.perform (i := 1) (o := .mtlsMode) (r := "enforce") ⟨_, rfl, rfl⟩ ⟨rfl, rfl⟩))
  have hdefault := hmode.next
    (.sigil (.perform (i := 1) (o := .defaultAllow) (r := false) ⟨_, rfl, rfl⟩ ⟨rfl, rfl⟩))
  have hperformed := hdefault.next
    (.sigil (.perform (i := 1) (o := .rules) (r := (newEngine demoConfig).rules demoOrder)
      ⟨_, rfl, rfl⟩ ⟨⟨demoOrder, rfl⟩, rfl⟩))
  refine ⟨_, hperformed.next (.answer (i := 1) rfl rfl (List.take_prefix _ _) (.poll _)), rfl, ?_⟩
  simp only [pollStep, hfetch]
  decide

theorem Gateway.run_egress {unmarshal : List UInt8 → Except String MeshConfig}
    {fromSlice : Bytes → Except String Json} (G : Gateway) {evs : List Conduit.Event} {E : Egress}
    (h : Run (fun E ev E' => (∀ got, ev ≠ .poll got) ∧ Conduit.Step fromSlice E ev E')
      G.egress evs E) :
    Run (Gateway.Step unmarshal fromSlice) G (evs.map .egress) { G with egress := E } := by
  induction h with
  | start => exact .start
  | next _ hstep ih =>
    rw [List.map_append]
    exact ih.next (.egress hstep.1 hstep.2)

theorem run_forwardBeta {fromSlice : Bytes → Except String Json} {E : Egress}
    (hconns : E.conns = []) (hallowed : E.policyCache.isAllowedDestination "beta" = true) :
    Run (fun E ev E' => (∀ got, ev ≠ .poll got) ∧ Conduit.Step fromSlice E ev E') E
      (admitBeta ++ [.forward 0 "beta"]) { E with conns := [.forwarded requestBeta "beta"] } := by
  obtain ⟨cache, conns⟩ := E
  obtain rfl : conns = [] := hconns
  have hread : stageOfRead requestBeta = .checking requestBeta "beta" := by decide
  exact (((Run.start.next ⟨nofun, .accept⟩).next ⟨nofun, .read requestBeta rfl⟩).next
    ⟨nofun, step_check_allowed (congrArg some hread) hallowed⟩).next ⟨nofun, .forward rfl⟩

/-- A request to `beta` is forwarded once the policy is fetched, and a config permits it. -/
theorem polled_forwarded : ∃ es G, Run (Gateway.Step refuseConfig jsonReader)
    (.start (newEngine demoConfig) (30 * second) 0 0) (es ++ [.egress (.forward 0 "beta")]) G ∧
      ∃ before after, es = before ++ .egress (.check 0 "beta" true) :: after ∧
        (lastFetched jsonReader (before.filterMap GatewayEvent.egressEvent) = none ∨
          ∃ E, Mixed (accepted (newEngine demoConfig)
              (before.filterMap GatewayEvent.sigilEvent)) E ∧
            ((∃ src, E.allow.Lists src "beta") ∨ E.defaultAllow = true)) := by
  obtain ⟨G, hrun, hconns, hallowed⟩ := run_polled
  have hforward := hrun.append (Gateway.run_egress G (run_forwardBeta hconns hallowed))
  exact ⟨polled ++ admitBeta.map .egress, _, hforward, forwarded_by_accepted _ _
    (fun _ _ => jsonReader_eq_ok.mp) _ _ _ _ _ _ hforward _ [] 0 "beta" rfl⟩

end Demo

end Meshlite
