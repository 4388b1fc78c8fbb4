import Meshlite.Sigil.Delivery
import Meshlite.Sigil.Provenance

/-!
# Policies read in three calls

A handler takes the rules, the default and the mode of the engine in separate calls, and a
new config may replace the engine between them. What it pushes or answers is the policy of
one accepted config exactly if one accepted config agrees with the engine that each of its
calls found.
-/

namespace Meshlite.Sigil

open Policy Tasks Tasks.Prog Runs

def Event.installs : Event → Option Engine
  | .perform _ (.setEngine eng) _ => some eng
  | _ => none

/-- The configs accepted in a run that starts with the first of them. -/
def accepted (eng : Engine) (events : List Event) : List Engine :=
  eng :: events.filterMap Event.installs

/-- The engine in place after a run. -/
def installed (eng : Engine) (events : List Event) : Engine :=
  (accepted eng events).getLast (List.cons_ne_nil _ _)

/-- `Rules` may answer for the one engine what it answers for the other. -/
def SameRules (D E : Engine) : Prop :=
  ∀ order : E.RangeOrder, ∃ order' : D.RangeOrder, D.rules order' = E.rules order

/-- The call of the handler found this engine in place. -/
def Finds (eng : Engine) (events : List Event) (i : ℕ) (o : Op) (E : Engine) : Prop :=
  ∃ pre r post, events = pre ++ .perform i o r :: post ∧ E = installed eng pre

/-- One accepted config agrees with each engine the handler's calls found on what the call
asked for. -/
def Whole (eng : Engine) (events : List Event) (i : ℕ) : Prop :=
  ∃ D ∈ accepted eng events, (∀ E, Finds eng events i .rules E → SameRules D E) ∧
    (∀ E, Finds eng events i .defaultAllow E → D.defaultAllow = E.defaultAllow) ∧
    ∀ E, Finds eng events i .mtlsMode E → D.mtlsMode = E.mtlsMode

/-- The handler has answered its request with this policy. -/
def Serves (S : System) (i : ℕ) (resp : PolicyResp) : Prop :=
  S.tasks[i]? = some (.ret (.policy resp))

/-- The handler has pushed a policy to an agent or answered with one. -/
def Publishes (events : List Event) (S : System) (i : ℕ) : Prop :=
  (∃ sid pb, .perform i (.enqueue sid (.policy pb)) true ∈ events) ∨
    ∃ resp, Serves S i resp

/-- Every policy pushed or served is the one of an accepted config. -/
structure Coherent (eng : Engine) (events : List Event) (S : System) : Prop where
  pushed : ∀ i sid pb, .perform i (.enqueue sid (.policy pb)) true ∈ events →
    ∃ D ∈ accepted eng events, ∃ order, pb = (snapshot D order).bundle
  served : ∀ i resp, Serves S i resp →
    ∃ D ∈ accepted eng events, ∃ order, resp = policyResp D order

section Rules

variable {D E : Engine}

theorem protoRules_rules (order : E.RangeOrder) : protoRules (E.rules order) =
    order.sources.map fun src => { fromService := src, toServices := order.dests src } := by
  simp [protoRules, Engine.rules, Function.comp_def, Engine.exported_elems]

/-- Rules exported alike once may be exported alike in every order. -/
theorem sameRules_of_exported {orderD : D.RangeOrder} {orderE : E.RangeOrder}
    (h : protoRules (D.rules orderD) = protoRules (E.rules orderE)) : SameRules D E := by
  rw [protoRules_rules, protoRules_rules] at h
  have hsources : orderD.sources = orderE.sources := by
    simpa [Function.comp_def] using congrArg (List.map Proto.AllowRule.fromService) h
  have hkeys : E.allow.keys.Perm D.allow.keys :=
    orderE.sources_perm.symm.trans (hsources ▸ orderD.sources_perm)
  have hdests : ∀ src ∈ orderE.sources, orderD.dests src = orderE.dests src := by
    intro src hsrc
    rw [hsources] at h
    exact (Proto.AllowRule.mk.inj (List.map_inj_left.mp h src hsrc)).2
  intro order
  refine ⟨⟨order.sources, order.dests, order.sources_perm.trans hkeys, fun src dsts hl => ?_⟩, rfl⟩
  have hsrcD : src ∈ D.allow := AList.lookup_isSome.mp (by rw [hl]; rfl)
  have hsrcE : src ∈ E.allow := (hkeys.mem_iff).mpr hsrcD
  obtain ⟨dstsE, hlE⟩ := Option.isSome_iff_exists.mp (AList.lookup_isSome.mpr hsrcE)
  have hE : (orderE.dests src).Perm dstsE.keys := orderE.dests_perm src dstsE hlE
  rw [← hdests src ((Engine.mem_sources orderE).mpr hsrcE)] at hE
  exact (order.dests_perm src dstsE hlE).trans (hE.symm.trans (orderD.dests_perm src dsts hl))

end Rules

section Runs

variable {unmarshal : List UInt8 → Except String MeshConfig} {S S' : System} {e : Event}
variable {eng : Engine} {leafTtl : Duration} {rootKey : Proto.KeyId} {now : Time}
variable {events : List Event} {i : ℕ}

theorem accepted_snoc (eng : Engine) (events : List Event) (e : Event) :
    accepted eng (events ++ [e]) = accepted eng events ++ e.installs.toList := by
  unfold accepted
  cases h : e.installs <;> simp [h]

theorem installed_snoc (eng : Engine) (events : List Event) (e : Event) :
    installed eng (events ++ [e]) = e.installs.getD (installed eng events) := by
  cases h : e.installs <;> simp [installed, accepted_snoc, h]

theorem eng_eq_installed (h : Run (Step unmarshal) (.boot eng leafTtl rootKey now) events S) :
    S.server.eng = installed eng events := by
  refine h.invariant (I := fun events S => S.server.eng = installed eng events) rfl ?_
  intro es S e S' _ hS hstep
  rw [installed_snoc, ← hS]
  cases hstep with
  | @perform i o r server tasks hperf hexec =>
    cases o with
    | setEngine eng =>
      obtain rfl : server = { S.server with eng } := hexec
      rfl
    | _ => exact hexec.eng_eq (fun _ h => by cases h)
  | _ => rfl

theorem call_unique {o : Op} (ho : ∀ tr, Sourced tr o → Unread o tr)
    {pre pre' post post' : List Event} {r r' : o.Res}
    (h : Run (Step unmarshal) (.boot eng leafTtl rootKey now) (pre ++ .perform i o r :: post) S)
    (heq : pre ++ .perform i o r :: post = pre' ++ .perform i o r' :: post') : pre = pre' := by
  have hfresh : ∀ {pre post : List Event} {r : o.Res},
      Run (Step unmarshal) (.boot eng leafTtl rootKey now) (pre ++ .perform i o r :: post) S →
      ∀ r', .perform i o r' ∉ pre :=
    fun hrun r' hr' => ho _ (sourced_of_perform hrun) r' (mem_record.mpr hr')
  exact (eq_of_splits heq (hfresh (heq ▸ h) r) (hfresh h r')).1

theorem finds_iff {o : Op} (ho : ∀ tr, Sourced tr o → Unread o tr) {r : o.Res}
    (h : Run (Step unmarshal) (.boot eng leafTtl rootKey now) events S)
    (hr : ⟨o, r⟩ ∈ record i events) :
    ∃ s s' : Server, s.Exec o r s' ∧ ∀ E, Finds eng events i o E ↔ E = s.eng := by
  obtain ⟨pre, post, rfl⟩ := List.append_of_mem (mem_record.mp hr)
  obtain ⟨m, m', hrun, hstep⟩ := h.step_of_split
  refine ⟨m.server, m'.server, hstep.exec, fun E => ?_⟩
  rw [eng_eq_installed hrun]
  constructor
  · rintro ⟨pre', r', post', heq, rfl⟩
    rw [call_unique ho h heq]
  · rintro rfl
    exact ⟨pre, r, post, rfl, rfl⟩

/-- The engines at the three calls of a handler that has read the policy. -/
theorem engines_of_reads {rules : List AllowRule} {defaultAllow : Bool} {mtlsMode : String}
    (h : Run (Step unmarshal) (.boot eng leafTtl rootKey now) events S)
    (hreads : Reads (record i events) rules defaultAllow mtlsMode) :
    ∃ E₁ E₂ E₃ : Engine, ∃ order : E₁.RangeOrder, rules = E₁.rules order ∧
      defaultAllow = E₂.defaultAllow ∧ mtlsMode = E₃.mtlsMode ∧
      (Whole eng events i ↔ ∃ D ∈ accepted eng events, SameRules D E₁ ∧
        D.defaultAllow = E₂.defaultAllow ∧ D.mtlsMode = E₃.mtlsMode) := by
  obtain ⟨s₁, -, ⟨⟨order, hrules⟩, -⟩, h₁⟩ := finds_iff (o := .rules) (fun _ h => h) h hreads.rules
  obtain ⟨s₂, -, ⟨hdefault, -⟩, h₂⟩ :=
    finds_iff (o := .defaultAllow) (fun _ h => h) h hreads.defaultAllow
  obtain ⟨s₃, -, ⟨hmode, -⟩, h₃⟩ := finds_iff (o := .mtlsMode) (fun _ h => h) h hreads.mtlsMode
  refine ⟨s₁.eng, s₂.eng, s₃.eng, order, hrules, hdefault, hmode, ?_⟩
  simp only [Whole, h₁, h₂, h₃, forall_eq]

/-- A policy that was read is the one of an accepted config just when one agrees with the
engines the calls found. -/
theorem whole_iff_bundle {rules : List AllowRule} {defaultAllow : Bool} {mtlsMode : String}
    (h : Run (Step unmarshal) (.boot eng leafTtl rootKey now) events S)
    (hreads : Reads (record i events) rules defaultAllow mtlsMode) :
    Whole eng events i ↔ ∃ D ∈ accepted eng events, ∃ order,
      bundleOf rules defaultAllow mtlsMode = (snapshot D order).bundle := by
  obtain ⟨E₁, E₂, E₃, order, rfl, rfl, rfl, hwhole⟩ := engines_of_reads h hreads
  rw [hwhole]
  refine exists_congr fun D => and_congr_right fun _ => ?_
  constructor
  · rintro ⟨hsame, hdefault, hmode⟩
    obtain ⟨order', hrules⟩ := hsame order
    exact ⟨order', by rw [snapshot, hrules, hdefault, hmode, bundleOf]⟩
  · rintro ⟨order', heq⟩
    obtain ⟨hrules, hdefault, hmode⟩ := Proto.PolicyBundle.mk.inj heq
    exact ⟨sameRules_of_exported hrules.symm, hdefault.symm, hmode.symm⟩

theorem whole_iff_resp {resp : PolicyResp}
    (h : Run (Step unmarshal) (.boot eng leafTtl rootKey now) events S)
    (hreads : Reads (record i events) resp.rules resp.defaultAllow resp.mtlsMode) :
    Whole eng events i ↔ ∃ D ∈ accepted eng events, ∃ order, resp = policyResp D order := by
  obtain ⟨E₁, E₂, E₃, order, hrules, hdefault, hmode, hwhole⟩ := engines_of_reads h hreads
  rw [hwhole]
  refine exists_congr fun D => and_congr_right fun _ => ?_
  constructor
  · rintro ⟨hsame, hdefault', hmode'⟩
    obtain ⟨order', hrules'⟩ := hsame order
    refine ⟨order', ?_⟩
    rw [policyResp, hrules', hdefault', hmode', ← hrules, ← hdefault, ← hmode]
  · rintro ⟨order', rfl⟩
    exact ⟨sameRules_of_exported (congrArg protoRules hrules), hdefault, hmode⟩

end Runs

variable {unmarshal : List UInt8 → Except String MeshConfig}

/-- In every state of a run the policies pushed and served so far are those of accepted
configs, exactly if for each handler that pushed or served one an accepted config agrees with
the engines its calls found. -/
theorem policies_coherent_iff (eng : Engine) (leafTtl : Duration) (rootKey : Proto.KeyId)
    (now : Time) (events : List Event) (S : System)
    (h : Run (Step unmarshal) (.boot eng leafTtl rootKey now) events S) :
    Coherent eng events S ↔ ∀ i, Publishes events S i → Whole eng events i := by
  have hpushed : ∀ i sid pb, .perform i (.enqueue sid (.policy pb)) true ∈ events →
      (Whole eng events i ↔ ∃ D ∈ accepted eng events, ∃ order, pb = (snapshot D order).bundle) := by
    intro i sid pb hpush
    obtain ⟨pre, post, rfl⟩ := List.append_of_mem hpush
    obtain ⟨rules, defaultAllow, mtlsMode, hreads, rfl⟩ := sourced_of_perform h
    apply whole_iff_bundle h
    rw [record_append]
    exact hreads.append _
  have hserved : ∀ i resp, Serves S i resp →
      (Whole eng events i ↔ ∃ D ∈ accepted eng events, ∃ order, resp = policyResp D order) :=
    fun i resp hresp => whole_iff_resp h (answered_of_reply h hresp)
  constructor
  · rintro ⟨hpush, hserve⟩ i (⟨sid, pb, hpb⟩ | ⟨resp, hresp⟩)
    · exact (hpushed i sid pb hpb).mpr (hpush i sid pb hpb)
    · exact (hserved i resp hresp).mpr (hserve i resp hresp)
  · intro hall
    refine ⟨fun i sid pb hpb => ?_, fun i resp hresp => ?_⟩
    · exact (hpushed i sid pb hpb).mp (hall i (Or.inl ⟨sid, pb, hpb⟩))
    · exact (hserved i resp hresp).mp (hall i (Or.inr ⟨resp, hresp⟩))

/-- A config without rules that allows everything. -/
def bareConfig : MeshConfig := { demoConfig with policy :=
  { mtlsMode := "enforce", defaultAllow := true, allow := .nil } }

def bareYaml : List UInt8 :=
  ("mesh:\n  name: demo\n  cluster_id: cluster-1\npolicy:\n  mtls: enforce\n" ++
    "  default_allow: true\n").toUTF8.data.toList

/-- A parser as far as this one document is concerned. -/
def parseBare (body : List UInt8) : Except String MeshConfig :=
  if body = bareYaml then .ok bareConfig else .error "yaml"

def Event.pushesPolicy : Event → Bool
  | .perform _ (.enqueue _ (.policy _)) _ => true
  | _ => false

def Event.isBy (i : ℕ) : Event → Bool
  | .perform j _ _ => j = i
  | _ => false

def answersPolicy : Handler Reply → Bool
  | .ret (.policy _) => true
  | _ => false

/-- An agent connects, and a new config is installed after its callback. -/
def swapAfter : List Move :=
  .subscribe quietHello :: (List.replicate 5 (Move.perform 1) ++
    [Move.request (.postConfig bareYaml), Move.perform 2])

theorem swapAfter_coherent : ∃ events S, Run (Step parseBare) demoBoot events S ∧
    S.server.eng.defaultAllow = true ∧ Coherent (newEngine demoConfig) events S := by
  obtain ⟨events, S, hrun, hopen, horder, hpush, hserve⟩ :
      ∃ events S, Run (Step parseBare) demoBoot events S ∧ S.server.eng.defaultAllow = true ∧
        (events.Pairwise fun e e' => ¬ (e.installs.isSome = true ∧ e'.isBy 1)) ∧
        (∀ e ∈ events, e.pushesPolicy = true → e.isBy 1) ∧
        ∀ p ∈ S.tasks, answersPolicy p = false :=
    exists_run (by decide +kernel : (demoBoot.follow parseBare _ swapAfter).any _ = true)
  refine ⟨events, S, hrun, hopen, (policies_coherent_iff _ _ _ _ events S hrun).mpr ?_⟩
  rintro i (⟨sid, pb, hpb⟩ | ⟨resp, hresp⟩)
  · obtain rfl : i = 1 := of_decide_eq_true (hpush _ hpb rfl)
    have hfinds : ∀ o E, Finds (newEngine demoConfig) events 1 o E → E = newEngine demoConfig := by
      rintro o E ⟨pre, r, post, rfl, rfl⟩
      have hpre : pre.filterMap Event.installs = [] := by
        refine List.filterMap_eq_nil_iff.mpr fun e he => ?_
        have hnot := (List.pairwise_append.mp horder).2.2 e he (.perform 1 o r) (by simp)
        rw [← Option.not_isSome_iff_eq_none]
        exact fun hsome => hnot ⟨hsome, rfl⟩
      simp [installed, accepted, hpre]
    refine ⟨newEngine demoConfig, by simp [accepted], ?_, ?_, ?_⟩
    · rintro E hE order
      obtain rfl := hfinds _ _ hE
      exact ⟨order, rfl⟩
    · exact fun E hE => by rw [hfinds _ _ hE]
    · exact fun E hE => by rw [hfinds _ _ hE]
  · have hnone := hserve _ (List.mem_of_getElem? hresp)
    cases hnone

/-- The rules of the one config with the default of the other. -/
def tornBundle : Proto.PolicyBundle := { demoBundle with defaultAllow := true }

/-- The new config is installed when the callback of the hello has read the rules. -/
def tornConnect : List Move :=
  [.subscribe quietHello, .perform 1, .request (.postConfig bareYaml), .perform 2, .perform 1,
    .perform 1, .perform 1, .perform 1]

theorem tornConnect_not_coherent :
    ¬ ∀ events S, Run (Step parseBare) demoBoot events S →
      Coherent (newEngine demoConfig) events S := by
  intro h
  obtain ⟨events, S, hrun, hpush, hbare⟩ :
      ∃ events S, Run (Step parseBare) demoBoot events S ∧
        .policy tornBundle ∈ events.flatMap (Event.pushesTo 0) ∧
        ∀ D ∈ accepted (newEngine demoConfig) events, D.defaultAllow = true → D.allow.keys = [] :=
    exists_run (by decide +kernel : (demoBoot.follow parseBare _ tornConnect).any _ = true)
  obtain ⟨e, he, hpb⟩ := List.mem_flatMap.mp hpush
  obtain ⟨i, rfl⟩ := Event.mem_pushesTo.mp hpb
  obtain ⟨D, hD, order, heq⟩ := (h events S hrun).pushed i 0 tornBundle he
  have hdefault : D.defaultAllow = true := (congrArg Proto.PolicyBundle.defaultAllow heq).symm
  have hrules : demoBundle.rules = protoRules (D.rules order) :=
    congrArg Proto.PolicyBundle.rules heq
  have hempty : order.sources = [] := by
    apply List.Perm.eq_nil
    rw [← hbare D hD hdefault]
    exact order.sources_perm
  rw [protoRules_rules, hempty, List.map_nil] at hrules
  exact absurd hrules (by decide +kernel)

end Meshlite.Sigil
