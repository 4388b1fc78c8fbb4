import Meshlite.Sigil.Delivery
import Meshlite.Sigil.Footprint

/-!
# Whether agents get the current policy

A policy read before a reload can be pushed after the broadcast of the reload, and
nothing corrects it. Where every policy pushed is the current one, or a handler is
still to push that, every drained stream has received the current policy last.
-/

namespace Meshlite.Sigil

open Policy Tasks Tasks.Prog Runs

/-- The bundle holds the rules, the default and the mode of the engine. -/
def Carries (eng : Engine) (pb : Proto.PolicyBundle) : Prop :=
  ∃ order, pb = (snapshot eng order).bundle

/-- The operation puts the policy of the engine on the channel of the stream. -/
def SendsPolicy (eng : Engine) (sid : ℕ) : Op → Prop
  | .enqueue sid' (.policy pb) => sid' = sid ∧ Carries eng pb
  | _ => False

/-- The engine is the current one and the stream is registered for the node. -/
def Registered (eng : Engine) (node : String) (sid : ℕ) (s : Server) : Prop :=
  s.eng = eng ∧ s.dist.streams.lookup node = some sid

/-- The handler is still to push the policy of the engine to the node. -/
def WillPush (eng : Engine) (node : String) (sid : ℕ) (p : Handler Reply) : Prop :=
  p.Will (Server.Answers (Registered eng node sid)) (SendsPolicy eng sid)

/-- A policy is put on the channel of a serving stream only if it is the current one, or
another handler is still to push the current one to the node. -/
def Covered (S : System) : Event → Prop
  | .perform i (.enqueue sid (.policy pb)) _ =>
    ∀ node st, S.server.dist.Serving node sid st → Carries S.server.eng pb ∨
      ∃ j p, j ≠ i ∧ S.tasks[j]? = some p ∧ WillPush S.server.eng node sid p
  | _ => True

section Handlers

variable {eng : Engine} {node : String} {sid : ℕ}

theorem lookup_of_registered (s : Server) (h : Registered eng node sid s) :
    s.dist.streams.lookup node = some sid := h.2

theorem will_readSnapshot {f : PolicySnapshot → Handler Reply} {goal : Op → Prop}
    (h : ∀ order, (f (snapshot eng order)).Will (Server.Answers (Registered eng node sid)) goal) :
    (readSnapshot.bind f).Will (Server.Answers (Registered eng node sid)) goal := by
  refine Or.inr fun rules hrules => Or.inr fun dflt hdflt => Or.inr fun mode hmode => ?_
  obtain ⟨s, -, ⟨rfl, -⟩, ⟨order, rfl⟩, -⟩ := hrules
  obtain ⟨s₁, -, ⟨heng₁, -⟩, rfl, -⟩ := hdflt
  obtain ⟨s₂, -, ⟨heng₂, -⟩, rfl, -⟩ := hmode
  rw [heng₁, heng₂]
  exact h order

theorem willPush_onConnect {hello : Proto.AgentHello} (hnode : hello.nodeId = node) :
    WillPush eng node sid (onConnect hello) := by
  subst hnode
  apply will_readSnapshot
  intro order
  exact will_bind_of_left _ (will_send (answers_lookup lookup_of_registered) ⟨rfl, order, rfl⟩)

/-- A config is announced to every stream registered when it is installed or later. -/
theorem willPush_installConfig {k : Unit → Handler Reply}
    (hk : installConfig eng = .op (.setEngine eng) k) : WillPush eng node sid (k ()) := by
  obtain ⟨-, hk⟩ := Prog.op.inj hk
  obtain rfl := eq_of_heq hk
  apply will_readSnapshot
  intro order
  exact will_bind_of_left _ (will_broadcastPolicy (answers_connectedAgents lookup_of_registered)
    (answers_lookup lookup_of_registered) ⟨rfl, order, rfl⟩)

/-- After a config is installed, its policy will be pushed to every registered stream. -/
def AnnouncesAt : (o : Op) → (o.Res → Handler Reply) → Prop
  | .setEngine eng, k => ∀ node sid, WillPush eng node sid (k ())
  | _, _ => True

/-- Nothing but a new config replaces the engine. -/
def Op.KeepsEngine : Op → Prop
  | setEngine _ => False
  | _ => True

theorem allows_keepsEngine : Allows (fun _ _ => True) Op.KeepsEngine where
  quiet o ho := by
    cases o with
    | setEngine eng => exact ho.elim
    | _ => trivial
  policy _ _ := trivial
  cert _ _ _ _ _ _ := trivial

theorem announcesAt_of_keepsEngine (o : Op) (k : o.Res → Handler Reply) (ho : o.KeepsEngine) :
    AnnouncesAt o k := by
  cases o with
  | setEngine eng => exact ho.elim
  | _ => trivial

theorem announces_installConfig (newEng : Engine) :
    (installConfig newEng).Always (fun _ _ => True) AnnouncesAt := by
  obtain ⟨k, heq, hk⟩ := always_announce allows_keepsEngine newEng
  rw [heq]
  exact ⟨fun node sid => willPush_installConfig heq,
    fun _ _ => hk.mono announcesAt_of_keepsEngine⟩

end Handlers

/-- The last policy that the stream took is the one of the engine. -/
def Holds (eng : Engine) (st : AgentStream) : Prop :=
  ∃ pb, lastAbout none st.pushed = some (.policy pb) ∧ Carries eng pb

/-- Every config installed will be announced, and every serving stream took the current
policy last or some handler is still to push it. -/
structure Settling (S : System) : Prop where
  announces : ∀ p ∈ S.tasks, p.Always (fun _ _ => True) AnnouncesAt
  current : ∀ node sid st, S.server.dist.Serving node sid st →
    Holds S.server.eng st ∨ ∃ p ∈ S.tasks, WillPush S.server.eng node sid p

section Steps

variable {unmarshal : List UInt8 → Except String MeshConfig} {S S' : System} {e : Event}

theorem settling_boot (eng : Engine) (leafTtl : Duration) (rootKey : Proto.KeyId) (now : Time) :
    Settling (.boot eng leafTtl rootKey now) where
  announces p hp := by
    rw [List.mem_singleton.mp hp]
    exact (always_issueServerCert allows_keepsEngine _).mono announcesAt_of_keepsEngine
  current := by
    rintro node sid st ⟨hl, -, -⟩
    exact absurd hl nofun

theorem enqueue_of_sendsPolicy {eng : Engine} {sid : ℕ} {o : Op} (h : SendsPolicy eng sid o) :
    ∃ pb, o = .enqueue sid (.policy pb) := by
  cases o with
  | enqueue sid' push =>
    cases push with
    | policy pb => exact ⟨pb, by rw [h.1]⟩
    | cert cb => exact h.elim
  | _ => exact h.elim

theorem topic_ne_none_of_perform {i sid : ℕ} {o : Op} {r : o.Res}
    (ho : ¬ ∃ pb, o = .enqueue sid (.policy pb)) :
    ∀ push ∈ (Event.perform i o r).pushesTo sid, topic push ≠ none := by
  intro push hpush htopic
  obtain ⟨i, he⟩ := Event.mem_pushesTo.mp hpush
  cases he
  cases push with
  | policy pb => exact ho ⟨pb, rfl⟩
  | cert cb => nomatch htopic

theorem Holds.keep {eng : Engine} {st st' : AgentStream} {sid : ℕ} (h : Holds eng st)
    (hpushed : st'.pushed = st.pushed ++ e.pushesTo sid)
    (hquiet : ∀ push ∈ e.pushesTo sid, topic push ≠ none) : Holds eng st' := by
  obtain ⟨pb, hlast, hpb⟩ := h
  refine ⟨pb, ?_, hpb⟩
  rw [hpushed, lastAbout_append_of_ne _ hquiet, hlast]

/-- The policy a handler pushes on a serving stream is current, or will be replaced. -/
theorem current_enqueue {i : ℕ} {node : String} {sid : ℕ} {st st' : AgentStream}
    {pb : Proto.PolicyBundle} {tasks : List (Handler Reply)}
    (hperf : Performs S.tasks i (.enqueue sid (.policy pb)) true tasks)
    (hcov : Covered S (.perform i (.enqueue sid (.policy pb)) true))
    (hold : S.server.dist.Serving node sid st)
    (hpushed : st'.pushed = st.pushed ++ [.policy pb]) :
    Holds S.server.eng st' ∨ ∃ p ∈ tasks, WillPush S.server.eng node sid p := by
  rcases hcov node st hold with hpb | ⟨j, p, hne, hj, hp⟩
  · refine Or.inl ⟨pb, ?_, hpb⟩
    rw [hpushed, lastAbout_snoc]
    exact if_pos rfl
  · exact Or.inr ⟨p, hperf.mem_of_ne hj hne, hp⟩

theorem current_step (h : Step unmarshal S e S') (hacc : e.accepted = true) (hcov : Covered S e)
    (hS : Settling S) {node : String} {sid : ℕ} {st' : AgentStream}
    (hs : S'.server.dist.Serving node sid st') :
    Holds S'.server.eng st' ∨ ∃ p ∈ S'.tasks, WillPush S'.server.eng node sid p := by
  rcases h.serving hs with ⟨st, hold, -, hpushed, -⟩ | ⟨hello, rfl, rfl, rfl, rfl⟩
  · -- a step that pushes nothing and stops no handler
    have hkeep : S'.server.eng = S.server.eng → (∀ p ∈ S.tasks, p ∈ S'.tasks) →
        e.pushesTo sid = [] →
        Holds S'.server.eng st' ∨ ∃ p ∈ S'.tasks, WillPush S'.server.eng node sid p := by
      intro heng htasks hquiet
      rw [heng]
      rcases hS.current node sid st hold with hholds | ⟨p, hp, hw⟩
      · exact Or.inl (hholds.keep hpushed (by simp [hquiet]))
      · exact Or.inr ⟨p, htasks p hp, hw⟩
    cases h with
    | @perform i o r server tasks hperf hexec =>
      by_cases hset : ∃ eng, o = .setEngine eng
      · obtain ⟨eng, rfl⟩ := hset
        obtain rfl : server = { S.server with eng } := hexec
        obtain ⟨k, hk, hmem⟩ := hperf.holds hS.announces
        exact Or.inr ⟨k (), hmem, hk node sid⟩
      have heng : server.eng = S.server.eng := hexec.eng_eq fun eng ho => hset ⟨eng, ho⟩
      change Holds server.eng st' ∨ ∃ p ∈ tasks, WillPush server.eng node sid p
      rw [heng]
      by_cases hpol : ∃ pb, o = .enqueue sid (.policy pb)
      · obtain ⟨pb, rfl⟩ := hpol
        obtain rfl : r = true := hacc
        exact current_enqueue hperf hcov hold (by simpa [Event.pushesTo] using hpushed)
      rcases hS.current node sid st hold with hholds | hwill
      · exact Or.inl (hholds.keep hpushed (topic_ne_none_of_perform hpol))
      · refine Or.inr ((hperf.will ⟨S.server, server, ⟨rfl, hold.1⟩, hexec⟩ hwill).resolve_left ?_)
        exact fun hgoal => hpol (enqueue_of_sendsPolicy hgoal)
    | subscribe hello => exact hkeep rfl (fun p hp => List.mem_append_left _ hp) rfl
    | request req => exact hkeep rfl (fun p hp => List.mem_append_left _ hp) rfl
    | scan => exact hkeep rfl (fun p hp => List.mem_append_left _ hp) rfl
    | _ => exact hkeep rfl (fun _ h => h) rfl
  · cases h
    exact Or.inr ⟨onConnect hello, by simp, willPush_onConnect rfl⟩

theorem settling_step (h : Step unmarshal S e S') (hacc : e.accepted = true) (hcov : Covered S e)
    (hS : Settling S) : Settling S' where
  announces := h.always allows_keepsEngine announcesAt_of_keepsEngine announces_installConfig
    (fun _ _ _ _ => trivial) hS.announces
  current _ _ _ hs := current_step h hacc hcov hS hs

end Steps

variable {unmarshal : List UInt8 → Except String MeshConfig}

/-- In every run in which no channel is full and each policy put on a channel is the
current one or still to be followed by it, once the handlers have finished and the
channel of a serving stream is drained, the last policy delivered on it is the current one. -/
theorem drained_streams_current (eng : Engine) (leafTtl : Duration) (rootKey : Proto.KeyId)
    (now : Time) (events : List Event) (S : System)
    (h : Run (fun S e S' => Step unmarshal S e S' ∧ e.accepted = true ∧ Covered S e)
      (.boot eng leafTtl rootKey now) events S)
    (hfin : Finished S.tasks) (node : String) (sid : ℕ) (st : AgentStream)
    (hst : S.server.dist.Serving node sid st) (hdrained : st.sends = []) :
    ∃ order, lastDelivery sid events none =
      some (.policy (snapshot S.server.eng order).bundle) := by
  have hsettling : Settling S := by
    refine h.invariant (I := fun _ S => Settling S) (settling_boot _ _ _ _) ?_
    rintro es S e S' - hS ⟨hstep, hacc, hcov⟩
    exact settling_step hstep hacc hcov hS
  have hrun : Run (Step unmarshal) (.boot eng leafTtl rootKey now) events S :=
    h.mono fun _ _ _ hstep => hstep.1
  obtain ⟨-, hdel⟩ := serving_history hrun rfl hst
  rcases hsettling.current node sid st hst with ⟨pb, hlast, order, rfl⟩ | hwill
  · refine ⟨order, ?_⟩
    rwa [AgentStream.pushed, hdrained, List.append_nil, hdel] at hlast
  · exact absurd hwill hfin.not_will

/-- `demoConfig`, with everything allowed by default. -/
def openConfig : MeshConfig := { demoConfig with policy := { demoConfig.policy with
  defaultAllow := true } }

def openYaml : List UInt8 :=
  ("mesh:\n  name: demo\n  cluster_id: cluster-1\npolicy:\n  mtls: enforce\n" ++
    "  default_allow: true\n  allow:\n  - from: alpha\n    to: [beta]\n").toUTF8.data.toList

/-- A parser as far as this one document is concerned. -/
def parseOpen (body : List UInt8) : Except String MeshConfig :=
  if body = openYaml then .ok openConfig else .error "yaml"

/-- Every policy put on a channel is the current one. -/
def alwaysCurrent (S : System) : Event → Bool
  | .perform _ (.enqueue _ (.policy pb)) _ => pb = (snapshot S.server.eng (.listed _)).bundle
  | _ => true

theorem covered_of_alwaysCurrent {S : System} {e : Event} (h : alwaysCurrent S e = true) :
    Covered S e := by
  cases e with
  | perform i o r =>
    cases o with
    | enqueue sid push =>
      cases push with
      | policy pb => exact fun _ _ _ => Or.inl ⟨_, of_decide_eq_true h⟩
      | cert cb => trivial
    | _ => trivial
  | _ => trivial

/-- An agent connects and a new config is installed after its callback. -/
def reload : List Move :=
  [.subscribe quietHello, .perform 1, .perform 1, .perform 1, .perform 1, .perform 1,
    .request (.postConfig openYaml), .perform 2, .perform 2, .perform 2, .perform 2, .perform 2,
    .perform 2, .perform 2, .perform 0, .deliver 0, .deliver 0]

theorem reload_delivered :
    ∃ events, ∃ S : System, ∃ order, S.server.eng.defaultAllow = true ∧ lastDelivery 0 events none =
      some (.policy (snapshot S.server.eng order).bundle) := by
  obtain ⟨events, S, hrun, hfin, hdrained, hopen⟩ :
      ∃ events S, Run (fun S e S' => Step parseOpen S e S' ∧
        (e.accepted && alwaysCurrent S e) = true) demoBoot events S ∧
        Finished S.tasks ∧ Drained S ∧ S.server.eng.defaultAllow = true :=
    exists_checked_run (by decide +kernel : (demoBoot.follow parseOpen _ reload).any _ = true)
  obtain ⟨st, hst, hsends⟩ := hdrained.serving
  have hrun' := hrun.mono fun S e S' (hstep : Step parseOpen S e S' ∧ _) => by
    obtain ⟨hacc, hcur⟩ := Bool.and_eq_true_iff.mp hstep.2
    exact (⟨hstep.1, hacc, covered_of_alwaysCurrent hcur⟩ :
      Step parseOpen S e S' ∧ e.accepted = true ∧ Covered S e)
  obtain ⟨order, hlast⟩ :=
    drained_streams_current _ _ _ _ events S hrun' hfin "node-1" 0 st hst hsends
  exact ⟨events, S, order, hopen, hlast⟩

/-- The callback of the hello has read the engine when the new config is installed, and
pushes what it read after the broadcast. -/
def staleConnect : List Move :=
  [.subscribe quietHello, .perform 1, .perform 1, .perform 1, .request (.postConfig openYaml),
    .perform 2, .perform 2, .perform 2, .perform 2, .perform 2, .perform 2, .perform 2,
    .perform 1, .perform 1, .perform 0, .deliver 0, .deliver 0]

theorem reload_overtaken :
    ¬ ∀ events S node sid st,
      Run (fun S e S' => Step parseOpen S e S' ∧ e.accepted = true) demoBoot events S →
      Finished S.tasks → S.server.dist.Serving node sid st → st.sends = [] →
      ∃ order, lastDelivery sid events none =
        some (.policy (snapshot S.server.eng order).bundle) := by
  intro h
  obtain ⟨events, S, hrun, hfin, hdrained, hopen, hstale⟩ :
      ∃ events S, Run (fun S e S' => Step parseOpen S e S' ∧ e.accepted = true)
        demoBoot events S ∧ Finished S.tasks ∧ Drained S ∧ S.server.eng.defaultAllow = true ∧
        lastDelivery 0 events none = some (.policy demoBundle) :=
    exists_checked_run (by decide +kernel : (demoBoot.follow parseOpen _ staleConnect).any _ = true)
  obtain ⟨st, hst, hsends⟩ := hdrained.serving
  obtain ⟨order, hlast⟩ := h events S "node-1" 0 st hrun hfin hst hsends
  rw [hstale, Option.some.injEq, Proto.AgentPush.policy.injEq] at hlast
  have hdefault : demoBundle.defaultAllow = S.server.eng.defaultAllow := by rw [hlast]; rfl
  rw [hopen] at hdefault
  nomatch hdefault

end Meshlite.Sigil
