import Meshlite.Sigil.Delivery

/-!
# The streams map

A node that subscribes again replaces its stream, and both handlers clean up later, in
any order. The map keeps, for each node, its latest stream until the handler of that
stream has cleaned up.
-/

namespace Meshlite.Sigil

open Policy Runs

/-- The stream that the node opened last. -/
structure Latest (opened : List AgentStream) (node : String) (sid : ℕ) (st : AgentStream) :
    Prop where
  isOpen : opened[sid]? = some st
  node_eq : st.hello.nodeId = node
  last : ∀ sid' st', opened[sid']? = some st' → st'.hello.nodeId = node → sid' ≤ sid

section Latest

variable {opened : List AgentStream} {node : String} {sid i : ℕ} {st st' : AgentStream}
variable {f : AgentStream → AgentStream}

theorem Latest.unique {sid' : ℕ} (h : Latest opened node sid st) (h' : Latest opened node sid' st') :
    sid = sid' ∧ st = st' := by
  obtain rfl : sid = sid' :=
    le_antisymm (h'.last sid st h.isOpen h.node_eq) (h.last sid' st' h'.isOpen h'.node_eq)
  exact ⟨rfl, Option.some.inj (h.isOpen.symm.trans h'.isOpen)⟩

theorem getElem?_modify_eq_some : (opened.modify i f)[sid]? = some st' ↔
    ∃ st, opened[sid]? = some st ∧ (if i = sid then f st else st) = st' := by
  rw [List.getElem?_modify]
  exact Option.map_eq_some_iff

/-- A change that leaves the hellos alone changes no latest stream. -/
theorem latest_modify (hf : ∀ st, (f st).hello = st.hello) :
    Latest (opened.modify i f) node sid st' ↔
      ∃ st, Latest opened node sid st ∧ (if i = sid then f st else st) = st' := by
  have hhello : ∀ sid st, (if i = sid then f st else st).hello = st.hello := by
    intro sid st
    split_ifs
    · exact hf st
    · rfl
  constructor
  · intro h
    obtain ⟨st, hst, rfl⟩ := getElem?_modify_eq_some.mp h.isOpen
    refine ⟨st, ⟨hst, ?_, ?_⟩, rfl⟩
    · rw [← h.node_eq, hhello]
    · intro sid' st₁ hst₁ hnode
      exact h.last sid' _ (getElem?_modify_eq_some.mpr ⟨st₁, hst₁, rfl⟩) (by rw [hhello, hnode])
  · rintro ⟨st, h, rfl⟩
    refine ⟨getElem?_modify_eq_some.mpr ⟨st, h.isOpen, rfl⟩, ?_, ?_⟩
    · rw [hhello, h.node_eq]
    · intro sid' st₁ hst₁ hnode
      obtain ⟨st₂, hst₂, rfl⟩ := getElem?_modify_eq_some.mp hst₁
      exact h.last sid' st₂ hst₂ (by rw [← hnode, hhello])

theorem latest_concat_self (hello : Proto.AgentHello) :
    Latest (opened ++ [.start hello]) hello.nodeId opened.length (.start hello) := by
  refine ⟨List.getElem?_concat_length, rfl, ?_⟩
  intro sid st hst _
  have hlt := (List.getElem?_eq_some_iff.mp hst).1
  rw [List.length_append, List.length_singleton] at hlt
  omega

theorem latest_concat_of_ne {hello : Proto.AgentHello} (hne : node ≠ hello.nodeId) :
    Latest (opened ++ [.start hello]) node sid st ↔ Latest opened node sid st := by
  have hold : ∀ (sid : ℕ) (st : AgentStream), st.hello.nodeId = node →
      ((opened ++ [AgentStream.start hello])[sid]? = some st ↔ opened[sid]? = some st) := by
    intro sid st hnode
    rw [List.getElem?_append]
    split_ifs with hlt
    · exact Iff.rfl
    · rw [List.getElem?_eq_none (Nat.le_of_not_lt hlt), List.getElem?_singleton]
      refine iff_of_false ?_ (Option.some_ne_none st).symm
      intro h
      split_ifs at h
      obtain rfl := Option.some.inj h
      exact hne hnode.symm
  constructor
  · intro h
    refine ⟨(hold sid st h.node_eq).mp h.isOpen, h.node_eq, fun sid' st' hst' hnode => ?_⟩
    exact h.last sid' st' ((hold sid' st' hnode).mpr hst') hnode
  · intro h
    refine ⟨(hold sid st h.node_eq).mpr h.isOpen, h.node_eq, fun sid' st' hst' hnode => ?_⟩
    exact h.last sid' st' ((hold sid' st' hnode).mp hst') hnode

/-- The handler of the stream is over. -/
def IsOver (opened : List AgentStream) (sid : ℕ) : Prop :=
  ∃ st, opened[sid]? = some st ∧ st.phase = .over

theorem isOver_modify
    (hphase : ∀ st, opened[i]? = some st → ((f st).phase = .over ↔ st.phase = .over)) :
    IsOver (opened.modify i f) sid ↔ IsOver opened sid := by
  constructor
  · rintro ⟨st', hst', hover⟩
    obtain ⟨st, hst, rfl⟩ := getElem?_modify_eq_some.mp hst'
    refine ⟨st, hst, ?_⟩
    split_ifs at hover with hi
    · subst hi
      exact (hphase st hst).mp hover
    · exact hover
  · rintro ⟨st, hst, hover⟩
    refine ⟨_, getElem?_modify_eq_some.mpr ⟨st, hst, rfl⟩, ?_⟩
    split_ifs with hi
    · subst hi
      exact (hphase st hst).mpr hover
    · exact hover

theorem isOver_concat (hello : Proto.AgentHello) :
    IsOver (opened ++ [.start hello]) sid ↔ IsOver opened sid := by
  constructor
  · rintro ⟨st, hst, hover⟩
    rw [List.getElem?_append, List.getElem?_singleton] at hst
    split_ifs at hst
    · exact ⟨st, hst, hover⟩
    · obtain rfl := Option.some.inj hst
      cases hover
  · rintro ⟨st, hst, hover⟩
    exact ⟨st, List.getElem?_append_left (List.getElem?_eq_some_iff.mp hst).1 ▸ hst, hover⟩

theorem isOver_modify_over (hst : opened[i]? = some st) :
    IsOver (opened.modify i fun st => { st with phase := .over }) sid ↔
      IsOver opened sid ∨ sid = i := by
  constructor
  · rintro ⟨st', hst', hover⟩
    obtain ⟨st₀, hst₀, rfl⟩ := getElem?_modify_eq_some.mp hst'
    split_ifs at hover with hi
    · exact Or.inr hi.symm
    · exact Or.inl ⟨st₀, hst₀, hover⟩
  · rintro (⟨st₀, hst₀, hover⟩ | rfl)
    · refine ⟨_, getElem?_modify_eq_some.mpr ⟨st₀, hst₀, rfl⟩, ?_⟩
      split_ifs
      · rfl
      · exact hover
    · exact ⟨_, getElem?_modify_eq_some.mpr ⟨st, hst, rfl⟩, by rw [if_pos rfl]⟩

end Latest

namespace Distributor

/-- The map holds the latest stream of each node until its handler has cleaned up. -/
def HoldsLatest (d : Distributor) : Prop :=
  ∀ node sid, d.streams.lookup node = some sid ↔
    ∃ st, Latest d.opened node sid st ∧ st.phase ≠ .over

variable {d : Distributor} {node : String} {sid i : ℕ} {st : AgentStream}

theorem holdsLatest_new : new.HoldsLatest := by
  intro node sid
  refine iff_of_false (by simp [new]) ?_
  rintro ⟨st, hst, -⟩
  have hnone := hst.isOpen
  simp [new] at hnone

/-- A change of a stream that does not end its handler. -/
theorem HoldsLatest.modify {f : AgentStream → AgentStream} {hf : ∀ st, (f st).hello = st.hello}
    (h : d.HoldsLatest)
    (hphase : ∀ st, d.opened[i]? = some st → ((f st).phase = .over ↔ st.phase = .over)) :
    (d.modify i f hf).HoldsLatest := by
  intro node sid
  refine (h node sid).trans ?_
  constructor
  · rintro ⟨st, hst, hover⟩
    refine ⟨_, (latest_modify hf).mpr ⟨st, hst, rfl⟩, ?_⟩
    split_ifs with hi
    · subst hi
      rwa [Ne, hphase st hst.isOpen]
    · exact hover
  · rintro ⟨st', hst', hover⟩
    obtain ⟨st, hst, rfl⟩ := (latest_modify hf).mp hst'
    refine ⟨st, hst, ?_⟩
    split_ifs at hover with hi
    · subst hi
      rwa [Ne, hphase st hst.isOpen] at hover
    · exact hover

theorem HoldsLatest.enqueue (h : d.HoldsLatest) (sid : ℕ) (push : Proto.AgentPush) :
    (d.enqueue sid push).HoldsLatest := by
  unfold Distributor.enqueue
  exact h.modify fun _ _ => Iff.rfl

theorem HoldsLatest.deliver (h : d.HoldsLatest) (sid : ℕ) (push : Proto.AgentPush) :
    (d.deliver sid push).HoldsLatest := by
  unfold Distributor.deliver
  exact h.modify fun _ _ => Iff.rfl

theorem phase_returns {f : AgentStream → AgentStream} (hst : d.opened[sid]? = some st)
    (hphase : st.phase = .serving) (hret : ∀ st, (f st).phase = .returning) :
    ∀ st, d.opened[sid]? = some st → ((f st).phase = .over ↔ st.phase = .over) := by
  intro st' hst'
  obtain rfl := Option.some.inj (hst.symm.trans hst')
  rw [hret, hphase]
  exact iff_of_false (by decide) (by decide)

theorem HoldsLatest.sendFail (h : d.HoldsLatest) (hst : d.opened[sid]? = some st)
    (hphase : st.phase = .serving) : (d.sendFail sid).HoldsLatest := by
  unfold Distributor.sendFail
  exact h.modify (phase_returns hst hphase fun _ => rfl)

theorem HoldsLatest.leave (h : d.HoldsLatest) (hst : d.opened[sid]? = some st)
    (hphase : st.phase = .serving) : (d.leave sid).HoldsLatest := by
  unfold Distributor.leave
  exact h.modify (phase_returns hst hphase fun _ => rfl)

theorem HoldsLatest.cancelOld (h : d.HoldsLatest) (node : String) :
    (d.cancelOld node).HoldsLatest := by
  unfold Distributor.cancelOld
  split
  · exact h.modify fun _ _ => Iff.rfl
  · exact h

theorem HoldsLatest.register (h : d.HoldsLatest) (hello : Proto.AgentHello) :
    (d.register hello).HoldsLatest := by
  have hold := h.cancelOld hello.nodeId
  intro node sid
  change ((d.cancelOld hello.nodeId).streams.insert hello.nodeId _).lookup node = some sid ↔
    ∃ st, Latest ((d.cancelOld hello.nodeId).opened ++ [.start hello]) node sid st ∧ _
  by_cases hnode : node = hello.nodeId
  · subst hnode
    rw [AList.lookup_insert, Option.some.injEq]
    constructor
    · rintro rfl
      exact ⟨_, latest_concat_self hello, nofun⟩
    · rintro ⟨st, hst, -⟩
      exact ((latest_concat_self hello).unique hst).1
  · rw [AList.lookup_insert_ne hnode, hold node sid]
    exact exists_congr fun st => and_congr_left fun _ => (latest_concat_of_ne hnode).symm

/-- A stream that is over is looked up no more; `node'` is the only one it was registered for. -/
theorem lookup_cleanup_iff {node' : String} {sid' : ℕ}
    (howner : ∀ node, d.streams.lookup node = some sid → node = node') :
    (d.cleanup sid node').streams.lookup node = some sid' ↔
      sid' ≠ sid ∧ d.streams.lookup node = some sid' := by
  change (if d.streams.lookup node' = some sid then d.streams.erase node' else
    d.streams).lookup node = some sid' ↔ _
  split_ifs with hlookup
  · by_cases hnode : node = node'
    · subst hnode
      rw [AList.lookup_erase, hlookup]
      refine iff_of_false (Option.some_ne_none _).symm ?_
      rintro ⟨hne, heq⟩
      exact hne (Option.some.inj heq).symm
    · rw [AList.lookup_erase_ne hnode]
      refine (and_iff_right_of_imp ?_).symm
      rintro hold rfl
      exact hnode (howner node hold)
  · refine (and_iff_right_of_imp ?_).symm
    rintro hold rfl
    exact hlookup (howner node hold ▸ hold)

theorem latest_cleanup_iff {node' : String} {sid' : ℕ} :
    (∃ st', Latest (d.cleanup sid node').opened node sid' st' ∧ st'.phase ≠ .over) ↔
      sid' ≠ sid ∧ ∃ st', Latest d.opened node sid' st' ∧ st'.phase ≠ .over := by
  have hhello : ∀ st : AgentStream, ({ st with phase := .over } : AgentStream).hello = st.hello :=
    fun _ => rfl
  change (∃ st', Latest (d.opened.modify sid fun st => { st with phase := .over }) node sid' st' ∧
    st'.phase ≠ .over) ↔ _
  by_cases hsid : sid' = sid
  · subst hsid
    refine iff_of_false ?_ fun hboth => hboth.1 rfl
    rintro ⟨st', hst', hover⟩
    obtain ⟨st₀, -, rfl⟩ := (latest_modify hhello).mp hst'
    rw [if_pos rfl] at hover
    exact hover rfl
  · rw [and_iff_right hsid]
    simp only [latest_modify hhello, if_neg (Ne.symm hsid), exists_eq_right]

/-- The handler of a stream cleans up: its node is left without a stream if it was the latest
one, and nothing changes otherwise. -/
theorem HoldsLatest.cleanup (h : d.HoldsLatest) (hst : d.opened[sid]? = some st) :
    (d.cleanup sid st.hello.nodeId).HoldsLatest := by
  have howner : ∀ node, d.streams.lookup node = some sid → node = st.hello.nodeId := by
    intro node hlookup
    obtain ⟨st', hst', -⟩ := (h node sid).mp hlookup
    obtain rfl := Option.some.inj (hst.symm.trans hst'.isOpen)
    exact hst'.node_eq.symm
  intro node sid'
  rw [lookup_cleanup_iff howner, latest_cleanup_iff, h node sid']

theorem lookup_cleanup {node' : String} {sid' : ℕ} (hne : sid' ≠ sid)
    (h : d.streams.lookup node = some sid') :
    (d.cleanup sid node').streams.lookup node = some sid' := by
  change (if d.streams.lookup node' = some sid then d.streams.erase node' else
    d.streams).lookup node = some sid'
  split_ifs with hlookup
  · have hnode : node ≠ node' := by
      rintro rfl
      exact hne (Option.some.inj (h.symm.trans hlookup))
    rw [AList.lookup_erase_ne hnode, h]
  · exact h

end Distributor

section Run

variable {unmarshal : List UInt8 → Except String MeshConfig} {S S' : System} {e : Event}

theorem Step.holdsLatest (h : Step unmarshal S e S') (hS : S.server.dist.HoldsLatest) :
    S'.server.dist.HoldsLatest := by
  cases h with
  | subscribe hello => exact hS.register hello
  | perform hperf hexec =>
    rcases hexec.effect with rfl | ⟨eng, -, rfl⟩ | ⟨certs, -, rfl⟩ | ⟨sid, push, -, rfl⟩
    · exact hS
    · exact hS
    · exact hS
    · exact hS.enqueue sid push
  | deliver => exact hS.deliver _ _
  | sendFail hopen hphase => exact hS.sendFail hopen hphase
  | leave hopen hphase => exact hS.leave hopen hphase
  | cleanup hopen hphase => exact hS.cleanup hopen
  | _ => exact hS

theorem isOver_register {d : Distributor} (hello : Proto.AgentHello) {sid : ℕ} :
    IsOver (d.register hello).opened sid ↔ IsOver d.opened sid := by
  refine (isOver_concat hello).trans ?_
  unfold Distributor.cancelOld
  split
  · exact isOver_modify fun _ _ => Iff.rfl
  · exact Iff.rfl

/-- A handler is over from its cleanup on. -/
theorem Step.isOver_iff (h : Step unmarshal S e S') {sid : ℕ} :
    IsOver S'.server.dist.opened sid ↔
      IsOver S.server.dist.opened sid ∨ .cleanup sid = e := by
  have hsame : ∀ opened, (IsOver opened sid ↔ IsOver S.server.dist.opened sid) →
      .cleanup sid ≠ e →
      (IsOver opened sid ↔ IsOver S.server.dist.opened sid ∨ .cleanup sid = e) :=
    fun opened hopened hne => hopened.trans (or_iff_left hne).symm
  cases h with
  | subscribe hello => exact hsame _ (isOver_register hello) nofun
  | perform hperf hexec =>
    refine hsame _ ?_ nofun
    rcases hexec.effect with rfl | ⟨eng, -, rfl⟩ | ⟨certs, -, rfl⟩ | ⟨i, push, -, rfl⟩
    · exact Iff.rfl
    · exact Iff.rfl
    · exact Iff.rfl
    · exact isOver_modify fun _ _ => Iff.rfl
  | deliver => exact hsame _ (isOver_modify fun _ _ => Iff.rfl) nofun
  | sendFail hopen hphase | leave hopen hphase =>
    exact hsame _ (isOver_modify (Distributor.phase_returns hopen hphase fun _ => rfl)) nofun
  | cleanup hopen hphase =>
    rw [Event.cleanup.injEq]
    exact isOver_modify_over hopen
  | _ => exact hsame _ Iff.rfl nofun

theorem isOver_iff_of_run {init : System} {events : List Event}
    (h : Run (Step unmarshal) init events S) (hinit : init.server.dist = .new) (sid : ℕ) :
    IsOver S.server.dist.opened sid ↔ .cleanup sid ∈ events := by
  refine h.invariant
    (I := fun events S => IsOver S.server.dist.opened sid ↔ .cleanup sid ∈ events) ?_ ?_
  · rw [hinit]
    refine iff_of_false ?_ List.not_mem_nil
    rintro ⟨st, hst, -⟩
    simp [Distributor.new] at hst
  · rintro events S e S' - ih hstep
    rw [hstep.isOver_iff, ih, List.mem_append, List.mem_singleton]

end Run

/-- In every reachable state the map holds the latest stream of each node until the handler of
that stream has cleaned up; the cleanup of another stream leaves it there; a node that
`ConnectedAgents` lists has a handler that has not exited; and a handler is over once its
cleanup has run. -/
theorem streams_hold_latest (unmarshal : List UInt8 → Except String MeshConfig) (eng : Engine)
    (leafTtl : Duration) (rootKey : Proto.KeyId) (now : Time) (events : List Event) (S : System)
    (h : Run (Step unmarshal) (.boot eng leafTtl rootKey now) events S) :
    S.server.dist.HoldsLatest ∧
    (∀ sid S', Step unmarshal S (.cleanup sid) S' → ∀ node sid', sid' ≠ sid →
      S.server.dist.streams.lookup node = some sid' →
      S'.server.dist.streams.lookup node = some sid') ∧
    (∀ nodes S', S.server.Exec .connectedAgents nodes S' → ∀ node ∈ nodes,
      ∃ (sid : ℕ) (st : AgentStream), S.server.dist.opened[sid]? = some st ∧
        st.hello.nodeId = node ∧ st.phase ≠ .over) ∧
    ∀ sid, IsOver S.server.dist.opened sid ↔ .cleanup sid ∈ events := by
  have hlatest : S.server.dist.HoldsLatest :=
    h.invariant (I := fun _ S => S.server.dist.HoldsLatest) Distributor.holdsLatest_new
      fun _ _ _ _ _ hS hstep => hstep.holdsLatest hS
  refine ⟨hlatest, ?_, ?_, isOver_iff_of_run h rfl⟩
  · intro sid S' hstep node sid' hne hlookup
    cases hstep with
    | cleanup hopen hphase => exact Distributor.lookup_cleanup hne hlookup
  · intro nodes S' hexec node hnode
    have hkey : node ∈ S.server.dist.streams.keys := hexec.1.mem_iff.mp hnode
    obtain ⟨sid, hsid⟩ := Option.isSome_iff_exists.mp (AList.lookup_isSome.mpr hkey)
    obtain ⟨st, hst, hover⟩ := (hlatest node sid).mp hsid
    exact ⟨sid, st, hst.isOpen, hst.node_eq, hover⟩

/-- A node connects again, and then the handler of its first stream exits. -/
def reconnected : List Move :=
  [.subscribe quietHello, .subscribe quietHello, .leave 0, .cleanup 0]

theorem reconnected_holds_second : ∃ events S, Run (Step refuseConfig) demoBoot events S ∧
    .cleanup 0 ∈ events ∧ S.server.dist.streams.lookup quietHello.nodeId = some 1 ∧
    ∃ st, Latest S.server.dist.opened quietHello.nodeId 1 st ∧ st.phase ≠ .over := by
  obtain ⟨events, S, hrun, hphase, hlookup⟩ : ∃ events S,
      Run (Step refuseConfig) demoBoot events S ∧
      S.server.dist.opened[0]?.map AgentStream.phase = some .over ∧
      S.server.dist.streams.lookup quietHello.nodeId = some 1 :=
    exists_run (by decide +kernel : (demoBoot.follow refuseConfig _ reconnected).any _ = true)
  obtain ⟨hholds, -, -, hover⟩ := streams_hold_latest refuseConfig _ _ _ _ events S hrun
  have hfirst : IsOver S.server.dist.opened 0 := Option.map_eq_some_iff.mp hphase
  exact ⟨events, S, hrun, (hover 0).mp hfirst, hlookup, (hholds _ _).mp hlookup⟩

end Meshlite.Sigil
