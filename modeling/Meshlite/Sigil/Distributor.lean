import Meshlite.Proto.Messages
import Mathlib.Data.List.AList

/-!
# The distributor

One stream for each `Subscribe` call, with a buffered channel between the handlers
that push and the loop that delivers. The map holds the stream registered for a node.
-/

namespace Meshlite.Sigil

/-- The loop of `Subscribe`: serving, left but not cleaned up, or over. -/
inductive Phase where
  | serving
  | returning
  | over
  deriving DecidableEq, Repr

/-- `agentStream`, with the pushes its agent has received. -/
structure AgentStream where
  hello : Proto.AgentHello
  sends : List Proto.AgentPush
  delivered : List Proto.AgentPush
  cancelled : Bool
  phase : Phase
  deriving DecidableEq, Repr

/-- The capacity of `sends`. -/
def sendCapacity : ℕ := 64

/-- A stream as `Subscribe` opens it. -/
def AgentStream.start (hello : Proto.AgentHello) : AgentStream where
  hello := hello
  sends := []
  delivered := []
  cancelled := false
  phase := .serving

/-- The pushes a stream took, delivered or still on its channel. -/
def AgentStream.pushed (st : AgentStream) : List Proto.AgentPush := st.delivered ++ st.sends

/-- What a push is about: the certificate of a service, or the policy. -/
def topic : Proto.AgentPush → Option String
  | .cert cb => some cb.serviceId
  | .policy _ => none

/-- The last push about a topic. -/
def lastAbout (t : Option String) (pushes : List Proto.AgentPush) : Option Proto.AgentPush :=
  (pushes.filter (topic · = t)).getLast?

theorem lastAbout_snoc (t : Option String) (pushes : List Proto.AgentPush)
    (push : Proto.AgentPush) :
    lastAbout t (pushes ++ [push]) = if topic push = t then some push else lastAbout t pushes := by
  unfold lastAbout
  by_cases h : topic push = t <;> simp [List.filter_append, h]

theorem lastAbout_append_of_ne {t : Option String} (pushes : List Proto.AgentPush)
    {more : List Proto.AgentPush} (h : ∀ push ∈ more, topic push ≠ t) :
    lastAbout t (pushes ++ more) = lastAbout t pushes := by
  have hnone : more.filter (topic · = t) = [] := by simpa using h
  rw [lastAbout, List.filter_append, hnone, List.append_nil, lastAbout]

theorem lastAbout_append_some {t : Option String} {pushes more : List Proto.AgentPush}
    {push : Proto.AgentPush} (h : lastAbout t (pushes ++ more) = some push) :
    push ∈ more ∨ lastAbout t pushes = some push := by
  rw [lastAbout, List.filter_append, List.getLast?_append, Option.or_eq_some_iff] at h
  rcases h with hmore | ⟨-, hpushes⟩
  · exact Or.inl (List.mem_filter.mp (List.mem_of_getLast? hmore)).1
  · exact Or.inr hpushes

/-- Every stream ever opened, in the order of the `Subscribe` calls, and the map from
node ids to registered streams. -/
structure Distributor where
  opened : List AgentStream
  streams : AList fun _ : String => ℕ
  registered : ∀ node sid, streams.lookup node = some sid →
    ∃ st, opened[sid]? = some st ∧ st.hello.nodeId = node

namespace Distributor

def new : Distributor where
  opened := []
  streams := ∅
  registered := by simp

/-- A change of one stream that leaves its hello alone. -/
def modify (d : Distributor) (sid : ℕ) (f : AgentStream → AgentStream)
    (hf : ∀ st, (f st).hello = st.hello) : Distributor where
  opened := d.opened.modify sid f
  streams := d.streams
  registered := by
    intro node sid' hl
    obtain ⟨st, hst, hnode⟩ := d.registered node sid' hl
    by_cases h : sid = sid'
    · exact ⟨f st, by simp [h, hst], by rw [hf, hnode]⟩
    · exact ⟨st, by simp [h, hst], hnode⟩

/-- The push is put on the channel. -/
def enqueue (d : Distributor) (sid : ℕ) (push : Proto.AgentPush) : Distributor :=
  d.modify sid (fun st => { st with sends := st.sends ++ [push] }) fun _ => rfl

/-- The loop takes the head of the channel and `stream.Send` succeeds. -/
def deliver (d : Distributor) (sid : ℕ) (push : Proto.AgentPush) : Distributor :=
  d.modify sid (fun st => { st with sends := st.sends.tail, delivered := st.delivered ++ [push] })
    fun _ => rfl

/-- `stream.Send` fails: the push is lost and the loop returns. -/
def sendFail (d : Distributor) (sid : ℕ) : Distributor :=
  d.modify sid (fun st => { st with sends := st.sends.tail, phase := .returning }) fun _ => rfl

/-- The context is done: the loop returns. -/
def leave (d : Distributor) (sid : ℕ) : Distributor :=
  d.modify sid (fun st => { st with phase := .returning }) fun _ => rfl

/-- `old.cancel()`, if the node has a stream. -/
def cancelOld (d : Distributor) (node : String) : Distributor :=
  match d.streams.lookup node with
  | some old => d.modify old (fun st => { st with cancelled := true }) fun _ => rfl
  | none => d

/-- The locked part of `Subscribe`: an old stream of the node is cancelled and replaced. -/
def register (d : Distributor) (hello : Proto.AgentHello) : Distributor where
  opened := (d.cancelOld hello.nodeId).opened ++ [.start hello]
  streams := (d.cancelOld hello.nodeId).streams.insert hello.nodeId
    (d.cancelOld hello.nodeId).opened.length
  registered := by
    intro node sid hl
    by_cases h : node = hello.nodeId
    · subst h
      rw [AList.lookup_insert, Option.some.injEq] at hl
      subst hl
      exact ⟨.start hello, by simp, rfl⟩
    · rw [AList.lookup_insert_ne h] at hl
      obtain ⟨st, hst, hnode⟩ := (d.cancelOld hello.nodeId).registered node sid hl
      exact ⟨st, by rw [List.getElem?_append_left (List.getElem?_eq_some_iff.mp hst).1, hst], hnode⟩

/-- The deferred part of `Subscribe`: the stream is removed if it is still registered. -/
def cleanup (d : Distributor) (sid : ℕ) (node : String) : Distributor where
  opened := d.opened.modify sid fun st => { st with phase := .over }
  streams := if d.streams.lookup node = some sid then d.streams.erase node else d.streams
  registered := by
    intro node' sid' hl
    have hold : d.streams.lookup node' = some sid' := by
      split_ifs at hl
      · by_cases h : node' = node
        · rw [h, AList.lookup_erase] at hl
          nomatch hl
        · rwa [AList.lookup_erase_ne h] at hl
      · exact hl
    exact (d.modify sid (fun st => { st with phase := .over }) fun _ => rfl).registered _ _ hold

/-- The stream is registered for the node and its loop is serving. -/
def Serving (d : Distributor) (node : String) (sid : ℕ) (st : AgentStream) : Prop :=
  d.streams.lookup node = some sid ∧ d.opened[sid]? = some st ∧ st.phase = .serving

variable {d : Distributor} {node : String} {sid i : ℕ} {st st' : AgentStream}

theorem serving_modify {f : AgentStream → AgentStream} {hf : ∀ st, (f st).hello = st.hello}
    (h : (d.modify i f hf).Serving node sid st') :
    ∃ st, d.streams.lookup node = some sid ∧ d.opened[sid]? = some st ∧
      st' = (if i = sid then f st else st) ∧ st'.phase = .serving := by
  obtain ⟨hl, hst, hphase⟩ := h
  obtain ⟨st, hold, -⟩ := d.registered node sid hl
  refine ⟨st, hl, hold, ?_, hphase⟩
  have hmod : (d.opened.modify i f)[sid]? = some st' := hst
  rw [List.getElem?_modify, hold] at hmod
  by_cases hi : i = sid
  · simpa [hi, eq_comm] using hmod
  · simpa [hi, eq_comm] using hmod

theorem serving_enqueue {push : Proto.AgentPush} (h : (d.enqueue i push).Serving node sid st') :
    ∃ st, d.Serving node sid st ∧
      st' = if i = sid then { st with sends := st.sends ++ [push] } else st := by
  obtain ⟨st, hl, hst, rfl, hphase⟩ := serving_modify h
  refine ⟨st, ⟨hl, hst, ?_⟩, rfl⟩
  split_ifs at hphase <;> exact hphase

theorem serving_deliver {push : Proto.AgentPush} (h : (d.deliver i push).Serving node sid st') :
    ∃ st, d.Serving node sid st ∧ st' = if i = sid then
      { st with sends := st.sends.tail, delivered := st.delivered ++ [push] } else st := by
  obtain ⟨st, hl, hst, rfl, hphase⟩ := serving_modify h
  refine ⟨st, ⟨hl, hst, ?_⟩, rfl⟩
  split_ifs at hphase <;> exact hphase

/-- A stream whose loop returns is not serving any more; the others are as before. -/
theorem serving_of_modify_returning {f : AgentStream → AgentStream}
    {hf : ∀ st, (f st).hello = st.hello} (hret : ∀ st, (f st).phase ≠ .serving)
    (h : (d.modify i f hf).Serving node sid st') : d.Serving node sid st' := by
  obtain ⟨st, hl, hst, rfl, hphase⟩ := serving_modify h
  by_cases hi : i = sid
  · rw [if_pos hi] at hphase
    exact absurd hphase (hret st)
  · rw [if_neg hi] at hphase ⊢
    exact ⟨hl, hst, hphase⟩

theorem serving_sendFail (h : (d.sendFail i).Serving node sid st') : d.Serving node sid st' :=
  serving_of_modify_returning (by nofun) h

theorem serving_leave (h : (d.leave i).Serving node sid st') : d.Serving node sid st' :=
  serving_of_modify_returning (by nofun) h

theorem serving_cleanup {node' : String} (h : (d.cleanup i node').Serving node sid st') :
    d.Serving node sid st' := by
  obtain ⟨hl, hst, hphase⟩ := h
  have hold : d.streams.lookup node = some sid := by
    change (if d.streams.lookup node' = some i then d.streams.erase node' else
      d.streams).lookup node = some sid at hl
    split_ifs at hl
    · by_cases hn : node = node'
      · rw [hn, AList.lookup_erase] at hl
        nomatch hl
      · rwa [AList.lookup_erase_ne hn] at hl
    · exact hl
  have hmod : (d.modify i (fun st => { st with phase := .over }) fun _ => rfl).Serving
      node sid st' := ⟨hold, hst, hphase⟩
  exact serving_of_modify_returning (by nofun) hmod

theorem serving_cancelOld {node' : String} (h : (d.cancelOld node').Serving node sid st') :
    ∃ st, d.Serving node sid st ∧ st'.hello = st.hello ∧ st'.sends = st.sends ∧
      st'.delivered = st.delivered := by
  unfold cancelOld at h
  split at h
  · obtain ⟨st, hl, hst, rfl, hphase⟩ := serving_modify h
    refine ⟨st, ⟨hl, hst, ?_⟩, ?_⟩
    · split_ifs at hphase <;> exact hphase
    · split_ifs <;> exact ⟨rfl, rfl, rfl⟩
  · exact ⟨st', h, rfl, rfl, rfl⟩

theorem cancelOld_length (d : Distributor) (node : String) :
    (d.cancelOld node).opened.length = d.opened.length := by
  unfold cancelOld
  split
  · simp [modify]
  · rfl

theorem register_length (d : Distributor) (hello : Proto.AgentHello) :
    (d.register hello).opened.length = d.opened.length + 1 := by
  simp [register, cancelOld_length]

theorem serving_register {hello : Proto.AgentHello}
    (h : (d.register hello).Serving node sid st') :
    (∃ st, d.Serving node sid st ∧ st'.hello = st.hello ∧ st'.sends = st.sends ∧
      st'.delivered = st.delivered) ∨
      node = hello.nodeId ∧ sid = d.opened.length ∧ st' = .start hello := by
  obtain ⟨hl, hst, hphase⟩ := h
  have hst : ((d.cancelOld hello.nodeId).opened ++ [.start hello])[sid]? = some st' := hst
  by_cases hn : node = hello.nodeId
  · subst hn
    have hsid : (d.cancelOld hello.nodeId).opened.length = sid := by
      simpa [register] using hl
    rw [← hsid, List.getElem?_concat_length, Option.some.injEq] at hst
    exact Or.inr ⟨rfl, by rw [← hsid, cancelOld_length], hst.symm⟩
  · have hold : (d.cancelOld hello.nodeId).streams.lookup node = some sid := by
      simpa [register, AList.lookup_insert_ne hn] using hl
    obtain ⟨st, hopen, -⟩ := (d.cancelOld hello.nodeId).registered node sid hold
    rw [List.getElem?_append_left (List.getElem?_eq_some_iff.mp hopen).1] at hst
    exact Or.inl (serving_cancelOld ⟨hold, hst, hphase⟩)

end Distributor

end Meshlite.Sigil
