import Meshlite.Library.Bytes
import Meshlite.Sigil.Convergence

/-!
# What a config request does, all in all

The handler of a config, run to its end: it refuses the body and changes nothing, or it
installs the engine of the first megabyte of the body and puts its policy on the channel of
every agent whose channel has room.
-/

namespace Meshlite.Sigil

open Policy Tasks Tasks.Prog

namespace Distributor

/-- What waits on the channel of the node's stream. -/
def channel (d : Distributor) (node : String) : Option (List Proto.AgentPush) := do
  let sid ← d.streams.lookup node
  let st ← d.opened[sid]?
  return st.sends

/-- `send`: the push is put on the channel unless that is full. -/
def send (push : Proto.AgentPush) (d : Distributor) (node : String) : Distributor :=
  match d.streams.lookup node with
  | none => d
  | some sid =>
    match d.opened[sid]? with
    | none => d
    | some st => if st.sends.length < sendCapacity then d.enqueue sid push else d

/-- A channel after a push was offered to it. -/
def offered (push : Proto.AgentPush) (waiting : List Proto.AgentPush) : List Proto.AgentPush :=
  if waiting.length < sendCapacity then waiting ++ [push] else waiting

variable {d : Distributor} {node : String} {push : Proto.AgentPush}

theorem channel_eq {sid : ℕ} (h : d.streams.lookup node = some sid) :
    ∃ st, d.opened[sid]? = some st ∧ d.channel node = some st.sends := by
  obtain ⟨st, hst, -⟩ := d.registered node sid h
  exact ⟨st, hst, by simp [channel, h, hst]⟩

theorem channel_isSome : (d.channel node).isSome ↔ node ∈ d.streams := by
  rw [← AList.lookup_isSome]
  cases h : d.streams.lookup node with
  | none => simp [channel, h]
  | some sid =>
    obtain ⟨st, -, hchannel⟩ := channel_eq h
    simp [hchannel]

theorem send_streams : (d.send push node).streams = d.streams := by
  unfold send
  split
  · rfl
  · split
    · rfl
    · split_ifs <;> rfl

theorem channel_send_of_ne {node' : String} (hne : node' ≠ node) :
    (d.send push node).channel node' = d.channel node' := by
  have hopened : ∀ sid, d.streams.lookup node' = some sid →
      (d.send push node).opened[sid]? = d.opened[sid]? := by
    intro sid' hsid'
    unfold send
    split
    · rfl
    case h_2 sid hsid =>
      obtain ⟨st, hst, hnode⟩ := d.registered node sid hsid
      obtain ⟨st', hst', hnode'⟩ := d.registered node' sid' hsid'
      have hsids : sid ≠ sid' := by
        rintro rfl
        rw [hst] at hst'
        obtain rfl := Option.some.inj hst'
        exact hne (hnode'.symm.trans hnode)
      rw [hst]
      dsimp only
      split_ifs
      · simp [enqueue, modify, hsids]
      · rfl
  cases hsid : d.streams.lookup node' with
  | none => simp [channel, send_streams, hsid]
  | some sid => simp [channel, send_streams, hsid, hopened sid hsid]

theorem send_eq {sid : ℕ} {st : AgentStream} (hsid : d.streams.lookup node = some sid)
    (hst : d.opened[sid]? = some st) :
    d.send push node = if st.sends.length < sendCapacity then d.enqueue sid push else d := by
  simp only [send, hsid, hst]

theorem channel_send_self :
    (d.send push node).channel node = (d.channel node).map (offered push) := by
  cases hsid : d.streams.lookup node with
  | none => simp [channel, send_streams, hsid]
  | some sid =>
    obtain ⟨st, hst, hchannel⟩ := channel_eq hsid
    rw [hchannel, Option.map_some, offered, send_eq hsid hst]
    split_ifs with hroom
    · simp [channel, enqueue, modify, hsid, hst]
    · exact hchannel

theorem channel_broadcast {nodes : List String} (hn : nodes.Nodup) (d : Distributor) :
    (nodes.foldl (send push) d).channel node =
      if node ∈ nodes then (d.channel node).map (offered push) else d.channel node := by
  induction nodes generalizing d with
  | nil => simp
  | cons first nodes ih =>
    obtain ⟨hfirst, hn⟩ := List.nodup_cons.mp hn
    rw [List.foldl_cons, ih hn]
    by_cases hnode : node = first
    · subst hnode
      rw [if_neg hfirst, channel_send_self, if_pos List.mem_cons_self]
    · rw [channel_send_of_ne hnode]
      simp [hnode]

end Distributor

section Handler

variable {s s' : Server} {u : Unit}

/-- What `send` does when nothing else happens meanwhile. -/
theorem completes_send (node : String) (push : Proto.AgentPush) (s : Server) (u : Unit)
    (s' : Server) : (send node push).Completes Server.Exec s u s' ↔
      s' = { s with dist := s.dist.send push node } := by
  constructor
  · rintro ⟨r, s₁, ⟨rfl, rfl⟩, hrest⟩
    cases hsid : s₁.dist.streams.lookup node with
    | none =>
      rw [hsid] at hrest
      obtain ⟨-, rfl⟩ := hrest
      simp [Distributor.send, hsid]
    | some sid =>
      rw [hsid] at hrest
      obtain ⟨r, s₂, ⟨st, hst, rfl, rfl⟩, -, rfl⟩ := hrest
      rw [Distributor.send_eq hsid hst]
      by_cases hroom : st.sends.length < sendCapacity <;> simp [hroom]
  · rintro rfl
    refine ⟨_, s, ⟨rfl, rfl⟩, ?_⟩
    cases hsid : s.dist.streams.lookup node with
    | none =>
      refine ⟨rfl, ?_⟩
      simp [Distributor.send, hsid]
    | some sid =>
      obtain ⟨st, hst, -⟩ := s.dist.registered node sid hsid
      refine ⟨_, _, ⟨st, hst, rfl, rfl⟩, rfl, ?_⟩
      rw [Distributor.send_eq hsid hst]
      by_cases hroom : st.sends.length < sendCapacity <;> simp [hroom]

theorem completes_pushToAll {push : Proto.AgentPush} :
    (op .connectedAgents fun nodes : List String => each (fun node => send node push) nodes :
      Handler Unit).Completes Server.Exec s u s' ↔
      ∃ nodes : List String, nodes.Perm s.dist.streams.keys ∧
        s' = { s with dist := nodes.foldl (Distributor.send push) s.dist } := by
  have hfold : ∀ (nodes : List String) (s : Server),
      nodes.foldl (fun s node => { s with dist := s.dist.send push node }) s =
        { s with dist := nodes.foldl (Distributor.send push) s.dist } := by
    intro nodes
    induction nodes with
    | nil => exact fun _ => rfl
    | cons node nodes ih => exact fun s => ih _
  have heach : ∀ (nodes : List String) (s s' : Server),
      (each (fun node => send node push) nodes).Completes Server.Exec s u s' ↔
        s' = { s with dist := nodes.foldl (Distributor.send push) s.dist } := by
    intro nodes s s'
    rw [← hfold]
    exact completes_each fun node s u s' => completes_send node _ s u s'
  constructor
  · rintro ⟨nodes, s₁, ⟨hperm, rfl⟩, hrest⟩
    exact ⟨nodes, hperm, (heach nodes _ s').mp hrest⟩
  · rintro ⟨nodes, hperm, hs'⟩
    exact ⟨nodes, s, ⟨hperm, rfl⟩, (heach nodes s s').mpr hs'⟩

theorem completes_broadcastPolicy {snap : PolicySnapshot} :
    (broadcastPolicy snap).Completes Server.Exec s u s' ↔
      ∃ nodes : List String, nodes.Perm s.dist.streams.keys ∧
        s' = { s with dist := nodes.foldl (Distributor.send (.policy snap.bundle)) s.dist } :=
  completes_pushToAll

theorem completes_pushCertToAll {cb : Proto.CertBundle} :
    (pushCertToAll cb).Completes Server.Exec s u s' ↔
      ∃ nodes : List String, nodes.Perm s.dist.streams.keys ∧
        s' = { s with dist := nodes.foldl (Distributor.send (.cert cb)) s.dist } :=
  completes_pushToAll

theorem completes_readSnapshot {snap : PolicySnapshot} :
    readSnapshot.Completes Server.Exec s snap s' ↔
      (∃ order, snap = snapshot s.eng order) ∧ s' = s := by
  constructor
  · rintro ⟨rules, s₁, ⟨⟨order, rfl⟩, rfl⟩, dflt, s₂, ⟨rfl, rfl⟩, mode, s₃, ⟨rfl, rfl⟩, rfl, rfl⟩
    exact ⟨⟨order, rfl⟩, rfl⟩
  · rintro ⟨⟨order, rfl⟩, rfl⟩
    exact ⟨_, _, ⟨⟨order, rfl⟩, rfl⟩, _, _, ⟨rfl, rfl⟩, _, _, ⟨rfl, rfl⟩, rfl, rfl⟩

theorem completes_installConfig {eng : Engine} {reply : Reply} :
    (installConfig eng).Completes Server.Exec s reply s' ↔ reply = .accepted ∧
      ∃ (order : eng.RangeOrder) (nodes : List String), nodes.Perm s.dist.streams.keys ∧
        s' = { s with
          eng
          dist := nodes.foldl (Distributor.send (.policy (snapshot eng order).bundle)) s.dist } := by
  have hprog : installConfig eng = .op (.setEngine eng) fun _ => readSnapshot.bind fun snap =>
      (broadcastPolicy snap).bind fun _ => .ret .accepted := rfl
  rw [hprog]
  constructor
  · rintro ⟨r, s₁, rfl, hrest⟩
    obtain ⟨snap, s₂, hread, hrest⟩ := completes_bind.mp hrest
    obtain ⟨⟨order, rfl⟩, rfl⟩ := completes_readSnapshot.mp hread
    obtain ⟨u, s₃, hcast, rfl, rfl⟩ := completes_bind.mp hrest
    obtain ⟨nodes, hperm, rfl⟩ := completes_broadcastPolicy.mp hcast
    exact ⟨rfl, order, nodes, hperm, rfl⟩
  · rintro ⟨rfl, order, nodes, hperm, rfl⟩
    refine ⟨(), { s with eng }, rfl,
      completes_bind.mpr ⟨snapshot eng order, { s with eng }, ?_, ?_⟩⟩
    · exact completes_readSnapshot.mpr ⟨⟨order, rfl⟩, rfl⟩
    · exact completes_bind.mpr
        ⟨(), _, completes_broadcastPolicy.mpr ⟨nodes, hperm, rfl⟩, rfl, rfl⟩

/-- The handler of a body that is parsed, done alone, puts the policy on the channel of every
agent that has room. -/
theorem channel_installConfig {eng : Engine} {order : eng.RangeOrder} {nodes : List String}
    (hperm : nodes.Perm s.dist.streams.keys) {node : String} {waiting : List Proto.AgentPush}
    (hwaiting : s.dist.channel node = some waiting) :
    (nodes.foldl (Distributor.send (.policy (snapshot eng order).bundle)) s.dist).channel node =
      some (Distributor.offered (.policy (snapshot eng order).bundle) waiting) := by
  have hmem : node ∈ nodes := by
    rw [hperm.mem_iff, ← AList.mem_keys, ← Distributor.channel_isSome, hwaiting]
    rfl
  rw [Distributor.channel_broadcast (hperm.nodup_iff.mpr s.dist.streams.keys_nodup), if_pos hmem,
    hwaiting, Option.map_some]

end Handler

section Engines

/-- The same content, in whatever order the maps hold it. -/
structure Same (e e' : Engine) : Prop where
  sources : ∀ src, src ∈ e.allow ↔ src ∈ e'.allow
  pairs : ∀ src dst, e.allow.Lists src dst ↔ e'.allow.Lists src dst
  defaultAllow : e.defaultAllow = e'.defaultAllow
  mtlsMode : e.mtlsMode = e'.mtlsMode
  clusterId : e.clusterId = e'.clusterId

variable {e e' : Engine}

/-- An order in which one engine is iterated is one for the other. -/
def Same.order (h : Same e e') (order : e.RangeOrder) : e'.RangeOrder where
  sources := order.sources
  dests := order.dests
  sources_perm := by
    refine order.sources_perm.trans ?_
    rw [List.perm_ext_iff_of_nodup e.allow.keys_nodup e'.allow.keys_nodup]
    exact fun src => h.sources src
  dests_perm src dsts' hdsts' := by
    have hsrc : src ∈ e.allow := by
      rw [h.sources, ← AList.lookup_isSome, hdsts']
      rfl
    obtain ⟨dsts, hdsts⟩ := Option.isSome_iff_exists.mp (AList.lookup_isSome.mpr hsrc)
    refine (order.dests_perm src dsts hdsts).trans ?_
    rw [List.perm_ext_iff_of_nodup dsts.keys_nodup dsts'.keys_nodup]
    intro dst
    have hpair := h.pairs src dst
    simpa [AllowMap.Lists, hdsts, hdsts', AList.mem_keys] using hpair

theorem Same.carries (h : Same e e') {pb : Proto.PolicyBundle} (hpb : Carries e pb) :
    Carries e' pb := by
  obtain ⟨order, rfl⟩ := hpb
  refine ⟨h.order order, ?_⟩
  have hrules : e.rules order = e'.rules (h.order order) := rfl
  simp only [snapshot, PolicySnapshot.bundle, hrules, h.defaultAllow, h.mtlsMode]

end Engines

/-- `POST /api/v1/config`: reading the body can fail. -/
def serveConfig (unmarshal : List UInt8 → Except String MeshConfig) (body : List UInt8)
    (readFails : Bool) : Handler Reply :=
  if readFails then pure (.error 400 "failed to read body") else postConfig unmarshal body

theorem serveConfig_read (unmarshal : List UInt8 → Except String MeshConfig) (body : List UInt8) :
    serveConfig unmarshal body false = postConfig unmarshal body := rfl

/-- All of the config is in force, or nothing happened. -/
def AllOrNothing (unmarshal : List UInt8 → Except String MeshConfig) (body : List UInt8)
    (s : Server) (reply : Reply) (s' : Server) : Prop :=
  (reply = .accepted ∧ ∃ eng, newFromBytes unmarshal body = .ok eng ∧ Same s'.eng eng ∧
    ∀ node waiting, s.dist.channel node = some waiting → ∃ pb, Carries eng pb ∧
      s'.dist.channel node = some (waiting ++ [.policy pb])) ∨
  (∃ status text, reply = .error status text) ∧ s'.eng = s.eng ∧
    ∀ node, s'.dist.channel node = s.dist.channel node

/-- If the handler takes its first megabyte for a config, the body as a whole is one for the
same engine, and every agent's channel has room. -/
def TakenWhole (unmarshal : List UInt8 → Except String MeshConfig) (body : List UInt8)
    (s : Server) : Prop :=
  ∀ cut, newFromBytes unmarshal (body.take configLimit) = .ok cut →
    (∃ eng, newFromBytes unmarshal body = .ok eng ∧ Same cut eng) ∧
    ∀ node waiting, s.dist.channel node = some waiting → waiting.length < sendCapacity

section Reload

variable {unmarshal : List UInt8 → Except String MeshConfig} {body : List UInt8} {s s' : Server}
variable {reply : Reply} {cut : Engine}

theorem allOrNothing_of_takenWhole (h : TakenWhole unmarshal body s)
    (hrun : (postConfig unmarshal body).Completes Server.Exec s reply s') :
    AllOrNothing unmarshal body s reply s' := by
  unfold postConfig at hrun
  cases hcut : newFromBytes unmarshal (body.take configLimit) with
  | error err =>
    rw [hcut] at hrun
    obtain ⟨rfl, rfl⟩ := hrun
    exact Or.inr ⟨⟨_, _, rfl⟩, rfl, fun _ => rfl⟩
  | ok cut =>
    rw [hcut] at hrun
    obtain ⟨rfl, order, nodes, hperm, rfl⟩ := completes_installConfig.mp hrun
    obtain ⟨⟨eng, heng, hsame⟩, hroom⟩ := h cut hcut
    refine Or.inl ⟨rfl, eng, heng, hsame, fun node waiting hwaiting => ?_⟩
    refine ⟨_, hsame.carries ⟨order, rfl⟩, ?_⟩
    rw [channel_installConfig hperm hwaiting, Distributor.offered,
      if_pos (hroom node waiting hwaiting)]

theorem exists_completes_postConfig (hcut : newFromBytes unmarshal (body.take configLimit) = .ok cut)
    (s : Server) : ∃ s', (postConfig unmarshal body).Completes Server.Exec s .accepted s' ∧
      s'.eng = cut ∧ ∀ node waiting, s.dist.channel node = some waiting →
        s'.dist.channel node =
          some (Distributor.offered (.policy (snapshot cut (.listed cut)).bundle) waiting) := by
  unfold postConfig
  rw [hcut]
  refine ⟨_, completes_installConfig.mpr ⟨rfl, .listed cut, s.dist.streams.keys, .refl _, rfl⟩,
    rfl, fun node waiting hwaiting => ?_⟩
  exact channel_installConfig (.refl _) hwaiting

theorem takenWhole_of_allOrNothing
    (h : ∀ reply s', (postConfig unmarshal body).Completes Server.Exec s reply s' →
      AllOrNothing unmarshal body s reply s') : TakenWhole unmarshal body s := by
  intro cut hcut
  obtain ⟨s', hrun, rfl, hchannels⟩ := exists_completes_postConfig hcut s
  rcases h _ _ hrun with ⟨-, eng, heng, hsame, hsent⟩ | ⟨⟨status, text, hreply⟩, -⟩
  · refine ⟨⟨eng, heng, hsame⟩, fun node waiting hwaiting => ?_⟩
    obtain ⟨pb, -, hput⟩ := hsent node waiting hwaiting
    by_contra hfull
    rw [hchannels node waiting hwaiting, Distributor.offered, if_neg hfull] at hput
    simp at hput
  · cases hreply

end Reload

/-- For every parser, body and state: what a config request does alone is all or nothing
exactly if reading it fails, or what is cut off it makes no difference and no agent's channel
is full. -/
theorem config_all_or_nothing_iff (unmarshal : List UInt8 → Except String MeshConfig)
    (body : List UInt8) (readFails : Bool) (s : Server) :
    (∀ reply s', (serveConfig unmarshal body readFails).Completes Server.Exec s reply s' →
      AllOrNothing unmarshal body s reply s') ↔
      readFails = true ∨ TakenWhole unmarshal body s := by
  cases readFails with
  | true =>
    refine iff_of_true ?_ (Or.inl rfl)
    rintro reply s' ⟨rfl, rfl⟩
    exact Or.inr ⟨⟨_, _, rfl⟩, rfl, fun _ => rfl⟩
  | false =>
    rw [serveConfig_read]
    constructor
    · exact fun h => Or.inr (takenWhole_of_allOrNothing h)
    · intro h reply s' hrun
      exact allOrNothing_of_takenWhole (h.resolve_left Bool.false_ne_true) hrun

/-- The start of a config, up to a comment. -/
def configHead : Bytes :=
  Bytes.utf8 "policy:\n  allow:\n  - from: alpha\n    to: [beta]\n#"

/-- A config with a comment that runs over the first megabyte, and one more rule. -/
def longConfig : Bytes :=
  configHead ++ List.replicate (configLimit - configHead.length) 0x23 ++
    Bytes.utf8 "\n  - from: beta\n    to: [gamma]\n"

def configOf (allow : List AllowRule) : MeshConfig where
  mesh := { name := "", clusterId := "" }
  policy := { mtlsMode := "", defaultAllow := false, allow := .of allow }

def alphaRule : AllowRule where
  fromSvc := "alpha"
  toSvcs := .of ["beta"]

def betaRule : AllowRule where
  fromSvc := "beta"
  toSvcs := .of ["gamma"]

/-- The parser on the long config and on its first megabyte. -/
def unmarshalLong (data : Bytes) : Except String MeshConfig :=
  if data = longConfig then .ok (configOf [alphaRule, betaRule])
  else if data = longConfig.take configLimit then .ok (configOf [alphaRule])
  else .error "yaml: unmarshal errors"

theorem take_ne_longConfig : longConfig.take configLimit ≠ longConfig := by
  intro h
  have hlong : configLimit < longConfig.length := by
    have hhead : configHead.length = 49 := by decide +kernel
    have htail : (Bytes.utf8 "\n  - from: beta\n    to: [gamma]\n").length = 32 := by decide +kernel
    simp only [longConfig, List.length_append, List.length_replicate, hhead, htail, configLimit]
    omega
  have hlength := congrArg List.length h
  rw [List.length_take] at hlength
  omega

theorem newFromBytes_long :
    newFromBytes unmarshalLong longConfig = .ok (newEngine (configOf [alphaRule, betaRule])) := by
  rw [newFromBytes, unmarshalLong, if_pos rfl]

theorem newFromBytes_cut : newFromBytes unmarshalLong (longConfig.take configLimit) =
    .ok (newEngine (configOf [alphaRule])) := by
  rw [newFromBytes, unmarshalLong, if_neg take_ne_longConfig, if_pos rfl]

/-- The rule behind the first megabyte is dropped, and the answer is that the config was
accepted. -/
theorem longConfig_cut :
    ¬ ∀ unmarshal body s reply s',
      (serveConfig unmarshal body false).Completes Server.Exec s reply s' →
      AllOrNothing unmarshal body s reply s' := by
  intro h
  have hrun := h unmarshalLong longConfig demoBoot.server
  rw [serveConfig_read] at hrun
  have hwhole := takenWhole_of_allOrNothing hrun
  obtain ⟨eng, heng, hsame⟩ := (hwhole _ newFromBytes_cut).1
  obtain rfl := Except.ok.inj (newFromBytes_long.symm.trans heng)
  have hbeta := hsame.sources "beta"
  rw [mem_newEngine_allow, mem_newEngine_allow] at hbeta
  exact absurd (hbeta.mpr (by decide)) (by decide)

end Meshlite.Sigil
