import Meshlite.Conduit.HttpClient
import Meshlite.Policy.PolicyCache
import Meshlite.Sigil.RestApi

/-!
# Fetching the policy

`fetch_policy` reads `GET /api/v1/policy`, cuts the header off and hands the rest to
`serde_json::from_slice`, which parses the text and then fills `PolicyResponse` from
the value.
-/

namespace Meshlite.Conduit

open Bytes Policy

structure RemoteRule where
  fromSvc : String
  toSvcs : List String
  deriving DecidableEq, Repr

structure PolicyResponse where
  mtlsMode : String
  defaultAllow : Bool
  rules : List RemoteRule
  deriving DecidableEq, Repr

structure PolicySnapshot where
  mtlsMode : String
  defaultAllow : Bool
  rules : List Tls.AllowRule
  deriving DecidableEq, Repr

section Decode

def decodeString : Json → Except String String
  | .str s => .ok s
  | _ => .error "invalid type, expected a string"

def decodeBool : Json → Except String Bool
  | .bool b => .ok b
  | _ => .error "invalid type, expected a boolean"

/-- `Vec<T>`: an array and nothing else, so `null` is refused. -/
def decodeVec {α : Type} (item : Json → Except String α) : Json → Except String (List α)
  | .arr items => items.mapM item
  | _ => .error "invalid type, expected a sequence"

/-- A member of a derived struct: present exactly once. -/
def requireField (name : String) (fields : List (String × Json)) : Except String Json :=
  match fields.filter (·.1 = name) with
  | [] => .error ("missing field " ++ name)
  | [f] => .ok f.2
  | _ => .error ("duplicate field " ++ name)

/-- A derived struct is read from an object, or from an array of its members. -/
def decodeRemoteRule : Json → Except String RemoteRule
  | .obj fields => do
    let fromSvc ← decodeString (← requireField "from" fields)
    let toSvcs ← decodeVec decodeString (← requireField "to" fields)
    return { fromSvc, toSvcs }
  | .arr [fromSvc, toSvcs] => do
    return { fromSvc := ← decodeString fromSvc, toSvcs := ← decodeVec decodeString toSvcs }
  | _ => .error "invalid type, expected struct RemoteRule"

def decodePolicyResponse : Json → Except String PolicyResponse
  | .obj fields => do
    let mtlsMode ← decodeString (← requireField "mtls_mode" fields)
    let defaultAllow ← decodeBool (← requireField "default_allow" fields)
    let rules ← decodeVec decodeRemoteRule (← requireField "rules" fields)
    return { mtlsMode, defaultAllow, rules }
  | .arr [mtlsMode, defaultAllow, rules] => do
    return {
      mtlsMode := ← decodeString mtlsMode
      defaultAllow := ← decodeBool defaultAllow
      rules := ← decodeVec decodeRemoteRule rules }
  | _ => .error "invalid type, expected struct PolicyResponse"

end Decode

section Fetch

-- the parser of `serde_json`: the value a text denotes
variable (fromSlice : Bytes → Except String Json)

/-- `fetch_policy`, with the bytes its connection to Sigil delivered. -/
def fetchPolicy (got : Except String Bytes) : Except String PolicySnapshot := do
  let bytes ← extractBody (← got)
  let resp ← decodePolicyResponse (← fromSlice bytes)
  return {
    mtlsMode := resp.mtlsMode
    defaultAllow := resp.defaultAllow
    rules := resp.rules.map fun r => { fromService := r.fromSvc, toServices := r.toSvcs } }

/-- The parser reads the body of `v` as `v`. -/
def Reads (v : Json) : Prop := fromSlice (Sigil.jsonBody v) = .ok v

/-- No text that starts with a hexadecimal digit is an object or an array. -/
def NoHexStructure : Prop :=
  ∀ b rest j, Sigil.IsHexDigit b → fromSlice (b :: rest) = .ok j →
    (∀ fields, j ≠ .obj fields) ∧ ∀ items, j ≠ .arr items

end Fetch

/-- The snapshot says what the engine says: each source once, with its destinations. -/
structure PolicySnapshot.Carries (snap : PolicySnapshot) (e : Engine) : Prop where
  defaultAllow : snap.defaultAllow = e.defaultAllow
  mtlsMode : snap.mtlsMode = e.mtlsMode
  sources : (snap.rules.map Tls.AllowRule.fromService).Perm e.allow.keys
  pairs : ∀ src dst,
    (∃ r ∈ snap.rules, r.fromService = src ∧ dst ∈ r.toServices) ↔ e.allow.Lists src dst

section Response

variable {fromSlice : Bytes → Except String Json} {e : Engine} (order : e.RangeOrder)

/-- The snapshot fetched when decoding succeeds. -/
def snapshotOf : PolicySnapshot where
  mtlsMode := e.mtlsMode
  defaultAllow := e.defaultAllow
  rules := order.sources.map fun src => { fromService := src, toServices := order.dests src }

theorem snapshotOf_carries : (snapshotOf order).Carries e where
  defaultAllow := rfl
  mtlsMode := rfl
  sources := by
    simpa [snapshotOf, Function.comp_def] using order.sources_perm
  pairs := by
    intro src dst
    rw [← Engine.exists_mem_rules order]
    simp [snapshotOf, Engine.rules, Engine.exported_elems]

theorem decodeVec_encodeStrings {xs : List String} (hx : xs ≠ []) :
    decodeVec decodeString (Sigil.encodeStrings (xs.foldl Slice.append .nil)) = .ok xs := by
  have hitems : (xs.map Json.str).mapM decodeString = .ok xs := by
    rw [List.mapM_map]
    exact (Json.mapM_eq_ok fun a _ => rfl).trans (by rw [List.map_id'])
  rw [Slice.foldl_append, if_neg hx]
  exact hitems

theorem decodeRemoteRule_fields (fromSvc toSvcs : Json) :
    decodeRemoteRule (.obj [("from", fromSvc), ("to", toSvcs)]) =
      (do return { fromSvc := ← decodeString fromSvc
                   toSvcs := ← decodeVec decodeString toSvcs }) := rfl

theorem decodePolicyResponse_fields (mtlsMode defaultAllow rules : Json) :
    decodePolicyResponse (.obj [("mtls_mode", mtlsMode), ("default_allow", defaultAllow),
        ("rules", rules)]) =
      (do return { mtlsMode := ← decodeString mtlsMode
                   defaultAllow := ← decodeBool defaultAllow
                   rules := ← decodeVec decodeRemoteRule rules }) := rfl

theorem decodeRemoteRule_encode {src : String} {xs : List String} (hx : xs ≠ []) :
    decodeRemoteRule
        (Sigil.encodeRule { fromSvc := src, toSvcs := xs.foldl Slice.append .nil }) =
      .ok { fromSvc := src, toSvcs := xs } := by
  rw [Sigil.encodeRule, decodeRemoteRule_fields, decodeVec_encodeStrings hx]
  rfl

/-- A source without a destination has a `nil` slice, and `null` is not a sequence. -/
theorem decodeRemoteRule_nil (src : String) (r : RemoteRule) :
    decodeRemoteRule (Sigil.encodeRule { fromSvc := src, toSvcs := .nil }) ≠ .ok r := by
  rw [Sigil.encodeRule, decodeRemoteRule_fields]
  intro h
  cases h

theorem decodePolicyResponse_encode (h : ∀ src ∈ order.sources, order.dests src ≠ []) :
    decodePolicyResponse (Sigil.policyResp e order).encode = .ok
      { mtlsMode := e.mtlsMode
        defaultAllow := e.defaultAllow
        rules := order.sources.map fun src => { fromSvc := src, toSvcs := order.dests src } } := by
  have hrules : ((e.rules order).map Sigil.encodeRule).mapM decodeRemoteRule =
      .ok (order.sources.map fun src => { fromSvc := src, toSvcs := order.dests src }) := by
    rw [Engine.rules, List.map_map, List.mapM_map]
    exact Json.mapM_eq_ok fun src hsrc => decodeRemoteRule_encode (h src hsrc)
  rw [Sigil.PolicyResp.encode, decodePolicyResponse_fields]
  simp only [Sigil.policyResp, decodeVec, hrules]
  rfl

theorem decodePolicyResponse_ne_ok {src : String} (hsrc : src ∈ order.sources)
    (hnil : order.dests src = []) (resp : PolicyResponse) :
    decodePolicyResponse (Sigil.policyResp e order).encode ≠ .ok resp := by
  have hmem : Sigil.encodeRule { fromSvc := src, toSvcs := .nil } ∈
      (e.rules order).map Sigil.encodeRule := by
    refine List.mem_map.mpr ⟨_, List.mem_map.mpr ⟨src, hsrc, rfl⟩, ?_⟩
    rw [hnil]
    rfl
  have hrules := Json.mapM_ne_ok hmem (decodeRemoteRule_nil src)
  rw [Sigil.PolicyResp.encode, decodePolicyResponse_fields]
  simp only [Sigil.policyResp, decodeVec]
  cases hr : ((e.rules order).map Sigil.encodeRule).mapM decodeRemoteRule with
  | error err =>
    intro h
    cases h
  | ok rules => exact absurd hr (hrules rules)

variable (fromSlice) in
theorem fetchPolicy_getPolicy (header : Sigil.HeaderLines) :
    fetchPolicy fromSlice (.ok (Sigil.getPolicy header e order)) = (do
      let resp ← decodePolicyResponse (← fromSlice (Sigil.framed
        (Sigil.jsonBody (Sigil.policyResp e order).encode)))
      return {
        mtlsMode := resp.mtlsMode
        defaultAllow := resp.defaultAllow
        rules := resp.rules.map fun r => { fromService := r.fromSvc, toServices := r.toSvcs } }) := by
  have hbody := extractBody_block
    (Sigil.header_isLine header (Sigil.jsonBody (Sigil.policyResp e order).encode))
    (Sigil.framed (Sigil.jsonBody (Sigil.policyResp e order).encode))
  rw [fetchPolicy, Sigil.getPolicy, Sigil.writeJson]
  simp only [bind, Except.bind, hbody]

theorem fetchPolicy_ok (header : Sigil.HeaderLines)
    (hread : Reads fromSlice (Sigil.policyResp e order).encode)
    (hdests : ∀ src ∈ order.sources, order.dests src ≠ [])
    (hsize : Sigil.policySize e ≤ 2048) :
    fetchPolicy fromSlice (.ok (Sigil.getPolicy header e order)) = .ok (snapshotOf order) := by
  have hplain : (Sigil.jsonBody (Sigil.policyResp e order).encode).length ≤
      Sigil.bufferBeforeChunkingSize := by
    rw [Sigil.jsonBody_length]
    exact hsize
  rw [fetchPolicy_getPolicy, Sigil.framed, if_pos hplain, hread]
  simp only [bind, Except.bind, decodePolicyResponse_encode order hdests, snapshotOf]
  simp [pure, Except.pure, Function.comp_def]

theorem fetchPolicy_chunked_ne_ok (header : Sigil.HeaderLines) (hshape : NoHexStructure fromSlice)
    (hsize : ¬ Sigil.policySize e ≤ 2048) (snap : PolicySnapshot) :
    fetchPolicy fromSlice (.ok (Sigil.getPolicy header e order)) ≠ .ok snap := by
  have hchunk : ¬ (Sigil.jsonBody (Sigil.policyResp e order).encode).length ≤
      Sigil.bufferBeforeChunkingSize := by
    rw [Sigil.jsonBody_length]
    exact hsize
  have hpos : (Sigil.jsonBody (Sigil.policyResp e order).encode).length ≠ 0 := by
    intro h
    exact hchunk (h ▸ Nat.zero_le _)
  obtain ⟨b, rest, hsz, hb⟩ := Sigil.digits_cons hpos
  rw [fetchPolicy_getPolicy, Sigil.framed, if_neg hchunk, Sigil.chunked, hsz]
  simp only [List.cons_append, bind, Except.bind]
  cases hj : fromSlice _ with
  | error err => nofun
  | ok j =>
    obtain ⟨hobj, harr⟩ := hshape _ _ _ hb hj
    cases j with
    | obj fields => exact absurd rfl (hobj fields)
    | arr items => exact absurd rfl (harr items)
    | _ => nofun

theorem fetchPolicy_nil_ne_ok (header : Sigil.HeaderLines)
    (hread : Reads fromSlice (Sigil.policyResp e order).encode)
    (hsize : Sigil.policySize e ≤ 2048) {src : String} (hsrc : src ∈ order.sources)
    (hnil : order.dests src = []) (snap : PolicySnapshot) :
    fetchPolicy fromSlice (.ok (Sigil.getPolicy header e order)) ≠ .ok snap := by
  have hplain : (Sigil.jsonBody (Sigil.policyResp e order).encode).length ≤
      Sigil.bufferBeforeChunkingSize := by
    rw [Sigil.jsonBody_length]
    exact hsize
  rw [fetchPolicy_getPolicy, Sigil.framed, if_pos hplain, hread]
  simp only [bind, Except.bind]
  cases hd : decodePolicyResponse (Sigil.policyResp e order).encode with
  | error err => nofun
  | ok resp => exact absurd hd (decodePolicyResponse_ne_ok order hsrc hnil resp)

end Response

end Meshlite.Conduit
