import Meshlite.Policy.Export

/-!
# The operator CLI

`meshctl verify` decodes `GET /api/v1/policy` and scans its rules once more, in Go.
-/

namespace Meshlite.Meshctl

open Policy

structure AllowRule where
  fromSvc : String
  toSvcs : Slice String
  deriving DecidableEq, Repr

structure PolicyResponse where
  mtlsMode : String
  defaultAllow : Bool
  rules : Slice AllowRule
  deriving DecidableEq, Repr

/-- `isAllowed` of `types.go`: the first rule with this source decides. -/
def isAllowed (policy : PolicyResponse) (src dst : String) : Bool :=
  FirstMatch.scan AllowRule.fromSvc (fun r => r.toSvcs.elems) policy.defaultAllow src dst
    policy.rules.elems

section Decode

/-- `encoding/json` into a `string`: `null` leaves the zero value. -/
def decodeString : Json → Except String String
  | .str s => .ok s
  | .null => .ok ""
  | _ => .error "json: cannot unmarshal into Go value of type string"

def decodeBool : Json → Except String Bool
  | .bool b => .ok b
  | .null => .ok false
  | _ => .error "json: cannot unmarshal into Go value of type bool"

/-- `encoding/json` into a slice: `null` gives `nil`. -/
def decodeSlice {α : Type} (item : Json → Except String α) : Json → Except String (Slice α)
  | .null => .ok .nil
  | .arr xs => (xs.mapM item).map .of
  | _ => .error "json: cannot unmarshal into Go value of slice type"

def decodeRule (j : Json) : Except String AllowRule := do
  let fromSvc ← decodeString ((j.field "from").getD .null)
  let toSvcs ← decodeSlice decodeString ((j.field "to").getD .null)
  return { fromSvc, toSvcs }

/-- A missing member leaves its field at the zero value. -/
def decodePolicyResponse (j : Json) : Except String PolicyResponse := do
  let mtlsMode ← decodeString ((j.field "mtls_mode").getD .null)
  let defaultAllow ← decodeBool ((j.field "default_allow").getD .null)
  let rules ← decodeSlice decodeRule ((j.field "rules").getD .null)
  return { mtlsMode, defaultAllow, rules }

end Decode

/-- The outcomes of `meshctl verify`. -/
inductive Verdict where
  | allow
  | deny
  deriving DecidableEq, Repr

/-- `verifyCmd`, with the JSON value its request to Sigil returned. -/
def verify (got : Except String Json) (verifyFrom verifyTo : String) : Except String Verdict :=
  if verifyFrom = "" ∨ verifyTo = "" then .error "--from and --to are required"
  else do
    let policy ← decodePolicyResponse (← got)
    return if isAllowed policy verifyFrom verifyTo then .allow else .deny

section Response

variable {e : Engine} (order : e.RangeOrder)

/-- The rules of `GET /api/v1/policy` as `meshctl` holds them. -/
def responseOf : PolicyResponse where
  mtlsMode := e.mtlsMode
  defaultAllow := e.defaultAllow
  rules := .of ((e.rules order).map fun r => { fromSvc := r.fromSvc, toSvcs := r.toSvcs })

theorem decodeSlice_encodeStrings (s : Slice String) :
    decodeSlice decodeString (Sigil.encodeStrings s) = .ok s := by
  cases s with
  | nil => rfl
  | of xs =>
    have hmap : (xs.map Json.str).mapM decodeString = .ok xs := by
      rw [List.mapM_map]
      exact (Json.mapM_eq_ok fun a _ => rfl).trans (by rw [List.map_id'])
    simp [Sigil.encodeStrings, decodeSlice, hmap, Except.map]

/-- The Go decoder reads back exactly what the Go encoder wrote. -/
theorem decodePolicyResponse_encode :
    decodePolicyResponse (Sigil.policyResp e order).encode = .ok (responseOf order) := by
  have hrule : ∀ r : Policy.AllowRule, decodeRule (Sigil.encodeRule r) =
      .ok { fromSvc := r.fromSvc, toSvcs := r.toSvcs } := by
    intro r
    simp [Sigil.encodeRule, decodeRule, Json.field, List.lookup_cons, decodeString,
      decodeSlice_encodeStrings]
    rfl
  have hrules : ((e.rules order).map Sigil.encodeRule).mapM decodeRule =
      .ok ((e.rules order).map fun r => { fromSvc := r.fromSvc, toSvcs := r.toSvcs }) := by
    rw [List.mapM_map]
    exact Json.mapM_eq_ok fun r _ => hrule r
  simp [decodePolicyResponse, Sigil.PolicyResp.encode, Json.field, List.lookup_cons, decodeString,
    decodeBool, decodeSlice, Sigil.policyResp, hrules, Except.map, responseOf]
  rfl

theorem isAllowed_responseOf (src dst : String) :
    isAllowed (responseOf order) src dst = true ↔ e.Exports src dst := by
  have hscan : isAllowed (responseOf order) src dst =
      (Sigil.pushedCache order Tls.PolicyCache.new).isAllowed src dst := by
    rw [Tls.PolicyCache.isAllowed, Sigil.pushedCache_rules]
    simp [isAllowed, responseOf, Engine.rules, FirstMatch.scan_map, Function.comp_def,
      Engine.exported_elems]
  rw [hscan, Sigil.isAllowed_pushedCache]

end Response

end Meshlite.Meshctl
