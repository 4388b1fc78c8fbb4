import Meshlite.Library.JsonRoundTrip
import Meshlite.Trace.Telemetry

/-!
# The body of a telemetry request

At most a mebibyte of the body is read and decoded, as one record or as a batch. Fields
are found by their names up to case, `null` leaves a field alone, a field of the wrong
type refuses the whole request.
-/

namespace Meshlite.Trace

open Bytes Json

/-- What Go's library makes of the text of a number and of a time. -/
structure GoText where
  /-- `strconv.ParseFloat(_, 64)`; an error where the number is out of range -/
  parseFloat : String → Option ℚ
  /-- RFC 3339, of the bytes between the quotes: escapes are not undone -/
  parseTime : Bytes → Option Timestamp

/-- `strconv.ParseInt(_, 10, 64)` of the text of a number. -/
def parseInt (text : String) : Option ℤ :=
  let digits := if text.toList.head? = some '-' then text.toList.tail else text.toList
  let size : ℤ := Nat.ofDigitChars 10 digits 0
  let n := if text.toList.head? = some '-' then -size else size
  if digits ≠ [] ∧ digits.all Char.isDigit ∧ -2 ^ 63 ≤ n ∧ n < 2 ^ 63 then some n else none

section Decode

variable (go : GoText)

def asString : Json Quoted → Option String
  | .str s => some s.text
  | _ => none

def asBool : Json Quoted → Option Bool
  | .bool b => some b
  | _ => none

def asInt : Json Quoted → Option ℤ
  | .num t => parseInt t
  | _ => none

def asFloat : Json Quoted → Option ℚ
  | .num t => go.parseFloat t
  | _ => none

/-- `Time.UnmarshalJSON`. -/
def asTime : Json Quoted → Option Timestamp
  | .str s => go.parseTime s.raw
  | _ => none

/-- A field takes the decoded value; `null` leaves it alone. -/
def assign {α : Type} (r : TelemetryRecord) (decoded : Option α) (set : α → TelemetryRecord) :
    Json Quoted → Option TelemetryRecord
  | .null => some r
  | _ => decoded.map set

/-- The field of a member is found by its name, or else by the name up to case. -/
def setField (r : TelemetryRecord) (m : Quoted × Json Quoted) : Option TelemetryRecord :=
  let (⟨key, _⟩, j) := m
  if equalFold key "source_service" then
    assign r (asString j) (fun s => { r with sourceService := s }) j
  else if equalFold key "destination_service" then
    assign r (asString j) (fun s => { r with destinationService := s }) j
  else if equalFold key "cluster_id" then
    assign r (asString j) (fun s => { r with clusterId := s }) j
  else if equalFold key "leg" then assign r (asString j) (fun s => { r with leg := s }) j
  else if equalFold key "verdict" then assign r (asString j) (fun s => { r with verdict := s }) j
  else if equalFold key "latency_ms" then
    assign r (asFloat go j) (fun x => { r with latencyMs := x }) j
  else if equalFold key "tls_verified" then
    assign r (asBool j) (fun b => { r with tlsVerified := b }) j
  else if equalFold key "status_code" then
    assign r (asInt j) (fun n => { r with statusCode := n }) j
  else if equalFold key "error_reason" then
    assign r (asString j) (fun s => { r with errorReason := s }) j
  else if equalFold key "timestamp" then
    assign r (asTime go j) (fun t => { r with timestamp := t }) j
  else if equalFold key "protocol" then assign r (asString j) (fun s => { r with protocol := s }) j
  else if equalFold key "request_id" then
    assign r (asString j) (fun s => { r with requestId := s }) j
  else if equalFold key "source_ip" then assign r (asString j) (fun s => { r with sourceIp := s }) j
  else if equalFold key "dest_ip" then assign r (asString j) (fun s => { r with destIp := s }) j
  else if equalFold key "bytes_in" then
    assign r (asInt j) (fun n => { r with bytesIn := Int64.ofInt n }) j
  else if equalFold key "bytes_out" then
    assign r (asInt j) (fun n => { r with bytesOut := Int64.ofInt n }) j
  else some r

/-- A value as a record; the members are taken in their order. -/
def decodeRecord : Json Quoted → Option TelemetryRecord
  | .null => some {}
  | .obj fields => fields.foldlM (setField go) {}
  | _ => none

def decodeBatch : Json Quoted → Option (List TelemetryRecord)
  | .arr items => items.mapM (decodeRecord go)
  | _ => none

/-- The records that a document stands for: a batch, or one record. -/
def recordsOf : Json Quoted → Option (List TelemetryRecord)
  | .arr items => items.mapM (decodeRecord go)
  | j => (decodeRecord go j).map ([·])

end Decode

/-- What the connection delivers of the body, and the error it ends with if it breaks. -/
structure Body where
  delivered : Bytes
  broken : Option String := none

/-- `readPayload`: the first mebibyte. -/
def readPayload (body : Body) : Except String Bytes :=
  if 2 ^ 20 ≤ body.delivered.length then .ok (body.delivered.take (2 ^ 20))
  else match body.broken with
    | none => .ok body.delivered
    | some err => .error err

/-- The trimmed payload starts with a bracket. -/
def opensBatch (payload : Bytes) : Bool :=
  ((lossy 0 payload).dropWhile Conduit.isWhitespace).head? = some '['

inductive Reply where
  | accepted (records : ℕ)
  | badRequest (text : String)
  deriving DecidableEq, Repr

namespace Server

variable (go : GoText) (decodeError : Bytes → String) (clock : ℕ → Timestamp × Timestamp)

/-- The calls of `AddRecord` for the records of a request, with what the clock shows. -/
def callsOf (records : List TelemetryRecord) : List Call :=
  records.zipIdx.map fun (r, i) => ⟨r, (clock i).1, (clock i).2⟩

/-- `json.Unmarshal` of the payload into a batch or into a record. -/
def unmarshal (payload : Bytes) : Except String (List TelemetryRecord) :=
  let doc := Json.read quotedLeaf maxNestingDepth payload
  if opensBatch payload then
    match doc.bind (decodeBatch go) with
    | some records => .ok records
    | none => .error s!"invalid telemetry batch: {decodeError payload}"
  else
    match doc.bind (decodeRecord go) with
    | some record => .ok [record]
    | none => .error s!"invalid telemetry record: {decodeError payload}"

/-- The handler of `POST /api/v1/telemetry`. -/
def postTelemetry (T : Server) (body : Body) : Server × Reply :=
  match readPayload body with
  | .error err => (T, .badRequest err)
  | .ok payload => match unmarshal go decodeError payload with
    | .error text => (T, .badRequest text)
    | .ok records => ((callsOf clock records).foldl ingest T, .accepted records.length)

end Server

section Documents

variable {go : GoText} {decodeError : Bytes → String} {payload : Bytes}
  {j : Json Quoted} {records : List TelemetryRecord}

theorem isWhitespace_ascii {b : UInt8} (hb : b < 0x80) :
    Conduit.isWhitespace (Char.ofNat b.toNat) = true ↔ 9 ≤ b ∧ b ≤ 13 ∨ b = 32 := by
  have hlt : b.toNat < 128 := hb
  simp only [Conduit.isWhitespace, toNat_ascii hb, ← UInt8.toNat_inj, UInt8.le_iff_toNat_le,
    Bool.or_eq_true, Bool.and_eq_true, decide_eq_true_eq, List.mem_cons, List.not_mem_nil,
    or_false, UInt8.reduceToNat]
  omega

theorem isWhitespace_isSpace {b : UInt8} (h : isSpace b = true) :
    b < 0x80 ∧ Conduit.isWhitespace (Char.ofNat b.toNat) = true := by
  simp only [isSpace, Bool.or_eq_true, decide_eq_true_eq] at h
  rcases h with ((rfl | rfl) | rfl) | rfl <;> decide

theorem isWhitespace_opens {b : UInt8} (h : Opens b) :
    Conduit.isWhitespace (Char.ofNat b.toNat) = false := by
  rcases h with hmem | hdigit
  · fin_cases hmem <;> decide
  · have hascii := Opens.ascii (Or.inr hdigit)
    rw [isDigit, Bool.and_eq_true, decide_eq_true_eq, decide_eq_true_eq] at hdigit
    rw [← Bool.not_eq_true, isWhitespace_ascii hascii]
    simp only [UInt8.le_iff_toNat_le, ← UInt8.toNat_inj, UInt8.reduceToNat] at hdigit ⊢
    omega

theorem trim_lossy {c : UInt8} {raw tail : Bytes} (hraw : raw.dropWhile isSpace = c :: tail)
    (hascii : c < 0x80) (hvisible : Conduit.isWhitespace (Char.ofNat c.toNat) = false) :
    (lossy 0 raw).dropWhile Conduit.isWhitespace = Char.ofNat c.toNat :: lossy 0 tail := by
  induction raw with
  | nil => cases hraw
  | cons b raw ih =>
    by_cases hblank : isSpace b = true
    · obtain ⟨hb, hspace⟩ := isWhitespace_isSpace hblank
      rw [List.dropWhile_cons_of_pos hblank] at hraw
      rw [lossy_ascii hb, List.dropWhile_cons_of_pos hspace, ih hraw]
    · rw [List.dropWhile_cons_of_neg hblank] at hraw
      obtain ⟨rfl, rfl⟩ := List.cons.inj hraw
      rw [lossy_ascii hascii, List.dropWhile_cons_of_neg (by simp [hvisible])]

theorem opensBatch_iff {depth : ℕ} (h : Json.read quotedLeaf depth payload = some j) :
    opensBatch payload = true ↔ ∃ items, j = .arr items := by
  obtain ⟨n, rest, hvalue, -⟩ := read_eq_some.mp h
  obtain ⟨c, tail, hraw, ⟨rfl, harr⟩ | ⟨hopens, hother⟩⟩ := value_head hvalue
  · rw [opensBatch, trim_lossy hraw (by decide) (by decide)]
    exact iff_of_true rfl harr
  · rw [opensBatch, trim_lossy hraw hopens.ascii (isWhitespace_opens hopens)]
    refine iff_of_false (fun hbracket => ?_) fun ⟨items, hj⟩ => hother items hj
    rw [List.head?_cons, decide_eq_true_eq, Option.some.injEq] at hbracket
    have hcode := congrArg Char.toNat hbracket
    rw [toNat_ascii hopens.ascii] at hcode
    have hc : c = 91 := UInt8.toNat_inj.mp hcode
    exact absurd (hc ▸ hopens) (by decide)

theorem recordsOf_arr (items : List (Json Quoted)) :
    recordsOf go (.arr items) = decodeBatch go (.arr items) ∧ decodeRecord go (.arr items) = none :=
  ⟨rfl, rfl⟩

theorem recordsOf_of_ne (hj : ∀ items, j ≠ .arr items) :
    recordsOf go j = (decodeRecord go j).map ([·]) ∧ decodeBatch go j = none := by
  cases j with
  | arr items => exact absurd rfl (hj items)
  | _ => exact ⟨rfl, rfl⟩

/-- The bytes are a document that stands for the records. -/
def StandsFor (go : GoText) (raw : Bytes) (records : List TelemetryRecord) : Prop :=
  ∃ j, Json.read quotedLeaf maxNestingDepth raw = some j ∧ recordsOf go j = some records

/-- A payload is accepted for what its document stands for, whichever way it is decoded. -/
theorem unmarshal_eq_ok_iff : Server.unmarshal go decodeError payload = .ok records ↔
    StandsFor go payload records := by
  rw [Server.unmarshal, StandsFor]
  cases hread : Json.read quotedLeaf maxNestingDepth payload with
  | none => split_ifs <;> simp
  | some j =>
    by_cases harr : ∃ items, j = .arr items
    · obtain ⟨items, rfl⟩ := harr
      rw [if_pos ((opensBatch_iff hread).mpr ⟨items, rfl⟩), Option.bind_some]
      cases hbatch : decodeBatch go (.arr items) <;> simp [recordsOf_arr, hbatch]
    · have hother : ∀ items, j ≠ .arr items := fun items hj => harr ⟨items, hj⟩
      rw [if_neg (mt (opensBatch_iff hread).mp harr), Option.bind_some]
      cases hrecord : decodeRecord go j <;> simp [recordsOf_of_ne hother, hrecord]

theorem delimited_of_recordsOf (h : recordsOf go j = some records) : Delimited j := by
  rintro text rfl
  cases h

end Documents

section Intake

variable (go : GoText) (decodeError : Bytes → String) (clock : ℕ → Timestamp × Timestamp)

theorem prefix_of_readPayload {body : Body} {payload : Bytes}
    (h : readPayload body = .ok payload) : payload <+: body.delivered := by
  rw [readPayload] at h
  split_ifs at h
  · cases h
    exact List.take_prefix _ _
  · cases hbroken : body.broken with
    | none =>
      rw [hbroken] at h
      cases h
      exact List.prefix_rfl
    | some err =>
      rw [hbroken] at h
      cases h

theorem readPayload_fits {body : Body} (hunbroken : body.broken = none)
    (hfits : body.delivered.length ≤ 2 ^ 20) : readPayload body = .ok body.delivered := by
  rw [readPayload, hunbroken]
  split_ifs
  · rw [List.take_of_length_le hfits]
  · rfl

theorem length_of_readPayload {body : Body} {payload : Bytes}
    (h : readPayload body = .ok payload) : payload.length ≤ 2 ^ 20 := by
  rw [readPayload] at h
  split_ifs at h with hlong
  · cases h
    exact List.length_take_le _ _
  · cases hbroken : body.broken with
    | none =>
      rw [hbroken] at h
      cases h
      omega
    | some err =>
      rw [hbroken] at h
      cases h

variable {go decodeError clock} {T : Server} {body : Body}

theorem postTelemetry_accepted {payload : Bytes} {records : List TelemetryRecord}
    (hpayload : readPayload body = .ok payload) (hstands : StandsFor go payload records) :
    T.postTelemetry go decodeError clock body =
      ((Server.callsOf clock records).foldl Server.ingest T, .accepted records.length) := by
  have hrecords : Server.unmarshal go decodeError payload = .ok records :=
    unmarshal_eq_ok_iff.mpr hstands
  simp only [Server.postTelemetry, hpayload, hrecords]

theorem postTelemetry_refused
    (h : ∀ payload, readPayload body = .ok payload → ∀ records, ¬ StandsFor go payload records) :
    ∃ text, T.postTelemetry go decodeError clock body = (T, .badRequest text) := by
  unfold Server.postTelemetry
  cases hpayload : readPayload body with
  | error err => exact ⟨err, rfl⟩
  | ok payload =>
    cases hrecords : Server.unmarshal go decodeError payload with
    | error text => exact ⟨text, by simp only [hrecords]⟩
    | ok records => exact absurd (unmarshal_eq_ok_iff.mp hrecords) (h payload hpayload records)

variable (go decodeError clock)

end Intake

end Meshlite.Trace
