import Meshlite.Conduit.Emission
import Meshlite.Conduit.Responses
import Meshlite.Library.JsonRoundTrip

/-!
# Posting telemetry

A record is posted to Trace as the JSON text that `serde_json` writes, in a request whose
length field frames it. The fields that are `None` are left out.
-/

namespace Bytes

theorem append_cr_inj {line line' rest rest' : Bytes} (h : 13 ∉ line) (h' : 13 ∉ line')
    (heq : line ++ 13 :: rest = line' ++ 13 :: rest') : line = line' ∧ rest = rest' := by
  induction line generalizing line' with
  | nil =>
    cases line' with
    | nil => exact ⟨rfl, (List.cons.inj heq).2⟩
    | cons b line' =>
      obtain ⟨rfl, -⟩ := List.cons.inj heq
      exact absurd List.mem_cons_self h'
  | cons a line ih =>
    rw [List.mem_cons, not_or] at h
    cases line' with
    | nil => exact absurd (List.cons.inj heq).1.symm h.1
    | cons b line' =>
      rw [List.mem_cons, not_or] at h'
      obtain ⟨rfl, htail⟩ := List.cons.inj heq
      obtain ⟨rfl, hrest⟩ := ih h.2 h'.2 htail
      exact ⟨rfl, hrest⟩

/-- A block ends at its empty line, so it is told from what follows it. -/
theorem block_append_inj {lines lines' : List Bytes} {rest rest' : Bytes}
    (h : ∀ l ∈ lines, IsLine l) (h' : ∀ l ∈ lines', IsLine l)
    (heq : block lines ++ rest = block lines' ++ rest') : lines = lines' ∧ rest = rest' := by
  have hempty : ∀ {line : Bytes} {lines : List Bytes} {rest rest' : Bytes}, IsLine line →
      block [] ++ rest ≠ block (line :: lines) ++ rest' := by
    intro line lines rest rest' hline heq
    have hnil : (13 : UInt8) ∉ ([] : Bytes) := List.not_mem_nil
    rw [block_cons] at heq
    simp only [block, crlf, List.flatMap_nil, List.append_assoc, List.cons_append] at heq
    exact hline.1 (append_cr_inj hnil hline.2.1 heq).1.symm
  induction lines generalizing lines' with
  | nil =>
    cases lines' with
    | nil => exact ⟨rfl, List.append_cancel_left heq⟩
    | cons line' lines' => exact absurd heq (hempty (h' line' List.mem_cons_self))
  | cons line lines ih =>
    cases lines' with
    | nil => exact absurd heq.symm (hempty (h line List.mem_cons_self))
    | cons line' lines' =>
      rw [List.forall_mem_cons] at h h'
      simp only [block_cons, crlf, List.append_assoc, List.cons_append, List.nil_append] at heq
      obtain ⟨rfl, htail⟩ := append_cr_inj h.1.2.1 h'.1.2.1 heq
      obtain ⟨rfl, hrest⟩ := ih h.2 h'.2 (List.cons.inj htail).2
      exact ⟨rfl, hrest⟩

end Bytes

namespace Meshlite.Conduit

open Bytes Json

/-- The escapes of `serde_json`. -/
def serdeEscape (c : Char) : Bytes :=
  if c = '"' then utf8 "\\\""
  else if c = '\\' then utf8 "\\\\"
  else if c = '\n' then utf8 "\\n"
  else if c = '\r' then utf8 "\\r"
  else if c = '\t' then utf8 "\\t"
  else if c.toNat = 8 then utf8 "\\b"
  else if c.toNat = 12 then utf8 "\\f"
  else if c.toNat < 32 then unicodeEscape c
  else String.utf8EncodeChar c

theorem serdeEscape_escapes (c : Char) : Escapes c (serdeEscape c) := by
  unfold serdeEscape
  split_ifs with hquote hescape hnewline hreturn htab hback hfeed hcontrol
  · subst hquote
    exact escapes_short (e := 34) (b := 34) (by decide) (by decide)
  · subst hescape
    exact escapes_short (e := 92) (b := 92) (by decide) (by decide)
  · subst hnewline
    exact escapes_short (e := 110) (b := 10) (by decide) (by decide)
  · subst hreturn
    exact escapes_short (e := 114) (b := 13) (by decide) (by decide)
  · subst htab
    exact escapes_short (e := 116) (b := 9) (by decide) (by decide)
  · rw [← Char.ofNat_toNat c, hback]
    exact escapes_short (e := 98) (b := 8) (by decide) (by decide)
  · rw [← Char.ofNat_toNat c, hfeed]
    exact escapes_short (e := 102) (b := 12) (by decide) (by decide)
  · exact escapes_unicode (by omega)
  · exact escapes_plain hquote hescape hcontrol

section Body

variable (printF64 : ℚ → String)

/-- A member that is skipped if there is no value. -/
def optionalMember (name : String) (j : Option Json) : List (String × Json) :=
  (j.map (Prod.mk name)).toList

/-- What `Serialize` makes of a record. -/
def TelemetryRecord.json (r : TelemetryRecord) : Json :=
  .obj ([("source_service", .str r.sourceService),
      ("destination_service", .str r.destinationService),
      ("cluster_id", .str r.clusterId),
      ("leg", .str r.leg),
      ("verdict", .str r.verdict),
      ("latency_ms", .num (printF64 r.latencyMs)),
      ("tls_verified", .bool r.tlsVerified)] ++
    (optionalMember "status_code" (r.statusCode.map fun n => .num (toString n)) ++
      (optionalMember "error_reason" (r.errorReason.map .str) ++
        optionalMember "timestamp" (r.timestamp.map .str))))

/-- `serde_json::to_vec`. -/
def TelemetryRecord.body (r : TelemetryRecord) : Bytes := textWith serdeEscape (r.json printF64)

theorem TelemetryRecord.body_eq (r : TelemetryRecord) :
    ∃ front, r.body printF64 = front ++ [125] :=
  ⟨_, rfl⟩

theorem forall_optionalMember {P : String × Json → Prop} {name : String} {j : Option Json} :
    (∀ m ∈ optionalMember name j, P m) ↔ ∀ j' ∈ j, P (name, j') := by
  cases j <;> simp [optionalMember]

theorem TelemetryRecord.readable {r : TelemetryRecord} (hlatency : IsNumber (printF64 r.latencyMs))
    {depth : ℕ} : Readable (depth + 1) (r.json printF64) := by
  refine .obj ?_
  simp only [List.forall_mem_append, List.forall_mem_cons, forall_optionalMember,
    Option.mem_map, forall_exists_index, and_imp, forall_apply_eq_imp_iff₂]
  exact ⟨⟨.str _, .str _, .str _, .str _, .str _, .num hlatency, .bool _, by simp⟩,
    fun n _ => .num (isNumber_toString n), fun reason _ => .str reason, fun time _ => .str time⟩

theorem TelemetryRecord.read_body {r : TelemetryRecord}
    (hlatency : IsNumber (printF64 r.latencyMs)) :
    read quotedLeaf maxNestingDepth (r.body printF64) =
      some ((r.json printF64).map (quotedBy serdeEscape)) :=
  read_textWith (quotedLeaf_keeps serdeEscape_escapes) (r.readable printF64 hlatency)

end Body

/-- The header lines of the request, the request line first. -/
def postHead (hostPort : Bytes) (length : ℕ) : List Bytes :=
  [utf8 "POST /api/v1/telemetry HTTP/1.1", utf8 "Host: " ++ hostPort,
    utf8 "Content-Type: application/json", utf8 "Content-Length: " ++ Sigil.digits 10 length,
    utf8 "Connection: close"]

/-- `post_record`: what is written to the connection. -/
def postRequest (hostPort body : Bytes) : Bytes := block (postHead hostPort body.length) ++ body

theorem fieldValue_of_head {name : String} {line : Bytes} {b : UInt8}
    (hname : (utf8 name ++ utf8 ":").head? = some b)
    (hline : (line.head?).map Http.lower ≠ some b) :
    Http.fieldValue name line = none := by
  have hne : (line.take (utf8 name ++ utf8 ":").length).map Http.lower ≠
      utf8 name ++ utf8 ":" := by
    intro h
    have hhead := congrArg List.head? h
    rw [hname, List.head?_map] at hhead
    refine hline ?_
    rw [← hhead]
    cases line with
    | nil => simp
    | cons c cs =>
      cases hlen : (utf8 name ++ utf8 ":").length with
      | zero => simp [List.length_eq_zero_iff.mp hlen] at hname
      | succ n => simp
  rw [Http.fieldValue, if_neg hne]

theorem postHead_isLine {hostPort : Bytes} (hhost : 13 ∉ hostPort ∧ 10 ∉ hostPort) (length : ℕ) :
    ∀ l ∈ postHead hostPort length, IsLine l := by
  have hdigit : ∀ b ∈ Sigil.digits 10 length, b ≠ 13 ∧ b ≠ 10 := by
    intro b hb
    have hall : ∀ b ∈ utf8 "0123456789abcdef", b ≠ 13 ∧ b ≠ 10 := by decide +kernel
    exact hall b (Sigil.isHexDigit_of_mem_digits (by decide) (by decide) hb)
  have hjoin : ∀ {name value : Bytes}, IsLine name → 13 ∉ value ∧ 10 ∉ value →
      IsLine (name ++ value) := by
    intro name value hname hvalue
    exact ⟨List.append_ne_nil_of_left_ne_nil hname.1 _,
      List.not_mem_append hname.2.1 hvalue.1, List.not_mem_append hname.2.2 hvalue.2⟩
  intro l hl
  simp only [postHead, List.mem_cons, List.not_mem_nil, or_false] at hl
  rcases hl with rfl | rfl | rfl | rfl | rfl
  · decide
  · exact hjoin (by decide) hhost
  · decide
  · exact hjoin (by decide) ⟨fun h => (hdigit _ h).1 rfl, fun h => (hdigit _ h).2 rfl⟩
  · decide

theorem postHead_coding (hostPort : Bytes) (length : ℕ) :
    Http.fieldValues "transfer-encoding" (postHead hostPort length) = [] := by
  have hhost : ((utf8 "Host: " ++ hostPort).head?).map Http.lower = some 104 := rfl
  have hlength : ((utf8 "Content-Length: " ++ Sigil.digits 10 length).head?).map Http.lower =
      some 99 := rfl
  rw [Http.fieldValues, List.filterMap_eq_nil_iff]
  intro line hline
  refine fieldValue_of_head (b := 116) rfl ?_
  simp only [postHead, List.mem_cons, List.not_mem_nil, or_false] at hline
  rcases hline with rfl | rfl | rfl | rfl | rfl
  · decide
  · rw [hhost]
    decide
  · decide
  · rw [hlength]
    decide
  · decide

theorem postHead_length (hostPort : Bytes) (length : ℕ) :
    Http.fieldValues "content-length" (postHead hostPort length) = [Sigil.digits 10 length] := by
  have hows : ∀ b ∈ Sigil.digits 10 length, Http.isOws b = false := by
    intro b hb
    have hall : ∀ b ∈ utf8 "0123456789abcdef", Http.isOws b = false := by decide +kernel
    exact hall b (Sigil.isHexDigit_of_mem_digits (by decide) (by decide) hb)
  have hhost : ((utf8 "Host: " ++ hostPort).head?).map Http.lower = some 104 := rfl
  have hpost : Http.fieldValue "content-length" (utf8 "POST /api/v1/telemetry HTTP/1.1") = none :=
    fieldValue_of_head (b := 99) rfl (by decide)
  have hhost' : Http.fieldValue "content-length" (utf8 "Host: " ++ hostPort) = none :=
    fieldValue_of_head (b := 99) rfl (by rw [hhost]; decide)
  have htype :
      Http.fieldValue "content-length" (utf8 "Content-Type: application/json") = none := by
    decide +kernel
  have hclose : Http.fieldValue "content-length" (utf8 "Connection: close") = none := by
    decide +kernel
  simp only [Http.fieldValues, postHead, List.filterMap_cons, hpost, hhost', htype,
    fieldValue_contentLength hows, hclose, List.filterMap_nil]

theorem postHead_denotes (hostPort : Bytes) {length : ℕ} (hlength : length ≠ 0) :
    ∀ v ∈ Http.fieldValues "content-length" (postHead hostPort length),
      Http.Denotes 10 v length := by
  rw [postHead_length]
  intro v hv
  rw [List.mem_singleton.mp hv]
  exact denotes_digits (by decide) (by decide) hlength

theorem postHead_frames (hostPort : Bytes) {body : Bytes} (hbody : body ≠ []) :
    Http.Frames (postHead hostPort body.length) body body := by
  have hlength : body.length ≠ 0 := mt List.length_eq_zero_iff.mp hbody
  refine .length (postHead_coding hostPort body.length) ?_ (postHead_denotes hostPort hlength)
  rw [postHead_length]
  exact List.cons_ne_nil _ _

end Meshlite.Conduit
