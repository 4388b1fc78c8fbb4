import Meshlite.Conduit.HttpClient
import Meshlite.Library.Separators
import Meshlite.Sigil.RestApi

/-!
# Which responses are read correctly

`extract_body` cuts at the first CRLFCRLF of the whole message, falls back to the
first LFLF, takes every status line that mentions 200 for a success and leaves the
framing fields alone. The responses it reads correctly can be told from the response.
-/

namespace Meshlite.Conduit

open Bytes Http Separators

section Infix

variable {w l : List Char}

theorem infix_dropWhile (hw : w ≠ []) (hblank : w.any isWhitespace = false) :
    w <:+: l.dropWhile isWhitespace ↔ w <:+: l := by
  refine ⟨fun h => h.trans (List.dropWhile_suffix _).isInfix, fun h => ?_⟩
  induction l with
  | nil => exact h
  | cons a l ih =>
    rw [List.dropWhile_cons]
    split_ifs with ha
    · have ha' : a ∉ w := fun hm => List.any_eq_false.mp hblank a hm ha
      exact ih (((infix_append_cons_iff (x := []) ha').mp h).resolve_left
        fun hnil => hw (List.infix_nil.mp hnil))
    · exact h

theorem infix_trim (hw : w ≠ []) (hblank : w.any isWhitespace = false) :
    w <:+: trim l ↔ w <:+: l := by
  have hback : w.reverse.any isWhitespace = false := by rw [List.any_reverse, hblank]
  rw [trim, ← List.reverse_infix, List.reverse_reverse,
    infix_dropWhile (by simpa using hw) hback, List.reverse_infix, infix_dropWhile hw hblank]

end Infix

section Status

variable (r : Response)

/-- The reason phrase is text with a 200 in it. -/
def MentionsOk : Prop := ∃ text, fromUtf8 r.reason = some text ∧ "200".toList <:+: text

theorem fromUtf8_firstLine : fromUtf8 (r.bytes.takeWhile (· ≠ 10)) =
    (fromUtf8 r.reason).map fun text =>
      r.statusHead ++ (text ++ if r.statusEol = .crlf then ['\r'] else []) := by
  rw [r.takeWhile_bytes, List.append_assoc, fromUtf8_encode_append]
  cases r.statusEol with
  | crlf =>
    have hcr : String.utf8EncodeChar '\r' = [13] := by decide
    rw [if_pos rfl, if_pos rfl, fromUtf8_append_ascii hcr (by decide), Option.map_map]
    rfl
  | lf =>
    rw [if_neg (by decide), if_neg (by decide), List.append_nil]
    simp only [List.append_nil]

theorem infix_code : "200".toList <:+: r.code ↔ r.code = "200".toList := by
  constructor
  · intro h
    exact (h.eq_of_length (by rw [r.code_length]; rfl)).symm
  · intro h
    rw [h]

/-- `status_line.contains("200")`. -/
theorem contains_ok_iff :
    "200".toList <:+: statusLine r.bytes ↔
      (fromUtf8 r.reason).isSome ∧ r.code = "200".toList ∨ MentionsOk r := by
  have hne : "200".toList ≠ [] := by decide
  have hblank : "200".toList.any isWhitespace = false := by decide
  rw [statusLine, infix_trim hne hblank, fromUtf8_firstLine, MentionsOk]
  cases fromUtf8 r.reason with
  | none => simp
  | some text =>
    have hend : "200".toList <:+: text ++ (if r.statusEol = .crlf then ['\r'] else []) ↔
        "200".toList <:+: text := by
      cases r.statusEol with
      | crlf =>
        rw [if_pos rfl, infix_append_cons_iff (by decide), List.infix_nil]
        exact or_iff_left hne
      | lf => rw [if_neg (by decide), List.append_nil]
    have hversion : ¬ "200".toList <:+: Response.version := by decide
    rw [Option.map_some, Option.getD_some, Response.statusHead, List.append_assoc,
      List.cons_append, List.append_assoc, List.singleton_append,
      infix_append_cons_iff (by decide), infix_append_cons_iff (by decide), infix_code, hend,
      or_iff_right hversion]
    simp only [Option.isSome_some, true_and, Option.some.injEq, exists_eq_left']

end Status

section Cut

variable (r : Response)

/-- What follows the header block, as `extract_body` finds it: behind bare LFs a
CRLFCRLF of the payload is taken for the end of the header. -/
def cutBody : Bytes :=
  match r.blank, position crlfcrlf r.payload with
  | .lf, some p => r.payload.drop (p + 4)
  | _, _ => r.payload

theorem headerEnd_bytes :
    ∃ sep, headerEnd r.bytes = some sep ∧ r.bytes.drop sep = cutBody r := by
  cases h : r.blank with
  | crlf =>
    obtain ⟨p, hp, hdrop⟩ := r.position_crlf h
    refine ⟨p + 4, ?_, ?_⟩
    · rw [headerEnd, ← crlfcrlf, hp]
      rfl
    · rw [hdrop, cutBody, h]
  | lf =>
    have hpos := r.position_lf h
    cases hp : position crlfcrlf r.payload with
    | none =>
      obtain ⟨q, hq, hlen⟩ := r.position_lflf h
      refine ⟨q + 2, ?_, ?_⟩
      · rw [headerEnd, ← crlfcrlf, ← lflf, hpos, hp, hq]
        rfl
      · rw [hlen, Response.bytes, List.drop_left, cutBody, h, hp]
    | some p =>
      refine ⟨p + r.header.length + 4, ?_, ?_⟩
      · rw [headerEnd, ← crlfcrlf, hpos, hp]
        rfl
      · rw [Nat.add_right_comm, Nat.add_comm, Response.bytes, List.drop_length_add_append,
          cutBody, h, hp]

theorem extractBody_ok (h : "200".toList <:+: statusLine r.bytes) :
    extractBody r.bytes = .ok (cutBody r) := by
  obtain ⟨sep, hsep, hdrop⟩ := headerEnd_bytes r
  simp only [extractBody, hsep, if_pos h, hdrop]

theorem extractBody_error (h : ¬ "200".toList <:+: statusLine r.bytes) :
    ∃ err, extractBody r.bytes = .error err := by
  obtain ⟨sep, hsep, -⟩ := headerEnd_bytes r
  simp only [extractBody, hsep, if_neg h]
  exact ⟨_, rfl⟩

/-- The header ends where `extract_body` cuts and the body is not coded. Behind bare LFs
a coding may end by chance in the body itself, as the coding of an empty body does. -/
def SplitsAtBody : Prop :=
  match r.blank with
  | .crlf => ¬ r.IsChunked
  | .lf =>
    if r.IsChunked then
      ∃ p, position crlfcrlf r.payload = some p ∧ r.payload.drop (p + 4) = r.body
    else ¬ crlfcrlf <:+: r.body

theorem payload_eq_body_iff : r.payload = r.body ↔ ¬ r.IsChunked := by
  refine ⟨fun h hchunked => ?_, r.payload_of_not_isChunked⟩
  have hlt := r.body_length_lt hchunked
  rw [h] at hlt
  exact lt_irrefl _ hlt

theorem drop_ne_self {p : ℕ} (h : position crlfcrlf r.payload = some p) :
    r.payload.drop (p + 4) ≠ r.payload := by
  intro heq
  have hnil : r.payload ≠ [] := by
    intro hnil
    rw [hnil] at h
    cases h
  have hlen := congrArg List.length heq
  rw [List.length_drop] at hlen
  have hpos := List.length_pos_of_ne_nil hnil
  omega

theorem cutBody_eq_iff : cutBody r = r.body ↔ SplitsAtBody r := by
  rw [cutBody, SplitsAtBody]
  cases r.blank with
  | crlf => exact payload_eq_body_iff r
  | lf =>
    by_cases hchunked : r.IsChunked
    · have hne := mt (payload_eq_body_iff r).mp (not_not.mpr hchunked)
      rw [if_pos hchunked]
      cases hp : position crlfcrlf r.payload with
      | none => simp [hne]
      | some p => simp
    · have hbody := r.payload_of_not_isChunked hchunked
      rw [if_neg hchunked, ← hbody, ← position_eq_none (by decide)]
      cases hp : position crlfcrlf r.payload with
      | none => simp
      | some p => simpa using drop_ne_self r hp

theorem splitsAtBody_of_empty (h : r.blank = .lf) (hbody : r.body = []) : SplitsAtBody r := by
  rw [SplitsAtBody, h]
  by_cases hchunked : r.IsChunked
  · obtain ⟨p, hp, hdrop⟩ := r.position_of_body_nil hchunked hbody
    simp only [if_pos hchunked]
    exact ⟨p, hp, hdrop.trans hbody.symm⟩
  · simp only [if_neg hchunked, hbody]
    decide

end Cut

section Result

variable {r : Response}

/-- A response with status 200 yields its body if the status line can be read and the
header ends where it is cut. -/
theorem extractBody_eq_body_iff (hcode : r.code = "200".toList) :
    extractBody r.bytes = .ok r.body ↔ (fromUtf8 r.reason).isSome ∧ SplitsAtBody r := by
  have hok : "200".toList <:+: statusLine r.bytes ↔ (fromUtf8 r.reason).isSome := by
    rw [contains_ok_iff]
    refine ⟨?_, fun h => Or.inl ⟨h, hcode⟩⟩
    rintro (⟨h, -⟩ | ⟨text, htext, -⟩)
    · exact h
    · rw [htext]
      rfl
  by_cases htext : (fromUtf8 r.reason).isSome
  · rw [extractBody_ok r (hok.mpr htext), Except.ok.injEq, cutBody_eq_iff]
    exact (and_iff_right htext).symm
  · obtain ⟨err, herr⟩ := extractBody_error r (mt hok.mp htext)
    rw [herr]
    exact iff_of_false nofun fun h => htext h.1

/-- Another status is an error if its reason phrase does not mention 200. -/
theorem extractBody_error_iff (hcode : r.code ≠ "200".toList) :
    (∃ err, extractBody r.bytes = .error err) ↔ ¬ MentionsOk r := by
  have hok : "200".toList <:+: statusLine r.bytes ↔ MentionsOk r := by
    rw [contains_ok_iff]
    exact or_iff_right fun h => hcode h.2
  by_cases hmention : MentionsOk r
  · rw [extractBody_ok r (hok.mpr hmention)]
    exact iff_of_false nofun (not_not.mpr hmention)
  · exact iff_of_true (extractBody_error r (mt hok.mp hmention)) hmention

end Result

/-- The condition under which `extract_body` does right by a response. -/
def ReadCorrectly (r : Response) : Prop :=
  if r.code = "200".toList then (fromUtf8 r.reason).isSome ∧ SplitsAtBody r
  else ¬ MentionsOk r

/-- `extract_body` returns the body of a response with status 200 and an error for every
other status exactly when the header block and the status line are of the kind it expects. -/
theorem extractBody_correct_iff (r : Response) :
    ((r.code = "200".toList → extractBody r.bytes = .ok r.body) ∧
      (r.code ≠ "200".toList → ∃ err, extractBody r.bytes = .error err)) ↔ ReadCorrectly r := by
  rw [ReadCorrectly]
  split_ifs with hcode
  · rw [← extractBody_eq_body_iff hcode]
    exact ⟨fun h => h.1 hcode, fun h => ⟨fun _ => h, fun hne => absurd hcode hne⟩⟩
  · rw [← extractBody_error_iff hcode]
    exact ⟨fun h => h.2 hcode, fun h => ⟨fun heq => absurd heq hcode, fun _ => h⟩⟩

section SigilAnswer

theorem denotes_digits {base n : ℕ} (hlow : 1 < base) (hhigh : base ≤ 16) (hn : n ≠ 0) :
    Denotes base (Sigil.digits base n) n := by
  have hvalue : ∀ d < 16, digitValue (Json.hexDigit d) = d := by decide
  have hdigit : ∀ d ∈ Nat.digits base n, digitValue (Json.hexDigit d) = d := by
    intro d hd
    have hlt := Nat.digits_lt_base hlow hd
    exact hvalue d (by omega)
  refine ⟨?_, ?_, ?_⟩
  · simpa [Sigil.digits] using Nat.digits_ne_nil_iff_ne_zero.mpr hn
  · intro b hb
    obtain ⟨d, hd, rfl⟩ := List.mem_map.mp hb
    rw [List.mem_reverse] at hd
    rw [hdigit d hd]
    exact Nat.digits_lt_base hlow hd
  · have hmap : (Sigil.digits base n).reverse.map digitValue = Nat.digits base n := by
      rw [Sigil.digits, List.map_reverse, List.map_map, List.map_reverse, List.reverse_reverse]
      exact (List.map_congr_left hdigit).trans (List.map_id' _)
    rw [hmap, Nat.ofDigits_digits]

/-- One chunk and the last chunk. -/
def sigilChunks (body : Bytes) (hbody : body ≠ []) : ChunkedBody where
  chunks := [{
    size := Sigil.digits 16 body.length
    ext := []
    data := body
    data_ne := hbody
    size_eq := denotes_digits (by decide) le_rfl (mt List.length_eq_zero_iff.mp hbody)
    ext_clean := by decide }]
  lastSize := utf8 "0"
  lastExt := []
  trailers := []
  last_eq := by decide
  ext_clean := by decide
  trailers_clean := by simp

theorem sigilChunks_bytes {body : Bytes} (hbody : body ≠ []) :
    (sigilChunks body hbody).bytes = Sigil.chunked body := by
  simp [sigilChunks, ChunkedBody.bytes, Chunk.bytes, block, Sigil.chunked]

theorem sigilChunks_data {body : Bytes} (hbody : body ≠ []) :
    (sigilChunks body hbody).data = body := by
  simp [sigilChunks, ChunkedBody.data]

theorem fieldValue_contentLength {v : Bytes} (hv : ∀ b ∈ v, isOws b = false) :
    fieldValue "content-length" (utf8 "Content-Length: " ++ v) = some v := by
  have hdrop : ∀ w : Bytes, (∀ b ∈ w, isOws b = false) → w.dropWhile isOws = w := by
    intro w hw
    cases w with
    | nil => rfl
    | cons b w => rw [List.dropWhile_cons, if_neg (by simp [hw b])]
  have hkey : ((utf8 "Content-Length: " ++ v).take 15).map lower =
      utf8 "content-length" ++ utf8 ":" := by
    rw [List.take_append_of_le_length (by decide)]
    decide
  have hrest : (utf8 "Content-Length: " ++ v).drop 15 = 32 :: v := by
    rw [List.drop_append_of_le_length (by decide)]
    rfl
  have hlen : (utf8 "content-length" ++ utf8 ":").length = 15 := by decide
  have hback : ∀ b ∈ v.reverse, isOws b = false := by simpa using hv
  simp only [fieldValue, hlen, hkey, ↓reduceIte, hrest]
  rw [List.dropWhile_cons, if_pos (by decide), hdrop v hv, hdrop _ hback, List.reverse_reverse]

theorem fieldValue_contentLength_coding (v : Bytes) :
    fieldValue "transfer-encoding" (utf8 "Content-Length: " ++ v) = none := by
  have hkey : ((utf8 "Content-Length: " ++ v).take 18).map lower ≠
      utf8 "transfer-encoding" ++ utf8 ":" := by
    intro h
    have hhead : some (lower 67) = some 116 := congrArg List.head? h
    revert hhead
    decide
  have hlen : (utf8 "transfer-encoding" ++ utf8 ":").length = 18 := by decide
  simp only [fieldValue, hlen, if_neg hkey]

theorem fieldValues_framingLine {name : String} {lines : List Bytes} {body : Bytes}
    (hplain : fieldValues name lines = []) :
    fieldValues name (lines ++ [Sigil.framingLine body]) =
      (fieldValue name (Sigil.framingLine body)).toList := by
  rw [fieldValues, List.filterMap_append, ← fieldValues, hplain, List.nil_append]
  cases h : fieldValue name (Sigil.framingLine body) <;> simp [h]

theorem frames_plain {lines : List Bytes} {body : Bytes} (hbody : body ≠ [])
    (hcoding : fieldValues "transfer-encoding" lines = [])
    (hlength : fieldValues "content-length" lines = [])
    (h : body.length ≤ Sigil.bufferBeforeChunkingSize) :
    Frames (lines ++ [Sigil.framingLine body]) body body := by
  have hline : Sigil.framingLine body =
      utf8 "Content-Length: " ++ Sigil.digits 10 body.length := by
    rw [Sigil.framingLine, if_pos h]
  have hows : ∀ b ∈ Sigil.digits 10 body.length, isOws b = false := by
    intro b hb
    have hall : ∀ b ∈ utf8 "0123456789abcdef", isOws b = false := by decide +kernel
    exact hall b (Sigil.isHexDigit_of_mem_digits (by decide) (by decide) hb)
  have hvalues : fieldValues "content-length" (lines ++ [Sigil.framingLine body]) =
      [Sigil.digits 10 body.length] := by
    rw [fieldValues_framingLine hlength, hline, fieldValue_contentLength hows]
    rfl
  refine Frames.length ?_ (hvalues ▸ List.cons_ne_nil _ _) ?_
  · rw [fieldValues_framingLine hcoding, hline, fieldValue_contentLength_coding]
    rfl
  · rw [hvalues]
    intro v hv
    rw [List.mem_singleton.mp hv]
    exact denotes_digits (by decide) (by decide) (mt List.length_eq_zero_iff.mp hbody)

theorem frames_chunked {lines : List Bytes} {body : Bytes} (hbody : body ≠ [])
    (hcoding : fieldValues "transfer-encoding" lines = [])
    (h : ¬ body.length ≤ Sigil.bufferBeforeChunkingSize) :
    Frames (lines ++ [Sigil.framingLine body]) (Sigil.chunked body) body := by
  have hframes : Frames (lines ++ [Sigil.framingLine body]) (sigilChunks body hbody).bytes
      (sigilChunks body hbody).data := by
    apply Frames.chunked
    rw [fieldValues_framingLine hcoding, Sigil.framingLine, if_neg h]
    decide
  rwa [sigilChunks_bytes, sigilChunks_data] at hframes

theorem frames_framed {lines : List Bytes} {body : Bytes} (hbody : body ≠ [])
    (hcoding : fieldValues "transfer-encoding" lines = [])
    (hlength : fieldValues "content-length" lines = []) :
    Frames (lines ++ [Sigil.framingLine body]) (Sigil.framed body) body := by
  rw [Sigil.framed]
  split_ifs with h
  · exact frames_plain hbody hcoding hlength h
  · exact frames_chunked hbody hcoding h

/-- What `writeJSON` sends, header lines given that do not frame the body. -/
def sigilResponse (header : Sigil.HeaderLines) (v : Json)
    (hcoding : fieldValues "transfer-encoding" header.lines = [])
    (hlength : fieldValues "content-length" header.lines = []) : Response where
  code := "200".toList
  code_length := rfl
  code_digits := by decide
  reason := utf8 "OK"
  reason_clean := by decide
  statusEol := .crlf
  fields := crlfLines _ (Sigil.header_isLine header (Sigil.jsonBody v))
  blank := .crlf
  blank_crlf := by
    intro _
    cases hlast : (crlfLines _ (Sigil.header_isLine header (Sigil.jsonBody v))).getLast? with
    | none => rfl
    | some l => exact crlfLines_eol _ (List.mem_of_getLast? hlast)
  payload := Sigil.framed (Sigil.jsonBody v)
  body := Sigil.jsonBody v
  frames := by
    rw [crlfLines_text]
    exact frames_framed (by simp [Sigil.jsonBody, utf8]) hcoding hlength

variable {header : Sigil.HeaderLines} {v : Json}
variable {hcoding : fieldValues "transfer-encoding" header.lines = []}
variable {hlength : fieldValues "content-length" header.lines = []}

theorem sigilResponse_bytes :
    (sigilResponse header v hcoding hlength).bytes = Sigil.writeJson header v := by
  have hstatus : (sigilResponse header v hcoding hlength).statusLine.bytes =
      utf8 "HTTP/1.1 200 OK" ++ crlf := rfl
  rw [Response.bytes, Response.header, List.flatMap_cons, hstatus, Sigil.writeJson, block,
    List.flatMap_cons, ← crlfLines_bytes (Sigil.header_isLine header (Sigil.jsonBody v))]
  rfl

theorem splitsAtBody_sigilResponse : SplitsAtBody (sigilResponse header v hcoding hlength) ↔
    fieldValue "transfer-encoding" (Sigil.framingLine (Sigil.jsonBody v)) = none := by
  have hchunked : (sigilResponse header v hcoding hlength).IsChunked ↔
      fieldValues "transfer-encoding"
        (header.lines ++ [Sigil.framingLine (Sigil.jsonBody v)]) ≠ [] := by
    rw [← crlfLines_text (Sigil.header_isLine header (Sigil.jsonBody v))]
    rfl
  change ¬ (sigilResponse header v hcoding hlength).IsChunked ↔ _
  rw [hchunked, fieldValues_framingLine hcoding]
  cases fieldValue "transfer-encoding" (Sigil.framingLine (Sigil.jsonBody v)) with
  | none => exact iff_of_true (fun h => h rfl) rfl
  | some value => exact iff_of_false (fun h => h (List.cons_ne_nil _ _)) nofun

include hcoding hlength in
/-- Of an answer of Sigil the body is found exactly when it fits the buffer of `net/http`. -/
theorem extractBody_writeJson_iff :
    extractBody (Sigil.writeJson header v) = .ok (Sigil.jsonBody v) ↔
      (Sigil.jsonBody v).length ≤ Sigil.bufferBeforeChunkingSize := by
  have hreason : (fromUtf8 (utf8 "OK")).isSome := by decide
  have hread := @extractBody_eq_body_iff (sigilResponse header v hcoding hlength) rfl
  rw [sigilResponse_bytes, splitsAtBody_sigilResponse, Sigil.framingLine] at hread
  refine hread.trans ((and_iff_right hreason).trans ?_)
  split_ifs with h
  · exact iff_of_true (fieldValue_contentLength_coding _) h
  · refine iff_of_false ?_ h
    decide

end SigilAnswer

/-- `{}` in one chunk. -/
def emptyObjectCoded : ChunkedBody where
  chunks := [{
    size := utf8 "2"
    ext := []
    data := utf8 "{}"
    data_ne := by decide
    size_eq := by decide
    ext_clean := by decide }]
  lastSize := utf8 "0"
  lastExt := []
  trailers := []
  last_eq := by decide
  ext_clean := by decide
  trailers_clean := by simp

def chunkedResponse : Response where
  code := "200".toList
  code_length := rfl
  code_digits := by decide
  reason := utf8 "OK"
  reason_clean := by decide
  statusEol := .crlf
  fields := [{ text := utf8 "Transfer-Encoding: chunked", eol := .crlf, clean := by decide }]
  blank := .crlf
  blank_crlf := fun _ => rfl
  payload := emptyObjectCoded.bytes
  body := emptyObjectCoded.data
  frames := Frames.chunked emptyObjectCoded (by decide)

/-- A chunked body is returned with its chunk sizes. -/
theorem chunked_not_decoded :
    ¬ ∀ r : Response, (r.code = "200".toList → extractBody r.bytes = .ok r.body) ∧
      (r.code ≠ "200".toList → ∃ err, extractBody r.bytes = .error err) := by
  intro h
  have hbody := (h chunkedResponse).1 rfl
  revert hbody
  decide +kernel

end Meshlite.Conduit
