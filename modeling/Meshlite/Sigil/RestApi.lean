import Meshlite.Library.JsonText
import Meshlite.Policy.Export

/-!
# The bytes of a REST answer

`writeJSON` leaves the length of the body to `net/http`, which announces it when
the body fits its buffer and sends the body as one chunk when it does not.
-/

namespace Meshlite.Sigil

open Bytes Policy

/-- What `net/http` buffers before it chunks. -/
def bufferBeforeChunkingSize : ℕ := 2048

/-- The header lines of the answer that do not frame its body: type, date, connection. -/
structure HeaderLines where
  lines : List Bytes
  clean : ∀ l ∈ lines, IsLine l

/-- A positive number in the given base. -/
def digits (base n : ℕ) : Bytes := (Nat.digits base n).reverse.map Json.hexDigit

def framingLine (body : Bytes) : Bytes :=
  if body.length ≤ bufferBeforeChunkingSize then utf8 "Content-Length: " ++ digits 10 body.length
  else utf8 "Transfer-Encoding: chunked"

def chunked (body : Bytes) : Bytes :=
  digits 16 body.length ++ crlf ++ body ++ crlf ++ utf8 "0" ++ crlf ++ crlf

/-- The body as it stands on the wire. -/
def framed (body : Bytes) : Bytes :=
  if body.length ≤ bufferBeforeChunkingSize then body else chunked body

/-- `json.NewEncoder(w).Encode(v)`: the text and a line feed. -/
def jsonBody (v : Json) : Bytes := v.text ++ utf8 "\n"

/-- `writeJSON`: everything a client reads until the connection closes. -/
def writeJson (header : HeaderLines) (v : Json) : Bytes :=
  block (utf8 "HTTP/1.1 200 OK" :: (header.lines ++ [framingLine (jsonBody v)])) ++
    framed (jsonBody v)

/-- `GET /api/v1/policy`. -/
def getPolicy (header : HeaderLines) (e : Engine) (order : e.RangeOrder) : Bytes :=
  writeJson header (policyResp e order).encode

/-- The length of the policy as JSON. -/
def policySize (e : Engine) : ℕ := (jsonBody (policyResp e (.listed e)).encode).length

def IsHexDigit (b : UInt8) : Prop := b ∈ utf8 "0123456789abcdef"

theorem isHexDigit_of_mem_digits {base n : ℕ} (hlow : 1 < base) (hhigh : base ≤ 16) {b : UInt8}
    (hb : b ∈ digits base n) : IsHexDigit b := by
  obtain ⟨d, hd, rfl⟩ := List.mem_map.mp hb
  have hlt : d < base := Nat.digits_lt_base hlow (List.mem_reverse.mp hd)
  have hall : ∀ d < 16, Json.hexDigit d ∈ utf8 "0123456789abcdef" := by decide
  exact hall d (by omega)

theorem digits_cons {n : ℕ} (hn : n ≠ 0) : ∃ b rest, digits 16 n = b :: rest ∧ IsHexDigit b := by
  have hne : digits 16 n ≠ [] := by
    simpa [digits] using Nat.digits_ne_nil_iff_ne_zero.mpr hn
  obtain ⟨b, rest, h⟩ := List.exists_cons_of_ne_nil hne
  exact ⟨b, rest, h, isHexDigit_of_mem_digits (by decide) (by decide) (h ▸ List.mem_cons_self)⟩

theorem framingLine_isLine (body : Bytes) : IsLine (framingLine body) := by
  unfold framingLine
  split_ifs with h
  · have hdigit : ∀ b ∈ digits 10 body.length, b ≠ 13 ∧ b ≠ 10 := by
      intro b hb
      have hall : ∀ b ∈ utf8 "0123456789abcdef", b ≠ 13 ∧ b ≠ 10 := by
        decide +kernel
      exact hall b (isHexDigit_of_mem_digits (by decide) (by decide) hb)
    have hname : IsLine (utf8 "Content-Length: ") := by decide
    refine ⟨?_, ?_, ?_⟩
    · exact List.append_ne_nil_of_left_ne_nil hname.1 _
    · exact List.not_mem_append hname.2.1 fun hb => (hdigit _ hb).1 rfl
    · exact List.not_mem_append hname.2.2 fun hb => (hdigit _ hb).2 rfl
  · decide

theorem header_isLine (header : HeaderLines) (body : Bytes) :
    ∀ l ∈ header.lines ++ [framingLine body], IsLine l := by
  intro l hl
  rcases List.mem_append.mp hl with h | h
  · exact header.clean l h
  · rw [List.mem_singleton.mp h]
    exact framingLine_isLine body

theorem encodeStrings_length_congr {xs ys : List String} (h : xs.Perm ys) :
    (encodeStrings (xs.foldl Slice.append .nil)).text.length =
      (encodeStrings (ys.foldl Slice.append .nil)).text.length := by
  rw [Slice.foldl_append, Slice.foldl_append]
  by_cases hx : xs = []
  · have hy : ys = [] := (hx ▸ h).nil_eq.symm
    rw [if_pos hx, if_pos hy]
  · have hy : ys ≠ [] := fun hy => hx (hy ▸ h).eq_nil
    rw [if_neg hx, if_neg hy, encodeStrings, encodeStrings]
    exact Json.text_arr_length_congr ((h.map Json.str).map fun j => j.text.length)

theorem jsonBody_length {e : Engine} (order : e.RangeOrder) :
    (jsonBody (policyResp e order).encode).length = policySize e := by
  have hrule : ∀ src ∈ order.sources,
      (encodeRule
        { fromSvc := src, toSvcs := (order.dests src).foldl Slice.append .nil }).text.length =
        (encodeRule { fromSvc := src, toSvcs :=
          ((Engine.RangeOrder.listed e).dests src).foldl Slice.append .nil }).text.length := by
    intro src hsrc
    obtain ⟨dsts, hl⟩ := Option.isSome_iff_exists.mp
      (AList.lookup_isSome.mpr ((Engine.mem_sources order).mp hsrc))
    have hdests := (order.dests_perm src dsts hl).trans
      ((Engine.RangeOrder.listed e).dests_perm src dsts hl).symm
    simp only [encodeRule, Json.text, Json.fieldsText, List.length_append,
      encodeStrings_length_congr hdests]
  have hrules : (Json.arr ((e.rules order).map encodeRule)).text.length =
      (Json.arr ((e.rules (.listed e)).map encodeRule)).text.length := by
    apply Json.text_arr_length_congr
    simp only [Engine.rules, List.map_map]
    have hcongr : order.sources.map ((fun j => j.text.length) ∘ encodeRule ∘ fun src =>
        { fromSvc := src, toSvcs := (order.dests src).foldl Slice.append .nil }) = _ :=
      List.map_congr_left hrule
    rw [hcongr]
    exact order.sources_perm.map _
  simp only [policySize, jsonBody, policyResp, PolicyResp.encode, Json.text, Json.fieldsText,
    List.length_append] at hrules ⊢
  omega

end Meshlite.Sigil
