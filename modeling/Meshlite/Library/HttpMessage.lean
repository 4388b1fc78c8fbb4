import Meshlite.Library.Utf8

/-!
# HTTP/1.1 responses

A header block is a status line and field lines, each ended by CRLF or by a bare LF,
and an empty line. What follows is the body itself, when a length or the end of the
connection frames it, or its chunks.
-/

namespace Http

open Bytes

def crlfcrlf : Bytes := [13, 10, 13, 10]

def lflf : Bytes := [10, 10]

inductive Eol where
  | crlf
  | lf
  deriving DecidableEq, Repr

def Eol.bytes : Eol → Bytes
  | crlf => [13, 10]
  | lf => [10]

structure HeaderLine where
  text : Bytes
  eol : Eol
  clean : IsLine text

def HeaderLine.bytes (l : HeaderLine) : Bytes := l.text ++ l.eol.bytes

section Positions

theorem map_add_add (o : Option ℕ) (m n : ℕ) :
    (o.map (· + m)).map (· + n) = o.map (· + (n + m)) := by
  cases o with
  | none => rfl
  | some p =>
    simp only [Option.map_some]
    congr 1
    omega

/-- A search for `pat` passes every line that another line follows. -/
def PassesLines (pat : Bytes) : Prop :=
  ∀ (l : HeaderLine) (c : UInt8) (rest : Bytes), c ≠ 13 → c ≠ 10 →
    position pat (l.bytes ++ c :: rest) = (position pat (c :: rest)).map (· + l.bytes.length)

theorem passesLines_crlfcrlf : PassesLines crlfcrlf := by
  intro l c rest h13 h10
  rw [HeaderLine.bytes, List.append_assoc, crlfcrlf, position_append l.clean.2.1]
  have heol : position [13, 10, 13, 10] (l.eol.bytes ++ c :: rest) =
      (position [13, 10, 13, 10] (c :: rest)).map (· + l.eol.bytes.length) := by
    cases l.eol <;> simp [Eol.bytes, position, List.isPrefixOf, Ne.symm h13, Function.comp_def]
  rw [heol, map_add_add, List.length_append]

theorem passesLines_lflf : PassesLines lflf := by
  intro l c rest h13 h10
  rw [HeaderLine.bytes, List.append_assoc, lflf, position_append l.clean.2.2]
  have heol : position [10, 10] (l.eol.bytes ++ c :: rest) =
      (position [10, 10] (c :: rest)).map (· + l.eol.bytes.length) := by
    cases l.eol <;> simp [Eol.bytes, position, List.isPrefixOf, Ne.symm h10, Function.comp_def]
  rw [heol, map_add_add, List.length_append]

theorem HeaderLine.exists_cons (l : HeaderLine) :
    ∃ c rest, l.bytes = c :: rest ∧ c ≠ 13 ∧ c ≠ 10 := by
  obtain ⟨hne, h13, h10⟩ := l.clean
  obtain ⟨c, cs, hc⟩ := List.exists_cons_of_ne_nil hne
  rw [hc, List.mem_cons, not_or] at h13 h10
  exact ⟨c, cs ++ l.eol.bytes, by rw [HeaderLine.bytes, hc]; rfl, Ne.symm h13.1, Ne.symm h10.1⟩

theorem PassesLines.position_flatMap {pat : Bytes} (h : PassesLines pat)
    (lines : List HeaderLine) (last : HeaderLine) (rest : Bytes) :
    position pat (lines.flatMap HeaderLine.bytes ++ (last.bytes ++ rest)) =
      (position pat (last.bytes ++ rest)).map (· + (lines.flatMap HeaderLine.bytes).length) := by
  induction lines with
  | nil => simp
  | cons l lines ih =>
    have hnext : ∃ c tail, lines.flatMap HeaderLine.bytes ++ (last.bytes ++ rest) = c :: tail ∧
        c ≠ 13 ∧ c ≠ 10 := by
      cases lines with
      | nil =>
        obtain ⟨c, tail, hc, hne⟩ := last.exists_cons
        exact ⟨c, tail ++ rest, by rw [hc]; rfl, hne⟩
      | cons next lines =>
        obtain ⟨c, tail, hc, hne⟩ := next.exists_cons
        exact ⟨c, _, by rw [List.flatMap_cons, hc, List.cons_append, List.cons_append], hne⟩
    obtain ⟨c, tail, htail, h13, h10⟩ := hnext
    rw [List.flatMap_cons, List.append_assoc, htail, h l c tail h13 h10, ← htail, ih,
      map_add_add, List.length_append]

variable {last : HeaderLine} (payload : Bytes)

theorem position_crlfcrlf_crlf (hlast : last.eol = .crlf) :
    position crlfcrlf (last.bytes ++ (Eol.crlf.bytes ++ payload)) = some last.text.length := by
  rw [HeaderLine.bytes, List.append_assoc, crlfcrlf, position_append last.clean.2.1, hlast]
  simp [Eol.bytes, position, List.isPrefixOf]

theorem position_crlfcrlf_lf :
    position crlfcrlf (last.bytes ++ (Eol.lf.bytes ++ payload)) =
      (position crlfcrlf payload).map (· + (last.bytes ++ Eol.lf.bytes).length) := by
  rw [HeaderLine.bytes, List.append_assoc, crlfcrlf, position_append last.clean.2.1]
  have heol : position [13, 10, 13, 10] (last.eol.bytes ++ (Eol.lf.bytes ++ payload)) =
      (position [13, 10, 13, 10] payload).map (· + (last.eol.bytes.length + 1)) := by
    cases last.eol <;> simp [Eol.bytes, position, List.isPrefixOf, Function.comp_def]
  rw [heol, map_add_add]
  simp [Eol.bytes]

theorem position_lflf_lf :
    ∃ p, position lflf (last.bytes ++ (Eol.lf.bytes ++ payload)) = some p ∧
      p + 2 = (last.bytes ++ Eol.lf.bytes).length := by
  rw [HeaderLine.bytes, List.append_assoc, lflf, position_append last.clean.2.2]
  cases last.eol with
  | crlf => simp [Eol.bytes, position, List.isPrefixOf, Nat.add_comm]
  | lf => simp [Eol.bytes, position, List.isPrefixOf]

/-- A block with CRLF at its end has the first CRLFCRLF there. -/
theorem position_lines_crlf (lines : List HeaderLine) (hlast : last.eol = .crlf) :
    ∃ p, position crlfcrlf
        (lines.flatMap HeaderLine.bytes ++ (last.bytes ++ (Eol.crlf.bytes ++ payload))) = some p ∧
      (lines.flatMap HeaderLine.bytes ++ (last.bytes ++ (Eol.crlf.bytes ++ payload))).drop (p + 4) =
        payload := by
  refine ⟨last.text.length + (lines.flatMap HeaderLine.bytes).length, ?_, ?_⟩
  · rw [passesLines_crlfcrlf.position_flatMap, position_crlfcrlf_crlf _ hlast]
    rfl
  · have hlen : last.text.length + (lines.flatMap HeaderLine.bytes).length + 4 =
        (lines.flatMap HeaderLine.bytes ++ (last.bytes ++ Eol.crlf.bytes)).length := by
      rw [List.length_append, List.length_append, HeaderLine.bytes, hlast, List.length_append]
      simp only [Eol.bytes, List.length_cons, List.length_nil]
      omega
    have hsplit : lines.flatMap HeaderLine.bytes ++ (last.bytes ++ (Eol.crlf.bytes ++ payload)) =
        lines.flatMap HeaderLine.bytes ++ (last.bytes ++ Eol.crlf.bytes) ++ payload := by
      simp only [List.append_assoc]
    rw [hlen, hsplit, List.drop_left]

end Positions

section CrlfLines

/-- Lines that all end with CRLF. -/
def crlfLines (lines : List Bytes) (h : ∀ l ∈ lines, IsLine l) : List HeaderLine :=
  lines.pmap (fun text clean => { text, eol := .crlf, clean }) h

variable {lines : List Bytes} (h : ∀ l ∈ lines, IsLine l)

theorem crlfLines_text : (crlfLines lines h).map HeaderLine.text = lines := by
  rw [crlfLines, List.map_pmap, List.pmap_eq_map, List.map_id']

theorem crlfLines_bytes :
    (crlfLines lines h).flatMap HeaderLine.bytes = lines.flatMap (· ++ crlf) := by
  rw [crlfLines, List.flatMap_def, List.map_pmap, List.flatMap_def]
  exact congrArg List.flatten (List.pmap_eq_map (f := fun text => text ++ crlf) h)

theorem crlfLines_eol {l : HeaderLine} (hl : l ∈ crlfLines lines h) : l.eol = .crlf := by
  obtain ⟨text, ht, rfl⟩ := List.mem_pmap.mp hl
  rfl

include h in
/-- The first empty line of a block of lines is the one that closes it. -/
theorem position_block (hne : lines ≠ []) (body : Bytes) :
    ∃ p, position crlfcrlf (block lines ++ body) = some p ∧
      (block lines ++ body).drop (p + 4) = body := by
  obtain hnil | ⟨init, last, hsplit⟩ := List.eq_nil_or_concat (crlfLines lines h)
  · have htext := crlfLines_text h
    rw [hnil] at htext
    exact absurd htext.symm hne
  · have hlast : last.eol = .crlf := crlfLines_eol h (hsplit ▸ by simp)
    have hblock : block lines ++ body =
        init.flatMap HeaderLine.bytes ++ (last.bytes ++ (Eol.crlf.bytes ++ body)) := by
      rw [block, ← crlfLines_bytes h, hsplit]
      simp [Eol.bytes, crlf]
    rw [hblock]
    exact position_lines_crlf body init hlast

end CrlfLines

/-- ASCII lower case. -/
def lower (b : UInt8) : UInt8 := if 65 ≤ b ∧ b ≤ 90 then b + 32 else b

def isOws (b : UInt8) : Bool := b = 32 || b = 9

/-- The value of a field line with the name, which is given in lower case. -/
def fieldValue (name : String) (line : Bytes) : Option Bytes :=
  let key := utf8 name ++ utf8 ":"
  if (line.take key.length).map lower = key then
    some (((line.drop key.length).dropWhile isOws).reverse.dropWhile isOws).reverse
  else none

def fieldValues (name : String) (fields : List Bytes) : List Bytes :=
  fields.filterMap (fieldValue name)

/-- The value of a digit; 16 for a byte that is none. -/
def digitValue (b : UInt8) : ℕ :=
  if 48 ≤ b ∧ b ≤ 57 then b.toNat - 48
  else if 65 ≤ b ∧ b ≤ 70 then b.toNat - 55
  else if 97 ≤ b ∧ b ≤ 102 then b.toNat - 87
  else 16

/-- The numeral `text` stands for `n`; leading zeros are allowed. -/
def Denotes (base : ℕ) (text : Bytes) (n : ℕ) : Prop :=
  text ≠ [] ∧ (∀ b ∈ text, digitValue b < base) ∧
    Nat.ofDigits base (text.reverse.map digitValue) = n

instance (base : ℕ) (text : Bytes) (n : ℕ) : Decidable (Denotes base text n) :=
  have : Decidable (∀ b ∈ text, digitValue b < base) := List.decidableBAll _ _
  inferInstanceAs (Decidable (_ ∧ _ ∧ _))

theorem Denotes.isLine {base n : ℕ} {text : Bytes} (h : Denotes base text n)
    (hbase : base ≤ 16) : IsLine text := by
  have hno : ∀ b, 16 ≤ digitValue b → b ∉ text := by
    intro b hb hmem
    have hlt := h.2.1 b hmem
    omega
  exact ⟨h.1, hno 13 (by decide), hno 10 (by decide)⟩

/-- Chunk extensions: nothing, or something after a semicolon. -/
def IsExtension (ext : Bytes) : Prop := (ext = [] ∨ ext.head? = some 59) ∧ 13 ∉ ext ∧ 10 ∉ ext

instance (ext : Bytes) : Decidable (IsExtension ext) := inferInstanceAs (Decidable (_ ∧ _ ∧ _))

structure Chunk where
  size : Bytes
  ext : Bytes
  data : Bytes
  data_ne : data ≠ []
  size_eq : Denotes 16 size data.length
  ext_clean : IsExtension ext

def Chunk.bytes (c : Chunk) : Bytes := c.size ++ c.ext ++ crlf ++ c.data ++ crlf

/-- Some chunks, the last chunk of size zero, trailer fields and an empty line. -/
structure ChunkedBody where
  chunks : List Chunk
  lastSize : Bytes
  lastExt : Bytes
  trailers : List Bytes
  last_eq : Denotes 16 lastSize 0
  ext_clean : IsExtension lastExt
  trailers_clean : ∀ l ∈ trailers, IsLine l

namespace ChunkedBody

variable (coded : ChunkedBody)

def bytes : Bytes :=
  coded.chunks.flatMap Chunk.bytes ++ block ((coded.lastSize ++ coded.lastExt) :: coded.trailers)

def data : Bytes := coded.chunks.flatMap Chunk.data

theorem data_length_lt : coded.data.length < coded.bytes.length := by
  have hchunks : ∀ cs : List Chunk,
      (cs.flatMap Chunk.data).length ≤ (cs.flatMap Chunk.bytes).length := by
    intro cs
    induction cs with
    | nil => rfl
    | cons c cs ih =>
      simp only [List.flatMap_cons, List.length_append, Chunk.bytes]
      omega
  have hle := hchunks coded.chunks
  rw [data, bytes, block, List.length_append, List.length_append]
  have hpos : 0 < crlf.length := by decide
  omega

theorem data_ne_nil (h : coded.chunks ≠ []) : coded.data ≠ [] := by
  obtain ⟨c, cs, hc⟩ := List.exists_cons_of_ne_nil h
  rw [data, hc, List.flatMap_cons]
  exact fun hnil => c.data_ne (List.append_eq_nil_iff.mp hnil).1

theorem position_of_data_nil (h : coded.data = []) :
    ∃ p, position crlfcrlf coded.bytes = some p ∧ coded.bytes.drop (p + 4) = [] := by
  have hchunks : coded.chunks = [] := by
    by_contra hne
    exact coded.data_ne_nil hne h
  obtain ⟨hne, h13, h10⟩ := coded.last_eq.isLine le_rfl
  have hfirst : IsLine (coded.lastSize ++ coded.lastExt) :=
    ⟨fun hnil => hne (List.append_eq_nil_iff.mp hnil).1,
      fun hm => (List.mem_append.mp hm).elim h13 coded.ext_clean.2.1,
      fun hm => (List.mem_append.mp hm).elim h10 coded.ext_clean.2.2⟩
  have hlines : ∀ l ∈ (coded.lastSize ++ coded.lastExt) :: coded.trailers, IsLine l := by
    rw [List.forall_mem_cons]
    exact ⟨hfirst, coded.trailers_clean⟩
  obtain ⟨p, hp, hdrop⟩ := position_block hlines (List.cons_ne_nil _ _) []
  rw [List.append_nil] at hp hdrop
  rw [bytes, hchunks]
  exact ⟨p, hp, hdrop⟩

end ChunkedBody

/-- How the fields frame the body, and what then stands after the header block. -/
inductive Frames (fields : List Bytes) : Bytes → Bytes → Prop
  | length {body : Bytes} (hcoding : fieldValues "transfer-encoding" fields = [])
      (hne : fieldValues "content-length" fields ≠ [])
      (hlength : ∀ v ∈ fieldValues "content-length" fields, Denotes 10 v body.length) :
      Frames fields body body
  | close {body : Bytes} (hcoding : fieldValues "transfer-encoding" fields = [])
      (hlength : fieldValues "content-length" fields = []) : Frames fields body body
  | chunked (coded : ChunkedBody)
      (hcoding : (fieldValues "transfer-encoding" fields).map (·.map lower) = [utf8 "chunked"]) :
      Frames fields coded.bytes coded.data

/-- A complete response, as it is read until the connection closes. -/
structure Response where
  code : List Char
  code_length : code.length = 3
  code_digits : code.all Char.isDigit = true
  reason : Bytes
  reason_clean : 13 ∉ reason ∧ 10 ∉ reason
  statusEol : Eol
  fields : List HeaderLine
  blank : Eol
  /-- the block ends with CRLFCRLF or with LFLF -/
  blank_crlf : blank = .crlf → (fields.getLast?.map HeaderLine.eol).getD statusEol = .crlf
  payload : Bytes
  body : Bytes
  frames : Frames (fields.map HeaderLine.text) payload body

namespace Response

variable (r : Response)

def version : List Char := "HTTP/1.1".toList

/-- The status line up to the reason phrase. -/
def statusHead : List Char := version ++ ' ' :: (r.code ++ [' '])

theorem not_mem_statusHead {c : Char} (hversion : c ∉ version) (hspace : c ≠ ' ')
    (hdigit : ¬ c.isDigit) : c ∉ r.statusHead := by
  have hcode : c ∉ r.code := fun hm => hdigit (List.all_eq_true.mp r.code_digits c hm)
  simp only [statusHead, List.mem_append, List.mem_cons, List.not_mem_nil, or_false, not_or]
  exact ⟨hversion, hspace, hcode, hspace⟩

def statusLine : HeaderLine where
  text := encode r.statusHead ++ r.reason
  eol := r.statusEol
  clean := by
    have hcr : '\r' ∉ r.statusHead := r.not_mem_statusHead (by decide) (by decide) (by decide)
    have hlf : '\n' ∉ r.statusHead := r.not_mem_statusHead (by decide) (by decide) (by decide)
    have h13 : 13 ∉ encode r.statusHead := not_mem_encode (by decide) (by decide) hcr
    have h10 : 10 ∉ encode r.statusHead := not_mem_encode (by decide) (by decide) hlf
    refine ⟨?_, ?_, ?_⟩
    · intro h
      have hnil := encode_inj.mp ((List.append_eq_nil_iff.mp h).1.trans encode_nil.symm)
      exact List.cons_ne_nil _ _ (List.append_eq_nil_iff.mp hnil).2
    · exact fun h => (List.mem_append.mp h).elim h13 r.reason_clean.1
    · exact fun h => (List.mem_append.mp h).elim h10 r.reason_clean.2

def header : Bytes := (r.statusLine :: r.fields).flatMap HeaderLine.bytes ++ r.blank.bytes

def bytes : Bytes := r.header ++ r.payload

theorem exists_last : ∃ (lines : List HeaderLine) (last : HeaderLine),
    r.header = lines.flatMap HeaderLine.bytes ++ (last.bytes ++ r.blank.bytes) ∧
      (r.blank = .crlf → last.eol = .crlf) := by
  obtain hnil | ⟨lines, last, hfields⟩ := List.eq_nil_or_concat r.fields
  · refine ⟨[], r.statusLine, by simp [header, hnil], fun h => ?_⟩
    have heol := r.blank_crlf h
    rw [hnil] at heol
    exact heol
  · refine ⟨r.statusLine :: lines, last, by simp [header, hfields], fun h => ?_⟩
    have heol := r.blank_crlf h
    simpa [hfields] using heol

theorem position_crlf (h : r.blank = .crlf) :
    ∃ p, position crlfcrlf r.bytes = some p ∧ r.bytes.drop (p + 4) = r.payload := by
  obtain ⟨lines, last, hheader, hlast⟩ := r.exists_last
  rw [bytes, hheader, h, List.append_assoc, List.append_assoc]
  exact position_lines_crlf r.payload lines (hlast h)

theorem position_lf (h : r.blank = .lf) :
    position crlfcrlf r.bytes =
      (position crlfcrlf r.payload).map (· + r.header.length) := by
  obtain ⟨lines, last, hheader, -⟩ := r.exists_last
  rw [bytes, hheader, h, List.append_assoc, List.append_assoc,
    passesLines_crlfcrlf.position_flatMap, position_crlfcrlf_lf, map_add_add]
  simp only [List.length_append]

theorem position_lflf (h : r.blank = .lf) :
    ∃ p, position lflf r.bytes = some p ∧ p + 2 = r.header.length := by
  obtain ⟨lines, last, hheader, -⟩ := r.exists_last
  obtain ⟨q, hq, hlen⟩ := @position_lflf_lf last r.payload
  refine ⟨q + (lines.flatMap HeaderLine.bytes).length, ?_, ?_⟩
  · rw [bytes, hheader, h, List.append_assoc, List.append_assoc,
      passesLines_lflf.position_flatMap, hq]
    rfl
  · rw [hheader, h, List.length_append, ← hlen]
    omega

theorem takeWhile_bytes : r.bytes.takeWhile (· ≠ 10) =
    encode r.statusHead ++ r.reason ++ if r.statusEol = .crlf then [13] else [] := by
  obtain ⟨-, -, h10⟩ := r.statusLine.clean
  have hline : ∀ b ∈ r.statusLine.text, decide (b ≠ 10) = true := by
    intro b hb
    simpa using fun h : b = 10 => h10 (h ▸ hb)
  rw [bytes, header, List.flatMap_cons, HeaderLine.bytes, List.append_assoc, List.append_assoc,
    List.append_assoc, List.takeWhile_append_of_pos hline]
  cases heol : r.statusEol <;> simp [statusLine, heol, Eol.bytes]

/-- The body has a transfer coding. -/
def IsChunked : Prop :=
  fieldValues "transfer-encoding" (r.fields.map HeaderLine.text) ≠ []

instance : Decidable r.IsChunked := inferInstanceAs (Decidable (_ ≠ _))

theorem payload_of_not_isChunked (h : ¬ r.IsChunked) : r.payload = r.body := by
  obtain ⟨_, _, _, _, _, _, _, _, _, payload, body, frames⟩ := r
  cases frames with
  | length => rfl
  | close => rfl
  | chunked coded hcoding =>
    have hnone := not_not.mp h
    rw [hnone] at hcoding
    exact absurd hcoding (by simp)

theorem body_length_lt (h : r.IsChunked) : r.body.length < r.payload.length := by
  obtain ⟨_, _, _, _, _, _, _, _, _, payload, body, frames⟩ := r
  cases frames with
  | length hcoding => exact absurd hcoding h
  | close hcoding => exact absurd hcoding h
  | chunked coded => exact coded.data_length_lt

theorem position_of_body_nil (h : r.IsChunked) (hbody : r.body = []) :
    ∃ p, position crlfcrlf r.payload = some p ∧ r.payload.drop (p + 4) = [] := by
  obtain ⟨_, _, _, _, _, _, _, _, _, payload, body, frames⟩ := r
  cases frames with
  | length hcoding => exact absurd hcoding h
  | close hcoding => exact absurd hcoding h
  | chunked coded => exact coded.position_of_data_nil hbody

end Response

end Http
