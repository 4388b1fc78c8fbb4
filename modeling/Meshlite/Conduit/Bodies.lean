import Meshlite.Conduit.Emission
import Meshlite.Conduit.HostHeader

/-!
# Body bytes in the same read

A read may return a head and the beginning of a body. `extract_host` and
`extract_status_code` decode all of it before they look at a line, and so see the body: as
bytes that are no UTF-8, and as further lines where the head has not settled the matter.
-/

namespace Meshlite.Conduit

open Bytes

/-- A complete head: the bytes end with an empty line. -/
def EndsHead (head : Bytes) : Prop := [10, 13, 10] <:+ head ∨ [10, 10] <:+ head

/-- `str::from_utf8` accepts the bytes. -/
def IsUtf8 (raw : Bytes) : Prop := (fromUtf8 raw).isSome

instance (raw : Bytes) : Decidable (IsUtf8 raw) := inferInstanceAs (Decidable (_ = true))

/-- A line of the text names a host. -/
def NamesHost (text : List Char) : Prop := ∃ line ∈ lines text, (hostOfLine line).isSome

/-- Of the lines that name a host the first one names this. -/
def FirstHost (raw : Bytes) (host : List Char) : Prop :=
  ∃ text, fromUtf8 raw = some text ∧ ∃ before line after, lines text = before ++ line :: after ∧
    hostOfLine line = some host ∧ ∀ l ∈ before, hostOfLine l = none

/-- The number behind the first blanks of the first line, if it is one. -/
def statusOf (text : List Char) : Option ℕ := do
  let statusLine ← (lines text).head?
  let code ← (splitWhitespace statusLine)[1]?
  parseU16 code

/-- The bodies are both UTF-8 or both not; below a head that names no host, such as one with a
port alone, they show the same host. Nothing is read from a head that is not UTF-8. -/
def SameForHost (head body body' : Bytes) : Prop :=
  ∀ text, fromUtf8 head = some text →
    (NamesHost text → (IsUtf8 body ↔ IsUtf8 body')) ∧
      (¬ NamesHost text → ∀ host, FirstHost body host ↔ FirstHost body' host)

/-- The bodies are both UTF-8 or both not, unless the head shows no status. -/
def SameForStatus (head body body' : Bytes) : Prop :=
  ∀ text, fromUtf8 head = some text → (statusOf text).isSome → (IsUtf8 body ↔ IsUtf8 body')

section Lines

theorem lines_cons {c : Char} {text : List Char} (hlf : c ≠ '\n')
    (hcr : ∀ cs, c = '\r' → text ≠ '\n' :: cs) :
    lines (c :: text) = (c :: (lines text).head?.getD []) :: (lines text).tail := by
  cases hlines : lines text <;> simp [lines, hlines]

theorem lines_ne_nil {text : List Char} (h : text ≠ []) : lines text ≠ [] := by
  cases text using lines.fun_cases with
  | case1 => exact absurd rfl h
  | case2 => simp [lines]
  | case3 => simp [lines]
  | case4 c text hlf hcr => simp [lines_cons hlf hcr]
  | case5 c text hlf hcr => simp [lines_cons hlf hcr]

theorem lines_append_cons {c : Char} {text rest : List Char} (hlf : c ≠ '\n')
    (hcr : ∀ cs, c = '\r' → text ≠ '\n' :: cs)
    (ih : lines (text ++ '\n' :: rest) = lines (text ++ ['\n']) ++ lines rest) :
    lines (c :: text ++ '\n' :: rest) = lines (c :: text ++ ['\n']) ++ lines rest := by
  by_cases hend : c = '\r' ∧ text = []
  · obtain ⟨rfl, rfl⟩ := hend
    rfl
  · have hplain : ∀ more cs, c = '\r' → text ++ '\n' :: more ≠ '\n' :: cs := by
      intro more cs hc
      cases text with
      | nil => exact absurd ⟨hc, rfl⟩ hend
      | cons d text =>
        intro h
        exact hcr text hc (by rw [(List.cons.inj h).1])
    rw [List.cons_append, List.cons_append, lines_cons hlf (hplain rest),
      lines_cons hlf (hplain []),
      ih]
    cases hlines : lines (text ++ ['\n']) with
    | nil => exact absurd hlines (lines_ne_nil (by simp))
    | cons l ls => rfl

theorem lines_append (text rest : List Char) :
    lines (text ++ '\n' :: rest) = lines (text ++ ['\n']) ++ lines rest := by
  induction text using lines.induct with
  | case1 => rfl
  | case2 text ih => simp only [List.cons_append, lines, ih]
  | case3 text ih => simp only [List.cons_append, lines, ih]
  | case4 c text hlf hcr _ ih => exact lines_append_cons hlf hcr ih
  | case5 c text hlf hcr _ _ _ ih => exact lines_append_cons hlf hcr ih

end Lines

section Head

variable {head : Bytes}

theorem EndsHead.exists_append (h : EndsHead head) : ∃ pre, head = pre ++ [10] := by
  rcases h with ⟨pre, rfl⟩ | ⟨pre, rfl⟩
  · exact ⟨pre ++ [10, 13], by simp⟩
  · exact ⟨pre ++ [10], by simp⟩

/-- A line feed ends the character before it, so a head that is not UTF-8 stays so. -/
theorem EndsHead.fromUtf8_append (h : EndsHead head) (body : Bytes) :
    fromUtf8 (head ++ body) =
      (fromUtf8 head).bind fun text => (fromUtf8 body).map (text ++ ·) := by
  obtain ⟨pre, rfl⟩ := h.exists_append
  cases hhead : fromUtf8 (pre ++ [10]) with
  | some text =>
    rw [fromUtf8_eq_some_iff.mp hhead, fromUtf8_encode_append]
    rfl
  | none =>
    cases hwhole : fromUtf8 (pre ++ [10] ++ body) with
    | none => rfl
    | some whole =>
      have hsplit : encode whole = pre ++ 10 :: body := by
        simpa using (fromUtf8_eq_some_iff.mp hwhole).symm
      obtain ⟨l, m, -, rfl, -⟩ := split_at_ascii (c := '\n') rfl (by decide) hsplit
      have htext : encode (l ++ ['\n']) = encode l ++ [10] := by
        rw [encode_append]
        rfl
      rw [← htext, fromUtf8_encode] at hhead
      cases hhead

theorem EndsHead.text (h : EndsHead head) {text : List Char} (htext : fromUtf8 head = some text) :
    ∃ l, text = l ++ ['\n'] := by
  obtain ⟨pre, rfl⟩ := h.exists_append
  obtain ⟨l, m, rfl, -, hm⟩ := split_at_ascii (c := '\n') rfl (by decide)
    (fromUtf8_eq_some_iff.mp htext).symm
  obtain rfl : m = [] := encode_inj.mp hm
  exact ⟨l, rfl⟩

theorem EndsHead.lines_append (h : EndsHead head) {text : List Char}
    (htext : fromUtf8 head = some text) (rest : List Char) :
    lines (text ++ rest) = lines text ++ lines rest ∧ lines text ≠ [] := by
  obtain ⟨l, rfl⟩ := h.text htext
  refine ⟨?_, lines_ne_nil (by simp)⟩
  rw [List.append_assoc, List.singleton_append, Conduit.lines_append]

end Head

section Host

theorem hostIn_isSome {text : List Char} : (hostIn text).isSome ↔ NamesHost text := by
  rw [hostIn, List.findSome?_isSome_iff]
  rfl

theorem extractHost_eq_bind (raw : Bytes) :
    extractHost raw = (fromUtf8 raw).bind fun text => (hostIn text).map String.ofList := by
  cases hraw : fromUtf8 raw with
  | none => exact extractHost_of_none hraw
  | some text =>
    rw [fromUtf8_eq_some_iff.mp hraw, extractHost_encode]
    rfl

theorem extractHost_eq_some {raw : Bytes} {host : List Char} :
    extractHost raw = some (.ofList host) ↔ FirstHost raw host := by
  rw [extractHost_eq_bind, FirstHost, Option.bind_eq_some_iff]
  simp only [Option.map_eq_some_iff, String.ofList_inj, exists_eq_right, hostIn,
    List.findSome?_eq_some_iff]

theorem extractHost_eq_iff (raw raw' : Bytes) :
    extractHost raw = extractHost raw' ↔ ∀ host, FirstHost raw host ↔ FirstHost raw' host := by
  simp only [← extractHost_eq_some]
  constructor
  · intro h host
    rw [h]
  · intro h
    ext name
    rw [← String.ofList_toList (s := name)]
    exact h name.toList

theorem bind_const_eq_iff {α β : Type} (read read' : Option α) (b : β) :
    (read.bind fun _ => some b) = (read'.bind fun _ => some b) ↔
      (read.isSome ↔ read'.isSome) := by
  cases read <;> cases read' <;> simp

variable {head : Bytes}

/-- The host of a read: of the head if it names one, or else of the body. -/
theorem EndsHead.extractHost_append (h : EndsHead head) {text : List Char}
    (htext : fromUtf8 head = some text) (body : Bytes) :
    extractHost (head ++ body) = (fromUtf8 body).bind fun rest =>
      ((hostIn text).or (hostIn rest)).map String.ofList := by
  cases hbody : fromUtf8 body with
  | none =>
    rw [extractHost_of_none]
    · rfl
    · rw [h.fromUtf8_append, htext, hbody]
      rfl
  | some rest =>
    rw [fromUtf8_eq_some_iff.mp htext, fromUtf8_eq_some_iff.mp hbody, ← encode_append,
      extractHost_encode, hostIn, (h.lines_append htext rest).1, List.findSome?_append]
    rfl

theorem extractHost_append_iff (h : EndsHead head) (body body' : Bytes) :
    extractHost (head ++ body) = extractHost (head ++ body') ↔ SameForHost head body body' := by
  unfold SameForHost
  cases htext : fromUtf8 head with
  | none =>
    have hnone : ∀ raw, fromUtf8 (head ++ raw) = none := by
      intro raw
      rw [h.fromUtf8_append, htext]
      rfl
    simp [extractHost_of_none (hnone _)]
  | some text =>
    simp only [Option.some.injEq, forall_eq', h.extractHost_append htext, ← hostIn_isSome]
    cases hhost : hostIn text with
    | some host =>
      have hiff := bind_const_eq_iff (fromUtf8 body) (fromUtf8 body') (String.ofList host)
      simpa [IsUtf8] using hiff
    | none =>
      have hiff := extractHost_eq_iff body body'
      simpa [extractHost_eq_bind] using hiff

end Host

section Status

variable {head : Bytes}

theorem extractStatusCode_eq_bind (raw : Bytes) :
    extractStatusCode raw = (fromUtf8 raw).bind statusOf := rfl

theorem EndsHead.extractStatusCode_append (h : EndsHead head) {text : List Char}
    (htext : fromUtf8 head = some text) (body : Bytes) :
    extractStatusCode (head ++ body) = (fromUtf8 body).bind fun _ => statusOf text := by
  rw [extractStatusCode_eq_bind, h.fromUtf8_append, htext]
  cases fromUtf8 body with
  | none => rfl
  | some rest =>
    obtain ⟨hlines, hne⟩ := h.lines_append htext rest
    change statusOf (text ++ rest) = statusOf text
    rw [statusOf, statusOf, hlines, List.head?_append_of_ne_nil _ hne]

theorem extractStatusCode_append_iff (h : EndsHead head) (body body' : Bytes) :
    extractStatusCode (head ++ body) = extractStatusCode (head ++ body') ↔
      SameForStatus head body body' := by
  unfold SameForStatus
  cases htext : fromUtf8 head with
  | none =>
    have hnone : ∀ raw, extractStatusCode (head ++ raw) = none := by
      intro raw
      rw [extractStatusCode_eq_bind, h.fromUtf8_append, htext]
      rfl
    simp [hnone]
  | some text =>
    simp only [Option.some.injEq, forall_eq', h.extractStatusCode_append htext]
    cases hstatus : statusOf text with
    | none => simp
    | some status =>
      have hiff := bind_const_eq_iff (fromUtf8 body) (fromUtf8 body') status
      simpa [IsUtf8] using hiff

end Status

/-- Two bodies that came with the same complete head leave the host alone exactly when both are
UTF-8 or neither is or, below a head that names no host, when they show the same one; and they
leave the status alone exactly when both are UTF-8 or neither is or the head shows none. -/
theorem body_irrelevant_iff (request response : Bytes) (hrequest : EndsHead request)
    (hresponse : EndsHead response) (body body' answer answer' : Bytes) :
    (extractHost (request ++ body) = extractHost (request ++ body') ↔
      SameForHost request body body') ∧
    (extractStatusCode (response ++ answer) = extractStatusCode (response ++ answer') ↔
      SameForStatus response answer answer') :=
  ⟨extractHost_append_iff hrequest body body',
    extractStatusCode_append_iff hresponse answer answer'⟩

def responseOk : Bytes := utf8 "HTTP/1.1 200 OK\r\n\r\n"

theorem endsHead_requestBeta : EndsHead requestBeta := Or.inl (by decide +kernel)

theorem endsHead_responseOk : EndsHead responseOk := Or.inl (by decide +kernel)

/-- A body that looks like another `Host` line, and one that looks like another status line. -/
theorem textBodies_irrelevant :
    extractHost (requestBeta ++ utf8 "Host: gamma\r\n") = extractHost (requestBeta ++ []) ∧
      extractStatusCode (responseOk ++ utf8 "HTTP/1.1 500 Oops\r\n") =
        extractStatusCode (responseOk ++ []) := by
  have h := body_irrelevant_iff requestBeta responseOk endsHead_requestBeta endsHead_responseOk
    (utf8 "Host: gamma\r\n") [] (utf8 "HTTP/1.1 500 Oops\r\n") []
  refine ⟨h.1.mpr fun text htext => ?_, h.2.mpr fun _ _ _ => ?_⟩
  · have hnames : NamesHost text := by
      have hbeta := host_requestBeta
      rw [extractHost_eq_bind, htext, Option.bind_some] at hbeta
      rw [← hostIn_isSome, ← Option.isSome_map, hbeta]
      rfl
    exact ⟨fun _ => iff_of_true (by decide +kernel) (by decide +kernel),
      fun hnot => absurd hnames hnot⟩
  · exact iff_of_true (by decide +kernel) (by decide +kernel)

/-- A body that starts with a byte that no character has. -/
theorem binaryBody_shows :
    ¬ ∀ request response : Bytes, EndsHead request → EndsHead response →
      (∃ host, extractHost request = some host) → ∀ body body' answer answer' : Bytes,
      extractHost (request ++ body) = extractHost (request ++ body') ∧
        extractStatusCode (response ++ answer) = extractStatusCode (response ++ answer') := by
  intro h
  have hsame := h requestBeta responseOk endsHead_requestBeta endsHead_responseOk
    ⟨"beta", host_requestBeta⟩ [] [0xff] [] [0xff]
  exact absurd hsame (by decide +kernel)

end Meshlite.Conduit
