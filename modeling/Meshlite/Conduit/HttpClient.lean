import Meshlite.Library.HttpMessage

/-!
# Conduit's HTTP parsing

A response is everything read until the peer closes; `extract_body` cuts the header
off. A request is what the first read returned; `extract_host` looks for its host.
-/

namespace Meshlite.Conduit

open Bytes

/-- `char::is_whitespace`: the Unicode property White_Space. -/
def isWhitespace (c : Char) : Bool :=
  let n := c.toNat
  9 ≤ n && n ≤ 13 || 0x2000 ≤ n && n ≤ 0x200A ||
    n ∈ [0x20, 0x85, 0xA0, 0x1680, 0x2028, 0x2029, 0x202F, 0x205F, 0x3000]

/-- `str::trim`. -/
def trim (text : List Char) : List Char :=
  ((text.dropWhile isWhitespace).reverse.dropWhile isWhitespace).reverse

/-- The first line of the response, or nothing if it is not UTF-8. -/
def statusLine (raw : Bytes) : List Char :=
  trim ((fromUtf8 (raw.takeWhile (· ≠ 10))).getD [])

/-- The position after the first `\r\n\r\n`, or else after the first `\n\n`. -/
def headerEnd (raw : Bytes) : Option ℕ :=
  ((position [13, 10, 13, 10] raw).map (· + 4)).or ((position [10, 10] raw).map (· + 2))

def extractBody (raw : Bytes) : Except String Bytes :=
  match headerEnd raw with
  | none => .error "HTTP response has no header terminator"
  | some sep =>
    if "200".toList <:+: statusLine raw then .ok (raw.drop sep)
    else .error ("HTTP error: " ++ String.ofList (statusLine raw))

/-- `str::lines`: split after each line feed; a CRLF is removed as a whole. -/
def lines : List Char → List (List Char)
  | [] => []
  | '\n' :: cs => [] :: lines cs
  | '\r' :: '\n' :: cs => [] :: lines cs
  | c :: cs =>
    match lines cs with
    | [] => [[c]]
    | l :: ls => (c :: l) :: ls

/-- The host a `Host:` line names, without the port. -/
def hostOfLine (line : List Char) : Option (List Char) :=
  if "host:".toList <+: line.map Char.toLower then
    let host := (trim (line.drop 5)).takeWhile (· ≠ ':')
    if host = [] then none else some host
  else none

/-- `extract_host`: the first `Host:` line with a non-empty value. -/
def extractHost (raw : Bytes) : Option String := do
  let text ← fromUtf8 raw
  let host ← (lines text).findSome? hostOfLine
  return String.ofList host

/-- A response with CRLF lines and status 200 yields what follows its first empty line. -/
theorem extractBody_block {fields : List Bytes} (hfields : ∀ l ∈ fields, IsLine l)
    (body : Bytes) :
    extractBody (block (utf8 "HTTP/1.1 200 OK" :: fields) ++ body) = .ok body := by
  have hfirst : IsLine (utf8 "HTTP/1.1 200 OK") := by decide
  have hlines : ∀ l ∈ utf8 "HTTP/1.1 200 OK" :: fields, IsLine l := by
    rw [List.forall_mem_cons]
    exact ⟨hfirst, hfields⟩
  obtain ⟨p, hp, hdrop⟩ := Http.position_block hlines (List.cons_ne_nil _ _) body
  have hend : headerEnd (block (utf8 "HTTP/1.1 200 OK" :: fields) ++ body) = some (p + 4) := by
    rw [headerEnd, ← Http.crlfcrlf, hp]
    rfl
  have hstatus : statusLine (block (utf8 "HTTP/1.1 200 OK" :: fields) ++ body) =
      "HTTP/1.1 200 OK".toList := by
    have hline : (block (utf8 "HTTP/1.1 200 OK" :: fields) ++ body).takeWhile (· ≠ 10) =
        utf8 "HTTP/1.1 200 OK" ++ [13] := by
      rw [block_cons, List.append_assoc, List.append_assoc,
        List.takeWhile_append_of_pos (by decide +kernel)]
      rfl
    rw [statusLine, hline]
    decide
  have hok : "200".toList <:+: "HTTP/1.1 200 OK".toList := by decide
  simp only [extractBody, hend, hstatus, hok, ↓reduceIte, hdrop]

end Meshlite.Conduit
