import Meshlite.Library.Bytes
import Meshlite.Library.Json

/-!
# Compact JSON text

The text Go's `encoding/json` writes for a value: no white space, and the characters
`<`, `>`, `&`, U+2028 and U+2029 escaped along with the ones JSON requires.
-/

namespace Json

open Bytes

def hexDigit (d : ℕ) : UInt8 := if d < 10 then UInt8.ofNat (48 + d) else UInt8.ofNat (87 + d)

/-- `\u` and four hexadecimal digits. -/
def unicodeEscape (c : Char) : Bytes :=
  utf8 "\\u" ++ [hexDigit (c.toNat / 4096 % 16), hexDigit (c.toNat / 256 % 16),
    hexDigit (c.toNat / 16 % 16), hexDigit (c.toNat % 16)]

def escapeChar (c : Char) : Bytes :=
  if c = '"' then utf8 "\\\""
  else if c = '\\' then utf8 "\\\\"
  else if c = '\n' then utf8 "\\n"
  else if c = '\r' then utf8 "\\r"
  else if c = '\t' then utf8 "\\t"
  else if c.toNat = 8 then utf8 "\\b"
  else if c.toNat = 12 then utf8 "\\f"
  else if c.toNat < 32 ∨ c ∈ ['<', '>', '&'] ∨ c.toNat = 0x2028 ∨ c.toNat = 0x2029 then
    unicodeEscape c
  else String.utf8EncodeChar c

def strText (s : String) : Bytes := utf8 "\"" ++ s.toList.flatMap escapeChar ++ utf8 "\""

mutual

def text : Json → Bytes
  | null => utf8 "null"
  | bool b => if b then utf8 "true" else utf8 "false"
  | num t => utf8 t
  | str s => strText s
  | arr items => utf8 "[" ++ itemsText items ++ utf8 "]"
  | obj fields => utf8 "\x7b" ++ fieldsText fields ++ utf8 "\x7d"

/-- The items, separated by commas. -/
def itemsText : List Json → Bytes
  | [] => []
  | [j] => text j
  | j :: js => text j ++ utf8 "," ++ itemsText js

def fieldsText : List (String × Json) → Bytes
  | [] => []
  | [(name, j)] => strText name ++ utf8 ":" ++ text j
  | (name, j) :: fs => strText name ++ utf8 ":" ++ text j ++ utf8 "," ++ fieldsText fs

end

theorem itemsText_length (items : List Json) :
    (itemsText items).length = (items.map fun j => (text j).length + 1).sum - 1 := by
  have hcomma : (utf8 ",").length = 1 := by decide
  induction items with
  | nil => simp [itemsText]
  | cons j js ih =>
    cases js with
    | nil => simp [itemsText]
    | cons k ks =>
      rw [itemsText, List.length_append, List.length_append, hcomma, ih]
      · simp only [List.map_cons, List.sum_cons]
        omega
      · simp

theorem text_arr_length_congr {items items' : List Json}
    (h : (items.map fun j => (text j).length).Perm (items'.map fun j => (text j).length)) :
    (text (arr items)).length = (text (arr items')).length := by
  have hsum : (items.map fun j => (text j).length + 1).sum =
      (items'.map fun j => (text j).length + 1).sum := by
    have hmap : ∀ js : List Json, (js.map fun j => (text j).length + 1) =
        (js.map fun j => (text j).length).map (· + 1) := by simp
    rw [hmap, hmap]
    exact (h.map _).sum_eq
  simp only [text, List.length_append, itemsText_length, hsum]

end Json
