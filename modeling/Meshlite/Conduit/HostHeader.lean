import Mathlib.Data.List.DropRight
import Meshlite.Conduit.HttpClient
import Meshlite.Library.Utf8

/-!
# The host in a request cut short

Both gateways take the host from whatever their first read returned. The socket may
cut the request head at any byte; a read that ends inside the host yields the part it
has seen.
-/

namespace Meshlite.Conduit

open Bytes Http

/-- What `extract_host` makes of the value of a `Host` line: no blanks, no port. -/
def hostOfValue (value : List Char) : List Char := (trim value).takeWhile (· ≠ ':')

/-- The read has reached the host: a character that is no blank, and no colon before it. -/
def HostStarted (seen : List Char) : Prop :=
  ∃ c rest, seen.dropWhile isWhitespace = c :: rest ∧ c ≠ ':'

/-- The host is over where the read ends: its colon was read, or only blanks follow, or
the colon comes next and no blank stands before it. -/
def HostComplete (seen unread : List Char) : Prop :=
  ':' ∈ seen ∨ (∀ c ∈ unread, isWhitespace c = true) ∨
    unread.head? = some ':' ∧ ∀ c, seen.getLast? = some c → isWhitespace c = false

section Value

theorem trim_eq (value : List Char) :
    trim value = (value.dropWhile isWhitespace).rdropWhile isWhitespace := rfl

theorem rdropWhile_append {α : Type*} (p : α → Bool) (x y : List α) :
    (x ++ y).rdropWhile p =
      if y.rdropWhile p = [] then x.rdropWhile p else x ++ y.rdropWhile p := by
  simp only [List.rdropWhile, List.reverse_append, List.dropWhile_append, List.isEmpty_iff,
    List.reverse_eq_nil_iff]
  split_ifs <;> simp

theorem takeWhile_colon {x y : List Char} (hx : ':' ∉ x) :
    ((x ++ ':' :: y).rdropWhile isWhitespace).takeWhile (· ≠ ':') = x := by
  have hkeep : ∃ z, (':' :: y).rdropWhile isWhitespace = ':' :: z := by
    have hsplit : ':' :: y = [':'] ++ y := rfl
    rw [hsplit, rdropWhile_append]
    split_ifs
    · exact ⟨[], by decide⟩
    · exact ⟨_, rfl⟩
  obtain ⟨z, hz⟩ := hkeep
  rw [rdropWhile_append, hz, if_neg (by simp), List.takeWhile_append_of_pos]
  · simp
  · intro c hc
    simpa using fun h : c = ':' => hx (h ▸ hc)

theorem takeWhile_no_colon {x : List Char} (hx : ':' ∉ x) :
    (x.rdropWhile isWhitespace).takeWhile (· ≠ ':') = x.rdropWhile isWhitespace := by
  refine List.takeWhile_eq_self_iff.mpr fun c hc => ?_
  have hmem := (List.rdropWhile_prefix isWhitespace x).subset hc
  simpa using fun h : c = ':' => hx (h ▸ hmem)

theorem rdropWhile_eq_nil {x : List Char} :
    x.rdropWhile isWhitespace = [] ↔ ∀ c ∈ x, isWhitespace c = true := by
  simp [List.rdropWhile_eq_nil_iff]

theorem HostStarted.split {seen : List Char} (h : HostStarted seen) :
    ∃ blanks c rest, seen = blanks ++ c :: rest ∧ c ≠ ':' ∧ isWhitespace c = false ∧
      (∀ b ∈ blanks, isWhitespace b = true) := by
  obtain ⟨c, rest, hdrop, hc⟩ := h
  refine ⟨seen.takeWhile isWhitespace, c, rest, ?_, hc, ?_, ?_⟩
  · rw [← hdrop, List.takeWhile_append_dropWhile]
  · have hhead := List.head?_dropWhile_not isWhitespace seen
    rw [hdrop] at hhead
    simpa using hhead
  · exact fun b hb => List.mem_takeWhile_imp hb

theorem hostOfValue_blanks {blanks rest : List Char} {c : Char}
    (hb : ∀ b ∈ blanks, isWhitespace b = true) (hc : isWhitespace c = false) :
    hostOfValue (blanks ++ c :: rest) =
      ((c :: rest).rdropWhile isWhitespace).takeWhile (· ≠ ':') := by
  rw [hostOfValue, trim_eq, List.dropWhile_append_of_pos hb,
    List.dropWhile_cons_of_neg (by simp [hc])]

theorem hostOfValue_not_started {seen : List Char} (h : ¬ HostStarted seen) :
    hostOfValue seen = [] := by
  rw [hostOfValue, trim_eq]
  cases hdrop : seen.dropWhile isWhitespace with
  | nil => rfl
  | cons c rest =>
    have hc : c = ':' := by
      by_contra hne
      exact h ⟨c, rest, hdrop, hne⟩
    subst hc
    exact takeWhile_colon (x := []) (by simp)

theorem hostOfValue_ne_nil {seen : List Char} (h : HostStarted seen) : hostOfValue seen ≠ [] := by
  obtain ⟨blanks, c, rest, rfl, hcolon, hc, hb⟩ := h.split
  have hkeep : ∃ z, (c :: rest).rdropWhile isWhitespace = c :: z := by
    have hsplit : c :: rest = [c] ++ rest := rfl
    rw [hsplit, rdropWhile_append]
    split_ifs
    · exact ⟨[], by simp [List.rdropWhile, hc]⟩
    · exact ⟨_, rfl⟩
  obtain ⟨z, hz⟩ := hkeep
  rw [hostOfValue_blanks hb hc, hz, List.takeWhile_cons_of_pos (by simpa using hcolon)]
  simp

theorem append_eq_rdropWhile {α : Type*} {p : α → Bool} {x y : List α} :
    x ++ y = x.rdropWhile p ↔ y = [] ∧ x.rdropWhile p = x := by
  constructor
  · intro h
    have hle := (List.rdropWhile_prefix p x).length_le
    rw [← h, List.length_append] at hle
    have hy : y = [] := List.length_eq_zero_iff.mp (by omega)
    subst hy
    exact ⟨rfl, by rw [← h, List.append_nil]⟩
  · rintro ⟨rfl, h⟩
    rw [h, List.append_nil]

theorem rdropWhile_eq_self {x : List Char} (hx : x ≠ []) :
    x.rdropWhile isWhitespace = x ↔ ∀ c, x.getLast? = some c → isWhitespace c = false := by
  rw [List.rdropWhile_eq_self_iff, List.getLast?_eq_some_getLast hx]
  simp [hx]

/-- Reading on changes the host unless it was complete. -/
theorem hostOfValue_append_iff {seen unread : List Char} (h : HostStarted seen) :
    hostOfValue (seen ++ unread) = hostOfValue seen ↔ HostComplete seen unread := by
  obtain ⟨blanks, c, rest, rfl, hcolon, hc, hb⟩ := h.split
  have hblank : ':' ∉ blanks := fun hmem => absurd (hb _ hmem) (by decide)
  have hne : c :: rest ≠ [] := List.cons_ne_nil c rest
  have hlast : (blanks ++ c :: rest).getLast? = (c :: rest).getLast? := by
    rw [List.getLast?_append, List.getLast?_eq_some_getLast hne]
    rfl
  rw [HostComplete, List.mem_append, or_iff_right hblank, hlast, List.append_assoc,
    List.cons_append, hostOfValue_blanks hb hc, hostOfValue_blanks hb hc, ← List.cons_append]
  generalize c :: rest = x at hne
  by_cases hin : ':' ∈ x
  · -- the colon was read: both sides are what precedes it
    obtain ⟨a, b, rfl, ha⟩ := List.eq_append_cons_of_mem hin
    rw [List.append_assoc, List.cons_append, takeWhile_colon ha, takeWhile_colon ha]
    exact iff_of_true rfl (Or.inl hin)
  · rw [takeWhile_no_colon hin, or_iff_right hin]
    by_cases hr : ':' ∈ unread
    · -- the colon comes later: the host is all that precedes it
      obtain ⟨a, b, rfl, ha⟩ := List.eq_append_cons_of_mem hr
      have hxa : ':' ∉ x ++ a := by simp [hin, ha]
      have hall : ¬ ∀ c ∈ a ++ ':' :: b, isWhitespace c = true :=
        fun hall => absurd (hall ':' (by simp)) (by decide)
      have hhead : (a ++ ':' :: b).head? = some ':' ↔ a = [] := by
        cases a with
        | nil => simp
        | cons d a => simpa using fun hd : d = ':' => ha (by simp [hd])
      rw [← List.append_assoc, takeWhile_colon hxa, append_eq_rdropWhile, or_iff_right hall,
        hhead, rdropWhile_eq_self hne]
    · have hxr : ':' ∉ x ++ unread := by simp [hin, hr]
      have hhead : ¬ unread.head? = some ':' := fun hh => hr (List.mem_of_mem_head? hh)
      rw [takeWhile_no_colon hxr, rdropWhile_append, ← rdropWhile_eq_nil]
      split_ifs with hall
      · exact iff_of_true rfl (Or.inl hall)
      · rw [append_eq_rdropWhile]
        exact iff_of_false (fun hx => hall hx.1) (by tauto)

end Value

/-- A line that begins like a `Host` field, in any letter case. -/
def IsHostField (line : Bytes) : Prop := utf8 "host:" <+: line.map lower

instance (line : Bytes) : Decidable (IsHostField line) := inferInstanceAs (Decidable (_ <+: _))

section Case

theorem toNat_of_singleton {c : Char} {b : UInt8} (h : String.utf8EncodeChar c = [b]) :
    c.val.toNat = b.toNat := by
  rw [String.utf8EncodeChar] at h
  split_ifs at h with h127
  · rw [← List.singleton_inj.mp h, UInt8.toNat_ofNat']
    omega
  all_goals simp at h

theorem encodeChar_toLower (c : Char) :
    String.utf8EncodeChar c.toLower = (String.utf8EncodeChar c).map lower := by
  by_cases h : c.val ≥ 'A'.val ∧ c.val ≤ 'Z'.val
  · have hlow : 65 ≤ c.val.toNat := h.1
    have hhigh : c.val.toNat ≤ 90 := h.2
    have hlower : c.toLower.val = c.val + ('a'.val - 'A'.val) := congrArg Char.val (dif_pos h)
    have hadd : c.toLower.val.toNat = c.val.toNat + 32 := by
      rw [hlower, UInt32.toNat_add]
      have hdiff : ('a'.val - 'A'.val).toNat = 32 := by decide
      omega
    simp only [String.utf8EncodeChar, hadd, show c.val.toNat + 32 ≤ 127 by omega,
      show c.val.toNat ≤ 127 by omega, if_true, List.map_cons, List.map_nil]
    have hupper : 65 ≤ UInt8.ofNat c.val.toNat ∧ UInt8.ofNat c.val.toNat ≤ 90 := by
      simp only [UInt8.le_iff_toNat_le, UInt8.toNat_ofNat', UInt8.reduceToNat]
      omega
    rw [lower, if_pos hupper, UInt8.ofNat_add]
    rfl
  · have hlower : c.toLower = c := dif_neg h
    have hkeep : ∀ b ∈ String.utf8EncodeChar c, lower b = b := by
      intro b hb
      refine if_neg fun ⟨hlow, hhigh⟩ => h ?_
      have hascii : b < 0x80 := UInt8.lt_of_le_of_lt hhigh (by decide)
      have hval := toNat_of_singleton (eq_singleton_of_ascii hascii hb)
      have hlow' : 65 ≤ b.toNat := hlow
      have hhigh' : b.toNat ≤ 90 := hhigh
      exact ⟨show 65 ≤ c.val.toNat by omega, show c.val.toNat ≤ 90 by omega⟩
    rw [hlower, List.map_congr_left hkeep, List.map_id']

theorem encode_toLower (l : List Char) :
    encode (l.map Char.toLower) = (encode l).map lower := by
  induction l with
  | nil => rfl
  | cons c l ih => rw [List.map_cons, encode_cons, encode_cons, List.map_append, ih,
      encodeChar_toLower]

theorem isHostField_encode {l : List Char} :
    IsHostField (encode l) ↔ "host:".toList <+: l.map Char.toLower := by
  rw [IsHostField, ← encode_toLower]
  constructor
  · exact fun h => prefix_of_encode h
  · rintro ⟨rest, hrest⟩
    exact ⟨encode rest, by rw [← hrest, encode_append]; rfl⟩

end Case

section Lines

theorem lines_of_no_lf {l : List Char} (h : '\n' ∉ l) : lines l = if l = [] then [] else [l] := by
  induction l with
  | nil => rfl
  | cons c l ih =>
    rw [List.mem_cons, not_or] at h
    rw [lines, ih h.2, if_neg (List.cons_ne_nil c l)]
    · by_cases hl : l = []
      · rw [if_pos hl, hl]
      · rw [if_neg hl]
    · exact fun hc => h.1 hc.symm
    · rintro cs rfl rfl
      exact h.2 (by simp)

theorem lines_crlf {l rest : List Char} (hcr : '\r' ∉ l) (hlf : '\n' ∉ l) :
    lines (l ++ '\r' :: '\n' :: rest) = l :: lines rest := by
  induction l with
  | nil => rfl
  | cons c l ih =>
    rw [List.mem_cons, not_or] at hcr hlf
    rw [List.cons_append, lines, ih hcr.2 hlf.2]
    · exact fun hc => hlf.1 hc.symm
    · exact fun cs hc => absurd hc.symm hcr.1

/-- The host in a text: of its first `Host` line with one. -/
def hostIn (text : List Char) : Option (List Char) := (lines text).findSome? hostOfLine

theorem extractHost_encode (text : List Char) :
    extractHost (encode text) = (hostIn text).map String.ofList := by
  simp only [extractHost, fromUtf8_encode, hostIn, Option.bind_eq_bind, Option.bind_some]
  cases (lines text).findSome? hostOfLine <;> rfl

theorem hostOfLine_none {l : List Char} (h : ¬ IsHostField (encode l)) : hostOfLine l = none := by
  rw [hostOfLine, if_neg fun hl => h (isHostField_encode.mpr hl)]

theorem hostIn_crlf {l rest : List Char} (hcr : '\r' ∉ l) (hlf : '\n' ∉ l) :
    hostIn (l ++ '\r' :: '\n' :: rest) = (hostOfLine l).or (hostIn rest) := by
  rw [hostIn, lines_crlf hcr hlf, List.findSome?_cons]
  cases hostOfLine l <;> rfl

theorem hostIn_no_lf {l : List Char} (h : '\n' ∉ l) : hostIn l = hostOfLine l := by
  rw [hostIn, lines_of_no_lf h]
  split_ifs with hl
  · subst hl
    rfl
  · rw [List.findSome?_cons]
    cases hostOfLine l <;> rfl

end Lines

section Prefix

theorem prefix_append_cases {α : Type*} {p a b : List α} (h : p <+: a ++ b) :
    p <+: a ∧ p.length < a.length ∨ ∃ t, p = a ++ t ∧ t <+: b := by
  rcases Nat.lt_or_ge p.length a.length with hlt | hge
  · exact Or.inl ⟨List.prefix_of_prefix_length_le h (List.prefix_append a b) hlt.le, hlt⟩
  · obtain ⟨t, rfl⟩ := List.prefix_of_prefix_length_le (List.prefix_append a b) h hge
    exact Or.inr ⟨t, rfl, (List.prefix_append_right_inj a).mp h⟩

theorem split_at_crlf {text : List Char} {pre post : Bytes}
    (h : encode text = pre ++ crlf ++ post) :
    ∃ l m, text = l ++ '\r' :: '\n' :: m ∧ encode l = pre ∧ encode m = post := by
  have h13 : encode text = pre ++ 13 :: ([] ++ 10 :: post) := by simpa [crlf] using h
  obtain ⟨l, m, rfl, rfl, hm⟩ := split_at_ascii (c := '\r') rfl (by decide) h13
  obtain ⟨l', m', rfl, hl', rfl⟩ := split_at_ascii (c := '\n') rfl (by decide) hm
  have hnil : l' = [] := encode_inj.mp (hl'.trans encode_nil.symm)
  subst hnil
  exact ⟨l, m', rfl, rfl, rfl⟩

/-- A `Host` field is not made by cutting a line or keeping its carriage return. -/
theorem IsHostField.of_prefix {p l : Bytes} (h : IsHostField p) (hp : p <+: l ++ [13]) :
    IsHostField l := by
  have hpre : utf8 "host:" <+: l.map lower ++ [13] := by
    have h13 : lower 13 = 13 := by decide
    refine h.trans ?_
    simpa [h13] using hp.map lower
  rcases List.prefix_concat_iff.mp hpre with heq | hl
  · have hmem : (13 : UInt8) ∈ utf8 "host:" := by simp [heq]
    exact absurd hmem (by decide)
  · exact hl

/-- A read either ends in a line without a host or goes on after it. -/
theorem skip_line {line rest : Bytes} {text : List Char} (hcr : 13 ∉ line) (hlf : 10 ∉ line)
    (hhost : ¬ IsHostField line) (h : encode text <+: line ++ crlf ++ rest) :
    ((encode text).length < line.length + 2 ∧ hostIn text = none) ∨
      ∃ text', encode text = line ++ crlf ++ encode text' ∧ encode text' <+: rest ∧
        hostIn text = hostIn text' := by
  rcases prefix_append_cases h with ⟨hpre, hlt⟩ | ⟨t, ht, hrest⟩
  · refine Or.inl ⟨by simpa [crlf] using hlt, ?_⟩
    have hpre' : encode text <+: line ++ [13] := by
      refine List.prefix_of_prefix_length_le hpre ⟨[10], by simp [crlf]⟩ ?_
      simp only [crlf, List.length_append, List.length_cons, List.length_nil] at hlt ⊢
      omega
    have hnolf : '\n' ∉ text := by
      refine not_mem_of_byte (b := 10) rfl fun hmem => ?_
      have := hpre'.subset hmem
      simp [hlf] at this
    rw [hostIn_no_lf hnolf]
    exact hostOfLine_none fun hf => hhost (hf.of_prefix hpre')
  · obtain ⟨l, m, rfl, rfl, rfl⟩ := split_at_crlf ht
    refine Or.inr ⟨m, ht, hrest, ?_⟩
    rw [hostIn_crlf (not_mem_of_byte (b := 13) rfl hcr) (not_mem_of_byte (b := 10) rfl hlf),
      hostOfLine_none hhost]
    rfl

theorem skip_lines {ls : List Bytes} {rest : Bytes} {text : List Char}
    (hls : ∀ l ∈ ls, 13 ∉ l ∧ 10 ∉ l ∧ ¬ IsHostField l)
    (h : encode text <+: ls.flatMap (· ++ crlf) ++ rest) :
    ((encode text).length < (ls.flatMap (· ++ crlf)).length ∧ hostIn text = none) ∨
      ∃ text', encode text = ls.flatMap (· ++ crlf) ++ encode text' ∧ encode text' <+: rest ∧
        hostIn text = hostIn text' := by
  induction ls generalizing text with
  | nil => exact Or.inr ⟨text, rfl, h, rfl⟩
  | cons l ls ih =>
    obtain ⟨hcr, hlf, hhost⟩ := hls l (by simp)
    rw [List.flatMap_cons, List.append_assoc] at h ⊢
    rcases skip_line hcr hlf hhost h with ⟨hlt, hnone⟩ | ⟨text', htext, hpre, hsame⟩
    · refine Or.inl ⟨?_, hnone⟩
      simp only [crlf, List.length_append, List.length_cons, List.length_nil]
      omega
    · rw [hsame, htext]
      rcases ih (fun l' hl' => hls l' (by simp [hl'])) hpre with ⟨hlt, hnone⟩ | ⟨t, ht, hrest⟩
      · refine Or.inl ⟨?_, hnone⟩
        simp only [List.length_append]
        omega
      · exact Or.inr ⟨t, by simp only [ht, List.append_assoc], hrest⟩

end Prefix

/-- An HTTP request head with one `Host` field, which has a value. -/
structure RequestHead where
  requestLine : Bytes
  before : List Bytes
  /-- the field name in any letter case, and its colon -/
  key : Bytes
  value : Bytes
  after : List Bytes
  lines_ok : ∀ l ∈ requestLine :: before ++ after, IsLine l
  key_ok : key.map lower = utf8 "host:"
  value_ok : 13 ∉ value ∧ 10 ∉ value
  value_given : ∃ b ∈ value, b ≠ 32 ∧ b ≠ 9
  one_host : ∀ l ∈ requestLine :: before ++ after, ¬ IsHostField l

namespace RequestHead

variable (head : RequestHead)

/-- The lines before the `Host` field, as they are sent. -/
def opening : Bytes := (head.requestLine :: head.before).flatMap (· ++ crlf)

def bytes : Bytes := head.opening ++ (head.key ++ head.value ++ crlf ++ block head.after)

/-- The part of the value in the first `n` bytes of the head. -/
def seen (n : ℕ) : Bytes := head.value.take (n - (head.opening.length + 5))

/-- A read of `n` bytes that is UTF-8 and reaches into the host has all of it, and the head
it belongs to is UTF-8. -/
def HostIntact (n : ℕ) : Prop :=
  ∀ read seen, fromUtf8 (head.bytes.take n) = some read → fromUtf8 (head.seen n) = some seen →
    HostStarted seen → ∃ unread, fromUtf8 head.value = some (seen ++ unread) ∧
      (fromUtf8 head.bytes).isSome ∧ HostComplete seen unread

end RequestHead

/-- What `extract_host` returns for the value. -/
def hostResult (value : List Char) : Option (List Char) :=
  if hostOfValue value = [] then none else some (hostOfValue value)

section Head

variable {head : RequestHead}

theorem RequestHead.key_length (head : RequestHead) : head.key.length = 5 := by
  have h := congrArg List.length head.key_ok
  rw [List.length_map] at h
  exact h

theorem RequestHead.hostLine_no_break (head : RequestHead) :
    13 ∉ head.key ++ head.value ∧ 10 ∉ head.key ++ head.value := by
  have hkey : ∀ b, lower b = b → b ∉ utf8 "host:" → b ∉ head.key := by
    intro b hb hnot hmem
    have hmap : lower b ∈ head.key.map lower := List.mem_map.mpr ⟨b, hmem, rfl⟩
    rw [head.key_ok, hb] at hmap
    exact hnot hmap
  simp only [List.mem_append, not_or]
  exact ⟨⟨hkey 13 (by decide) (by decide), head.value_ok.1⟩,
    hkey 10 (by decide) (by decide), head.value_ok.2⟩

theorem RequestHead.isHostField (head : RequestHead) (v : Bytes) : IsHostField (head.key ++ v) := by
  rw [IsHostField, List.map_append, head.key_ok]
  exact List.prefix_append _ _

/-- The text of the `Host` line: five characters, then the text of the value. -/
theorem RequestHead.split_key {text : List Char} {v : Bytes}
    (h : encode text = head.key ++ v) :
    "host:".toList <+: text.map Char.toLower ∧ encode (text.drop 5) = v := by
  have hpre : "host:".toList <+: text.map Char.toLower :=
    isHostField_encode.mp (h ▸ head.isHostField v)
  refine ⟨hpre, ?_⟩
  have htake : (text.take 5).map Char.toLower = "host:".toList := by
    rw [List.map_take]
    exact (List.prefix_iff_eq_take.mp hpre).symm
  have hlen : (encode (text.take 5)).length = head.key.length := by
    have hmap := congrArg List.length (encode_toLower (text.take 5))
    rw [htake, List.length_map] at hmap
    rw [head.key_length, ← hmap]
    decide
  rw [← List.take_append_drop 5 text, encode_append] at h
  exact (List.append_inj h hlen).2

theorem RequestHead.hostOfLine_key {text : List Char} {v : Bytes}
    (h : encode text = head.key ++ v) : hostOfLine text = hostResult (text.drop 5) := by
  rw [hostOfLine, if_pos (RequestHead.split_key h).1]
  rfl

/-- The carriage return of a line cut before its line feed is trimmed. -/
theorem hostOfValue_cr (value : List Char) : hostOfValue (value ++ ['\r']) = hostOfValue value := by
  by_cases h : HostStarted value
  · have hblank : ∀ c ∈ ['\r'], isWhitespace c = true := List.forall_mem_singleton.mpr (by decide)
    exact (hostOfValue_append_iff h).mpr (Or.inr (Or.inl hblank))
  · rw [hostOfValue_not_started h, hostOfValue_not_started]
    rintro ⟨c, rest, hdrop, hc⟩
    rw [List.dropWhile_append] at hdrop
    split_ifs at hdrop with hblank
    · have hcr : ['\r'].dropWhile isWhitespace = [] := by decide
      simp [hcr] at hdrop
    · cases hvalue : value.dropWhile isWhitespace with
      | nil => simp [hvalue] at hblank
      | cons d t =>
        rw [hvalue] at hdrop
        obtain ⟨rfl, -⟩ := List.cons.inj hdrop
        exact h ⟨d, t, hvalue, hc⟩

theorem RequestHead.hostIn_after {text : List Char} (h : encode text <+: block head.after) :
    hostIn text = none := by
  have hlines : ∀ l ∈ head.after ++ [[]], 13 ∉ l ∧ 10 ∉ l ∧ ¬ IsHostField l := by
    intro l hl
    rcases List.mem_append.mp hl with hl | hl
    · have hmem : l ∈ head.requestLine :: head.before ++ head.after := by simp [hl]
      exact ⟨(head.lines_ok l hmem).2.1, (head.lines_ok l hmem).2.2, head.one_host l hmem⟩
    · obtain rfl := List.mem_singleton.mp hl
      decide
  have hblock : block head.after = (head.after ++ [[]]).flatMap (· ++ crlf) ++ [] := by
    simp [block]
  rcases skip_lines hlines (hblock ▸ h) with ⟨-, hnone⟩ | ⟨text', -, hpre, hsame⟩
  · exact hnone
  · have hnil : text' = [] := encode_inj.mp (List.prefix_nil.mp hpre)
    rw [hsame, hnil]
    rfl

/-- A read that ends before the line feed of the host line. -/
theorem RequestHead.hostIn_withinLine {text : List Char}
    (h : encode text <+: head.key ++ (head.value ++ [13])) :
    ∃ s, encode s = head.value.take ((encode text).length - 5) ∧ hostIn text = hostResult s := by
  have hnolf : '\n' ∉ text := by
    refine not_mem_of_byte (b := 10) rfl fun hmem => ?_
    have hmem' := h.subset hmem
    simp [head.hostLine_no_break.2, ← List.append_assoc] at hmem'
  rw [hostIn_no_lf hnolf]
  have hkey := head.key_length
  rcases prefix_append_cases h with ⟨-, hshort⟩ | ⟨v, hv, hvalue⟩
  · -- the read ends inside the field name
    refine ⟨[], by simp [show (encode text).length - 5 = 0 by omega], ?_⟩
    refine hostOfLine_none fun hf => ?_
    have hlen := hf.length_le
    rw [List.length_map] at hlen
    have hfive : (utf8 "host:").length = 5 := by decide
    omega
  · rw [hostOfLine_key hv]
    have hdrop := (split_key hv).2
    have hlen : (encode text).length - 5 = v.length := by simp [hv, hkey]
    rcases List.prefix_concat_iff.mp hvalue with rfl | hvalue
    · obtain ⟨s, m, hs, hvs, hm⟩ := split_at_ascii (c := '\r') rfl (by decide) hdrop
      have hnil : m = [] := encode_inj.mp hm
      refine ⟨s, ?_, ?_⟩
      · rw [hvs, hlen, List.take_of_length_le (by simp)]
      · rw [hs, hnil, hostResult, hostResult, hostOfValue_cr]
    · exact ⟨text.drop 5, by rw [hdrop, hlen, ← List.prefix_iff_eq_take.mp hvalue], rfl⟩

/-- From the `Host` line on, the text yields the host of the value as far as it was read. -/
theorem RequestHead.hostIn_hostLine {text : List Char}
    (h : encode text <+: head.key ++ head.value ++ crlf ++ block head.after) :
    ∃ s, encode s = head.value.take ((encode text).length - 5) ∧ hostIn text = hostResult s := by
  have hkey := head.key_length
  rcases prefix_append_cases h with ⟨hpre, hlt⟩ | ⟨t, ht, hrest⟩
  · refine hostIn_withinLine ?_
    refine List.prefix_of_prefix_length_le hpre ⟨[10], by simp [crlf]⟩ ?_
    simp only [crlf, List.length_append, List.length_cons, List.length_nil] at hlt ⊢
    omega
  · obtain ⟨l, m, rfl, hl, hm⟩ := split_at_crlf ht
    have hdrop := (split_key hl).2
    refine ⟨l.drop 5, ?_, ?_⟩
    · rw [hdrop, List.take_of_length_le]
      simp only [ht, List.length_append]
      omega
    · rw [hostIn_crlf (not_mem_of_byte (b := 13) rfl (hl ▸ head.hostLine_no_break.1))
        (not_mem_of_byte (b := 10) rfl (hl ▸ head.hostLine_no_break.2)), hostOfLine_key hl,
        hostIn_after (hm ▸ hrest), Option.or_none]

/-- What a read of `n` bytes yields, if it is UTF-8. -/
theorem RequestHead.hostIn_take {n : ℕ} {text : List Char} (h : head.bytes.take n = encode text) :
    ∃ s, encode s = head.seen n ∧ hostIn text = hostResult s := by
  have hpre : encode text <+: head.opening ++
      (head.key ++ head.value ++ crlf ++ block head.after) := h ▸ List.take_prefix n _
  have hlines : ∀ l ∈ head.requestLine :: head.before, 13 ∉ l ∧ 10 ∉ l ∧ ¬ IsHostField l := by
    intro l hl
    have hmem : l ∈ head.requestLine :: head.before ++ head.after := List.mem_append_left _ hl
    exact ⟨(head.lines_ok l hmem).2.1, (head.lines_ok l hmem).2.2, head.one_host l hmem⟩
  have hlen : (encode text).length = min n head.bytes.length := by rw [← h, List.length_take]
  have htotal : head.bytes.length = head.opening.length + 5 + head.value.length + 2 +
      (block head.after).length := by
    simp only [bytes, crlf, List.length_append, List.length_cons, List.length_nil, head.key_length]
    omega
  rcases skip_lines hlines hpre with ⟨hshort, hnone⟩ | ⟨text', htext, hpre', hsame⟩
  · have hopening : (encode text).length < head.opening.length := hshort
    refine ⟨[], ?_, hnone⟩
    have hzero : n - (head.opening.length + 5) = 0 := by omega
    rw [seen, hzero]
    rfl
  · obtain ⟨s, hs, hres⟩ := hostIn_hostLine hpre'
    refine ⟨s, ?_, hsame.trans hres⟩
    have hsum : (encode text).length = head.opening.length + (encode text').length := by
      rw [htext, List.length_append]
      rfl
    rw [hs, seen]
    rcases Nat.le_total n head.bytes.length with hle | hge
    · have hcut : (encode text').length - 5 = n - (head.opening.length + 5) := by omega
      rw [hcut]
    · rw [List.take_of_length_le (by omega), List.take_of_length_le (by omega)]

theorem hostResult_eq_some {value host : List Char} (h : host ≠ []) :
    hostResult value = some host ↔ hostOfValue value = host := by
  rw [hostResult]
  split_ifs with hnil
  · simp [hnil, h.symm]
  · rw [Option.some_inj]

theorem extractHost_of_none {raw : Bytes} (h : fromUtf8 raw = none) : extractHost raw = none := by
  rw [extractHost, h]
  rfl

theorem RequestHead.exists_value {whole : List Char} (h : head.bytes = encode whole) :
    ∃ v, head.value = encode v ∧ extractHost head.bytes = (hostResult v).map String.ofList := by
  have htake : head.bytes.take head.bytes.length = encode whole := by rw [List.take_length, h]
  obtain ⟨v, hv, hres⟩ := hostIn_take htake
  refine ⟨v, ?_, by rw [h, extractHost_encode, hres]⟩
  rw [hv, seen, List.take_of_length_le]
  simp only [bytes, crlf, List.length_append, List.length_cons, List.length_nil, head.key_length]
  omega

variable {n : ℕ} {text s : List Char}

theorem RequestHead.hostIntact_of_not_started (hseen : fromUtf8 (head.seen n) = some s)
    (hstarted : ¬ HostStarted s) : head.HostIntact n := by
  rintro read seen - hseen' hstarted'
  obtain rfl := Option.some_inj.mp (hseen.symm.trans hseen')
  exact absurd hstarted' hstarted

theorem RequestHead.hostIntact_iff (htake : fromUtf8 (head.bytes.take n) = some text)
    (hseen : fromUtf8 (head.seen n) = some s) (hstarted : HostStarted s) :
    head.HostIntact n ↔ ∃ unread, fromUtf8 head.value = some (s ++ unread) ∧
      (fromUtf8 head.bytes).isSome ∧ HostComplete s unread := by
  constructor
  · exact fun h => h text s htake hseen hstarted
  · rintro h read seen - hseen' -
    obtain rfl := Option.some_inj.mp (hseen.symm.trans hseen')
    exact h

/-- A host seen in part is the requested one just when the rest of the value adds nothing. -/
theorem RequestHead.extractHost_eq_iff (hseen : fromUtf8 (head.seen n) = some s)
    (hstarted : HostStarted s) :
    some (String.ofList (hostOfValue s)) = extractHost head.bytes ↔
      ∃ unread, fromUtf8 head.value = some (s ++ unread) ∧
        (fromUtf8 head.bytes).isSome ∧ HostComplete s unread := by
  cases hall : fromUtf8 head.bytes with
  | none =>
    rw [extractHost_of_none hall]
    exact iff_of_false (Option.some_ne_none _) (by simp)
  | some whole =>
    obtain ⟨v, hv, hwhole⟩ := head.exists_value (fromUtf8_eq_some_iff.mp hall)
    obtain ⟨unread, rfl⟩ : s <+: v := by
      refine prefix_of_encode ?_
      rw [← fromUtf8_eq_some_iff.mp hseen, ← hv]
      exact List.take_prefix _ _
    have hvalue : ∀ unread', fromUtf8 head.value = some (s ++ unread') ↔ unread = unread' := by
      intro unread'
      rw [fromUtf8_eq_some_iff, hv, encode_inj, List.append_cancel_left_eq]
    rw [hwhole, eq_comm, Option.map_eq_some_iff]
    simp only [String.ofList_inj, exists_eq_right, Option.isSome_some, true_and, hvalue,
      exists_eq_left', hostResult_eq_some (hostOfValue_ne_nil hstarted),
      hostOfValue_append_iff hstarted]

end Head

/-- A read of part of a request head gives no host or the requested one just when it does
not end inside the host. -/
theorem prefix_host_iff (head : RequestHead) (n : ℕ) :
    (extractHost (head.bytes.take n) = none ∨
      extractHost (head.bytes.take n) = extractHost head.bytes) ↔ head.HostIntact n := by
  cases htake : fromUtf8 (head.bytes.take n) with
  | none =>
    refine iff_of_true (Or.inl (extractHost_of_none htake)) fun read seen hread => ?_
    rw [htake] at hread
    cases hread
  | some text =>
    have htext := fromUtf8_eq_some_iff.mp htake
    obtain ⟨s, hs, hres⟩ := head.hostIn_take htext
    have hextract : extractHost (head.bytes.take n) = (hostResult s).map String.ofList := by
      rw [htext, extractHost_encode, hres]
    have hseen : fromUtf8 (head.seen n) = some s := fromUtf8_eq_some_iff.mpr hs.symm
    rw [hextract]
    by_cases hstarted : HostStarted s
    · have hhost := (hostResult_eq_some (hostOfValue_ne_nil hstarted)).mpr rfl
      rw [hhost, Option.map_some, or_iff_right (Option.some_ne_none _),
        head.extractHost_eq_iff hseen hstarted, head.hostIntact_iff htake hseen hstarted]
    · have hnone : hostResult s = none := by
        rw [hostResult, if_pos (hostOfValue_not_started hstarted)]
      refine iff_of_true (Or.inl ?_) (head.hostIntact_of_not_started hseen hstarted)
      rw [hnone]
      rfl

/-- `GET /` for `service-beta`. -/
def betaHead : RequestHead where
  requestLine := utf8 "GET / HTTP/1.1"
  before := []
  key := utf8 "Host:"
  value := utf8 " service-beta"
  after := []
  lines_ok := by decide
  key_ok := by decide
  value_ok := by decide
  value_given := by decide
  one_host := by decide

/-- A read that ends within `service-beta` yields the name `service`. -/
theorem read_truncates_host :
    ¬ ∀ (head : RequestHead) (n : ℕ), 0 < n → n ≤ head.bytes.length →
      extractHost (head.bytes.take n) = none ∨
        extractHost (head.bytes.take n) = extractHost head.bytes := by
  intro h
  have hread : extractHost (betaHead.bytes.take 29) = some "service" := by decide
  have hwhole : extractHost betaHead.bytes = some "service-beta" := by decide
  rcases h betaHead 29 (by decide) (by decide) with hnone | hsame
  · exact absurd (hread.symm.trans hnone) (by decide)
  · exact absurd (hread.symm.trans (hsame.trans hwhole)) (by decide)

end Meshlite.Conduit
