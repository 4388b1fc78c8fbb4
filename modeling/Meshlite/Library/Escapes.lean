import Meshlite.Library.Separators
import Meshlite.Library.Utf8
import Mathlib.Data.List.TakeWhile

/-!
# Percent escapes

A text in the path or the fragment of a URL may have characters escaped. Written out again it
stays as it is if every character of it may stand there, and is escaped anew otherwise, so
two texts can come out the same.
-/

namespace Escapes

open Separators

/-- Where in a URL a text stands. -/
inductive Part where
  | path
  | fragment
  deriving DecidableEq

def shouldEscape (part : Part) (c : Char) : Bool :=
  if c.isAlphanum then false
  else if c ∈ "-_.~".toList then false
  else if c ∈ "$&+,/:;=?@".toList then part = .path && c = '?'
  else !(part = .fragment && c ∈ "!()*".toList)

def ishex (c : Char) : Bool :=
  '0' ≤ c && c ≤ '9' || 'a' ≤ c && c ≤ 'f' || 'A' ≤ c && c ≤ 'F'

def unhex (c : Char) : ℕ :=
  if c ≤ '9' then c.toNat - 48 else if c ≤ 'F' then c.toNat - 55 else c.toNat - 87

/-- The bytes that a text stands for, unless a percent sign lacks its two digits. -/
def unescape : List Char → Option Bytes
  | [] => some []
  | '%' :: a :: b :: raw =>
    if ishex a && ishex b then (unescape raw).map (UInt8.ofNat (16 * unhex a + unhex b) :: ·)
    else none
  | '%' :: _ => none
  | c :: raw => (unescape raw).map (String.utf8EncodeChar c ++ ·)

def upperhex (d : ℕ) : Char := if d < 10 then Char.ofNat (48 + d) else Char.ofNat (55 + d)

def percentByte (b : UInt8) : List Char :=
  ['%', upperhex (b.toNat / 16), upperhex (b.toNat % 16)]

def escapeByte (part : Part) (b : UInt8) : List Char :=
  if shouldEscape part (Char.ofNat b.toNat) then percentByte b else [Char.ofNat b.toNat]

def escape (part : Part) (text : Bytes) : List Char := text.flatMap (escapeByte part)

/-- Every character may stand in the part as it is. -/
def validEncoded (part : Part) (raw : List Char) : Bool :=
  raw.all fun c => c ∈ "!$&'()*+,;=:@[]%".toList || !shouldEscape part c

/-- What is written for a text that was parsed: the text, where it is valid and not the default
escape of what it stands for, or else that escape. -/
def escaped (part : Part) (raw : List Char) : List Char :=
  match unescape raw with
  | none => []
  | some text =>
    if raw ≠ escape part text ∧ validEncoded part raw = true then raw else escape part text

def isPrintable (c : Char) : Bool := ' ' ≤ c && c ≠ '\x7f'

/-- The characters a part can have: a path ends where query or fragment begins, and control
characters are refused before the fragment. -/
def Part.admits : Part → Char → Bool
  | path, c => c ≠ '?' && c ≠ '#' && isPrintable c
  | fragment, _ => true

/-- The default escape of a character that is escaped. -/
def percent (c : Char) : List Char := (String.utf8EncodeChar c).flatMap percentByte

/-- No other text of the part is written out as this one: all of it may stand there, and if it
is the default escape, it has no escape for which the character could be written. -/
def Unmistakable (part : Part) (raw : List Char) : Prop :=
  validEncoded part raw = true ∧ ((unescape raw).map (escape part) = some raw →
    ∀ c, part.admits c = true → validEncoded part [c] = false → ¬ percent c <:+: raw)

section Bytes

variable {part : Part} {c : Char} {b : UInt8} {raw : List Char} {text : Bytes}

theorem upperhex_spec : ∀ d < 16, ishex (upperhex d) = true ∧ unhex (upperhex d) = d ∧
    upperhex d ≠ '/' ∧ ∀ part, shouldEscape part (upperhex d) = false := by
  intro d hd
  refine ⟨?_, ?_, ?_, fun part => ?_⟩
  · revert d
    decide
  · revert d
    decide
  · revert d
    decide
  · cases part <;> revert d <;> decide

theorem upperhex_byte (b : UInt8) :
    UInt8.ofNat (16 * (b.toNat / 16) + b.toNat % 16) = b := by
  rw [Nat.div_add_mod, UInt8.ofNat_toNat]

theorem unescape_percentByte (b : UInt8) (raw : List Char) :
    unescape (percentByte b ++ raw) = (unescape raw).map (b :: ·) := by
  have hlt := b.toNat_lt
  obtain ⟨hhex, hval, -⟩ := upperhex_spec (b.toNat / 16) (by omega)
  obtain ⟨hhex', hval', -⟩ := upperhex_spec (b.toNat % 16) (by omega)
  simp only [percentByte, List.cons_append, List.nil_append, unescape, hhex, hhex', hval, hval',
    Bool.and_self, if_true, upperhex_byte]

theorem plain_byte (h : shouldEscape part (Char.ofNat b.toNat) = false) :
    String.utf8EncodeChar (Char.ofNat b.toNat) = [b] ∧ Char.ofNat b.toNat ≠ '%' := by
  have hall : ∀ part, ∀ n < 256, shouldEscape part (Char.ofNat n) = false →
      String.utf8EncodeChar (Char.ofNat n) = [UInt8.ofNat n] ∧ Char.ofNat n ≠ '%' := by
    intro part
    cases part <;> decide +kernel
  have hplain := hall part b.toNat b.toNat_lt h
  rwa [UInt8.ofNat_toNat] at hplain

theorem unescape_char (hc : c ≠ '%') (raw : List Char) :
    unescape (c :: raw) = (unescape raw).map (String.utf8EncodeChar c ++ ·) := by
  rw [unescape]
  · rintro a b raw' rfl
    exact absurd rfl hc
  · rintro rfl
    exact absurd rfl hc

theorem unescape_escapeByte (part : Part) (b : UInt8) (raw : List Char) :
    unescape (escapeByte part b ++ raw) = (unescape raw).map (b :: ·) := by
  unfold escapeByte
  split_ifs with hescape
  · exact unescape_percentByte b raw
  · rw [Bool.not_eq_true] at hescape
    obtain ⟨hbyte, hc⟩ := plain_byte hescape
    rw [List.singleton_append, unescape_char hc, hbyte]
    rfl

theorem unescape_escape (part : Part) (text : Bytes) :
    unescape (escape part text) = some text := by
  induction text with
  | nil => rfl
  | cons b text ih =>
    have hcons : escape part (b :: text) = escapeByte part b ++ escape part text :=
      List.flatMap_cons
    rw [hcons, unescape_escapeByte, ih]
    rfl

theorem validEncoded_cons : validEncoded part (c :: raw) = true ↔
    validEncoded part [c] = true ∧ validEncoded part raw = true := by
  simp [validEncoded]

theorem valid_of_plain (h : shouldEscape part c = false) : validEncoded part [c] = true := by
  simp [validEncoded, h]

theorem validEncoded_escape (part : Part) (text : Bytes) :
    validEncoded part (escape part text) = true := by
  have hpercent : validEncoded part ['%'] = true := by cases part <;> decide
  unfold escape
  rw [validEncoded, List.all_flatMap, List.all_eq_true]
  intro b _
  change validEncoded part (escapeByte part b) = true
  have hlt := b.toNat_lt
  unfold escapeByte
  split_ifs with hescape
  · simp only [percentByte, @validEncoded_cons _ _ (_ :: _), hpercent, true_and]
    exact ⟨valid_of_plain ((upperhex_spec _ (by omega)).2.2.2 part),
      valid_of_plain ((upperhex_spec _ (by omega)).2.2.2 part)⟩
  · exact valid_of_plain (by simpa using hescape)

end Bytes

section Parts

variable {part : Part} {c : Char} {raw raw' : List Char} {text : Bytes}

theorem escape_append (part : Part) (text text' : Bytes) :
    escape part (text ++ text') = escape part text ++ escape part text' :=
  List.flatMap_append

/-- In front of what is no hexadecimal digit an escape is complete. -/
theorem unescape_front (hc : ishex c = false) {front back : List Char}
    (h : unescape (front ++ c :: back) = some text) :
    ∃ bytes, ∀ rest, unescape (front ++ rest) = (unescape rest).map (bytes ++ ·) := by
  induction front using unescape.induct generalizing text with
  | case1 => exact ⟨[], fun rest => by simp⟩
  | case2 a b front hhex ih =>
    simp only [List.cons_append, unescape, hhex, if_true, Option.map_eq_some_iff] at h ⊢
    obtain ⟨text', htext, -⟩ := h
    obtain ⟨bytes, hbytes⟩ := ih htext
    exact ⟨_ :: bytes, fun rest => by rw [hbytes, Option.map_map]; rfl⟩
  | case3 a b front hhex =>
    simp [unescape, hhex] at h
  | case4 front hshort =>
    exfalso
    match front with
    | [] =>
      cases back with
      | nil => simp [unescape] at h
      | cons b back => simp [unescape, hc] at h
    | [a] => simp [unescape, hc] at h
    | a :: b :: front => exact hshort a b front rfl
  | case5 a front hne hne' ih =>
    have ha : a ≠ '%' := fun ha => hne' ha
    rw [List.cons_append, unescape_char ha, Option.map_eq_some_iff] at h
    obtain ⟨text', htext, -⟩ := h
    obtain ⟨bytes, hbytes⟩ := ih htext
    exact ⟨String.utf8EncodeChar a ++ bytes, fun rest => by
      rw [List.cons_append, unescape_char ha, hbytes]
      simp [Function.comp_def]⟩

theorem unescape_percent (c : Char) (raw : List Char) :
    unescape (percent c ++ raw) = (unescape raw).map (String.utf8EncodeChar c ++ ·) := by
  unfold percent
  induction String.utf8EncodeChar c with
  | nil => simp
  | cons b bytes ih =>
    rw [List.flatMap_cons, List.append_assoc, unescape_percentByte, ih, Option.map_map]
    rfl

/-- What may not stand in a part is escaped byte by byte. -/
theorem escape_bad (hbad : validEncoded part [c] = false) :
    escape part (String.utf8EncodeChar c) = percent c := by
  have hhigh : ∀ part, ∀ n < 256, 128 ≤ n → shouldEscape part (Char.ofNat n) = true := by
    intro part
    cases part <;> decide +kernel
  have hescape : ∀ b ∈ String.utf8EncodeChar c, escapeByte part b = percentByte b := by
    intro b hb
    refine if_pos ?_
    rcases Nat.lt_or_ge b.toNat 128 with hlow | hge
    · by_contra hplain
      rw [Bool.not_eq_true] at hplain
      obtain ⟨hbyte, -⟩ := plain_byte hplain
      have hc : Char.ofNat b.toNat = c := by
        have henc : Bytes.encode [Char.ofNat b.toNat] = Bytes.encode [c] := by
          simp [hbyte, Bytes.eq_singleton_of_ascii hlow hb]
        simpa using Bytes.encode_inj.mp henc
      rw [valid_of_plain (hc ▸ hplain)] at hbad
      cases hbad
    · exact hhigh part b.toNat b.toNat_lt hge
  exact List.flatMap_congr hescape

theorem validEncoded_append : validEncoded part (raw ++ raw') = true ↔
    validEncoded part raw = true ∧ validEncoded part raw' = true := by
  simp [validEncoded]

theorem exists_bad (h : ¬ validEncoded part raw = true) :
    ∃ front c back, raw = front ++ c :: back ∧ validEncoded part [c] = false := by
  rw [validEncoded, List.all_eq_true] at h
  push Not at h
  obtain ⟨c, hc, hbad⟩ := h
  obtain ⟨front, back, rfl⟩ := List.append_of_mem hc
  exact ⟨front, c, back, rfl, by simpa [validEncoded] using hbad⟩

theorem not_hex_of_bad (hbad : validEncoded part [c] = false) : ishex c = false ∧ c ≠ '%' := by
  refine ⟨?_, ?_⟩
  · by_contra hhex
    have hlt : c.toNat < 128 := by
      simp only [ishex, Bool.not_eq_false, Bool.or_eq_true, Bool.and_eq_true, decide_eq_true_eq,
        Char.le_def, UInt32.le_iff_toNat_le] at hhex
      rw [← Char.toNat_val]
      grind
    have hall : ∀ n < 128, ishex (Char.ofNat n) = true → (Char.ofNat n).isAlphanum = true := by
      decide
    have halnum : c.isAlphanum = true := by
      rw [Bool.not_eq_false, ← Char.ofNat_toNat c] at hhex
      rw [← Char.ofNat_toNat c]
      exact hall c.toNat hlt hhex
    rw [valid_of_plain (by rw [shouldEscape, if_pos halnum])] at hbad
    cases hbad
  · rintro rfl
    revert hbad
    cases part <;> decide

theorem escaped_of_valid (h : validEncoded part raw = true) (hraw : (unescape raw).isSome) :
    escaped part raw = raw := by
  obtain ⟨text, htext⟩ := Option.isSome_iff_exists.mp hraw
  rw [escaped, htext]
  dsimp only
  split_ifs with hkeep
  · rfl
  · by_contra hne
    exact hkeep ⟨Ne.symm hne, h⟩

theorem escaped_of_bad (h : ¬ validEncoded part raw = true) (htext : unescape raw = some text) :
    escaped part raw = escape part text := by
  rw [escaped, htext]
  exact if_neg fun hkeep => h hkeep.2

/-- Two texts that are written out as one are one, if the first is unmistakable. -/
theorem Unmistakable.eq (h : Unmistakable part raw) (hraw : (unescape raw).isSome)
    (hraw' : (unescape raw').isSome) (hadmits : raw'.all part.admits = true)
    (hsame : escaped part raw' = escaped part raw) : raw' = raw := by
  rw [escaped_of_valid h.1 hraw] at hsame
  by_cases hvalid : validEncoded part raw' = true
  · rwa [escaped_of_valid hvalid hraw'] at hsame
  obtain ⟨text, htext⟩ := Option.isSome_iff_exists.mp hraw'
  rw [escaped_of_bad hvalid htext] at hsame
  obtain ⟨front, c, back, rfl, hbad⟩ := exists_bad hvalid
  obtain ⟨hhex, hc⟩ := not_hex_of_bad hbad
  obtain ⟨bytes, hbytes⟩ := unescape_front hhex htext
  rw [hbytes, unescape_char hc, Option.map_map, Option.map_eq_some_iff] at htext
  obtain ⟨rest, -, rfl⟩ := htext
  refine absurd ?_ (h.2 ?_ c ?_ hbad)
  · refine ⟨escape part bytes, escape part rest, ?_⟩
    rw [← hsame, Function.comp_apply, escape_append, escape_append, escape_bad hbad,
      List.append_assoc]
  · rw [← hsame, unescape_escape]
    rfl
  · rw [List.all_eq_true] at hadmits
    exact hadmits c (by simp)

theorem percent_tail (c : Char) : ∃ digits, percent c = '%' :: digits ∧ '/' ∉ digits := by
  have hslash : '/' ∉ percent c := by
    unfold percent
    intro hmem
    obtain ⟨b, -, hb⟩ := List.mem_flatMap.mp hmem
    have hlt := b.toNat_lt
    simp only [percentByte, List.mem_cons, List.not_mem_nil, or_false] at hb
    rcases hb with hb | hb | hb
    · exact absurd hb (by decide)
    · exact (upperhex_spec _ (by omega)).2.2.1 hb.symm
    · exact (upperhex_spec _ (by omega)).2.2.1 hb.symm
  obtain ⟨b, bytes, hbytes⟩ := List.exists_cons_of_ne_nil (String.utf8EncodeChar_ne_nil (c := c))
  rw [percent, hbytes, List.flatMap_cons, percentByte] at hslash ⊢
  exact ⟨_, rfl, fun hmem => hslash (List.mem_cons_of_mem _ hmem)⟩

theorem admits_escape (part : Part) (text : Bytes) :
    (escape part text).all part.admits = true := by
  have hbyte : ∀ part, ∀ n < 256, (escapeByte part (UInt8.ofNat n)).all part.admits = true := by
    intro part
    cases part <;> decide +kernel
  rw [escape, List.all_flatMap, List.all_eq_true]
  intro b _
  have h := hbyte part b.toNat b.toNat_lt
  rwa [UInt8.ofNat_toNat] at h

/-- The letters of a separator stand in every part as they are. -/
def Letters (letters : List Char) : Prop :=
  ∀ c ∈ letters, c ≠ '%' ∧ ∀ part, escape part (String.utf8EncodeChar c) = [c]

/-- A text and its default escape differ in what is no letter of the separators. -/
theorem respelled_escape {letters : List Char} (hletters : Letters letters)
    (h : unescape raw = some text) : Respelled '/' letters raw (escape part text) := by
  have hpercent : '%' ∉ letters := fun hmem => (hletters _ hmem).1 rfl
  induction raw using unescape.induct generalizing text with
  | case1 =>
    obtain rfl := Option.some.inj h
    exact .nil
  | case2 a b raw hhex ih =>
    simp only [unescape, hhex, if_true, Option.map_eq_some_iff] at h
    obtain ⟨text', htext, rfl⟩ := h
    have hslash : '/' ∉ [a, b] := by
      rw [Bool.and_eq_true] at hhex
      rw [List.mem_pair]
      rintro (rfl | rfl)
      · exact absurd hhex.1 (by decide)
      · exact absurd hhex.2 (by decide)
    exact .change (x := [a, b]) _ hpercent hslash (ih htext)
  | case3 a b raw hhex =>
    simp [unescape, hhex] at h
  | case4 raw hshort =>
    rw [unescape] at h
    · cases h
    · exact hshort
  | case5 a raw hne hne' ih =>
    have ha : a ≠ '%' := fun ha => hne' ha
    rw [unescape_char ha, Option.map_eq_some_iff] at h
    obtain ⟨text', htext, rfl⟩ := h
    rw [escape_append]
    by_cases hplain : escape part (String.utf8EncodeChar a) = [a]
    · rw [hplain]
      exact .keep a (ih htext)
    · exact .change (x := []) _ (fun hmem => hplain ((hletters a hmem).2 part)) (by simp)
        (ih htext)

theorem unmistakable_of_plain (hvalid : validEncoded part raw = true) (hraw : '%' ∉ raw) :
    Unmistakable part raw := by
  refine ⟨hvalid, fun _ c _ _ hinfix => hraw ?_⟩
  obtain ⟨digits, hdigits, -⟩ := percent_tail c
  exact hinfix.subset (hdigits ▸ List.mem_cons_self)

/-- Another text of the part, made of the same letters in the same places, that is written out
as this one. -/
structure Alias (part : Part) (letters raw raw' : List Char) : Prop where
  ne : raw' ≠ raw
  decodes : (unescape raw').isSome
  admits : raw'.all part.admits = true
  escaped_eq : escaped part raw' = escaped part raw
  respelled : Respelled '/' letters raw raw'

/-- A text that is no escape of what it stands for, next to the one that is. -/
theorem alias_escape {letters : List Char} (hletters : Letters letters)
    (hvalid : ¬ validEncoded part raw = true) (htext : unescape raw = some text) :
    Alias part letters raw (escape part text) where
  ne hsame := hvalid (hsame ▸ validEncoded_escape part text)
  decodes := by
    rw [unescape_escape]
    rfl
  admits := admits_escape part text
  escaped_eq := by
    rw [escaped_of_bad hvalid htext, escaped_of_valid (validEncoded_escape part text)]
    rw [unescape_escape]
    rfl
  respelled := respelled_escape hletters htext

/-- An escape of a character that may not stand in the part, next to the character itself. -/
theorem alias_character {letters front back : List Char} (hletters : Letters letters)
    (hvalid : validEncoded part (front ++ percent c ++ back) = true)
    (hadmits : (front ++ percent c ++ back).all part.admits = true)
    (hc : part.admits c = true) (hbad : validEncoded part [c] = false)
    (htext : unescape (front ++ percent c ++ back) = some text)
    (hcanonical : escape part text = front ++ percent c ++ back) :
    Alias part letters (front ++ percent c ++ back) (front ++ c :: back) := by
  obtain ⟨digits, hdigits, hslash⟩ := percent_tail c
  obtain ⟨bytes, hbytes⟩ : ∃ bytes, ∀ rest,
      unescape (front ++ rest) = (unescape rest).map (bytes ++ ·) := by
    have hescape : unescape (front ++ '%' :: (digits ++ back)) = some text := by
      rw [← htext, hdigits, List.append_assoc, List.cons_append]
    exact unescape_front (by decide) hescape
  have hinvalid : ¬ validEncoded part (front ++ c :: back) = true := by
    rw [validEncoded_append, @validEncoded_cons _ _ back, hbad]
    simp
  have htext' : unescape (front ++ c :: back) = some text := by
    rw [← htext, List.append_assoc, hbytes, hbytes, unescape_percent,
      unescape_char (not_hex_of_bad hbad).2]
  refine ⟨?_, ?_, ?_, ?_, ?_⟩
  · intro hsame
    exact hinvalid (hsame ▸ hvalid)
  · rw [htext']
    rfl
  · simp only [List.all_append, List.all_cons, Bool.and_eq_true] at hadmits ⊢
    exact ⟨hadmits.1.1, hc, hadmits.2⟩
  · rw [escaped_of_bad hinvalid htext', escaped_of_valid hvalid (by rw [htext]; rfl), hcanonical]
  · have hpercent : '%' ∉ letters := fun hmem => (hletters _ hmem).1 rfl
    rw [hdigits, List.append_assoc]
    exact (Respelled.refl front).append (.change [c] hpercent hslash (.refl back))

/-- A text that can be mistaken is written out as another one is. -/
theorem exists_alias {letters : List Char} (hletters : Letters letters)
    (hraw : (unescape raw).isSome) (hadmits : raw.all part.admits = true)
    (h : ¬ Unmistakable part raw) : ∃ raw', Alias part letters raw raw' := by
  obtain ⟨text, htext⟩ := Option.isSome_iff_exists.mp hraw
  by_cases hvalid : validEncoded part raw = true
  · have hbad : ∃ c, part.admits c = true ∧ validEncoded part [c] = false ∧
        percent c <:+: raw ∧ escape part text = raw := by
      by_contra hnone
      refine h ⟨hvalid, fun hcanonical c hc hbad hinfix => hnone ⟨c, hc, hbad, hinfix, ?_⟩⟩
      rwa [htext, Option.map_some, Option.some.injEq] at hcanonical
    obtain ⟨c, hc, hbad, ⟨front, back, rfl⟩, hcanonical⟩ := hbad
    exact ⟨_, alias_character hletters hvalid hadmits hc hbad htext hcanonical⟩
  · exact ⟨_, alias_escape hletters hvalid htext⟩

theorem eq_nil_of_unescape (h : unescape raw = some []) : raw = [] := by
  cases raw using unescape.fun_cases with
  | case1 => rfl
  | case2 a b raw hhex =>
    simp [unescape, hhex] at h
  | case3 a b raw hhex =>
    simp [unescape, hhex] at h
  | case4 raw hshort =>
    rw [unescape] at h
    · cases h
    · exact hshort
  | case5 a raw hne hne' =>
    have ha : a ≠ '%' := fun ha => hne' ha
    rw [unescape_char ha, Option.map_eq_some_iff] at h
    obtain ⟨text, -, htext⟩ := h
    exact absurd (List.append_eq_nil_iff.mp htext).1 String.utf8EncodeChar_ne_nil

theorem escaped_eq_nil (hraw : (unescape raw).isSome) (h : escaped part raw = []) : raw = [] := by
  obtain ⟨text, htext⟩ := Option.isSome_iff_exists.mp hraw
  by_cases hvalid : validEncoded part raw = true
  · rwa [escaped_of_valid hvalid hraw] at h
  · rw [escaped_of_bad hvalid htext] at h
    have hnil := unescape_escape part text
    rw [h] at hnil
    obtain rfl := Option.some.inj hnil
    exact eq_nil_of_unescape htext

theorem admits_escaped (part : Part) (hadmits : raw.all part.admits = true) :
    (escaped part raw).all part.admits = true := by
  unfold escaped
  split
  · rfl
  · split_ifs
    · exact hadmits
    · exact admits_escape _ _

end Parts

/-! ### What stands behind the host of a URL -/

/-- Path, query and fragment as they are written, the query with its question mark. -/
structure Reference where
  path : List Char
  query : List Char
  fragment : List Char

namespace Reference

def ofText (text : List Char) : Reference :=
  let url := text.takeWhile (· ≠ '#')
  { path := url.takeWhile (· ≠ '?')
    query := url.dropWhile (· ≠ '?')
    fragment := (text.dropWhile (· ≠ '#')).tail }

/-- Parsing succeeds: no control character before the fragment, all escapes complete. -/
def parses (text : List Char) : Bool :=
  (text.takeWhile (· ≠ '#')).all isPrintable && (unescape (ofText text).path).isSome &&
    (unescape (ofText text).fragment).isSome

/-- A parsed URL written out again; an empty fragment is left out. -/
def string (r : Reference) : List Char :=
  escaped .path r.path ++ r.query ++
    if r.fragment = [] then [] else '#' :: escaped .fragment r.fragment

/-- No other URL is written out as this one. -/
def Unmistakable (r : Reference) : Prop :=
  r.fragment ≠ [] ∧ Escapes.Unmistakable .path r.path ∧
    Escapes.Unmistakable .fragment r.fragment

/-- The text is empty or begins with the mark. -/
def OpensWith (mark : Char) (text : List Char) : Prop := text = [] ∨ ∃ rest, text = mark :: rest

/-- The three are divided where a text of them is. -/
structure Divided (path query tail : List Char) : Prop where
  inPath : ∀ c ∈ path, c ≠ '?' ∧ c ≠ '#'
  inQuery : '#' ∉ query
  opensQuery : OpensWith '?' query
  opensTail : OpensWith '#' tail

section Divided

variable {path query tail text text' : List Char} {mark : Char}

theorem span_of_opensWith (htext : ∀ c ∈ text, c ≠ mark) (htail : OpensWith mark tail) :
    (text ++ tail).takeWhile (· ≠ mark) = text ∧ (text ++ tail).dropWhile (· ≠ mark) = tail := by
  have hp : ∀ c ∈ text, decide (c ≠ mark) = true := fun c hc => decide_eq_true (htext c hc)
  rw [List.takeWhile_append_of_pos hp, List.dropWhile_append_of_pos hp]
  obtain rfl | ⟨rest, rfl⟩ := htail
  · simp
  · simp

theorem opensWith_dropWhile (mark : Char) (text : List Char) :
    OpensWith mark (text.dropWhile (· ≠ mark)) := by
  induction text with
  | nil => exact Or.inl rfl
  | cons c text ih =>
    rw [List.dropWhile_cons]
    split_ifs with hc
    · exact ih
    · exact Or.inr ⟨text, by simpa using hc⟩

theorem Divided.url (h : Divided path query tail) :
    (path ++ query ++ tail).takeWhile (· ≠ '#') = path ++ query ∧
      (path ++ query ++ tail).dropWhile (· ≠ '#') = tail := by
  refine span_of_opensWith ?_ h.opensTail
  intro c hc
  rcases List.mem_append.mp hc with hc | hc
  · exact (h.inPath c hc).2
  · rintro rfl
    exact h.inQuery hc

theorem Divided.ofText (h : Divided path query tail) :
    ofText (path ++ query ++ tail) = ⟨path, query, tail.tail⟩ := by
  obtain ⟨hpath, hquery⟩ := span_of_opensWith (fun c hc => (h.inPath c hc).1) h.opensQuery
  rw [Reference.ofText, h.url.1, h.url.2, hpath, hquery]

theorem exists_divided (text : List Char) :
    ∃ path query tail, text = path ++ query ++ tail ∧ Divided path query tail := by
  have hurl : ∀ c ∈ text.takeWhile (· ≠ '#'), c ≠ '#' :=
    fun c hc => by simpa using List.mem_takeWhile_imp hc
  refine ⟨(text.takeWhile (· ≠ '#')).takeWhile (· ≠ '?'), _, _, ?_, ?_, ?_,
    opensWith_dropWhile '?' (text.takeWhile (· ≠ '#')), opensWith_dropWhile '#' text⟩
  · rw [List.takeWhile_append_dropWhile, List.takeWhile_append_dropWhile]
  · intro c hc
    exact ⟨by simpa using List.mem_takeWhile_imp hc,
      hurl c ((List.takeWhile_prefix _).subset hc)⟩
  · exact fun hmem => hurl _ ((List.dropWhile_suffix _).subset hmem) rfl

theorem Divided.parses_iff (h : Divided path query tail) :
    parses (path ++ query ++ tail) = true ↔ (path.all Part.path.admits = true ∧
      query.all isPrintable = true) ∧ (unescape path).isSome ∧ (unescape tail.tail).isSome := by
  have hadmits : path.all Part.path.admits = path.all isPrintable := by
    rw [Bool.eq_iff_iff, List.all_eq_true, List.all_eq_true]
    refine forall₂_congr fun c hc => ?_
    simp [Part.admits, h.inPath c hc]
  simp only [parses, h.url.1, h.ofText, List.all_append, Bool.and_eq_true, hadmits, and_assoc]

theorem inPath_of_admits (hpath : path.all Part.path.admits = true) :
    ∀ c ∈ path, c ≠ '?' ∧ c ≠ '#' := by
  intro c hc
  have hadmit := List.all_eq_true.mp hpath c hc
  simp only [Part.admits, Bool.and_eq_true, decide_eq_true_eq] at hadmit
  exact hadmit.1

theorem Divided.escaped (h : Divided path query tail)
    (hpath : path.all Part.path.admits = true) :
    Divided (escaped .path path) query
      (if tail.tail = [] then [] else '#' :: Escapes.escaped .fragment tail.tail) where
  inPath := inPath_of_admits (admits_escaped .path hpath)
  inQuery := h.inQuery
  opensQuery := h.opensQuery
  opensTail := by
    split_ifs
    · exact Or.inl rfl
    · exact Or.inr ⟨_, rfl⟩

/-- Two URLs are written out as one exactly if they agree part by part. -/
theorem string_eq_iff (htext : parses text = true) (htext' : parses text' = true) :
    string (ofText text') = string (ofText text) ↔
      escaped .path (ofText text').path = escaped .path (ofText text).path ∧
      (ofText text').query = (ofText text).query ∧
      ((ofText text').fragment = [] ↔ (ofText text).fragment = []) ∧
      escaped .fragment (ofText text').fragment = escaped .fragment (ofText text).fragment := by
  obtain ⟨path, query, tail, rfl, h⟩ := exists_divided text
  obtain ⟨path', query', tail', rfl, h'⟩ := exists_divided text'
  have hdiv := h.escaped (h.parses_iff.mp htext).1.1
  have hdiv' := h'.escaped (h'.parses_iff.mp htext').1.1
  rw [h.ofText, h'.ofText]
  constructor
  · intro hsame
    have hparts := congrArg Reference.ofText hsame
    rw [Reference.string, Reference.string, hdiv.ofText, hdiv'.ofText] at hparts
    obtain ⟨hpath, rfl, -⟩ := Reference.mk.inj hparts
    rw [Reference.string, Reference.string, hpath, List.append_cancel_left_eq] at hsame
    dsimp only at hsame ⊢
    refine ⟨hpath, rfl, ?_⟩
    split_ifs at hsame with hempty' hempty hempty
    · simp [hempty, hempty']
    · exact ⟨by simp [hempty, hempty'], (List.cons.inj hsame).2⟩
  · rintro ⟨hpath, hquery, hempty, hfragment⟩
    rw [Reference.string, Reference.string, hpath, hquery, hfragment]
    simp only [hempty]

/-- A URL whose parts are unmistakable is the only one that is written out as it is. -/
theorem eq_of_string_eq (htext : parses text = true) (htext' : parses text' = true)
    (h : (ofText text).Unmistakable) (hsame : string (ofText text') = string (ofText text)) :
    text' = text := by
  obtain ⟨hpath, hquery, hempty, hfragment⟩ := (string_eq_iff htext htext').mp hsame
  obtain ⟨path, query, tail, rfl, hdiv⟩ := exists_divided text
  obtain ⟨path', query', tail', rfl, hdiv'⟩ := exists_divided text'
  rw [hdiv.ofText] at h hpath hquery hempty hfragment
  rw [hdiv'.ofText] at hpath hquery hempty hfragment
  obtain ⟨⟨hadmits, -⟩, hraw, hrawTail⟩ := hdiv.parses_iff.mp htext
  obtain ⟨⟨hadmits', -⟩, hraw', hrawTail'⟩ := hdiv'.parses_iff.mp htext'
  obtain ⟨hne, hpathOnly, hfragmentOnly⟩ := h
  have hpathEq := hpathOnly.eq hraw hraw' hadmits' hpath
  have htailEq := hfragmentOnly.eq hrawTail hrawTail' (by simp [Part.admits]) hfragment
  have hne' : tail'.tail ≠ [] := fun hnil => hne (hempty.mp hnil)
  obtain rfl | ⟨rest, rfl⟩ := hdiv.opensTail
  · exact absurd rfl hne
  obtain rfl | ⟨rest', rfl⟩ := hdiv'.opensTail
  · exact absurd rfl hne'
  dsimp only [List.tail_cons] at hpathEq hquery htailEq
  rw [hpathEq, hquery, htailEq]

/-- Another URL that is written out as this one: it has an empty fragment besides, or the same
letters in the same places. -/
structure Alias (letters text text' : List Char) : Prop where
  ne : text' ≠ text
  parses : parses text' = true
  string_eq : string (ofText text') = string (ofText text)
  shape : text' = text ++ ['#'] ∨ Respelled '/' letters text text'

section Alias

variable {letters rest : List Char}

theorem Divided.string_eq (h : Divided path query tail) (h' : Divided path' query tail')
    (htext : Reference.parses (path ++ query ++ tail) = true)
    (htext' : Reference.parses (path' ++ query ++ tail') = true)
    (hpath : Escapes.escaped .path path' = Escapes.escaped .path path)
    (hempty : tail'.tail = [] ↔ tail.tail = [])
    (hfragment : Escapes.escaped .fragment tail'.tail = Escapes.escaped .fragment tail.tail) :
    (Reference.ofText (path' ++ query ++ tail')).string =
      (Reference.ofText (path ++ query ++ tail)).string := by
  rw [string_eq_iff htext htext', h.ofText, h'.ofText]
  exact ⟨hpath, rfl, hempty, hfragment⟩

/-- The mark of an empty fragment is not written out. -/
theorem Divided.exists_alias_of_empty (h : Divided path query tail)
    (htext : Reference.parses (path ++ query ++ tail) = true) (hhash : '#' ∉ letters)
    (hempty : tail.tail = []) : ∃ text', Alias letters (path ++ query ++ tail) text' := by
  obtain ⟨hpath, hraw, -⟩ := h.parses_iff.mp htext
  obtain rfl | ⟨rest, rfl⟩ := h.opensTail
  · have hdiv' : Divided path query ['#'] := { h with opensTail := Or.inr ⟨[], rfl⟩ }
    have htext' := hdiv'.parses_iff.mpr ⟨hpath, hraw, rfl⟩
    exact ⟨path ++ query ++ ['#'], by simp, htext',
      h.string_eq hdiv' htext htext' rfl (by simp) rfl, Or.inl (by simp)⟩
  · obtain rfl : rest = [] := hempty
    have hdiv' : Divided path query [] := { h with opensTail := Or.inl rfl }
    have htext' := hdiv'.parses_iff.mpr ⟨hpath, hraw, rfl⟩
    refine ⟨path ++ query ++ [], by simp, htext',
      h.string_eq hdiv' htext htext' rfl (by simp) rfl, Or.inr ?_⟩
    exact (Respelled.refl _).append (.change [] hhash (List.not_mem_nil) .nil)

theorem Divided.exists_alias_of_fragment (h : Divided path query ('#' :: rest))
    (htext : Reference.parses (path ++ query ++ '#' :: rest) = true) (hletters : Letters letters)
    (hempty : rest ≠ []) (hfragment : ¬ Escapes.Unmistakable .fragment rest) :
    ∃ text', Alias letters (path ++ query ++ '#' :: rest) text' := by
  obtain ⟨hpath, hraw, hrawRest⟩ := h.parses_iff.mp htext
  obtain ⟨rest', halias⟩ := exists_alias hletters hrawRest (by simp [Part.admits]) hfragment
  have hdiv' : Divided path query ('#' :: rest') := { h with opensTail := Or.inr ⟨rest', rfl⟩ }
  have htext' := hdiv'.parses_iff.mpr ⟨hpath, hraw, halias.decodes⟩
  have hempty' : rest' ≠ [] := by
    rintro rfl
    exact hempty (escaped_eq_nil hrawRest halias.escaped_eq.symm)
  refine ⟨path ++ query ++ '#' :: rest', by simpa using halias.ne, htext', ?_, Or.inr ?_⟩
  · exact h.string_eq hdiv' htext htext' rfl (iff_of_false hempty' hempty) halias.escaped_eq
  · exact (Respelled.refl _).append (.keep '#' halias.respelled)

theorem Divided.exists_alias_of_path (h : Divided path query tail)
    (htext : Reference.parses (path ++ query ++ tail) = true) (hletters : Letters letters)
    (hpath : ¬ Escapes.Unmistakable .path path) :
    ∃ text', Alias letters (path ++ query ++ tail) text' := by
  obtain ⟨⟨hadmits, hquery⟩, hraw, hrawTail⟩ := h.parses_iff.mp htext
  obtain ⟨path', halias⟩ := exists_alias hletters hraw hadmits hpath
  have hdiv' : Divided path' query tail := { h with inPath := inPath_of_admits halias.admits }
  have htext' := hdiv'.parses_iff.mpr ⟨⟨halias.admits, hquery⟩, halias.decodes, hrawTail⟩
  refine ⟨path' ++ query ++ tail, by simpa using halias.ne, htext', ?_, Or.inr ?_⟩
  · exact h.string_eq hdiv' htext htext' halias.escaped_eq Iff.rfl rfl
  · exact (halias.respelled.append (.refl query)).append (.refl tail)

end Alias

/-- Any other URL shares what is written out with another one. -/
theorem exists_string_eq {letters : List Char} (hletters : Letters letters)
    (hhash : '#' ∉ letters) (htext : parses text = true) (h : ¬ (ofText text).Unmistakable) :
    ∃ text', Alias letters text text' := by
  obtain ⟨path, query, tail, rfl, hdiv⟩ := exists_divided text
  rw [hdiv.ofText, Unmistakable] at h
  by_cases hempty : tail.tail = []
  · exact hdiv.exists_alias_of_empty htext hhash hempty
  by_cases hpath : Escapes.Unmistakable .path path
  · obtain rfl | ⟨rest, rfl⟩ := hdiv.opensTail
    · exact absurd rfl hempty
    · exact hdiv.exists_alias_of_fragment htext hletters hempty fun hfragment =>
        h ⟨hempty, hpath, hfragment⟩
  · exact hdiv.exists_alias_of_path htext hletters hpath

end Divided

end Reference

end Escapes
