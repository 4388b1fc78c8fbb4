import Meshlite.Library.JsonReader
import Mathlib.Data.List.TakeWhile

/-!
# What is written is read back

A writer of compact JSON differs from another one by how it escapes characters. Whatever
the reader takes for the character itself will do as its escape.
-/

namespace Json

open Bytes Reader

section Escapes

/-- The reader takes `body` inside a string for the character. -/
def Escapes (c : Char) (body : Bytes) : Prop :=
  ∃ ps, Body body ps ∧ ∀ qs, render (ps ++ qs) = String.utf8EncodeChar c ++ render qs

variable {c : Char} {b e : UInt8} {text : List Char} {esc : Char → Bytes}

theorem body_bytes {bs : Bytes} (h : ∀ b ∈ bs, b ≠ 34 ∧ b ≠ 92 ∧ ¬ b < 32) :
    Body bs (bs.map .byte) := by
  induction bs with
  | nil => exact .nil
  | cons b bs ih =>
    obtain ⟨⟨hquote, hescape, hcontrol⟩, hrest⟩ := List.forall_mem_cons.mp h
    exact .cons (.byte hquote hescape hcontrol) (ih hrest)

theorem render_bytes (bs : Bytes) (qs : List Piece) :
    render (bs.map .byte ++ qs) = bs ++ render qs := by
  induction bs with
  | nil => rfl
  | cons b bs ih => simp [render, ih]

theorem toNat_of_encode (h : String.utf8EncodeChar c = [b]) : c.toNat = b.toNat := by
  rw [String.utf8EncodeChar] at h
  split_ifs at h with hascii
  · have hlt : c.val.toNat < 2 ^ 8 := lt_of_le_of_lt hascii (by decide)
    rw [← List.singleton_inj.mp h, UInt8.toNat_ofNat', Nat.mod_eq_of_lt hlt]
    rfl
  all_goals simp at h

theorem plain_bytes (hquote : c ≠ '"') (hescape : c ≠ '\\') (hcontrol : ¬ c.toNat < 32) :
    ∀ b ∈ String.utf8EncodeChar c, b ≠ 34 ∧ b ≠ 92 ∧ ¬ b < 32 := by
  intro b hb
  by_cases hascii : b < 0x80
  · have hcode := toNat_of_encode (eq_singleton_of_ascii hascii hb)
    refine ⟨?_, ?_, ?_⟩
    · rintro rfl
      exact hquote (Char.toNat_inj.mp hcode)
    · rintro rfl
      exact hescape (Char.toNat_inj.mp hcode)
    · intro hlt
      exact hcontrol (hcode ▸ hlt)
  · refine ⟨?_, ?_, fun hlt => hascii (UInt8.lt_trans hlt (by decide))⟩
    · rintro rfl
      exact hascii (by decide)
    · rintro rfl
      exact hascii (by decide)

theorem escapes_plain (hquote : c ≠ '"') (hescape : c ≠ '\\') (hcontrol : ¬ c.toNat < 32) :
    Escapes c (String.utf8EncodeChar c) :=
  ⟨_, body_bytes (plain_bytes hquote hescape hcontrol), render_bytes _⟩

theorem escapes_short (hescape : unescape e = some b) (hc : String.utf8EncodeChar c = [b]) :
    Escapes c [92, e] := by
  refine ⟨[.byte b], .singleton (.escape hescape), fun qs => ?_⟩
  rw [hc]
  rfl

theorem hexValue_hexDigit : ∀ d < 16, hexValue (hexDigit d) = some d := by decide

theorem not_surrogate (c : Char) :
    isHighSurrogate c.toNat = false ∧ isLowSurrogate c.toNat = false := by
  have hvalid : c.toNat < 0xD800 ∨ 0xDFFF < c.toNat ∧ c.toNat < 0x110000 := c.valid
  simp only [isHighSurrogate, isLowSurrogate, Bool.and_eq_false_iff, decide_eq_false_iff_not]
  omega

theorem unitChar_toNat (c : Char) : unitChar c.toNat = c := by
  rw [unitChar, (not_surrogate c).1, (not_surrogate c).2]
  exact Char.ofNat_toNat c

theorem render_unit {u : ℕ} (hhigh : isHighSurrogate u = false) (qs : List Piece) :
    render (.unit u :: qs) = String.utf8EncodeChar (unitChar u) ++ render qs := by
  cases qs with
  | nil => simp [render]
  | cons q qs => cases q <;> simp [render, hhigh]

theorem escapes_unicode (hc : c.toNat < 0x10000) : Escapes c (unicodeEscape c) := by
  have hhex : hex4 (hexDigit (c.toNat / 4096 % 16)) (hexDigit (c.toNat / 256 % 16))
      (hexDigit (c.toNat / 16 % 16)) (hexDigit (c.toNat % 16)) = some c.toNat := by
    have hdigit : ∀ n, hexValue (hexDigit (n % 16)) = some (n % 16) := fun n =>
      hexValue_hexDigit _ (Nat.mod_lt n (by decide))
    simp only [hex4, hdigit, Option.bind_eq_bind, Option.bind_some, Option.pure_def,
      Option.some.injEq]
    omega
  refine ⟨[.unit c.toNat], .singleton (.unit hhex), fun qs => ?_⟩
  rw [List.singleton_append, render_unit (not_surrogate c).1, unitChar_toNat]

theorem firstChar_encode (c : Char) (rest : Bytes) :
    firstChar (String.utf8EncodeChar c ++ rest) = some c := by
  rw [firstChar, toByteArray_eq, List.toByteArray_append]
  exact ByteArray.utf8DecodeChar?_utf8EncodeChar_append

theorem lossy_skip (bs rest : Bytes) : lossy bs.length (bs ++ rest) = lossy 0 rest := by
  induction bs with
  | nil => rfl
  | cons b bs ih => exact ih

theorem lossy_encode (text : List Char) : lossy 0 (encode text) = text := by
  induction text with
  | nil => rfl
  | cons c text ih =>
    have hfirst := firstChar_encode c (encode text)
    obtain ⟨b, bs, hb⟩ := List.exists_cons_of_ne_nil (@String.utf8EncodeChar_ne_nil c)
    have hlen : c.utf8Size - 1 = bs.length := by
      rw [← String.length_utf8EncodeChar, hb]
      rfl
    rw [hb, List.cons_append] at hfirst
    rw [encode_cons, hb, List.cons_append, lossy, hfirst]
    simp only [hlen, lossy_skip, ih]

theorem toNat_ascii (hb : b < 0x80) : (Char.ofNat b.toNat).toNat = b.toNat := by
  have hlt : b.toNat < 128 := hb
  have hvalid : b.toNat.isValidChar := Or.inl (by omega)
  rw [Char.ofNat, dif_pos hvalid]
  rfl

theorem encode_ascii (hb : b < 0x80) : String.utf8EncodeChar (Char.ofNat b.toNat) = [b] := by
  have hlt : b.toNat < 128 := hb
  have hcode : (Char.ofNat b.toNat).val.toNat = b.toNat := toNat_ascii hb
  rw [String.utf8EncodeChar, hcode, if_pos (by omega), UInt8.ofNat_toNat]

theorem lossy_ascii (hb : b < 0x80) (bs : Bytes) :
    lossy 0 (b :: bs) = Char.ofNat b.toNat :: lossy 0 bs := by
  have hencode := encode_ascii hb
  have hfirst := firstChar_encode (Char.ofNat b.toNat) bs
  rw [hencode, List.singleton_append] at hfirst
  rw [lossy, hfirst]
  have hsize : (Char.ofNat b.toNat).utf8Size = 1 := by
    rw [← String.length_utf8EncodeChar, hencode]
    rfl
  simp only [hsize, Nat.sub_self]

theorem string_escaped (hesc : ∀ c ∈ text, Escapes c (esc c)) (rest : Bytes) :
    string (text.flatMap esc ++ 34 :: rest) = some (String.ofList text, rest) := by
  have hbody : ∃ ps, Body (text.flatMap esc) ps ∧ render ps = encode text := by
    induction text with
    | nil => exact ⟨[], .nil, rfl⟩
    | cons c text ih =>
      obtain ⟨hc, htext⟩ := List.forall_mem_cons.mp hesc
      obtain ⟨ps, hbody, hrender⟩ := hc
      obtain ⟨qs, hbody', hrender'⟩ := ih htext
      exact ⟨ps ++ qs, hbody.append hbody', by rw [hrender, hrender']; rfl⟩
  obtain ⟨ps, hbody, hrender⟩ := hbody
  rw [string, hbody.pieces_append, Option.map_some, Prod.map_apply, hrender, lossy_encode]
  rfl

end Escapes

section Writer

variable (esc : Char → Bytes)

def strTextWith (s : String) : Bytes := 34 :: s.toList.flatMap esc ++ [34]

mutual

/-- Compact text with characters escaped by `esc`. -/
def textWith : Json → Bytes
  | null => utf8 "null"
  | bool b => if b then utf8 "true" else utf8 "false"
  | num t => utf8 t
  | str s => strTextWith esc s
  | arr items => 91 :: joined 44 (itemTexts items) ++ [93]
  | obj fields => 123 :: joined 44 (fieldTexts fields) ++ [125]

def itemTexts : List Json → List Bytes
  | [] => []
  | j :: js => textWith j :: itemTexts js

def fieldTexts : List (String × Json) → List Bytes
  | [] => []
  | (name, j) :: fs => (strTextWith esc name ++ 58 :: textWith j) :: fieldTexts fs

end

theorem itemTexts_eq (items : List Json) : itemTexts esc items = items.map (textWith esc) := by
  induction items with
  | nil => rfl
  | cons j js ih => rw [itemTexts, ih, List.map_cons]

/-- The text of a member. -/
def memberText (f : String × Json) : Bytes := strTextWith esc f.1 ++ 58 :: textWith esc f.2

theorem fieldTexts_eq (fields : List (String × Json)) :
    fieldTexts esc fields = fields.map (memberText esc) := by
  induction fields with
  | nil => rfl
  | cons f fs ih => rw [fieldTexts, ih, List.map_cons, memberText]

end Writer

section RoundTrip

variable {σ : Type} {L : Leaf σ} {esc : Char → Bytes} {keep : String → σ} {n depth : ℕ}
  {rest : Bytes}

/-- A text that the reader takes for a number. -/
def IsNumber (t : String) : Prop := number (utf8 t) = some ((num t : Json), [])

/-- The numbers of a value are numbers, and it is not nested deeper than the reader allows. -/
inductive Readable : ℕ → Json → Prop
  | null {depth : ℕ} : Readable depth null
  | bool {depth : ℕ} (b : Bool) : Readable depth (bool b)
  | num {depth : ℕ} {t : String} (ht : IsNumber t) : Readable depth (num t)
  | str {depth : ℕ} (s : String) : Readable depth (str s)
  | arr {depth : ℕ} {items : List Json} (hitems : ∀ j ∈ items, Readable depth j) :
      Readable (depth + 1) (arr items)
  | obj {depth : ℕ} {fields : List (String × Json)} (hfields : ∀ f ∈ fields, Readable depth f.2) :
      Readable (depth + 1) (obj fields)

/-- What is kept of a string that is written so. -/
def Leaf.Keeps (L : Leaf σ) (esc : Char → Bytes) (keep : String → σ) : Prop :=
  ∀ s rest, L.read (s.toList.flatMap esc ++ 34 :: rest) = some (keep s, rest)

theorem textLeaf_keeps (hesc : ∀ c, Escapes c (esc c)) : textLeaf.Keeps esc id := by
  intro s rest
  change string _ = _
  rw [string_escaped fun c _ => hesc c, String.ofList_toList]
  rfl

/-- A string as it is written with the escapes. -/
def quotedBy (esc : Char → Bytes) (s : String) : Quoted := ⟨s, s.toList.flatMap esc⟩

theorem quotedLeaf_keeps (hesc : ∀ c, Escapes c (esc c)) :
    quotedLeaf.Keeps esc (quotedBy esc) := by
  intro s rest
  change quoted _ = _
  rw [quoted, string_escaped fun c _ => hesc c, String.ofList_toList, Option.map_some,
    List.length_append, List.length_cons, Nat.add_sub_cancel, List.take_left, quotedBy]

theorem strText_append (hkeep : L.Keeps esc keep) (s : String) (rest : Bytes) :
    ∃ tail, strTextWith esc s ++ rest = 34 :: tail ∧ L.read tail = some (keep s, rest) :=
  ⟨s.toList.flatMap esc ++ 34 :: rest, by simp [strTextWith], hkeep s rest⟩

theorem number_head {c : UInt8} {cs : Bytes} {j : Json σ}
    (h : number (c :: cs) = some (j, rest)) : c = 45 ∨ isDigit c = true := by
  obtain ⟨⟨text, _⟩, htext, -⟩ := Option.map_eq_some_iff.mp h
  obtain ⟨⟨sign, raw⟩, hsign, htext⟩ := Option.bind_eq_some_iff.mp htext
  by_cases hminus : c = 45
  · exact Or.inl hminus
  · rw [optional, if_neg (by simpa using hminus)] at hsign
    obtain ⟨-, rfl⟩ := Prod.mk.inj (Option.some.inj hsign)
    obtain ⟨int, hint, -⟩ := Option.bind_eq_some_iff.mp htext
    by_cases hdigit : isDigit c = true
    · exact Or.inr hdigit
    · have hzero : c ≠ 48 := by
        rintro rfl
        exact hdigit (by decide)
      simp [intPart, digits, hzero, hdigit] at hint

/-- The bytes that a value other than an array starts with. -/
def Opens (c : UInt8) : Prop := c ∈ [34, 45, 102, 110, 116, 123] ∨ isDigit c = true

instance (c : UInt8) : Decidable (Opens c) := inferInstanceAs (Decidable (_ ∨ _))

theorem Opens.ascii {c : UInt8} (h : Opens c) : c < 0x80 := by
  rcases h with hmem | hdigit
  · fin_cases hmem <;> decide
  · rw [isDigit, Bool.and_eq_true, decide_eq_true_eq, decide_eq_true_eq] at hdigit
    exact UInt8.lt_of_le_of_lt hdigit.2 (by decide)

theorem scalar_head {c : UInt8} {raw : Bytes} {j : Json σ}
    (h : scalar L c raw = some (j, rest)) : Opens c ∧ ∀ items, j ≠ arr items := by
  have hliteral : ∀ {text : Bytes} {k : Json σ}, literal text k raw = some (j, rest) → j = k :=
    fun h => (literal_eq_some.mp h).2
  rw [scalar] at h
  split_ifs at h with hquote hnull htrue hfalse
  · obtain ⟨s, -, heq⟩ := Option.map_eq_some_iff.mp h
    rw [← (Prod.mk.inj heq).1]
    exact ⟨Or.inl (by simp [hquote]), by rintro _ ⟨⟩⟩
  · rw [hliteral h]
    exact ⟨Or.inl (by simp [hnull]), by rintro _ ⟨⟩⟩
  · rw [hliteral h]
    exact ⟨Or.inl (by simp [htrue]), by rintro _ ⟨⟩⟩
  · rw [hliteral h]
    exact ⟨Or.inl (by simp [hfalse]), by rintro _ ⟨⟩⟩
  · obtain ⟨text, -, heq⟩ := Option.map_eq_some_iff.mp h
    rw [← (Prod.mk.inj heq).1]
    refine ⟨(number_head h).imp (fun hminus => by simp [hminus]) id, by rintro _ ⟨⟩⟩

/-- An array starts with a bracket, any other value with a byte that opens one. -/
theorem value_head {raw : Bytes} {j : Json σ} (h : value L n depth raw = some (j, rest)) :
    ∃ c tail, raw.dropWhile isSpace = c :: tail ∧
      (c = 91 ∧ (∃ items, j = arr items) ∨ Opens c ∧ ∀ items, j ≠ arr items) := by
  cases n with
  | zero => cases h
  | succ n =>
    obtain ⟨c, tail, hraw, hread⟩ := dispatch_cases h
    refine ⟨c, tail, hraw, ?_⟩
    split_ifs at hread with hopen hdepth hbrace
    · obtain ⟨items, -, heq⟩ := Option.map_eq_some_iff.mp hread
      exact Or.inl ⟨hopen, items.1, (Prod.mk.inj heq).1.symm⟩
    · obtain ⟨fields, -, heq⟩ := Option.map_eq_some_iff.mp hread
      exact Or.inr ⟨Or.inl (by simp [hbrace]), fun items hj => by
        rw [hj] at heq
        cases (Prod.mk.inj heq).1⟩
    · exact Or.inr (scalar_head hread)

theorem number_start {c : UInt8} (h : c = 45 ∨ isDigit c = true) :
    c ∉ [34, 91, 93, 102, 110, 116, 123, 125] ∧ isSpace c = false := by
  refine ⟨fun hmem => ?_, ?_⟩
  · fin_cases hmem <;> revert h <;> decide
  · by_contra hspace
    simp only [isSpace, Bool.not_eq_false, Bool.or_eq_true, decide_eq_true_eq] at hspace
    rcases hspace with ((rfl | rfl) | rfl) | rfl <;> revert h <;> decide

theorem IsNumber.exists_cons {t : String} (h : IsNumber t) :
    ∃ c cs, utf8 t = c :: cs ∧ (c = 45 ∨ isDigit c = true) := by
  cases ht : utf8 t with
  | nil =>
    rw [IsNumber, ht] at h
    cases h
  | cons c cs =>
    rw [IsNumber, ht] at h
    exact ⟨c, cs, rfl, number_head h⟩

theorem Readable.exists_cons (esc : Char → Bytes) {j : Json} (h : Readable depth j) :
    ∃ c cs, textWith esc j = c :: cs ∧ isSpace c = false ∧ c ≠ 93 ∧ c ≠ 125 := by
  cases h with
  | null => exact ⟨110, _, rfl, by decide⟩
  | bool b => cases b <;> exact ⟨_, _, rfl, by decide⟩
  | num ht =>
    obtain ⟨c, cs, hc, hstart⟩ := ht.exists_cons
    obtain ⟨hnot, hspace⟩ := number_start hstart
    refine ⟨c, cs, hc, hspace, ?_, ?_⟩
    · rintro rfl
      exact hnot (by decide)
    · rintro rfl
      exact hnot (by decide)
  | str s => exact ⟨34, _, rfl, by decide⟩
  | arr => exact ⟨91, _, rfl, by decide⟩
  | obj => exact ⟨123, _, rfl, by decide⟩

theorem endsNumber_of_mem {b : UInt8} (hb : b ∈ [44, 93, 125]) (rest : Bytes) :
    EndsNumber (b :: rest) := by
  intro b' hb'
  obtain rfl := Option.some.inj hb'
  fin_cases hb <;> decide

theorem value_cons {c : UInt8} (raw : Bytes) (hspace : isSpace c = false)
    (hc : c ∉ [91, 123]) : value L (n + 1) depth (c :: raw) = scalar L c raw := by
  have hdrop : (c :: raw).dropWhile isSpace = c :: raw :=
    List.dropWhile_cons_of_neg (by simp [hspace])
  rw [value, dispatch_cons hdrop]
  simp only [List.mem_cons, List.not_mem_nil, or_false, not_or] at hc
  rw [if_neg hc.1, if_neg hc.2]

theorem value_open {raw : Bytes} :
    value L (n + 1) (depth + 1) (91 :: raw) =
        (enclosed isSpace (value L n depth) 44 93 n raw).map (Prod.map arr id) ∧
      value L (n + 1) (depth + 1) (123 :: raw) =
        (enclosed isSpace (member L (value L n depth)) 44 125 n raw).map (Prod.map obj id) :=
  ⟨rfl, rfl⟩

theorem exists_fuel {j : Json} (depth : ℕ) (hj : Readable depth j)
    (hn : (textWith esc j).length ≤ n) : ∃ k, n = k + 1 := by
  obtain ⟨c, cs, hc, -⟩ := hj.exists_cons esc
  rw [hc, List.length_cons] at hn
  exact ⟨n - 1, by omega⟩

theorem length_le_joined {texts : List Bytes} (hne : ∀ text ∈ texts, text ≠ []) :
    (∀ text ∈ texts, text.length ≤ (joined 44 texts).length) ∧
      texts.length ≤ (joined 44 texts).length := by
  have hsum := length_joined 44 texts
  have hone : ∀ l ∈ texts.map List.length, 1 ≤ l := by
    intro l hl
    obtain ⟨text, htext, rfl⟩ := List.mem_map.mp hl
    exact List.length_pos_iff.mpr (hne text htext)
  refine ⟨fun text htext => ?_, ?_⟩
  · exact (List.single_le_sum (by simp) _ (List.mem_map_of_mem htext)).trans hsum
  · have hcount := List.length_le_sum_of_one_le _ hone
    rw [List.length_map] at hcount
    exact hcount.trans hsum

theorem member_memberText (hkeep : L.Keeps esc keep) {val : Reader (Json σ)}
    {f : String × Json} (hval : val (textWith esc f.2 ++ rest) = some (f.2.map keep, rest)) :
    member L val (memberText esc f ++ rest) = some (Prod.map keep (Json.map keep) f, rest) := by
  obtain ⟨tail, htail, hname⟩ := strText_append hkeep f.1 (58 :: (textWith esc f.2 ++ rest))
  have hopen : symbol isSpace 34 (34 :: tail) = some ((), tail) := rfl
  have hcolon : symbol isSpace 58 (58 :: (textWith esc f.2 ++ rest)) =
      some ((), textWith esc f.2 ++ rest) := rfl
  rw [memberText, List.append_assoc, List.cons_append, htail]
  simp only [member, hopen, Option.bind_some, hname, hcolon, hval, Option.map_some, Prod.map,
    id_eq]

theorem IsNumber.number {t : String} (h : IsNumber t) :
    number (utf8 t) = some ((num t : Json σ), []) := by
  obtain ⟨⟨text, _⟩, htext, heq⟩ := Option.map_eq_some_iff.mp h
  obtain ⟨hnum, rfl⟩ := Prod.mk.inj heq
  rw [Json.number, htext, Option.map_some, Prod.map_apply, Json.num.inj hnum]
  rfl

theorem value_numText {t : String} (ht : IsNumber t) (hrest : EndsNumber rest) :
    value L (n + 1) depth (utf8 t ++ rest) = some (num t, rest) := by
  obtain ⟨c, cs, hc, hstart⟩ := ht.exists_cons
  obtain ⟨hnot, hspace⟩ := number_start hstart
  simp only [List.mem_cons, List.not_mem_nil, or_false, not_or] at hnot
  have hread := number_stable (utf8 t) (num t : Json σ) [] rest ht.number fun _ => hrest
  rw [hc, List.cons_append] at hread
  rw [hc, List.cons_append, value_cons _ hspace (by simp [hnot]), scalar]
  simpa [hnot] using hread

/-- An array is read back if its items are, each in front of what may follow it. -/
theorem value_arrText {items : List Json} (hitems : ∀ j ∈ items, Readable depth j)
    (hn : (textWith esc (arr items)).length ≤ n + 1)
    (hread : ∀ j ∈ items, ∀ rest, (textWith esc j).length ≤ n → EndsNumber rest →
      value L n depth (textWith esc j ++ rest) = some (j.map keep, rest)) :
    value L (n + 1) (depth + 1) (textWith esc (arr items) ++ rest) =
      some ((arr items).map keep, rest) := by
  have hne : ∀ text ∈ items.map (textWith esc), text ≠ [] := by
    intro text htext
    obtain ⟨j, hj, rfl⟩ := List.mem_map.mp htext
    obtain ⟨c, cs, hc, -⟩ := (hitems j hj).exists_cons esc
    exact hc ▸ List.cons_ne_nil c cs
  obtain ⟨hlen, hcount⟩ := length_le_joined hne
  rw [textWith, itemTexts_eq] at hn ⊢
  simp only [List.length_cons, List.length_append, List.length_map, List.length_nil] at hn hcount
  have hitem : ∀ j ∈ items, ∀ c ∈ [(44 : UInt8), 93], ∀ rest,
      value L n depth (textWith esc j ++ c :: rest) = some (j.map keep, c :: rest) := by
    intro j hj c hc rest
    have hj' := hlen _ (List.mem_map_of_mem hj)
    exact hread j hj _ (by omega) (endsNumber_of_mem (List.mem_append_left [125] hc) rest)
  have hstart : ∀ j ∈ items, ∃ c cs, textWith esc j = c :: cs ∧ isSpace c = false ∧ c ≠ 93 := by
    intro j hj
    obtain ⟨c, cs, hc, hspace, hclose, -⟩ := (hitems j hj).exists_cons esc
    exact ⟨c, cs, hc, hspace, hclose⟩
  simp only [List.cons_append, List.append_assoc, List.nil_append]
  rw [value_open.1, enclosed_joined (by decide) (by decide) (by decide) hstart hitem (by omega),
    map, mapItems_eq]
  rfl

/-- An object is read back if its values are, each in front of what may follow it. -/
theorem value_objText (hkeep : L.Keeps esc keep) {fields : List (String × Json)}
    (hn : (textWith esc (obj fields)).length ≤ n + 1)
    (hread : ∀ f ∈ fields, ∀ rest, (textWith esc f.2).length ≤ n → EndsNumber rest →
      value L n depth (textWith esc f.2 ++ rest) = some (f.2.map keep, rest)) :
    value L (n + 1) (depth + 1) (textWith esc (obj fields) ++ rest) =
      some ((obj fields).map keep, rest) := by
  have hne : ∀ text ∈ fields.map (memberText esc), text ≠ [] := by
    intro text htext
    obtain ⟨f, -, rfl⟩ := List.mem_map.mp htext
    exact List.cons_ne_nil _ _
  obtain ⟨hlen, hcount⟩ := length_le_joined hne
  rw [textWith, fieldTexts_eq] at hn ⊢
  simp only [List.length_cons, List.length_append, List.length_map, List.length_nil] at hn hcount
  have hfield : ∀ f ∈ fields, ∀ c ∈ [(44 : UInt8), 125], ∀ rest,
      member L (value L n depth) (memberText esc f ++ c :: rest) =
        some (Prod.map keep (Json.map keep) f, c :: rest) := by
    intro f hf c hc rest
    have hf' := hlen _ (List.mem_map_of_mem hf)
    rw [memberText, List.length_append, List.length_cons] at hf'
    have hc' : c ∈ [(44 : UInt8), 93, 125] := by
      rcases List.mem_cons.mp hc with rfl | hc
      · exact List.mem_cons_self
      · exact List.mem_cons_of_mem _ (List.mem_cons_of_mem _ hc)
    exact member_memberText hkeep (hread f hf _ (by omega) (endsNumber_of_mem hc' rest))
  have hstart : ∀ f ∈ fields, ∃ c cs, memberText esc f = c :: cs ∧ isSpace c = false ∧ c ≠ 125 :=
    fun f _ => ⟨34, _, rfl, by decide, by decide⟩
  simp only [List.cons_append, List.append_assoc, List.nil_append]
  rw [value_open.2, enclosed_joined (by decide) (by decide) (by decide) hstart hfield (by omega),
    map, mapFields_eq]
  rfl

theorem value_textWith (hkeep : L.Keeps esc keep) {j : Json} (hj : Readable depth j)
    (hn : (textWith esc j).length ≤ n) (hrest : Delimited j ∨ EndsNumber rest) :
    value L n depth (textWith esc j ++ rest) = some (j.map keep, rest) := by
  obtain ⟨n, rfl⟩ := exists_fuel depth hj hn
  induction hj generalizing n rest with
  | null => exact literal_append (utf8 "ull") null rest
  | bool b =>
    cases b with
    | true => exact literal_append (utf8 "rue") (bool true) rest
    | false => exact literal_append (utf8 "alse") (bool false) rest
  | num ht => exact value_numText ht (hrest.resolve_left fun h => h _ rfl)
  | str s =>
    obtain ⟨tail, htail, hread⟩ := strText_append hkeep s rest
    rw [textWith, htail, value_cons _ (by decide) (by decide), scalar, if_pos rfl, hread]
    rfl
  | @arr depth items hitems ih =>
    refine value_arrText hitems hn fun j hj rest hlen hends => ?_
    obtain ⟨n, rfl⟩ := exists_fuel depth (hitems j hj) hlen
    exact ih j hj (Or.inr hends) n hlen
  | @obj depth fields hfields ih =>
    refine value_objText hkeep hn fun f hf rest hlen hends => ?_
    obtain ⟨n, rfl⟩ := exists_fuel depth (hfields f hf) hlen
    exact ih f hf (Or.inr hends) n hlen

/-- A value is read back from its compact text. -/
theorem read_textWith (hkeep : L.Keeps esc keep) {j : Json} (hj : Readable depth j) :
    read L depth (textWith esc j) = some (j.map keep) := by
  have hends : EndsNumber [] := fun b hb => nomatch hb
  have hvalue := value_textWith hkeep hj le_rfl (Or.inr hends)
  rw [List.append_nil] at hvalue
  exact read_eq_some.mpr ⟨_, [], hvalue, rfl⟩

end RoundTrip

section Decimal

theorem toDigits_head {n : ℕ} (hn : n ≠ 0) : (Nat.toDigits 10 n).head? ≠ some '0' := by
  induction n using Nat.strong_induction_on with
  | _ n ih =>
    by_cases hsmall : n < 10
    · rw [Nat.toDigits_of_lt_base hsmall]
      interval_cases n <;> first | exact absurd rfl hn | decide
    · rw [Nat.toDigits_of_base_le (by decide) (by omega), List.head?_append_of_ne_nil _
        Nat.toDigits_ne_nil]
      exact ih (n / 10) (by omega) (by omega)

theorem encode_digit {c : Char} (hc : c.isDigit = true) :
    ∃ b, String.utf8EncodeChar c = [b] ∧ isDigit b = true ∧ Char.ofNat b.toNat = c := by
  have hrange : 48 ≤ c.val.toNat ∧ c.val.toNat ≤ 57 := by
    simpa [Char.isDigit, UInt32.le_iff_toNat_le] using hc
  have hbyte : (UInt8.ofNat c.val.toNat).toNat = c.val.toNat := by
    rw [UInt8.toNat_ofNat']
    omega
  refine ⟨UInt8.ofNat c.val.toNat, ?_, ?_, ?_⟩
  · rw [String.utf8EncodeChar, if_pos (by omega)]
  · rw [isDigit, Bool.and_eq_true, decide_eq_true_eq, decide_eq_true_eq, UInt8.le_iff_toNat_le,
      UInt8.le_iff_toNat_le, hbyte]
    exact hrange
  · rw [hbyte]
    exact Char.ofNat_toNat c

theorem encode_digits {cs : List Char} (hcs : ∀ c ∈ cs, c.isDigit = true) :
    (∀ b ∈ encode cs, isDigit b = true) ∧ (encode cs).map (fun b => Char.ofNat b.toNat) = cs := by
  induction cs with
  | nil => simp
  | cons c cs ih =>
    obtain ⟨hc, hrest⟩ := List.forall_mem_cons.mp hcs
    obtain ⟨b, hb, hdigit, hchar⟩ := encode_digit hc
    obtain ⟨hdigits, hchars⟩ := ih hrest
    rw [encode_cons, hb, List.singleton_append, List.forall_mem_cons, List.map_cons, hchars, hchar]
    exact ⟨⟨hdigit, hdigits⟩, rfl⟩

theorem digits_all {ds : Bytes} (hne : ds ≠ []) (hds : ∀ b ∈ ds, isDigit b = true) :
    digits ds = some (ds, []) := by
  rw [digits, List.takeWhile_eq_self_iff.mpr hds, if_neg hne, List.dropWhile_eq_nil_iff.mpr hds]

theorem numberText_digits {d : UInt8} {ds : Bytes} (hds : ∀ b ∈ d :: ds, isDigit b = true)
    (hzero : d = 48 → ds = []) : numberText (d :: ds) = some (d :: ds, []) := by
  have hminus : d ≠ 45 := by
    rintro rfl
    exact absurd (hds 45 List.mem_cons_self) (by decide)
  have hint : intPart (d :: ds) = some (d :: ds, []) := by
    rw [intPart]
    split_ifs with hd
    · rw [hd, hzero hd]
    · exact digits_all (List.cons_ne_nil _ _) hds
  simp [numberText, optional, hminus, hint, fracPart, expPart]

theorem isNumber_toString (n : ℕ) : IsNumber (toString n) := by
  have hutf8 : utf8 (toString n) = encode (Nat.toDigits 10 n) := by
    rw [utf8, Nat.toString_eq_repr, Nat.toList_repr]
    rfl
  obtain ⟨hdigits, hchars⟩ := encode_digits fun c hc =>
    Nat.isDigit_of_mem_toDigits (b := 10) (n := n) (by decide) (by decide) hc
  obtain ⟨c, cs, hcs⟩ := List.exists_cons_of_ne_nil (Nat.toDigits_ne_nil (n := n) (b := 10))
  obtain ⟨b, hb, -, hchar⟩ := encode_digit
    (Nat.isDigit_of_mem_toDigits (by decide) (by decide) (hcs ▸ List.mem_cons_self))
  have hbytes : encode (Nat.toDigits 10 n) = b :: encode cs := by
    rw [hcs, encode_cons, hb]
    rfl
  have hzero : b = 48 → encode cs = [] := by
    rintro rfl
    by_cases hn : n = 0
    · subst hn
      rw [Nat.toDigits_zero] at hcs
      rw [(List.cons.inj hcs).2.symm]
      rfl
    · refine absurd ?_ (toDigits_head hn)
      rw [hcs, ← hchar]
      rfl
  rw [hbytes] at hdigits hchars
  rw [IsNumber, number, hutf8, hbytes, numberText_digits hdigits hzero, Option.map_some,
    Prod.map_apply, asciiText, hchars, Nat.toString_eq_repr, Nat.repr_eq_ofList_toDigits]
  rfl

end Decimal

end Json
