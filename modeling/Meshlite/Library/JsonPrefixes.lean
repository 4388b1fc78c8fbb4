import Meshlite.Library.JsonRoundTrip

/-!
# Reading the front of a text

`encoding/json` text is read back, and what stands at the front of the text of an object is
refused, or reads as that object.
-/

namespace Json

open Bytes Reader

section Go

theorem escapeChar_escapes (c : Char) : Escapes c (escapeChar c) := by
  unfold escapeChar
  split_ifs with hquote hescape hnewline hreturn htab hback hfeed hcode
  · subst hquote
    exact escapes_short (e := 34) (b := 34) (by decide) (by decide)
  · subst hescape
    exact escapes_short (e := 92) (b := 92) (by decide) (by decide)
  · subst hnewline
    exact escapes_short (e := 110) (b := 10) (by decide) (by decide)
  · subst hreturn
    exact escapes_short (e := 114) (b := 13) (by decide) (by decide)
  · subst htab
    exact escapes_short (e := 116) (b := 9) (by decide) (by decide)
  · rw [← Char.ofNat_toNat c, hback]
    exact escapes_short (e := 98) (b := 8) (by decide) (by decide)
  · rw [← Char.ofNat_toNat c, hfeed]
    exact escapes_short (e := 102) (b := 12) (by decide) (by decide)
  · refine escapes_unicode ?_
    rcases hcode with hcontrol | hmem | hline | hpar
    · omega
    · fin_cases hmem <;> decide
    · omega
    · omega
  · exact escapes_plain hquote hescape fun h => hcode (Or.inl h)

theorem utf8_comma : utf8 "," = [44] := by decide

theorem utf8_colon : utf8 ":" = [58] := by decide

theorem strText_eq (s : String) : strText s = strTextWith escapeChar s := rfl

mutual

theorem text_eq : ∀ j : Json, text j = textWith escapeChar j
  | null => rfl
  | bool _ => rfl
  | num _ => rfl
  | str _ => rfl
  | arr items => by
    rw [text, itemsText_eq items]
    rfl
  | obj fields => by
    rw [text, fieldsText_eq fields]
    rfl

theorem itemsText_eq : ∀ items : List Json, itemsText items = joined 44 (itemTexts escapeChar items)
  | [] => rfl
  | [j] => by
    rw [itemsText, text_eq j]
    rfl
  | j :: k :: js => by
    rw [itemsText, text_eq j, itemsText_eq (k :: js), utf8_comma, List.append_assoc]
    · rfl
    · nofun

theorem fieldsText_eq : ∀ fields : List (String × Json),
    fieldsText fields = joined 44 (fieldTexts escapeChar fields)
  | [] => rfl
  | [(name, j)] => by
    rw [fieldsText, text_eq j, strText_eq, utf8_colon, List.append_assoc]
    rfl
  | (name, j) :: f :: fs => by
    have hfields : fieldTexts escapeChar ((name, j) :: f :: fs) =
        (strTextWith escapeChar name ++ 58 :: textWith escapeChar j) ::
          fieldTexts escapeChar (f :: fs) := rfl
    rw [fieldsText, text_eq j, fieldsText_eq (f :: fs), strText_eq, utf8_colon, utf8_comma,
      hfields, joined_cons]
    · simp
    · nofun
    · nofun

end

theorem read_text {depth : ℕ} {j : Json} (hj : Readable depth j) :
    read textLeaf depth (text j) = some j := by
  rw [text_eq, read_textWith (textLeaf_keeps escapeChar_escapes) hj, map_id]

end Go

section Front

variable {σ : Type} {L : Leaf σ} {n depth : ℕ} {c : UInt8} {raw rest more : Bytes} {j : Json σ}

theorem scalar_of_head (h : scalar L c raw = some (j, rest)) :
    (∀ fields, j ≠ obj fields) ∧ ((∃ t, j = num t) → c = 45 ∨ isDigit c = true) := by
  have hliteral : ∀ {text : Bytes} {k : Json σ}, literal text k raw = some (j, rest) → j = k :=
    fun h => (literal_eq_some.mp h).2
  rw [scalar] at h
  split_ifs at h with hquote hnull htrue hfalse
  · obtain ⟨⟨s, _⟩, -, heq⟩ := Option.map_eq_some_iff.mp h
    obtain ⟨rfl, rfl⟩ := Prod.mk.inj heq
    exact ⟨by rintro _ ⟨⟩, by rintro ⟨_, ⟨⟩⟩⟩
  · rw [hliteral h]
    exact ⟨by rintro _ ⟨⟩, by rintro ⟨_, ⟨⟩⟩⟩
  · rw [hliteral h]
    exact ⟨by rintro _ ⟨⟩, by rintro ⟨_, ⟨⟩⟩⟩
  · rw [hliteral h]
    exact ⟨by rintro _ ⟨⟩, by rintro ⟨_, ⟨⟩⟩⟩
  · refine ⟨?_, fun _ => number_head h⟩
    obtain ⟨⟨t, _⟩, -, heq⟩ := Option.map_eq_some_iff.mp h
    obtain ⟨rfl, rfl⟩ := Prod.mk.inj heq
    rintro _ ⟨⟩

theorem delimited_of_brace (h : read L depth (123 :: raw) = some j) : Delimited j := by
  obtain ⟨n, rest, hvalue, -⟩ := read_eq_some.mp h
  cases n with
  | zero => cases hvalue
  | succ n =>
    cases depth with
    | zero => cases hvalue
    | succ depth =>
      rw [value_open.2] at hvalue
      obtain ⟨⟨fields, _⟩, -, heq⟩ := Option.map_eq_some_iff.mp hvalue
      obtain ⟨rfl, rfl⟩ := Prod.mk.inj heq
      nofun

theorem unstructured_of_head (hspace : isSpace c = false) (hc : c ∉ [91, 123])
    (h : read L depth (c :: raw) = some j) :
    (∀ fields, j ≠ obj fields) ∧ ∀ items, j ≠ arr items := by
  obtain ⟨n, rest, hvalue, -⟩ := read_eq_some.mp h
  cases n with
  | zero => cases hvalue
  | succ n =>
    rw [value_cons _ hspace hc] at hvalue
    exact ⟨(scalar_of_head hvalue).1, (scalar_head hvalue).2⟩

/-- The front of an object's text, white space behind it or not, reads as nothing else. -/
theorem read_front {fields : List (String × Json)} {blank : Bytes}
    (hj : Readable depth (obj fields)) (hblank : blank.all isSpace = true) {k : ℕ}
    {j : Json} (h : read textLeaf depth ((text (obj fields) ++ blank).take k) = some j) :
    j = obj fields ∧ (text (obj fields)).length ≤ k := by
  have hfull : read textLeaf depth (text (obj fields) ++ blank) = some (obj fields) :=
    (read_append_iff (read_text hj) (by nofun)).mpr ⟨rfl, hblank⟩
  have hhead : ∃ tail, text (obj fields) ++ blank = 123 :: tail := ⟨_, rfl⟩
  have hdelimited : Delimited j := by
    obtain ⟨tail, htail⟩ := hhead
    rw [htail] at h
    cases k with
    | zero => cases h
    | succ k => exact delimited_of_brace h
  rw [← List.take_append_drop k (text (obj fields) ++ blank)] at hfull
  obtain ⟨rfl, -⟩ := (read_append_iff h hdelimited).mp hfull
  refine ⟨rfl, ?_⟩
  -- were the closing brace behind the cut, it would have to be blank
  by_contra hlt
  rw [not_le] at hlt
  rw [List.take_append_of_le_length hlt.le] at h
  have hwhole : read textLeaf depth ((text (obj fields)).take k ++ (text (obj fields)).drop k) =
      some (obj fields) := by
    rw [List.take_append_drop]
    exact read_text hj
  have hrest := (read_append_iff h hdelimited).mp hwhole
  have hlast : (125 : UInt8) ∈ (text (obj fields)).drop k := by
    have hsplit : text (obj fields) = (utf8 "\x7b" ++ fieldsText fields) ++ [125] := rfl
    rw [hsplit, List.length_append, List.length_singleton] at hlt
    rw [hsplit, List.drop_append_of_le_length (by omega)]
    exact List.mem_append_right _ (List.mem_singleton.mpr rfl)
  exact absurd (List.all_eq_true.mp hrest.2 125 hlast) (by decide)

end Front

end Json
