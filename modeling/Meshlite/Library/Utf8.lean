import Meshlite.Library.Bytes

/-!
# UTF-8 text cut at a byte

A byte string is the encoding of at most one text. A text that encodes a prefix is a
prefix of the text, and an ASCII byte always stands for its own character, so a text
can be split where its bytes are.
-/

namespace Bytes

def encode (text : List Char) : Bytes := text.flatMap String.utf8EncodeChar

@[simp] theorem encode_nil : encode [] = [] := rfl

@[simp] theorem encode_cons (c : Char) (text : List Char) :
    encode (c :: text) = String.utf8EncodeChar c ++ encode text := rfl

@[simp] theorem encode_append (l m : List Char) : encode (l ++ m) = encode l ++ encode m :=
  List.flatMap_append

theorem toByteArray_eq (raw : Bytes) : (⟨raw.toArray⟩ : ByteArray) = raw.toByteArray := by
  ext1
  exact List.data_toByteArray.symm

theorem prefix_of_encode {l m : List Char} (h : encode l <+: encode m) : l <+: m := by
  obtain ⟨rest, hrest⟩ := h
  refine List.isPrefix_of_utf8Encode_append_eq_utf8Encode rest.toByteArray ?_
  rw [List.utf8Encode, List.utf8Encode, ← List.toByteArray_append]
  exact congrArg List.toByteArray hrest

theorem encode_inj {l m : List Char} : encode l = encode m ↔ l = m := by
  refine ⟨fun h => ?_, fun h => h ▸ rfl⟩
  have hlm : l <+: m := prefix_of_encode (h ▸ List.prefix_rfl)
  have hml : m <+: l := prefix_of_encode (h ▸ List.prefix_rfl)
  exact hlm.eq_of_length (Nat.le_antisymm hlm.length_le hml.length_le)

theorem fromUtf8_eq_some_iff {raw : Bytes} {text : List Char} :
    fromUtf8 raw = some text ↔ raw = encode text := by
  rw [fromUtf8, toByteArray_eq, String.fromUTF8?]
  split_ifs with h
  · have henc : encode (String.fromUTF8 raw.toByteArray h).toList = raw :=
      List.toByteArray_inj.mp String.utf8Encode_toList
    rw [Option.map_some, Option.some.injEq, ← encode_inj, henc]
  · simp only [Option.map_none, reduceCtorEq, false_iff]
    rintro rfl
    exact h ⟨text, rfl⟩

theorem fromUtf8_encode (text : List Char) : fromUtf8 (encode text) = some text :=
  fromUtf8_eq_some_iff.mpr rfl

theorem eq_singleton_of_ascii {b : UInt8} {c : Char} (hb : b < 0x80)
    (h : b ∈ String.utf8EncodeChar c) : String.utf8EncodeChar c = [b] := by
  have hlt : b.toNat < 128 := hb
  rw [String.utf8EncodeChar] at h ⊢
  split_ifs at h ⊢
  · rw [List.mem_singleton] at h
    rw [h]
  all_goals
    -- the bytes of a longer encoding are 128 and above
    simp only [List.mem_cons, List.not_mem_nil, or_false, ← UInt8.toNat_inj,
      UInt8.toNat_ofNat'] at h
    omega

/-- A text splits where its encoding has an ASCII byte. -/
theorem split_at_ascii {text : List Char} {pre post : Bytes} {c : Char} {b : UInt8}
    (hc : String.utf8EncodeChar c = [b]) (hb : b < 0x80) (h : encode text = pre ++ b :: post) :
    ∃ l m, text = l ++ c :: m ∧ encode l = pre ∧ encode m = post := by
  induction text generalizing pre with
  | nil => simp at h
  | cons d text ih =>
    rw [encode_cons, List.append_eq_append_iff] at h
    rcases h with ⟨mid, rfl, htext⟩ | ⟨mid, hd, htext⟩
    · obtain ⟨l, m, rfl, rfl, rfl⟩ := ih htext
      exact ⟨d :: l, m, rfl, rfl, rfl⟩
    · cases mid with
      | nil =>
        rw [List.append_nil] at hd
        subst hd
        have hrest : encode text = [] ++ b :: post := htext.symm
        obtain ⟨l, m, rfl, hl, rfl⟩ := ih hrest
        refine ⟨d :: l, m, rfl, ?_, rfl⟩
        rw [encode_cons, hl, List.append_nil]
      | cons b' mid =>
        obtain ⟨rfl, rfl⟩ := List.cons.inj htext
        have hsingle := eq_singleton_of_ascii hb (hd ▸ by simp : b ∈ String.utf8EncodeChar d)
        have hdc : d = c := by
          have h : encode [d] = encode [c] := by simp [hsingle, hc]
          simpa using encode_inj.mp h
        have hlen := congrArg List.length (hsingle.symm.trans hd)
        simp only [List.length_cons, List.length_append, List.length_nil] at hlen
        have hpre : pre = [] := List.length_eq_zero_iff.mp (by omega)
        have hmid : mid = [] := List.length_eq_zero_iff.mp (by omega)
        subst hdc hpre hmid
        exact ⟨[], text, rfl, rfl, rfl⟩

theorem not_mem_encode {text : List Char} {c : Char} {b : UInt8}
    (hc : String.utf8EncodeChar c = [b]) (hb : b < 0x80) (h : c ∉ text) : b ∉ encode text := by
  intro hmem
  obtain ⟨pre, post, hsplit⟩ := List.append_of_mem hmem
  obtain ⟨l, m, rfl, -, -⟩ := split_at_ascii hc hb hsplit
  exact h (List.mem_append_right _ List.mem_cons_self)

theorem not_mem_of_byte {text : List Char} {c : Char} {b : UInt8}
    (hc : String.utf8EncodeChar c = [b]) (h : b ∉ encode text) : c ∉ text :=
  fun hmem => h (List.mem_flatMap.mpr ⟨c, hmem, by simp [hc]⟩)

theorem fromUtf8_encode_append (text : List Char) (raw : Bytes) :
    fromUtf8 (encode text ++ raw) = (fromUtf8 raw).map (text ++ ·) := by
  ext whole
  rw [fromUtf8_eq_some_iff, Option.map_eq_some_iff]
  constructor
  · intro h
    obtain ⟨rest, rfl⟩ := prefix_of_encode ⟨raw, h⟩
    rw [encode_append, List.append_cancel_left_eq] at h
    exact ⟨rest, fromUtf8_eq_some_iff.mpr h, rfl⟩
  · rintro ⟨rest, hrest, rfl⟩
    rw [fromUtf8_eq_some_iff.mp hrest, encode_append]

theorem fromUtf8_append_ascii {c : Char} {b : UInt8} (hc : String.utf8EncodeChar c = [b])
    (hb : b < 0x80) (raw : Bytes) :
    fromUtf8 (raw ++ [b]) = (fromUtf8 raw).map (· ++ [c]) := by
  ext whole
  rw [fromUtf8_eq_some_iff, Option.map_eq_some_iff]
  constructor
  · intro h
    obtain ⟨l, m, rfl, hl, hm⟩ := split_at_ascii hc hb h.symm
    obtain rfl := encode_inj.mp (hm.trans encode_nil.symm)
    exact ⟨l, fromUtf8_eq_some_iff.mpr hl.symm, rfl⟩
  · rintro ⟨text, htext, rfl⟩
    rw [fromUtf8_eq_some_iff.mp htext, encode_append, encode_cons, hc]
    rfl

end Bytes
