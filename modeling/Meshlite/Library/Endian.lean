import Mathlib.Tactic

/-!
# Machine words and byte order

A word is assembled from the bytes a load finds at ascending addresses, and a store
leaves these bytes. `toBe` is the conversion to network order: a word whose native
bytes are the big-endian bytes of its argument. It is its own inverse.
-/

abbrev Byte := BitVec 8

/-- The byte order of a host. -/
inductive Endian where
  | little
  | big
  deriving DecidableEq, Repr

namespace Endian

/-- The bytes of a 16-bit word, most significant first. -/
def word16 (a b : Byte) : BitVec 16 := a ++ b

def word32 (a b c d : Byte) : BitVec 32 := a ++ b ++ c ++ d

/-- A native load of two bytes at ascending addresses. -/
def load16 : Endian → Byte → Byte → BitVec 16
  | little, a, b => word16 b a
  | big, a, b => word16 a b

def load32 : Endian → Byte → Byte → Byte → Byte → BitVec 32
  | little, a, b, c, d => word32 d c b a
  | big, a, b, c, d => word32 a b c d

def swapBytes16 (x : BitVec 16) : BitVec 16 :=
  word16 (x.extractLsb' 0 8) (x.extractLsb' 8 8)

def swapBytes32 (x : BitVec 32) : BitVec 32 :=
  word32 (x.extractLsb' 0 8) (x.extractLsb' 8 8) (x.extractLsb' 16 8) (x.extractLsb' 24 8)

/-- Conversion between native and big-endian order; a no-op on big-endian hosts. -/
def toBe16 : Endian → BitVec 16 → BitVec 16
  | little, x => swapBytes16 x
  | big, x => x

def toBe32 : Endian → BitVec 32 → BitVec 32
  | little, x => swapBytes32 x
  | big, x => x

section Bytes

variable (a b c d : Byte)

theorem extract_append_add {n : ℕ} (hi : BitVec n) (lo : Byte) (k : ℕ) :
    (hi ++ lo).extractLsb' (k + 8) 8 = hi.extractLsb' k 8 := by
  rw [BitVec.extractLsb'_append_eq_of_le (by omega), Nat.add_sub_cancel]

theorem extract_word16_hi : (word16 a b).extractLsb' 8 8 = a :=
  BitVec.extractLsb'_append_eq_left

theorem extract_word16_lo : (word16 a b).extractLsb' 0 8 = b :=
  BitVec.extractLsb'_append_eq_right

theorem extract_word32_3 : (word32 a b c d).extractLsb' 24 8 = a :=
  (extract_append_add (a ++ b ++ c) d 16).trans
    ((extract_append_add (a ++ b) c 8).trans BitVec.extractLsb'_append_eq_left)

theorem extract_word32_2 : (word32 a b c d).extractLsb' 16 8 = b :=
  (extract_append_add (a ++ b ++ c) d 8).trans
    ((extract_append_add (a ++ b) c 0).trans BitVec.extractLsb'_append_eq_right)

theorem extract_word32_1 : (word32 a b c d).extractLsb' 8 8 = c :=
  (extract_append_add (a ++ b ++ c) d 0).trans BitVec.extractLsb'_append_eq_right

theorem extract_word32_0 : (word32 a b c d).extractLsb' 0 8 = d :=
  BitVec.extractLsb'_append_eq_right

theorem swapBytes16_word16 : swapBytes16 (word16 a b) = word16 b a := by
  rw [swapBytes16, extract_word16_hi, extract_word16_lo]

theorem swapBytes32_word32 : swapBytes32 (word32 a b c d) = word32 d c b a := by
  rw [swapBytes32, extract_word32_0, extract_word32_1, extract_word32_2, extract_word32_3]

end Bytes

theorem toBe16_word16 (e : Endian) (a b : Byte) : e.toBe16 (word16 a b) = e.load16 a b := by
  cases e
  · exact swapBytes16_word16 a b
  · rfl

theorem toBe32_word32 (e : Endian) (a b c d : Byte) :
    e.toBe32 (word32 a b c d) = e.load32 a b c d := by
  cases e
  · exact swapBytes32_word32 a b c d
  · rfl

theorem word16_inj {a b a' b' : Byte} : word16 a b = word16 a' b' ↔ a = a' ∧ b = b' := by
  constructor
  · intro h
    exact ⟨by rw [← extract_word16_hi a b, h, extract_word16_hi],
      by rw [← extract_word16_lo a b, h, extract_word16_lo]⟩
  · rintro ⟨rfl, rfl⟩
    rfl

theorem load16_inj {e : Endian} {a b a' b' : Byte} :
    e.load16 a b = e.load16 a' b' ↔ a = a' ∧ b = b' := by
  cases e
  · rw [load16, load16, word16_inj]
    tauto
  · exact word16_inj

theorem word32_inj {a b c d a' b' c' d' : Byte} :
    word32 a b c d = word32 a' b' c' d' ↔ a = a' ∧ b = b' ∧ c = c' ∧ d = d' := by
  constructor
  · intro h
    exact ⟨by rw [← extract_word32_3 a b c d, h, extract_word32_3],
      by rw [← extract_word32_2 a b c d, h, extract_word32_2],
      by rw [← extract_word32_1 a b c d, h, extract_word32_1],
      by rw [← extract_word32_0 a b c d, h, extract_word32_0]⟩
  · rintro ⟨rfl, rfl, rfl, rfl⟩
    rfl

theorem load32_inj {e : Endian} {a b c d a' b' c' d' : Byte} :
    e.load32 a b c d = e.load32 a' b' c' d' ↔ a = a' ∧ b = b' ∧ c = c' ∧ d = d' := by
  cases e
  · rw [load32, load32, word32_inj]
    tauto
  · exact word32_inj

theorem word32_and (a b c d a' b' c' d' : Byte) :
    word32 a b c d &&& word32 a' b' c' d' =
      word32 (a &&& a') (b &&& b') (c &&& c') (d &&& d') := by
  have h : ((a ++ b ++ c ++ d : BitVec (8 + 8 + 8 + 8)) &&& (a' ++ b' ++ c' ++ d')) =
      (a &&& a') ++ (b &&& b') ++ (c &&& c') ++ (d &&& d') := by
    simp only [BitVec.and_append]
  exact h

/-- Masking a native word masks each of its bytes. -/
theorem load32_and (e : Endian) (a b c d a' b' c' d' : Byte) :
    e.load32 a b c d &&& e.load32 a' b' c' d' =
      e.load32 (a &&& a') (b &&& b') (c &&& c') (d &&& d') := by
  cases e <;> exact word32_and ..

section Store

/-- The bytes a native store leaves at ascending addresses. -/
def store16 : Endian → BitVec 16 → List Byte
  | little, x => [x.extractLsb' 0 8, x.extractLsb' 8 8]
  | big, x => [x.extractLsb' 8 8, x.extractLsb' 0 8]

def store32 : Endian → BitVec 32 → List Byte
  | little, x =>
    [x.extractLsb' 0 8, x.extractLsb' 8 8, x.extractLsb' 16 8, x.extractLsb' 24 8]
  | big, x =>
    [x.extractLsb' 24 8, x.extractLsb' 16 8, x.extractLsb' 8 8, x.extractLsb' 0 8]

/-- The word in two bytes of memory. -/
def ofBytes16 (e : Endian) : List Byte → BitVec 16
  | [a, b] => e.load16 a b
  | _ => 0

def ofBytes32 (e : Endian) : List Byte → BitVec 32
  | [a, b, c, d] => e.load32 a b c d
  | _ => 0

theorem word16_extract (x : BitVec 16) : word16 (x.extractLsb' 8 8) (x.extractLsb' 0 8) = x := by
  rw [word16, BitVec.extractLsb'_append_extractLsb'_eq_extractLsb' (by decide)]
  exact BitVec.extractLsb'_eq_self

theorem word32_extract (x : BitVec 32) :
    word32 (x.extractLsb' 24 8) (x.extractLsb' 16 8) (x.extractLsb' 8 8) (x.extractLsb' 0 8) =
      x := by
  rw [word32, BitVec.extractLsb'_append_extractLsb'_eq_extractLsb' (by decide),
    BitVec.extractLsb'_append_extractLsb'_eq_extractLsb' (by decide),
    BitVec.extractLsb'_append_extractLsb'_eq_extractLsb' (by decide)]
  exact BitVec.extractLsb'_eq_self

theorem length_store16 (e : Endian) (x : BitVec 16) : (e.store16 x).length = 2 := by
  cases e <;> rfl

theorem length_store32 (e : Endian) (x : BitVec 32) : (e.store32 x).length = 4 := by
  cases e <;> rfl

theorem ofBytes16_store16 (e : Endian) (x : BitVec 16) : e.ofBytes16 (e.store16 x) = x := by
  cases e <;> exact word16_extract x

theorem ofBytes32_store32 (e : Endian) (x : BitVec 32) : e.ofBytes32 (e.store32 x) = x := by
  cases e <;> exact word32_extract x

theorem store32_load32 (e : Endian) (a b c d : Byte) :
    e.store32 (e.load32 a b c d) = [a, b, c, d] := by
  cases e
  · rw [load32, store32, extract_word32_0, extract_word32_1, extract_word32_2, extract_word32_3]
  · rw [load32, store32, extract_word32_0, extract_word32_1, extract_word32_2, extract_word32_3]

end Store

/-- The value of a word in network order. -/
def fromBe32 : Endian → BitVec 32 → BitVec 32
  | little, x => swapBytes32 x
  | big, x => x

theorem fromBe32_load32 (e : Endian) (a b c d : Byte) :
    e.fromBe32 (e.load32 a b c d) = word32 a b c d := by
  cases e
  · exact swapBytes32_word32 d c b a
  · rfl

end Endian
