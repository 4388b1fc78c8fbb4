import Mathlib.Data.List.Basic
import Mathlib.Tactic

/-!
# Byte strings

UTF-8 text, texts made of lines, and the search for a byte pattern.
-/

abbrev Bytes := List UInt8

namespace Bytes

def utf8 (s : String) : Bytes := s.toList.flatMap String.utf8EncodeChar

/-- The text of a byte string, if it is valid UTF-8. -/
def fromUtf8 (raw : Bytes) : Option (List Char) :=
  (String.fromUTF8? ⟨raw.toArray⟩).map String.toList

/-- The position of the first window of `raw` equal to the non-empty `pat`. -/
def position (pat : Bytes) : Bytes → Option ℕ
  | [] => none
  | b :: bs => if pat.isPrefixOf (b :: bs) then some 0 else (position pat bs).map (· + 1)

theorem position_eq_none {pat raw : Bytes} (hpat : pat ≠ []) :
    position pat raw = none ↔ ¬ pat <:+: raw := by
  induction raw with
  | nil => simp [position, hpat]
  | cons b bs ih =>
    rw [position, List.infix_cons_iff, ← List.isPrefixOf_iff_prefix]
    split_ifs with h
    · simp [h]
    · rw [Option.map_eq_none_iff, ih, or_iff_right h]

def crlf : Bytes := [13, 10]

/-- Each line closed by CRLF, then an empty line. -/
def block (lines : List Bytes) : Bytes := lines.flatMap (· ++ crlf) ++ crlf

/-- A line of a block: not empty, no line break inside. -/
def IsLine (line : Bytes) : Prop := line ≠ [] ∧ 13 ∉ line ∧ 10 ∉ line

instance (line : Bytes) : Decidable (IsLine line) :=
  inferInstanceAs (Decidable (_ ∧ _ ∧ _))

theorem block_cons (line : Bytes) (lines : List Bytes) :
    block (line :: lines) = line ++ crlf ++ block lines := by
  simp [block]

theorem position_append {b : UInt8} {pat line : Bytes} (h : b ∉ line) (rest : Bytes) :
    position (b :: pat) (line ++ rest) = (position (b :: pat) rest).map (· + line.length) := by
  induction line with
  | nil => simp
  | cons a line ih =>
    rw [List.mem_cons, not_or] at h
    have hprefix : (b :: pat).isPrefixOf (a :: (line ++ rest)) = false := by
      simp [List.isPrefixOf, h.1]
    rw [List.cons_append, position, hprefix, ih h.2]
    simp [Function.comp_def, Nat.add_assoc]

end Bytes
