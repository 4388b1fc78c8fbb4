import Mathlib.Data.List.Induction
import Mathlib.Tactic

/-!
# Bounded logs

A log keeps the latest entries, the latest in front, and drops the oldest beyond its
capacity. A reader scans it from the front and stops at the first entry past its limit.
-/

namespace BoundedLog

variable {α : Type*}

/-- The entry is put in front, what exceeds the capacity is cut off. -/
def push (capacity : ℕ) (log : List α) (a : α) : List α := (a :: log).take capacity

theorem push_take (n : ℕ) (log : List α) (a : α) : push n (log.take n) a = push n log a := by
  cases n with
  | zero => rfl
  | succ n =>
    simp only [push, List.take_succ_cons, List.take_take]
    simp

theorem foldl_push (capacity : ℕ) (entries : List α) :
    entries.foldl (push capacity) [] = entries.reverse.take capacity := by
  induction entries using List.reverseRecOn with
  | nil => simp
  | append_singleton entries a ih =>
    rw [List.foldl_append, ih, List.foldl_cons, List.foldl_nil, push_take, List.reverse_append]
    rfl

theorem take_reverse_eq (capacity : ℕ) (entries : List α) :
    entries.reverse.take capacity =
      (entries.drop (entries.length - min entries.length capacity)).reverse := by
  rw [List.take_reverse]
  congr 2
  omega

section Scan

variable (keeps : α → Bool) (limit : ℕ)

/-- The loop of a reader: what it keeps goes to the end of `out`. -/
def scan (out : List α) : List α → List α
  | [] => out
  | a :: log =>
    if limit ≤ out.length then out
    else if keeps a then scan (out ++ [a]) log
    else scan out log

theorem scan_eq (out log : List α) :
    scan keeps limit out log = out ++ (log.filter keeps).take (limit - out.length) := by
  induction log generalizing out with
  | nil => simp [scan]
  | cons a log ih =>
    unfold scan
    split_ifs with hfull hkeeps
    · have hroom : limit - out.length = 0 := by omega
      simp [hroom]
    · have hroom : limit - out.length = limit - (out.length + 1) + 1 := by omega
      rw [ih, List.filter_cons_of_pos hkeeps, List.length_append, List.length_singleton, hroom,
        List.take_succ_cons, List.append_assoc]
      rfl
    · rw [ih, List.filter_cons_of_neg hkeeps]

end Scan

end BoundedLog
