import Mathlib.Data.List.Sort
import Mathlib.Logic.Equiv.Basic
import Mathlib.Tactic

/-!
# Sorted lists

What a sort may answer if it need not be stable, when there is only one answer, and how
the items of a sorted list are counted from its start.
-/

namespace Sorting

variable {α : Type*}

section Arrangements

/-- An answer of a sort: the items in some order that the comparison admits. -/
structure Arranges (le : α → α → Prop) (items xs : List α) : Prop where
  perm : xs.Perm items
  sorted : xs.Pairwise le

variable {le : α → α → Prop} {items xs ys : List α}

theorem Arranges.unique (heq : ∀ a ∈ items, ∀ b ∈ items, le a b → le b a → a = b)
    (hxs : Arranges le items xs) (hys : Arranges le items ys) : xs = ys := by
  refine (hxs.perm.trans hys.perm.symm).eq_of_pairwise ?_ hxs.sorted hys.sorted
  intro a b ha hb
  exact heq a (hxs.perm.mem_iff.mp ha) b (hys.perm.mem_iff.mp hb)

/-- Two items that compare equal may change places. -/
theorem Arranges.swap [DecidableEq α] [IsTrans α le] (hrefl : ∀ a, le a a)
    (hnodup : items.Nodup) {a b : α} (ha : a ∈ items) (hb : b ∈ items) (hab : le a b)
    (hba : le b a) (h : Arranges le items xs) :
    Arranges le items (xs.map (Equiv.swap a b)) := by
  -- an item compares equal to what it is swapped with
  have hswap : ∀ x, le x (Equiv.swap a b x) ∧ le (Equiv.swap a b x) x := by
    intro x
    rw [Equiv.swap_apply_def]
    split_ifs with hxa hxb
    · exact ⟨hxa ▸ hab, hxa ▸ hba⟩
    · exact ⟨hxb ▸ hba, hxb ▸ hab⟩
    · exact ⟨hrefl x, hrefl x⟩
  constructor
  · have hxs : xs.Nodup := h.perm.nodup_iff.mpr hnodup
    refine List.Perm.trans ?_ h.perm
    rw [List.perm_ext_iff_of_nodup (hxs.map (Equiv.swap a b).injective) hxs]
    have hkept : ∀ x, x ∈ xs → Equiv.swap a b x ∈ xs := by
      intro x hx
      rw [Equiv.swap_apply_def]
      split_ifs
      · exact h.perm.mem_iff.mpr hb
      · exact h.perm.mem_iff.mpr ha
      · exact hx
    intro x
    rw [List.mem_map]
    constructor
    · rintro ⟨y, hy, rfl⟩
      exact hkept y hy
    · intro hx
      exact ⟨Equiv.swap a b x, hkept x hx, Equiv.swap_apply_self a b x⟩
  · rw [List.pairwise_map]
    refine h.sorted.imp fun {x y} hxy => ?_
    exact IsTrans.trans _ _ _ (hswap x).2 (IsTrans.trans _ _ _ hxy (hswap y).1)

/-- Of items that differ a sort has one answer exactly if no two compare equal. -/
theorem unique_iff [DecidableEq α] [DecidableRel le] [IsTrans α le] [Std.Total le]
    (hnodup : items.Nodup) :
    (∀ xs ys, Arranges le items xs → Arranges le items ys → xs = ys) ↔
      ∀ a ∈ items, ∀ b ∈ items, le a b → le b a → a = b := by
  refine ⟨fun h a ha b hb hab hba => ?_, fun h xs ys hxs hys => hxs.unique h hys⟩
  have hsort : Arranges le items (items.insertionSort le) :=
    ⟨List.perm_insertionSort _ _, List.pairwise_insertionSort _ _⟩
  have hswapped := hsort.swap (fun a => (total_of le a a).elim id id) hnodup ha hb hab hba
  have hsame := h _ _ hsort hswapped
  have hfixed : ∀ x ∈ items.insertionSort le, Equiv.swap a b x = x := by
    refine List.map_inj_left.mp ?_
    rw [List.map_id']
    exact hsame.symm
  have ha' := hfixed a ((List.mem_insertionSort le).mpr ha)
  rw [Equiv.swap_apply_left] at ha'
  exact ha'.symm

end Arrangements

section Counting

theorem lt_countP_iff {p : α → Bool} {xs : List α} {j : ℕ} (hj : j < xs.length)
    (hfirst : xs.Pairwise fun a b => p b = true → p a = true) :
    j < xs.countP p ↔ p xs[j] = true := by
  induction xs generalizing j with
  | nil => cases hj
  | cons a xs ih =>
    obtain ⟨ha, hxs⟩ := List.pairwise_cons.mp hfirst
    cases hp : p a with
    | true =>
      rw [List.countP_cons_of_pos hp]
      cases j with
      | zero => exact iff_of_true (Nat.succ_pos _) hp
      | succ j =>
        rw [Nat.succ_lt_succ_iff]
        exact ih (Nat.lt_of_succ_lt_succ hj) hxs
    | false =>
      -- no item behind one that fails passes
      have hnone : ∀ b ∈ a :: xs, ¬ p b = true := by
        intro b hb hpb
        rcases List.mem_cons.mp hb with rfl | hb
        · exact Bool.false_ne_true (hp.symm.trans hpb)
        · exact Bool.false_ne_true (hp.symm.trans (ha b hb hpb))
      rw [List.countP_eq_zero.mpr hnone]
      exact iff_of_false (Nat.not_lt_zero j) (hnone _ (List.getElem_mem hj))

variable [LinearOrder α] {xs : List α} {j : ℕ} {a : α}

theorem lt_countP_le_iff (hsorted : xs.Pairwise (· ≤ ·)) (hj : j < xs.length) :
    j < xs.countP (· ≤ a) ↔ xs[j] ≤ a := by
  rw [lt_countP_iff hj (hsorted.imp fun hxy hy => ?_), decide_eq_true_eq]
  exact decide_eq_true (hxy.trans (of_decide_eq_true hy))

theorem lt_countP_lt_iff (hsorted : xs.Pairwise (· ≤ ·)) (hj : j < xs.length) :
    j < xs.countP (· < a) ↔ xs[j] < a := by
  rw [lt_countP_iff hj (hsorted.imp fun hxy hy => ?_), decide_eq_true_eq]
  exact decide_eq_true (lt_of_le_of_lt hxy (of_decide_eq_true hy))

theorem countP_le_eq (xs : List α) (a : α) :
    xs.countP (· ≤ a) = xs.countP (· < a) + xs.count a := by
  induction xs with
  | nil => rfl
  | cons b xs ih =>
    rw [List.countP_cons, List.countP_cons, List.count_cons, ih]
    rcases lt_trichotomy b a with hlt | rfl | hlt
    · simp only [hlt, hlt.le, hlt.ne, decide_true, if_true, beq_iff_eq, if_false]
      omega
    · simp only [le_refl, lt_irrefl, decide_true, decide_false, beq_self_eq_true, if_true,
        Bool.false_eq_true, if_false]
      omega
    · simp only [hlt.not_ge, hlt.not_gt, hlt.ne', decide_false, beq_iff_eq, Bool.false_eq_true,
        if_false]
      omega

theorem getElem_succ_le_iff (hsorted : xs.Pairwise (· ≤ ·)) (hj : j + 1 < xs.length) :
    xs[j + 1] ≤ xs[j] ↔
      ∃ a ∈ xs, xs.countP (· < a) ≤ j ∧ j + 2 ≤ xs.countP (· ≤ a) := by
  have hj' : j < xs.length := Nat.lt_of_succ_lt hj
  constructor
  · intro hle
    refine ⟨xs[j], List.getElem_mem hj', ?_, (lt_countP_le_iff hsorted hj).mpr hle⟩
    rw [← not_lt, lt_countP_lt_iff hsorted hj']
    exact lt_irrefl _
  · rintro ⟨a, -, hbelow, hupto⟩
    rw [← not_lt, lt_countP_lt_iff hsorted hj', not_lt] at hbelow
    exact ((lt_countP_le_iff hsorted hj).mp hupto).trans hbelow

end Counting

end Sorting
