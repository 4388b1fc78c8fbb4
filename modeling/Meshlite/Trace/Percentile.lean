import Meshlite.Trace.Performance

/-!
# What a percentile covers

The rank of a percentile is rounded down from one less than the number of samples. That
many samples lie at or below it, which is the share it stands for only if the rounding
costs no sample or the next sample is the same.
-/

namespace Meshlite.Trace

open Sorting

section Covers

variable {values : List ℚ} {pct : ℚ} {n q : ℕ}

/-- At least the share `pct` of the values is at or below their percentile. -/
def Covers (values : List ℚ) (pct : ℚ) : Prop :=
  pct * values.length ≤ values.countP (· ≤ percentile values pct)

/-- The rank of a percentile, from zero. -/
def percentileRank (n : ℕ) (pct : ℚ) : ℕ := ⌊((n : ℚ) - 1) * pct⌋₊

/-- Rounding down costs no sample. -/
def RankSuffices (n : ℕ) (pct : ℚ) : Prop := Int.fract (((n : ℚ) - 1) * pct) + pct ≤ 1

/-- One value takes both the rank of the percentile and the next one. -/
def RankTied (values : List ℚ) (pct : ℚ) : Prop :=
  ∃ v ∈ values, values.countP (· < v) ≤ percentileRank values.length pct ∧
    percentileRank values.length pct + 2 ≤ values.countP (· ≤ v)

theorem factor_nonneg (hn : 0 < n) (h0 : 0 < pct) : 0 ≤ ((n : ℚ) - 1) * pct := by
  have hone : (1 : ℚ) ≤ n := Nat.one_le_cast.mpr hn
  exact mul_nonneg (sub_nonneg.mpr hone) h0.le

theorem percentileRank_eq (hn : 0 < n) (h0 : 0 < pct) :
    (percentileRank n pct : ℚ) = ((n : ℚ) - 1) * pct - Int.fract (((n : ℚ) - 1) * pct) := by
  rw [percentileRank, natCast_floor_eq_intCast_floor (factor_nonneg hn h0),
    Int.self_sub_fract]

theorem percentileIndex_eq (hn : 0 < n) (h1 : pct < 1) :
    percentileIndex n pct = percentileRank n pct := by
  have hone : (1 : ℚ) ≤ n := Nat.one_le_cast.mpr hn
  have hle : percentileRank n pct ≤ n - 1 := by
    refine Nat.floor_le_of_le ?_
    rw [Nat.cast_sub hn, Nat.cast_one]
    exact mul_le_of_le_one_right (sub_nonneg.mpr hone) h1.le
  rw [percentileIndex, Int.floor_toNat]
  exact min_eq_left hle

/-- The share is reached by the samples up to the rank exactly if rounding costs none. -/
theorem rankSuffices_iff (hn : 0 < n) (h0 : 0 < pct) :
    pct * n ≤ percentileRank n pct + 1 ↔ RankSuffices n pct := by
  rw [percentileRank_eq hn h0, RankSuffices]
  constructor <;> intro h <;> linarith

theorem share_lt (hn : 0 < n) (h0 : 0 < pct) (h1 : pct < 1) :
    pct * n < percentileRank n pct + 2 := by
  have hfract := Int.fract_lt_one (((n : ℚ) - 1) * pct)
  rw [percentileRank_eq hn h0]
  linarith

end Covers

section Sorted

variable {values : List ℚ} {pct : ℚ}

theorem lt_countP_percentile_iff {j : ℕ}
    (hj : j < (values.insertionSort (· ≤ ·)).length) :
    j < values.countP (· ≤ percentile values pct) ↔
      (values.insertionSort (· ≤ ·))[j] ≤ percentile values pct := by
  rw [← (List.perm_insertionSort (· ≤ ·) values).countP_eq]
  exact lt_countP_le_iff (List.pairwise_insertionSort _ _) hj

theorem rank_lt_countP (hne : values ≠ []) (h1 : pct < 1) :
    percentileRank values.length pct < values.countP (· ≤ percentile values pct) := by
  have hlt := percentileIndex_lt_sorted hne pct
  rw [← percentileIndex_eq (List.length_pos_of_ne_nil hne) h1, lt_countP_percentile_iff hlt,
    percentile_eq_getElem pct hlt]

theorem succ_rank_lt_countP_iff (hne : values ≠ []) (h1 : pct < 1)
    (hlt : percentileRank values.length pct + 1 < values.length) :
    percentileRank values.length pct + 1 < values.countP (· ≤ percentile values pct) ↔
      RankTied values pct := by
  have hrank := percentileIndex_eq (List.length_pos_of_ne_nil hne) h1
  have hsorted := List.pairwise_insertionSort (· ≤ ·) values
  have hperm := List.perm_insertionSort (· ≤ ·) values
  rw [← hrank, ← List.length_insertionSort (· ≤ ·) values] at hlt
  rw [RankTied, ← hrank, lt_countP_percentile_iff (by simpa using hlt),
    percentile_eq_getElem pct (percentileIndex_lt_sorted hne pct)]
  simp only [List.length_insertionSort] at hlt
  rw [getElem_succ_le_iff hsorted (by simpa using hlt)]
  simp only [hperm.countP_eq, hperm.mem_iff]

end Sorted

section Share

variable {values : List ℚ} {pct : ℚ}

theorem covers_of_rankSuffices (hne : values ≠ []) (h0 : 0 < pct) (h1 : pct < 1)
    (h : RankSuffices values.length pct) : Covers values pct := by
  have hshare := (rankSuffices_iff (List.length_pos_of_ne_nil hne) h0).mpr h
  have hcount : ((percentileRank values.length pct + 1 : ℕ) : ℚ) ≤
      values.countP (· ≤ percentile values pct) := Nat.cast_le.mpr (rank_lt_countP hne h1)
  rw [Nat.cast_add, Nat.cast_one] at hcount
  exact hshare.trans hcount

/-- Where rounding costs a sample, the share asks for exactly that one more. -/
theorem covers_iff_rankTied (hne : values ≠ []) (h0 : 0 < pct) (h1 : pct < 1)
    (h : ¬ RankSuffices values.length pct) : Covers values pct ↔ RankTied values pct := by
  have hn : 0 < values.length := List.length_pos_of_ne_nil hne
  rw [← rankSuffices_iff hn h0, not_le] at h
  have hlt : percentileRank values.length pct + 1 < values.length := by
    have hshare : pct * values.length < values.length := mul_lt_of_lt_one_left (by positivity) h1
    exact_mod_cast h.trans hshare
  rw [← succ_rank_lt_countP_iff hne h1 hlt, Covers]
  constructor
  · intro hcovers
    exact_mod_cast h.trans_le hcovers
  · intro hcount
    have hnext : ((percentileRank values.length pct + 1 + 1 : ℕ) : ℚ) ≤
        values.countP (· ≤ percentile values pct) := Nat.cast_le.mpr hcount
    push_cast at hnext
    linarith [share_lt hn h0 h1]

end Share

/-- At least the share `pct` of the samples is at or below the percentile exactly if rounding
the rank down costs no sample or the next sample in order is the same. -/
theorem percentile_covers_iff (values : List ℚ) (pct : ℚ) (hne : values ≠ []) (h0 : 0 < pct)
    (h1 : pct < 1) :
    Covers values pct ↔ RankSuffices values.length pct ∨ RankTied values pct := by
  by_cases hsuffices : RankSuffices values.length pct
  · exact iff_of_true (covers_of_rankSuffices hne h0 h1 hsuffices) (Or.inl hsuffices)
  · rw [covers_iff_rankTied hne h0 h1 hsuffices, or_iff_right hsuffices]

theorem twoSamples_median : Covers [50, 10] (50 / 100) := by
  refine (percentile_covers_iff [50, 10] (50 / 100) (by simp) (by norm_num)
    (by norm_num)).mpr (Or.inl ?_)
  unfold RankSuffices
  decide +kernel

/-- Of two samples the lower one is reported as the 99th percentile. -/
theorem twoSamples_not_covered :
    ¬ ∀ (values : List ℚ) (pct : ℚ), values ≠ [] → 0 < pct → pct < 1 → Covers values pct := by
  intro h
  have hcovers := h [50, 10] (99 / 100) (by simp) (by norm_num) (by norm_num)
  revert hcovers
  unfold Covers
  decide +kernel

section Unit

variable {n q : ℕ}

theorem not_rankTied {values : List ℚ} (hnodup : values.Nodup) (pct : ℚ) :
    ¬ RankTied values pct := by
  rintro ⟨v, hv, hbelow, hupto⟩
  rw [countP_le_eq values v, List.count_eq_one_of_mem hnodup hv] at hupto
  omega

/-- Modulo `q` a number and its multiple by `q - 1` are opposite. -/
theorem mul_pred_mod_le_one_iff (hq : 2 ≤ q) : n * (q - 1) % q ≤ 1 ↔ (n + 1) % q ≤ 1 := by
  have hr : n % q < q := Nat.mod_lt _ (by omega)
  have hx : n * (q - 1) % q < q := Nat.mod_lt _ (by omega)
  have hsum : q ∣ n * (q - 1) % q + n % q := by
    rw [Nat.dvd_iff_mod_eq_zero, ← Nat.add_mod, ← Nat.mul_succ, Nat.succ_eq_add_one,
      Nat.sub_add_cancel (by omega), Nat.mul_mod_left]
  have hcases : n * (q - 1) % q + n % q = 0 ∨ n * (q - 1) % q + n % q = q := by
    obtain ⟨c, hc⟩ := hsum
    have hc2 : c < 2 := by
      by_contra hge
      have hmul := Nat.mul_le_mul_left q (not_lt.mp hge)
      omega
    interval_cases c
    · exact Or.inl hc
    · exact Or.inr (hc.trans (Nat.mul_one q))
  have hsucc : (n + 1) % q = (n % q + 1) % q := by
    rw [Nat.mod_add_mod]
  rw [hsucc]
  by_cases hlast : n % q + 1 = q
  · rw [hlast, Nat.mod_self]
    omega
  · rw [Nat.mod_eq_of_lt (by omega : n % q + 1 < q)]
    omega

/-- For the percentile `1 - 1 / q` rounding costs no sample exactly if the number of samples is
a multiple of `q` or one more. -/
theorem rankSuffices_unit_iff (hn : 0 < n) (hq : 2 ≤ q) :
    RankSuffices n (1 - 1 / q) ↔ n % q ≤ 1 := by
  have hq0 : (0 : ℚ) < q := by positivity
  have hfactor : ((n : ℚ) - 1) * (1 - 1 / q) = (((n - 1) * (q - 1) : ℕ) : ℚ) / q := by
    rw [Nat.cast_mul, Nat.cast_sub hn, Nat.cast_sub (by omega), Nat.cast_one]
    field_simp
  have hmod : (n - 1) * (q - 1) % q ≤ 1 ↔ n % q ≤ 1 := by
    rw [mul_pred_mod_le_one_iff hq, Nat.sub_add_cancel hn]
  have hscale := div_le_div_iff_of_pos_right (a := (((n - 1) * (q - 1) % q : ℕ) : ℚ)) (b := 1) hq0
  rw [RankSuffices, hfactor, Int.fract_div_natCast_eq_div_natCast_mod, ← hmod,
    ← Nat.cast_le (α := ℚ), Nat.cast_one, ← hscale]
  constructor <;> intro h <;> linarith

theorem median_covers {values : List ℚ} (hne : values ≠ []) : Covers values (50 / 100) := by
  have hunit := rankSuffices_unit_iff (q := 2) (List.length_pos_of_ne_nil hne) le_rfl
  have hhalf : (1 - 1 / (2 : ℕ) : ℚ) = 50 / 100 := by norm_num
  rw [hhalf] at hunit
  refine covers_of_rankSuffices hne (by norm_num) (by norm_num) (hunit.mpr ?_)
  exact Nat.lt_succ_iff.mp (Nat.mod_lt _ two_pos)

/-- The 99th percentile of different samples covers its share of a multiple of a hundred samples,
of one more, and of no other number. -/
theorem p99_covers_iff {values : List ℚ} (hne : values ≠ []) (hnodup : values.Nodup) :
    Covers values (99 / 100) ↔ values.length % 100 ≤ 1 := by
  have hunit := rankSuffices_unit_iff (q := 100) (List.length_pos_of_ne_nil hne) (by norm_num)
  have hshare : (1 - 1 / (100 : ℕ) : ℚ) = 99 / 100 := by norm_num
  rw [hshare] at hunit
  rw [← hunit]
  constructor
  · intro hcovers
    by_contra hcosts
    exact not_rankTied hnodup _ ((covers_iff_rankTied hne (by norm_num) (by norm_num) hcosts).mp
      hcovers)
  · exact covers_of_rankSuffices hne (by norm_num) (by norm_num)

end Unit

end Meshlite.Trace
