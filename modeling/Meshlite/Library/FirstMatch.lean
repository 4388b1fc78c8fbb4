import Mathlib.Data.List.Nodup
import Mathlib.Tactic

/-!
# First-match rule lists

A rule names one key and a list of admitted values. The scan stops at the first
rule of the queried key; a fallback answers for keys without a rule. On lists
whose keys are distinct the scan decides membership of the pair.
-/

namespace FirstMatch

variable {ρ κ ν : Type*} [DecidableEq κ] [DecidableEq ν]
variable (key : ρ → κ) (values : ρ → List ν) (fallback : Bool)

def scan (k : κ) (v : ν) : List ρ → Bool
  | [] => fallback
  | r :: rs => if key r = k then (values r).any (· = v) else scan k v rs

theorem scan_map {σ : Type*} (f : σ → ρ) (k : κ) (v : ν) (rs : List σ) :
    scan key values fallback k v (rs.map f) = scan (key ∘ f) (values ∘ f) fallback k v rs := by
  induction rs with
  | nil => rfl
  | cons r rs ih => simp [scan, ih]

theorem scan_of_forall_ne {k : κ} (v : ν) {rs : List ρ} (h : ∀ r ∈ rs, key r ≠ k) :
    scan key values fallback k v rs = fallback := by
  induction rs with
  | nil => rfl
  | cons r rs ih =>
    rw [scan, if_neg (h r (by simp))]
    exact ih fun r hr => h r (by simp [hr])

theorem scan_of_mem {k : κ} (v : ν) {rs : List ρ} (hn : (rs.map key).Nodup) {r : ρ}
    (hr : r ∈ rs) (hk : key r = k) :
    scan key values fallback k v rs = true ↔ v ∈ values r := by
  induction rs with
  | nil => simp at hr
  | cons s rs ih =>
    rw [List.map_cons, List.nodup_cons] at hn
    rcases List.mem_cons.mp hr with rfl | hr'
    · simp [scan, hk]
    · have hne : key s ≠ k := by
        rintro rfl
        exact hn.1 (List.mem_map.mpr ⟨r, hr', hk⟩)
      rw [scan, if_neg hne]
      exact ih hn.2 hr'

theorem scan_iff {k : κ} {v : ν} {rs : List ρ} (hn : (rs.map key).Nodup) :
    scan key values fallback k v rs = true ↔
      (∃ r ∈ rs, key r = k ∧ v ∈ values r) ∨ (∀ r ∈ rs, key r ≠ k) ∧ fallback = true := by
  by_cases h : ∃ r ∈ rs, key r = k
  · obtain ⟨r, hr, hk⟩ := h
    rw [scan_of_mem key values fallback v hn hr hk]
    constructor
    · intro hv
      exact Or.inl ⟨r, hr, hk, hv⟩
    · rintro (⟨s, hs, hsk, hv⟩ | ⟨hne, -⟩)
      · exact List.inj_on_of_nodup_map hn hr hs (hk.trans hsk.symm) ▸ hv
      · exact absurd hk (hne r hr)
  · have hne : ∀ r ∈ rs, key r ≠ k := fun r hr hk => h ⟨r, hr, hk⟩
    rw [scan_of_forall_ne key values fallback v hne]
    constructor
    · intro hf
      exact Or.inr ⟨hne, hf⟩
    · rintro (⟨r, hr, hk, -⟩ | ⟨-, hf⟩)
      · exact absurd hk (hne r hr)
      · exact hf

/-- Over keys without end some key has no rule, so the scans of all keys together admit what
any rule lists, and everything if the fallback does. -/
theorem exists_scan_iff [Infinite κ] {v : ν} {rs : List ρ} (hn : (rs.map key).Nodup) :
    (∃ k, scan key values fallback k v rs = true) ↔
      (∃ r ∈ rs, v ∈ values r) ∨ fallback = true := by
  constructor
  · rintro ⟨k, hk⟩
    rcases (scan_iff key values fallback hn).mp hk with ⟨r, hr, -, hv⟩ | ⟨-, hf⟩
    · exact Or.inl ⟨r, hr, hv⟩
    · exact Or.inr hf
  · rintro (⟨r, hr, hv⟩ | hf)
    · exact ⟨key r, (scan_of_mem key values fallback v hn hr rfl).mpr hv⟩
    · obtain ⟨k, hk⟩ := Infinite.exists_notMem_finset (rs.map key).toFinset
      have hne : ∀ r ∈ rs, key r ≠ k := by
        rintro r hr rfl
        exact hk (List.mem_toFinset.mpr (List.mem_map_of_mem hr))
      exact ⟨k, (scan_of_forall_ne key values fallback v hne).trans hf⟩

end FirstMatch
