import Mathlib.Data.List.AList
import Mathlib.Data.Finset.Card
import Mathlib.Data.List.TakeWhile
import Mathlib.Tactic

/-!
# Maps with a bounded number of entries

A write to a key that is present replaces its value; a write to a new key is
refused once the map is full. Filling an empty map with a list of writes keeps
the keys first written while there was room, each with its last value.
-/

namespace BoundedMap

variable {κ ν : Type*} [DecidableEq κ]

abbrev Table (κ ν : Type*) := AList fun _ : κ => ν

/-- Room for one more entry next to `n`; `none` stands for no bound. -/
def HasRoom : Option ℕ → ℕ → Prop
  | none, _ => True
  | some cap, n => n < cap

instance (cap : Option ℕ) (n : ℕ) : Decidable (HasRoom cap n) :=
  match cap with
  | none => inferInstanceAs (Decidable True)
  | some cap => inferInstanceAs (Decidable (n < cap))

theorem HasRoom.mono {cap : Option ℕ} {m n : ℕ} (h : HasRoom cap n) (hmn : m ≤ n) :
    HasRoom cap m := by
  cases cap with
  | none => trivial
  | some cap => exact lt_of_le_of_lt hmn h

def Accepts (cap : Option ℕ) (m : Table κ ν) (k : κ) : Prop :=
  k ∈ m ∨ HasRoom cap m.keys.length

instance (cap : Option ℕ) (m : Table κ ν) (k : κ) : Decidable (Accepts cap m k) :=
  inferInstanceAs (Decidable (_ ∨ _))

/-- One write; a refused one leaves the map as it is. -/
def write (cap : Option ℕ) (m : Table κ ν) (w : κ × ν) : Table κ ν :=
  if Accepts cap m w.1 then m.insert w.1 w.2 else m

def writeAll (cap : Option ℕ) (m : Table κ ν) (ws : List (κ × ν)) : Table κ ν :=
  ws.foldl (write cap) m

/-- The value of the last write to `k`. -/
def lastWrite (k : κ) (ws : List (κ × ν)) : Option ν :=
  ws.foldl (fun last w => if w.1 = k then some w.2 else last) none

/-- `k` occurs, and fewer keys than the bound were first written before it. -/
def Admitted (cap : Option ℕ) (ks : List κ) (k : κ) : Prop :=
  k ∈ ks ∧ HasRoom cap (ks.takeWhile (· ≠ k)).toFinset.card

instance (cap : Option ℕ) (ks : List κ) (k : κ) : Decidable (Admitted cap ks k) :=
  inferInstanceAs (Decidable (_ ∧ _))

section LastWrite

@[simp] theorem lastWrite_nil (k : κ) : lastWrite k ([] : List (κ × ν)) = none := rfl

theorem lastWrite_snoc (k : κ) (ws : List (κ × ν)) (w : κ × ν) :
    lastWrite k (ws ++ [w]) = if w.1 = k then some w.2 else lastWrite k ws := by
  simp [lastWrite, List.foldl_append]

theorem lastWrite_append (k : κ) (ws ws' : List (κ × ν)) :
    lastWrite k (ws ++ ws') = (lastWrite k ws').or (lastWrite k ws) := by
  induction ws' using List.reverseRecOn with
  | nil => simp
  | append_singleton ws' w ih =>
    rw [← List.append_assoc, lastWrite_snoc, lastWrite_snoc, ih]
    split_ifs <;> simp

theorem mem_of_lastWrite {k : κ} {v : ν} {ws : List (κ × ν)} (h : lastWrite k ws = some v) :
    (k, v) ∈ ws := by
  induction ws using List.reverseRecOn with
  | nil => simp at h
  | append_singleton ws w ih =>
    rw [lastWrite_snoc] at h
    split_ifs at h with hw
    · obtain rfl := Option.some.inj h
      simp [← hw]
    · exact List.mem_append_left _ (ih h)

theorem lastWrite_isSome {k : κ} {ws : List (κ × ν)} :
    (lastWrite k ws).isSome ↔ k ∈ ws.map Prod.fst := by
  induction ws using List.reverseRecOn with
  | nil => simp
  | append_singleton ws w ih =>
    rw [lastWrite_snoc]
    split_ifs with hw
    · simp [hw]
    · simpa [Ne.symm hw] using ih

theorem lastWrite_eq {k : κ} {v : ν} {ws : List (κ × ν)} (hmem : ∃ u, (k, u) ∈ ws)
    (hv : ∀ u, (k, u) ∈ ws → u = v) : lastWrite k ws = some v := by
  obtain ⟨u, hu⟩ := hmem
  have hsome : (lastWrite k ws).isSome := lastWrite_isSome.mpr (List.mem_map.mpr ⟨_, hu, rfl⟩)
  obtain ⟨x, hx⟩ := Option.isSome_iff_exists.mp hsome
  rw [hx, hv x (mem_of_lastWrite hx)]

end LastWrite

section Admitted

theorem admitted_none {ks : List κ} {k : κ} : Admitted none ks k ↔ k ∈ ks :=
  and_iff_left trivial

theorem admitted_append_of_mem {cap : Option ℕ} {ks : List κ} {k : κ} (h : k ∈ ks)
    (ks' : List κ) : Admitted cap (ks ++ ks') k ↔ Admitted cap ks k := by
  have htake : (ks ++ ks').takeWhile (· ≠ k) = ks.takeWhile (· ≠ k) := by
    induction ks with
    | nil => simp at h
    | cons a ks ih =>
      by_cases ha : a = k
      · simp [ha]
      · have hk : k ∈ ks := (List.mem_cons.mp h).resolve_left (Ne.symm ha)
        simpa [ha] using ih hk
  simp only [Admitted, htake, List.mem_append, h, true_or, true_and]

theorem Admitted.append {cap : Option ℕ} {ks : List κ} {k : κ} (h : Admitted cap ks k)
    (ks' : List κ) : Admitted cap (ks ++ ks') k :=
  (admitted_append_of_mem h.1 ks').mpr h

/-- A key that first occurs after a full map's worth of other keys is not admitted. -/
theorem not_admitted_of_full {n : ℕ} {pre : List κ} {k : κ} (hk : k ∉ pre)
    (hn : n ≤ pre.toFinset.card) (post : List κ) : ¬ Admitted (some n) (pre ++ post) k := by
  rintro ⟨-, hroom⟩
  have hsub : pre.toFinset ⊆ ((pre ++ post).takeWhile (· ≠ k)).toFinset := by
    have hpre : ∀ a ∈ pre, decide (a ≠ k) = true := by
      intro a ha
      simpa using fun hak : a = k => hk (hak ▸ ha)
    rw [List.takeWhile_append_of_pos hpre, List.toFinset_append]
    exact Finset.subset_union_left
  have hlt : ((pre ++ post).takeWhile (· ≠ k)).toFinset.card < n := hroom
  have hle := Finset.card_le_card hsub
  omega

theorem admitted_snoc_new {cap : Option ℕ} {ks : List κ} {k : κ} (h : k ∉ ks) :
    Admitted cap (ks ++ [k]) k ↔ HasRoom cap ks.toFinset.card := by
  have htake : (ks ++ [k]).takeWhile (· ≠ k) = ks := by
    rw [List.takeWhile_append_of_pos (by
      intro a ha
      simpa using fun hak : a = k => h (hak ▸ ha))]
    simp
  simp only [Admitted, htake, List.mem_append, List.mem_singleton, or_true, true_and]

theorem not_admitted_snoc {cap : Option ℕ} {ks : List κ} {k a : κ} (hka : k ≠ a)
    (h : k ∉ ks) : ¬ Admitted cap (ks ++ [a]) k := by
  rintro ⟨hmem, -⟩
  rcases List.mem_append.mp hmem with hk | hk
  · exact h hk
  · exact hka (List.mem_singleton.mp hk)

end Admitted

section Fill

variable (cap : Option ℕ)

theorem writeAll_snoc (m : Table κ ν) (ws : List (κ × ν)) (w : κ × ν) :
    writeAll cap m (ws ++ [w]) = write cap (writeAll cap m ws) w := by
  simp [writeAll, List.foldl_append]

theorem mem_write {m : Table κ ν} {w : κ × ν} {k : κ} :
    k ∈ write cap m w ↔ k ∈ m ∨ k = w.1 ∧ Accepts cap m w.1 := by
  unfold write
  split_ifs with h
  · rw [AList.mem_insert]
    tauto
  · tauto

/-- The number of distinct keys written, cut off at the bound. -/
def occupancy : Option ℕ → ℕ → ℕ
  | none, n => n
  | some cap, n => min cap n

theorem hasRoom_occupancy (n : ℕ) : HasRoom cap (occupancy cap n) ↔ HasRoom cap n := by
  cases cap with
  | none => rfl
  | some cap =>
    simp only [HasRoom, occupancy]
    omega

theorem occupancy_succ (n : ℕ) :
    occupancy cap (n + 1) = if HasRoom cap n then occupancy cap n + 1 else occupancy cap n := by
  cases cap with
  | none => simp [occupancy, HasRoom]
  | some cap =>
    by_cases h : HasRoom (some cap) n
    · rw [if_pos h]
      have hlt : n < cap := h
      simp only [occupancy]
      omega
    · rw [if_neg h]
      have hle : cap ≤ n := not_lt.mp h
      simp only [occupancy]
      omega

theorem keys_length_insert {m : Table κ ν} {k : κ} {v : ν} (h : k ∉ m) :
    (m.insert k v).keys.length = m.keys.length + 1 := by
  rw [AList.keys_insert, List.length_cons, List.erase_of_not_mem h]

theorem keys_length_insert_mem {m : Table κ ν} {k : κ} {v : ν} (h : k ∈ m) :
    (m.insert k v).keys.length = m.keys.length := by
  have hpos : 0 < m.keys.length := List.length_pos_of_mem h
  rw [AList.keys_insert, List.length_cons, List.length_erase_of_mem h]
  omega

/-- The map after writes of these keys into the empty map: which keys it holds, and how many. -/
structure Filled (m : Table κ ν) (ks : List κ) : Prop where
  mem : ∀ k, k ∈ m ↔ Admitted cap ks k
  length : m.keys.length = occupancy cap ks.toFinset.card

variable {cap} in
theorem Filled.accepts_of_mem {m : Table κ ν} {ks : List κ} {k : κ} (h : Filled cap m ks)
    (hk : k ∈ ks) : Accepts cap m k ↔ k ∈ m := by
  refine or_iff_left_of_imp fun hroom => ?_
  rw [h.mem]
  rw [h.length, hasRoom_occupancy] at hroom
  refine ⟨hk, hroom.mono (Finset.card_le_card fun a ha => ?_)⟩
  exact List.mem_toFinset.mpr (List.takeWhile_subset _ (List.mem_toFinset.mp ha))

variable {cap} in
theorem Filled.write_of_mem {m : Table κ ν} {ks : List κ} {w : κ × ν} (h : Filled cap m ks)
    (hw : w.1 ∈ ks) : Filled cap (write cap m w) (ks ++ [w.1]) := by
  have hacc := h.accepts_of_mem hw
  constructor
  · intro k
    rw [mem_write, hacc, h.mem]
    by_cases hk : k ∈ ks
    · rw [admitted_append_of_mem hk]
      refine or_iff_left_of_imp ?_
      rintro ⟨rfl, hmem⟩
      exact (h.mem _).mp hmem
    · have hkw : k ≠ w.1 := fun heq => hk (heq ▸ hw)
      simp only [not_admitted_snoc hkw hk, hkw, false_and, or_false, iff_false]
      exact fun hadm => hk hadm.1
  · have hfin : (ks ++ [w.1]).toFinset = ks.toFinset := by
      ext k
      simp only [List.mem_toFinset, List.mem_append, List.mem_singleton]
      exact ⟨fun hk => hk.elim id fun heq => heq ▸ hw, Or.inl⟩
    rw [hfin, ← h.length, write]
    split_ifs with hif
    · exact keys_length_insert_mem (hacc.mp hif)
    · rfl

variable {cap} in
theorem Filled.write_of_not_mem {m : Table κ ν} {ks : List κ} {w : κ × ν} (h : Filled cap m ks)
    (hw : w.1 ∉ ks) : Filled cap (write cap m w) (ks ++ [w.1]) := by
  have hnot : w.1 ∉ m := fun hmem => hw ((h.mem _).mp hmem).1
  have hacc : Accepts cap m w.1 ↔ HasRoom cap ks.toFinset.card := by
    rw [Accepts, or_iff_right hnot, h.length, hasRoom_occupancy]
  constructor
  · intro k
    rw [mem_write, hacc, h.mem]
    by_cases hkw : k = w.1
    · subst hkw
      rw [admitted_snoc_new hw]
      have hna : ¬ Admitted cap ks w.1 := fun hadm => hw hadm.1
      simp [hna]
    · simp only [hkw, false_and, or_false]
      by_cases hk : k ∈ ks
      · rw [admitted_append_of_mem hk]
      · exact iff_of_false (fun hadm => hk hadm.1) (not_admitted_snoc hkw hk)
  · have hcard : (ks ++ [w.1]).toFinset.card = ks.toFinset.card + 1 := by
      rw [List.toFinset_append, List.toFinset_cons, List.toFinset_nil, insert_empty_eq,
        Finset.card_union_of_disjoint (by simpa using hw), Finset.card_singleton]
    rw [hcard, occupancy_succ, ← h.length, write]
    simp only [hacc]
    split_ifs
    · exact keys_length_insert hnot
    · rfl

theorem filled_writeAll (ws : List (κ × ν)) :
    Filled cap (writeAll cap (∅ : Table κ ν) ws) (ws.map Prod.fst) := by
  induction ws using List.reverseRecOn with
  | nil =>
    constructor
    · simp [writeAll, Admitted]
    · cases cap <;> simp [writeAll, occupancy]
  | append_singleton ws w ih =>
    rw [writeAll_snoc, List.map_append, List.map_singleton]
    by_cases hw : w.1 ∈ ws.map Prod.fst
    · exact ih.write_of_mem hw
    · exact ih.write_of_not_mem hw

theorem mem_writeAll {ws : List (κ × ν)} {k : κ} :
    k ∈ writeAll cap (∅ : Table κ ν) ws ↔ Admitted cap (ws.map Prod.fst) k :=
  (filled_writeAll cap ws).mem k

/-- The content of a filled map: admitted keys with the last value written. -/
theorem lookup_writeAll (ws : List (κ × ν)) (k : κ) :
    (writeAll cap (∅ : Table κ ν) ws).lookup k =
      if Admitted cap (ws.map Prod.fst) k then lastWrite k ws else none := by
  induction ws using List.reverseRecOn with
  | nil => simp [writeAll]
  | append_singleton ws w ih =>
    by_cases hadm : Admitted cap ((ws ++ [w]).map Prod.fst) k
    · have hmem : k ∈ write cap (writeAll cap ∅ ws) w := by
        rw [← writeAll_snoc]
        exact (mem_writeAll cap).mpr hadm
      rw [if_pos hadm, writeAll_snoc, lastWrite_snoc]
      rw [mem_write] at hmem
      by_cases hw : w.1 = k
      · have hacc : Accepts cap (writeAll cap ∅ ws) w.1 := by
          rcases hmem with h | ⟨-, h⟩
          · exact Or.inl (hw ▸ h)
          · exact h
        rw [if_pos hw, write, if_pos hacc, ← hw, AList.lookup_insert]
      · have hk : k ∈ writeAll cap (∅ : Table κ ν) ws :=
          hmem.resolve_right fun h => hw h.1.symm
        rw [if_neg hw, write]
        rw [if_pos ((mem_writeAll cap).mp hk)] at ih
        split_ifs
        · rw [AList.lookup_insert_ne (Ne.symm hw), ih]
        · exact ih
    · rw [if_neg hadm, AList.lookup_eq_none, mem_writeAll]
      exact hadm

theorem accepts_of_card_le {ws pre post : List (κ × ν)} {w : κ × ν}
    (hroom : ∀ n < (ws.map Prod.fst).toFinset.card, HasRoom cap n) (hws : ws = pre ++ w :: post) :
    Accepts cap (writeAll cap ∅ pre) w.1 := by
  have hmem : w.1 ∈ (ws.map Prod.fst).toFinset := by simp [hws]
  have hpre : ∀ k ∈ pre.map Prod.fst, k ∈ (ws.map Prod.fst).toFinset := by
    intro k hk
    rw [hws, List.mem_toFinset, List.map_append]
    exact List.mem_append_left _ hk
  by_cases hw : w.1 ∈ pre.map Prod.fst
  · refine Or.inl ((mem_writeAll cap).mpr ⟨hw, hroom _ (Finset.card_lt_card ?_)⟩)
    refine (Finset.ssubset_iff_of_subset fun k hk => ?_).mpr ⟨w.1, hmem, ?_⟩
    · exact hpre k (List.takeWhile_subset _ (List.mem_toFinset.mp hk))
    · intro hk
      simpa using List.mem_takeWhile_imp (List.mem_toFinset.mp hk)
  · refine Or.inr ?_
    rw [(filled_writeAll cap pre).length, hasRoom_occupancy]
    refine hroom _ (Finset.card_lt_card ?_)
    refine (Finset.ssubset_iff_of_subset fun k hk => ?_).mpr ⟨w.1, hmem, ?_⟩
    · exact hpre k (List.mem_toFinset.mp hk)
    · exact fun hk => hw (List.mem_toFinset.mp hk)

end Fill

section Erase

def eraseAll (m : Table κ ν) (ks : List κ) : Table κ ν :=
  ks.foldl (fun m k => m.erase k) m

theorem lookup_eraseAll (m : Table κ ν) (ks : List κ) (k : κ) :
    (eraseAll m ks).lookup k = if k ∈ ks then none else m.lookup k := by
  induction ks generalizing m with
  | nil => simp [eraseAll]
  | cons a ks ih =>
    change (eraseAll (m.erase a) ks).lookup k = _
    rw [ih]
    by_cases hk : k ∈ ks
    · simp [hk]
    · by_cases ha : k = a
      · subst ha
        simp [hk]
      · simp [hk, ha, AList.lookup_erase_ne ha]

theorem eraseAll_keys {m : Table κ ν} {ks : List κ} (h : ks.Perm m.keys) :
    eraseAll m ks = ∅ := by
  have hnone : ∀ k, (eraseAll m ks).lookup k = none := by
    intro k
    rw [lookup_eraseAll]
    split_ifs with hk
    · rfl
    · exact AList.lookup_eq_none.mpr fun hm => hk (h.mem_iff.mpr hm)
  apply AList.ext
  rw [AList.empty_entries, List.eq_nil_iff_forall_not_mem]
  intro s hs
  exact AList.lookup_eq_none.mp (hnone s.1) (List.mem_keys_of_mem hs)

end Erase

end BoundedMap
