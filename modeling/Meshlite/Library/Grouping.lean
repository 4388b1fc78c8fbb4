import Mathlib.Data.List.AList
import Mathlib.Data.List.Induction
import Mathlib.Tactic

/-!
# Aggregates kept by key

A map holds one aggregate for each key, started by the first item of the key and
updated by every item of it. Under each key stands what the items of that key alone
would have made, and a sum over the map grows by what each item adds.
-/

namespace Grouping

/-- How items are grouped: by a key, into aggregates that an item starts and adds to. -/
structure Scheme (κ ι α : Type) where
  key : ι → κ
  start : ι → α
  add : α → ι → α

variable {κ ι α : Type} (g : Scheme κ ι α)

namespace Scheme

/-- The aggregate of items of one key, if there are any. -/
def total : List ι → Option α
  | [] => none
  | i :: items => some ((i :: items).foldl g.add (g.start i))

variable {g} {items : List ι} {i : ι} {k : κ} {a : α}

theorem total_snoc (items : List ι) (i : ι) :
    g.total (items ++ [i]) = some (g.add ((g.total items).getD (g.start i)) i) := by
  cases items with
  | nil => rfl
  | cons i₀ items =>
    rw [List.cons_append, total, ← List.cons_append, List.foldl_append]
    rfl

theorem total_isSome (h : items ≠ []) : (g.total items).isSome := by
  cases items with
  | nil => exact absurd rfl h
  | cons i items => rfl

theorem total_induct {P : List ι → α → Prop} (hstart : ∀ i, P [i] (g.add (g.start i) i))
    (hadd : ∀ items i a, P items a → P (items ++ [i]) (g.add a i)) (h : g.total items = some a) :
    P items a := by
  induction items using List.reverseRecOn generalizing a with
  | nil => cases h
  | append_singleton items i ih =>
    rw [total_snoc, Option.some.injEq] at h
    subst h
    cases htotal : g.total items with
    | none =>
      cases items with
      | nil => exact hstart i
      | cons i₀ items => cases htotal
    | some a => exact hadd items i a (ih htotal)

section Map

variable [DecidableEq κ] {m : AList fun _ : κ => α}

variable (g) in
/-- The item is added to the aggregate of its key. -/
def put (m : AList fun _ : κ => α) (i : ι) : AList fun _ : κ => α :=
  m.insert (g.key i) (g.add ((m.lookup (g.key i)).getD (g.start i)) i)

variable (g) in
def putAll (items : List ι) : AList fun _ : κ => α := items.foldl g.put ∅

theorem putAll_snoc (items : List ι) (i : ι) :
    g.putAll (items ++ [i]) = g.put (g.putAll items) i := by
  rw [putAll, List.foldl_append]
  rfl

/-- Under each key stands the aggregate of the items of that key. -/
theorem lookup_putAll (items : List ι) (k : κ) :
    (g.putAll items).lookup k = g.total (items.filter (g.key · = k)) := by
  induction items using List.reverseRecOn with
  | nil => rfl
  | append_singleton items i ih =>
    rw [putAll_snoc, put, List.filter_append]
    by_cases hk : g.key i = k
    · subst hk
      rw [AList.lookup_insert, ih, List.filter_singleton, decide_eq_true rfl, ← total_snoc]
      rfl
    · rw [AList.lookup_insert_ne (Ne.symm hk), ih, List.filter_singleton, decide_eq_false hk]
      simp

theorem lookup_putAll_isSome : ((g.putAll items).lookup k).isSome ↔ ∃ i ∈ items, g.key i = k := by
  rw [lookup_putAll]
  constructor
  · intro h
    have hne : items.filter (g.key · = k) ≠ [] := by
      intro hnil
      rw [hnil] at h
      cases h
    obtain ⟨i, hi⟩ := List.exists_mem_of_ne_nil _ hne
    exact ⟨i, (List.mem_filter.mp hi).1, by simpa using (List.mem_filter.mp hi).2⟩
  · rintro ⟨i, hi, hk⟩
    exact total_isSome (List.ne_nil_of_mem (List.mem_filter.mpr ⟨hi, decide_eq_true hk⟩))

theorem mem_entries_iff : (⟨k, a⟩ : (_ : κ) × α) ∈ m.entries ↔ m.lookup k = some a :=
  AList.mem_lookup_iff.symm

section Content

variable {β : Type} {m' : AList fun _ : κ => α} {f : κ → α → β}

theorem mem_map_entries {b : β} : b ∈ m.entries.map (fun e => f e.1 e.2) ↔
    ∃ k a, m.lookup k = some a ∧ f k a = b := by
  rw [List.mem_map]
  constructor
  · rintro ⟨⟨k, a⟩, hmem, rfl⟩
    exact ⟨k, a, mem_entries_iff.mp hmem, rfl⟩
  · rintro ⟨k, a, hlookup, rfl⟩
    exact ⟨⟨k, a⟩, mem_entries_iff.mpr hlookup, rfl⟩

theorem nodup_map_entries (keyOf : β → κ)
    (hkey : ∀ k a, m.lookup k = some a → keyOf (f k a) = k) :
    (m.entries.map fun e => f e.1 e.2).Nodup := by
  apply List.Nodup.of_map keyOf
  have hkeys : (m.entries.map fun e => f e.1 e.2).map keyOf = m.entries.keys := by
    rw [List.map_map, List.keys]
    exact List.map_congr_left fun ⟨k, a⟩ hmem => hkey k a (mem_entries_iff.mp hmem)
  rw [hkeys]
  exact m.nodupKeys

/-- Two maps show the same entries, in whatever order, exactly if they show the same under
each key. -/
theorem perm_map_entries_iff (keyOf : β → κ)
    (hkey : ∀ k a, m.lookup k = some a → keyOf (f k a) = k)
    (hkey' : ∀ k a, m'.lookup k = some a → keyOf (f k a) = k) :
    (m.entries.map fun e => f e.1 e.2).Perm (m'.entries.map fun e => f e.1 e.2) ↔
      ∀ k, (m.lookup k).map (f k) = (m'.lookup k).map (f k) := by
  rw [List.perm_ext_iff_of_nodup (nodup_map_entries keyOf hkey) (nodup_map_entries keyOf hkey')]
  simp only [mem_map_entries]
  constructor
  · intro h k
    ext b
    rw [Option.map_eq_some_iff, Option.map_eq_some_iff]
    constructor
    · rintro ⟨a, hlookup, hb⟩
      obtain ⟨k', a', hlookup', hb'⟩ := (h b).mp ⟨k, a, hlookup, hb⟩
      have hk : k' = k := by
        rw [← hkey' k' a' hlookup', ← hkey k a hlookup, hb, hb']
      subst hk
      exact ⟨a', hlookup', hb'⟩
    · rintro ⟨a, hlookup, hb⟩
      obtain ⟨k', a', hlookup', hb'⟩ := (h b).mpr ⟨k, a, hlookup, hb⟩
      have hk : k' = k := by
        rw [← hkey k' a' hlookup', ← hkey' k a hlookup, hb, hb']
      subst hk
      exact ⟨a', hlookup', hb'⟩
  · intro h b
    refine exists_congr fun k => ?_
    have hk := congrArg (· = some b) (h k)
    simpa only [Option.map_eq_some_iff, eq_iff_iff] using hk

theorem perm_map_iff {V : Type} {view : α → V} {xs xs' : List V} {shown : V → β}
    (hxs : xs.Perm (m.entries.map fun e => view e.2))
    (hxs' : xs'.Perm (m'.entries.map fun e => view e.2)) (keyOf : β → κ)
    (hkey : ∀ k a, m.lookup k = some a → keyOf (shown (view a)) = k)
    (hkey' : ∀ k a, m'.lookup k = some a → keyOf (shown (view a)) = k) :
    (xs.map shown).Perm (xs'.map shown) ↔
      ∀ k, (m.lookup k).map (fun a => shown (view a)) =
        (m'.lookup k).map fun a => shown (view a) := by
  have hshown := hxs.map shown
  have hshown' := hxs'.map shown
  rw [List.map_map] at hshown hshown'
  rw [hshown.congr_left, hshown'.congr_right]
  exact perm_map_entries_iff (f := fun _ a => shown (view a)) keyOf hkey hkey'

end Content

section Sum

/-- The sum over the entries of the map of what each entry counts for. -/
def sumOver (m : AList fun _ : κ => α) (f : κ → α → ℕ) : ℕ :=
  (m.entries.map fun e => f e.1 e.2).sum

variable {f : κ → α → ℕ}

theorem sumOver_insert (m : AList fun _ : κ => α) (k : κ) (a : α) :
    sumOver (m.insert k a) f + (m.lookup k).elim 0 (f k) = sumOver m f + f k a := by
  change ((List.kinsert k a m.entries).map fun e => f e.1 e.2).sum + _ =
    (m.entries.map fun e => f e.1 e.2).sum + _
  rw [List.kinsert, List.map_cons, List.sum_cons]
  by_cases hk : k ∈ m.entries.keys
  · obtain ⟨old, l₁, l₂, -, hentries, herase⟩ := List.exists_of_kerase hk
    have hlookup : m.lookup k = some old := by
      rw [← mem_entries_iff, hentries]
      exact List.mem_append_right _ List.mem_cons_self
    rw [herase, hlookup, hentries]
    simp only [List.map_append, List.map_cons, List.sum_append, List.sum_cons, Option.elim_some]
    omega
  · have hlookup : m.lookup k = none := AList.lookup_eq_none.mpr hk
    rw [List.kerase_of_notMem_keys hk, hlookup, Option.elim_none]
    rw [Nat.add_zero]
    exact Nat.add_comm _ _

/-- If every item adds to its aggregate's share of the sum, the sum over the map is the sum
over the items. -/
theorem sumOver_putAll {d : ι → ℕ} (hstart : ∀ i, f (g.key i) (g.start i) = 0)
    (hadd : ∀ a i, f (g.key i) (g.add a i) = f (g.key i) a + d i) (items : List ι) :
    sumOver (g.putAll items) f = (items.map d).sum := by
  induction items using List.reverseRecOn with
  | nil => rfl
  | append_singleton items i ih =>
    rw [putAll_snoc, put, List.map_append, List.sum_append, ← ih, List.map_singleton,
      List.sum_singleton]
    have hinsert := sumOver_insert (f := f) (g.putAll items) (g.key i)
      (g.add (((g.putAll items).lookup (g.key i)).getD (g.start i)) i)
    rw [hadd] at hinsert
    cases hlookup : (g.putAll items).lookup (g.key i) with
    | none =>
      rw [hlookup, Option.elim_none, Option.getD_none, hstart] at hinsert
      rw [Option.getD_none]
      omega
    | some a =>
      rw [hlookup, Option.elim_some, Option.getD_some] at hinsert
      rw [Option.getD_some]
      omega

end Sum

end Map

end Scheme

end Grouping
