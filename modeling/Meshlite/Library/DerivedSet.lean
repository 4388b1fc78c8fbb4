import Mathlib.Data.Set.Basic
import Mathlib.Logic.Function.Basic
import Mathlib.Tactic.Tauto

/-!
# Sets derived from a keyed store

Keys hold items, and a view keeps the set of items held without the keys. It is
updated by adding the item a key comes to hold and by removing the item a key is
said to drop. Each update is exact under one condition on the other keys.
-/

namespace DerivedSet

variable {κ ι : Type*}

/-- The items some key holds. -/
def held (store : κ → Option ι) : Set ι := {x | ∃ k, store k = some x}

/-- Some key other than `k` holds the item. -/
def HeldElsewhere (store : κ → Option ι) (k : κ) (x : ι) : Prop := ∃ k', k' ≠ k ∧ store k' = some x

def add (view : Set ι) (item : Option ι) : Set ι := {x | item = some x ∨ x ∈ view}

def remove (view : Set ι) (item : Option ι) : Set ι := {x | x ∈ view ∧ item ≠ some x}

theorem mem_held_iff (store : κ → Option ι) (k : κ) (x : ι) :
    x ∈ held store ↔ store k = some x ∨ HeldElsewhere store k x := by
  constructor
  · rintro ⟨k', hk'⟩
    by_cases h : k' = k
    · exact Or.inl (h ▸ hk')
    · exact Or.inr ⟨k', h, hk'⟩
  · rintro (hk | ⟨k', -, hk'⟩)
    · exact ⟨k, hk⟩
    · exact ⟨k', hk'⟩

variable [DecidableEq κ]

theorem mem_held_update (store : κ → Option ι) (k : κ) (item : Option ι) (x : ι) :
    x ∈ held (Function.update store k item) ↔ item = some x ∨ HeldElsewhere store k x := by
  have hother : HeldElsewhere (Function.update store k item) k x ↔ HeldElsewhere store k x := by
    refine exists_congr fun k' => and_congr_right fun hne => ?_
    rw [Function.update_of_ne hne]
  rw [mem_held_iff _ k, Function.update_self, hother]

/-- What a key comes to hold is added: exact unless an item it held alone is lost. -/
theorem add_held_eq_iff (store : κ → Option ι) (k : κ) (item : Option ι) :
    add (held store) item = held (Function.update store k item) ↔
      ∀ x, store k = some x → item = some x ∨ HeldElsewhere store k x := by
  rw [Set.ext_iff]
  refine forall_congr' fun x => ?_
  rw [mem_held_update, add, Set.mem_ofPred_eq, mem_held_iff store k]
  tauto

/-- What a key is said to drop is removed: exact when that is what it held alone. -/
theorem remove_held_eq_iff (store : κ → Option ι) (k : κ) (item : Option ι) :
    remove (held store) item = held (Function.update store k none) ↔
      (∀ x, item = some x → ¬ HeldElsewhere store k x) ∧
        ∀ x, store k = some x → item = some x ∨ HeldElsewhere store k x := by
  rw [Set.ext_iff, ← forall_and]
  refine forall_congr' fun x => ?_
  rw [mem_held_update, remove, Set.mem_ofPred_eq, mem_held_iff store k]
  have hnone : (none : Option ι) ≠ some x := (Option.some_ne_none x).symm
  tauto

/-- Nothing is done: exact unless the key drops or gets an item no other key holds. -/
theorem held_eq_iff (store : κ → Option ι) (k : κ) (item : Option ι) :
    held store = held (Function.update store k item) ↔
      (∀ x, store k = some x → item = some x ∨ HeldElsewhere store k x) ∧
        ∀ x, item = some x → x ∈ held store := by
  rw [Set.ext_iff, ← forall_and]
  refine forall_congr' fun x => ?_
  rw [mem_held_update, mem_held_iff store k]
  tauto

end DerivedSet
