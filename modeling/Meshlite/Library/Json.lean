import Mathlib.Data.List.Basic

/-!
# JSON values

The values a JSON document denotes; a number is kept as its text. Of a string its text is
kept, or whatever else a reader makes of it.
-/

inductive Json (σ : Type := String) where
  | null
  | bool (b : Bool)
  | num (text : String)
  | str (s : σ)
  | arr (items : List (Json σ))
  | obj (fields : List (σ × Json σ))

namespace Json

section Map

variable {σ τ : Type} (f : σ → τ)

mutual

/-- The value with other strings. -/
def map : Json σ → Json τ
  | null => null
  | bool b => bool b
  | num t => num t
  | str s => str (f s)
  | arr items => arr (mapItems items)
  | obj fields => obj (mapFields fields)

def mapItems : List (Json σ) → List (Json τ)
  | [] => []
  | j :: js => map j :: mapItems js

def mapFields : List (σ × Json σ) → List (τ × Json τ)
  | [] => []
  | (name, j) :: fs => (f name, map j) :: mapFields fs

end

theorem mapItems_eq (items : List (Json σ)) : mapItems f items = items.map (map f) := by
  induction items with
  | nil => rfl
  | cons j js ih => rw [mapItems, ih, List.map_cons]

theorem mapFields_eq (fields : List (σ × Json σ)) :
    mapFields f fields = fields.map (Prod.map f (map f)) := by
  induction fields with
  | nil => rfl
  | cons m fs ih => rw [mapFields, ih, List.map_cons, Prod.map]

mutual

theorem map_id : ∀ j : Json σ, j.map id = j
  | null => rfl
  | bool _ => rfl
  | num _ => rfl
  | str _ => rfl
  | arr items => by rw [map, mapItems_id items]
  | obj fields => by rw [map, mapFields_id fields]

theorem mapItems_id : ∀ items : List (Json σ), mapItems id items = items
  | [] => rfl
  | j :: js => by rw [mapItems, map_id j, mapItems_id js]

theorem mapFields_id : ∀ fields : List (σ × Json σ), mapFields id fields = fields
  | [] => rfl
  | (name, j) :: fs => by rw [mapFields, map_id j, mapFields_id fs, id]

end

end Map

/-- The value of a member, looked up by its exact name. -/
def field (name : String) : Json → Option Json
  | obj fields => fields.lookup name
  | _ => none

theorem mapM_eq_ok {α β ε : Type} {f : α → Except ε β} {g : α → β} {items : List α}
    (h : ∀ a ∈ items, f a = .ok (g a)) : items.mapM f = .ok (items.map g) := by
  induction items with
  | nil => rfl
  | cons a items ih =>
    rw [List.mapM_cons, h a (by simp), ih fun b hb => h b (by simp [hb])]
    rfl

theorem mapM_ne_ok {α β ε : Type} {f : α → Except ε β} {items : List α} {a : α}
    (ha : a ∈ items) (h : ∀ b, f a ≠ .ok b) (bs : List β) : items.mapM f ≠ .ok bs := by
  induction items generalizing bs with
  | nil => simp at ha
  | cons c items ih =>
    rw [List.mapM_cons]
    rcases List.mem_cons.mp ha with rfl | hmem
    · cases hfa : f a with
      | error err => nofun
      | ok b => exact absurd hfa (h b)
    · cases f c with
      | error err => nofun
      | ok b =>
        cases hrest : items.mapM f with
        | error err => nofun
        | ok rest => exact absurd hrest (ih hmem rest)

end Json
