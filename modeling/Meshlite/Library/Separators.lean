import Mathlib.Data.List.Infix
import Mathlib.Tactic

/-!
# Text joined by separators

Parts written one after the other, with a separator between two of them, can be told apart
again where the separator stands only once. A separator fenced by a mark that it has nowhere
inside overlaps with itself in that mark alone, so another occurrence lies on one side.
-/

namespace Separators

variable {α : Type*}

/-- A word that lacks the letter between two parts stands within one of them. -/
theorem infix_append_cons_iff {word x y : List α} {a : α} (ha : a ∉ word) :
    word <:+: x ++ a :: y ↔ word <:+: x ∨ word <:+: y := by
  constructor
  · intro h
    rcases List.infix_append_iff.mp h with hx | hy | ⟨l, r, rfl, hl, hr⟩
    · exact Or.inl hx
    · rcases List.infix_cons_iff.mp hy with hprefix | hinfix
      · cases word with
        | nil => exact Or.inl (List.nil_infix)
        | cons b word =>
          obtain ⟨rfl, -⟩ := List.cons_prefix_cons.mp hprefix
          exact absurd List.mem_cons_self ha
      · exact Or.inr hinfix
    · cases r with
      | nil =>
        rw [List.append_nil]
        exact Or.inl hl.isInfix
      | cons b r =>
        obtain ⟨rfl, -⟩ := List.cons_prefix_cons.mp hr
        exact absurd (List.mem_append_right l List.mem_cons_self) ha
  · rintro (hx | hy)
    · exact hx.trans List.infix_append_left
    · exact (List.infix_cons hy).trans List.infix_append_right

/-- `core` with the mark before and after it. -/
def fenced (mark : α) (core : List α) : List α := mark :: (core ++ [mark])

/-- No other division of the whole has the separator between its parts. -/
def Sole (sep left right : List α) : Prop :=
  ∀ left' right', left' ++ sep ++ right' = left ++ sep ++ right → left' = left

section Fenced

variable {mark : α} {core : List α}

theorem fenced_append (mark : α) (core rest : List α) :
    fenced mark core ++ rest = mark :: core ++ mark :: rest := by
  simp [fenced]

/-- A fenced separator behind the start of another one begins at its closing mark or later. -/
theorem fenced_overlap {z x y : List α} (hcore : mark ∉ core) (hz : z ≠ [])
    (h : fenced mark core ++ x = z ++ (fenced mark core ++ y)) :
    ∃ r, z = mark :: core ++ r ∧ mark :: x = r ++ (fenced mark core ++ y) := by
  obtain ⟨a, z, rfl⟩ := List.exists_cons_of_ne_nil hz
  rw [fenced_append, fenced_append, List.cons_append, List.cons_append] at h
  obtain ⟨rfl, htail⟩ := List.cons.inj h
  rcases List.append_eq_append_iff.mp htail with ⟨r, rfl, hx⟩ | ⟨t, rfl, hy⟩
  · exact ⟨r, rfl, by rw [hx, fenced_append]⟩
  · cases t with
    | nil =>
      refine ⟨[], by simp, ?_⟩
      rw [List.nil_append, fenced_append]
      exact hy.symm
    | cons b t =>
      -- the second separator would begin inside the first one's core
      obtain ⟨rfl, -⟩ := List.cons.inj hy
      simp at hcore

theorem opens_with {r x y : List α} (h : mark :: x = r ++ (fenced mark core ++ y))
    (rest : List α) : ∃ w, r ++ mark :: rest = mark :: w := by
  cases r with
  | nil => exact ⟨rest, rfl⟩
  | cons b r =>
    obtain ⟨rfl, -⟩ := List.cons.inj h
    exact ⟨r ++ mark :: rest, rfl⟩

/-- Two divisions at a fenced separator: the second one's lies in the right part of the first,
with the mark before it, or in its left part, with the mark behind it. -/
theorem fenced_divisions {left right left' right' : List α} (hcore : mark ∉ core)
    (h : left' ++ (fenced mark core ++ right') = left ++ (fenced mark core ++ right))
    (hne : left' ≠ left) :
    (∃ r, left' = left ++ (mark :: core ++ r) ∧
      mark :: right = r ++ (fenced mark core ++ right')) ∨
    fenced mark core <:+: left ++ [mark] := by
  rcases List.append_eq_append_iff.mp h with ⟨z, hleft, hsep⟩ | ⟨z, hleft, hsep⟩
  · have hz : z ≠ [] := by
      rintro rfl
      exact hne (by simpa using hleft.symm)
    obtain ⟨r, rfl, hmark⟩ := fenced_overlap hcore hz hsep
    refine Or.inr ?_
    rw [hleft]
    obtain ⟨w, hw⟩ := opens_with hmark []
    exact ⟨left', w, by simp [fenced, ← hw]⟩
  · have hz : z ≠ [] := by
      rintro rfl
      exact hne (by simpa using hleft)
    obtain ⟨r, rfl, hmark⟩ := fenced_overlap hcore hz hsep
    exact Or.inl ⟨r, hleft, hmark⟩

/-- A fenced separator stands once exactly when neither part shows it, the part taken with the
mark that it borders on. -/
theorem sole_fenced_iff {left right : List α} (hcore : mark ∉ core) :
    Sole (fenced mark core) left right ↔
      ¬ fenced mark core <:+: left ++ [mark] ∧ ¬ fenced mark core <:+: mark :: right := by
  constructor
  · intro hsole
    refine ⟨?_, ?_⟩
    · rintro ⟨x, y, hxy⟩
      have hx := hsole x (y ++ core ++ [mark] ++ right) (by
        rw [← List.append_assoc, ← List.append_assoc, ← List.append_assoc, hxy]
        simp [fenced])
      have hlen := congrArg List.length hxy
      simp only [hx, fenced, List.length_append, List.length_cons, List.length_nil] at hlen
      omega
    · rintro ⟨x, y, hxy⟩
      have hx := hsole (left ++ mark :: core ++ x) y (by
        simp only [List.append_assoc] at hxy ⊢
        rw [hxy]
        simp [fenced])
      have hlen := congrArg List.length hx
      simp only [List.length_append, List.length_cons] at hlen
      omega
  · rintro ⟨hleft, hright⟩ left' right' h
    by_contra hne
    rw [List.append_assoc, List.append_assoc] at h
    rcases fenced_divisions hcore h hne with ⟨r, -, hmark⟩ | hinfix
    · exact hright ⟨r, right', by rw [hmark, List.append_assoc]⟩
    · exact hleft hinfix

end Fenced

/-- Three parts joined by a fenced separator and one more are determined by the whole exactly
when each separator stands once in what it joins. -/
theorem joined_unique_iff {mark : α} {core sep a b c : List α} (hcore : mark ∉ core) :
    (∀ a' b' c', a' ++ fenced mark core ++ (b' ++ sep ++ c') =
        a ++ fenced mark core ++ (b ++ sep ++ c) → a' = a ∧ b' = b ∧ c' = c) ↔
      Sole (fenced mark core) a b ∧ Sole sep b c := by
  constructor
  · intro hunique
    refine ⟨fun a' b' h => ?_, fun b' c' h => ?_⟩
    · refine (hunique a' b' c ?_).1
      rw [← List.append_assoc, ← List.append_assoc, h]
      simp only [List.append_assoc]
    · exact (hunique a b' c' (by rw [h])).2.1
  · rintro ⟨hfirst, hsecond⟩ a' b' c' h
    suffices hab : a' = a by
      subst hab
      have hrest := List.append_cancel_left h
      obtain rfl := hsecond b' c' hrest
      exact ⟨rfl, rfl, List.append_cancel_left hrest⟩
    by_contra hne
    obtain ⟨hleft, hright⟩ := (sole_fenced_iff hcore).mp hfirst
    rw [List.append_assoc, List.append_assoc a] at h
    rcases fenced_divisions hcore h hne with ⟨r, -, hmark⟩ | hinfix
    · -- the first separator of the other division begins at the mark before `b` or later, so
      -- its second one has `b` before it, and the first lies in `b`
      have hmark' : mark :: (b ++ sep ++ c) =
          (r ++ fenced mark core ++ b') ++ sep ++ c' := by
        rw [hmark]
        simp only [List.append_assoc]
      obtain ⟨x, hx⟩ := opens_with hmark (core ++ [mark] ++ b')
      replace hx : r ++ fenced mark core ++ b' = mark :: x := by simpa [fenced] using hx
      rw [hx, List.cons_append, List.cons_append] at hmark'
      obtain rfl := hsecond x c' (List.cons.inj hmark').2.symm
      exact hright ⟨r, b', hx⟩
    · exact hleft hinfix

section Respelled

variable {mark : α} {letters : List α}

/-- A text is written otherwise: what is changed begins with no letter of the separators and
has no mark inside. -/
inductive Respelled (mark : α) (letters : List α) : List α → List α → Prop
  | nil : Respelled mark letters [] []
  | keep (c : α) {u v : List α} : Respelled mark letters u v →
      Respelled mark letters (c :: u) (c :: v)
  | change {c : α} {x u v : List α} (y : List α) (hc : c ∉ letters) (hx : mark ∉ x) :
      Respelled mark letters u v → Respelled mark letters (c :: (x ++ u)) (y ++ v)

namespace Respelled

theorem refl (u : List α) : Respelled mark letters u u := by
  induction u with
  | nil => exact .nil
  | cons c u ih => exact .keep c ih

theorem append {u u' v v' : List α} (h : Respelled mark letters u v)
    (h' : Respelled mark letters u' v') : Respelled mark letters (u ++ u') (v ++ v') := by
  induction h with
  | nil => exact h'
  | keep c _ ih => exact .keep c ih
  | change y hc hx _ ih =>
    rw [List.cons_append, List.append_assoc, List.append_assoc]
    exact .change y hc hx ih

theorem of_letters {t u w : List α} (ht : t ⊆ letters)
    (h : Respelled mark letters (t ++ u) w) :
    ∃ v, w = t ++ v ∧ Respelled mark letters u v := by
  induction t generalizing w with
  | nil => exact ⟨w, rfl, h⟩
  | cons c t ih =>
    rw [List.cons_subset] at ht
    generalize htext : c :: t ++ u = text at h
    cases h with
    | nil => simp at htext
    | keep b hrest =>
      obtain ⟨rfl, rfl⟩ := List.cons.inj htext
      obtain ⟨v, rfl, hv⟩ := ih ht.2 hrest
      exact ⟨v, rfl, hv⟩
    | change y hb =>
      obtain ⟨rfl, -⟩ := List.cons.inj htext
      exact absurd ht.1 hb

theorem of_mark {x z w : List α} (hmark : mark ∈ letters)
    (h : Respelled mark letters (x ++ mark :: z) w) :
    ∃ x' z', w = x' ++ mark :: z' ∧ Respelled mark letters z z' := by
  generalize htext : x ++ mark :: z = text at h
  induction h generalizing x with
  | nil => simp at htext
  | @keep c u v hrest ih =>
    cases x with
    | nil =>
      obtain ⟨rfl, rfl⟩ := List.cons.inj htext
      exact ⟨[], v, rfl, hrest⟩
    | cons b x =>
      obtain ⟨rfl, htail⟩ := List.cons.inj htext
      obtain ⟨x', z', rfl, hz⟩ := ih htail
      exact ⟨b :: x', z', rfl, hz⟩
  | @change c x₀ u v y hc hx hrest ih =>
    cases x with
    | nil =>
      obtain ⟨rfl, -⟩ := List.cons.inj htext
      exact absurd hmark hc
    | cons b x =>
      obtain ⟨rfl, htail⟩ := List.cons.inj htext
      rcases List.append_eq_append_iff.mp htail with ⟨d, rfl, hd⟩ | ⟨d, rfl, hu⟩
      · cases d with
        | nil =>
          obtain ⟨x', z', rfl, hz⟩ := ih (x := []) hd
          exact ⟨y ++ x', z', by rw [List.append_assoc], hz⟩
        | cons a d =>
          -- the mark would stand inside what is changed
          obtain ⟨rfl, -⟩ := List.cons.inj hd
          exact absurd (List.mem_append_right x List.mem_cons_self) hx
      · obtain ⟨x', z', rfl, hz⟩ := ih hu.symm
        exact ⟨y ++ x', z', by rw [List.append_assoc], hz⟩

/-- A fenced separator is still there, with what stood behind it. -/
theorem of_fenced {core x z w : List α} (hmark : mark ∈ letters) (hcore : core ⊆ letters)
    (h : Respelled mark letters (x ++ fenced mark core ++ z) w) :
    ∃ x' z', w = x' ++ fenced mark core ++ z' ∧ Respelled mark letters z z' := by
  have hletters : core ++ [mark] ⊆ letters :=
    List.append_subset.mpr ⟨hcore, List.cons_subset.mpr ⟨hmark, List.nil_subset letters⟩⟩
  rw [List.append_assoc, fenced, List.cons_append] at h
  obtain ⟨x', w', rfl, hw'⟩ := of_mark hmark h
  obtain ⟨z', rfl, hz⟩ := of_letters hletters hw'
  exact ⟨x', z', by simp [fenced], hz⟩

end Respelled

end Respelled

end Separators
