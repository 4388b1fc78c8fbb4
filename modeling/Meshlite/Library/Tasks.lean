import Mathlib.Data.List.Basic
import Mathlib.Tactic

/-!
# Concurrent tasks over shared state

A program is a tree of atomic operations: it is finished, or it names its next
operation and continues from the answer. Tasks of a pool take turns, one operation at
a time. `Always` is what a program does at every operation it may still reach, `Will`
what it does on every way to its end, both as long as the answers satisfy `ok`; `Along`
is what it does given all it did before.
-/

namespace Tasks

inductive Prog (Op : Type) (Res : Op → Type) (α : Type) where
  | ret (a : α)
  | op (o : Op) (k : Res o → Prog Op Res α)

variable {Op : Type} {Res : Op → Type} {α β : Type}

namespace Prog

def bind (f : α → Prog Op Res β) : Prog Op Res α → Prog Op Res β
  | ret a => f a
  | op o k => op o fun r => (k r).bind f

/-- The program of one operation. -/
def perform (o : Op) : Prog Op Res (Res o) := op o ret

/-- A loop over a list. -/
def each (body : β → Prog Op Res Unit) : List β → Prog Op Res Unit
  | [] => ret ()
  | b :: bs => (body b).bind fun _ => each body bs

instance : Monad (Prog Op Res) where
  pure := ret
  bind p f := p.bind f

section Modalities

variable (ok : (o : Op) → Res o → Prop)

/-- Every operation the program may reach satisfies `P`, with what follows it. -/
def Always (P : (o : Op) → (Res o → Prog Op Res α) → Prop) : Prog Op Res α → Prop
  | ret _ => True
  | op o k => P o k ∧ ∀ r, ok o r → (k r).Always P

/-- The program reaches an operation of the goal whatever the answers. -/
def Will (goal : Op → Prop) : Prog Op Res α → Prop
  | ret _ => False
  | op o k => goal o ∨ ∀ r, ok o r → (k r).Will goal

variable {ok} {goal : Op → Prop}

theorem always_op {P : (o : Op) → (Res o → Prog Op Res α) → Prop} {o : Op}
    {k : Res o → Prog Op Res α} :
    (op o k).Always ok P ↔ P o k ∧ ∀ r, ok o r → (k r).Always ok P := Iff.rfl

theorem will_op {o : Op} {k : Res o → Prog Op Res α} :
    (op o k).Will ok goal ↔ goal o ∨ ∀ r, ok o r → (k r).Will ok goal := Iff.rfl

theorem will_bind_of_left {p : Prog Op Res α} (f : α → Prog Op Res β) (h : p.Will ok goal) :
    (p.bind f).Will ok goal := by
  induction p with
  | ret a => exact h.elim
  | op o k ih =>
    rcases h with hgoal | hk
    · exact Or.inl hgoal
    · exact Or.inr fun r hr => ih r (hk r hr)

theorem will_bind_of_right (p : Prog Op Res α) {f : α → Prog Op Res β}
    (h : ∀ a, (f a).Will ok goal) : (p.bind f).Will ok goal := by
  induction p with
  | ret a => exact h a
  | op o k ih => exact Or.inr fun r _ => ih r

theorem will_each {body : β → Prog Op Res Unit} {bs : List β} {b : β} (hb : b ∈ bs)
    (h : (body b).Will ok goal) : (each body bs).Will ok goal := by
  induction bs with
  | nil => simp at hb
  | cons c cs ih =>
    rcases List.mem_cons.mp hb with rfl | hmem
    · exact will_bind_of_left _ h
    · exact will_bind_of_right _ fun _ => ih hmem

theorem always_bind {Q : Op → Prop} {p : Prog Op Res α} {f : α → Prog Op Res β}
    (hp : p.Always ok fun o _ => Q o) (hf : ∀ a, (f a).Always ok fun o _ => Q o) :
    (p.bind f).Always ok fun o _ => Q o := by
  induction p with
  | ret a => exact hf a
  | op o k ih => exact ⟨hp.1, fun r hr => ih r (hp.2 r hr)⟩

theorem always_each {Q : Op → Prop} {body : β → Prog Op Res Unit} {bs : List β}
    (h : ∀ b ∈ bs, (body b).Always ok fun o _ => Q o) :
    (each body bs).Always ok fun o _ => Q o := by
  induction bs with
  | nil => trivial
  | cons c cs ih =>
    exact always_bind (h c (by simp)) fun _ => ih fun b hb => h b (by simp [hb])

theorem Always.mono {P P' : (o : Op) → (Res o → Prog Op Res α) → Prop}
    (hP : ∀ o k, P o k → P' o k) {p : Prog Op Res α} (h : p.Always ok P) : p.Always ok P' := by
  induction p with
  | ret a => trivial
  | op o k ih => exact ⟨hP o k h.1, fun r hr => ih r (h.2 r hr)⟩

end Modalities

section Along

variable (P : List ((o : Op) × Res o) → Op → Prop)

/-- Whatever the answers, each operation satisfies `P` after the operations and answers
before it, and the result satisfies `R` after all of them. -/
def Along (R : List ((o : Op) × Res o) → α → Prop) : Prog Op Res α → List ((o : Op) × Res o) → Prop
  | ret a, tr => R tr a
  | op o k, tr => P tr o ∧ ∀ r, (k r).Along R (tr ++ [⟨o, r⟩])

variable {P} {R : List ((o : Op) × Res o) → β → Prop} {tr : List ((o : Op) × Res o)}

theorem along_op {o : Op} {k : Res o → Prog Op Res β} :
    (op o k).Along P R tr ↔ P tr o ∧ ∀ r, (k r).Along P R (tr ++ [⟨o, r⟩]) := Iff.rfl

theorem along_bind {p : Prog Op Res α} {f : α → Prog Op Res β}
    (h : p.Along P (fun tr a => (f a).Along P R tr) tr) : (p.bind f).Along P R tr := by
  induction p generalizing tr with
  | ret a => exact h
  | op o k ih => exact ⟨h.1, fun r => ih r (h.2 r)⟩

theorem Along.mono {R R' : List ((o : Op) × Res o) → α → Prop} {p : Prog Op Res α}
    (h : p.Along P R tr) (hR : ∀ tr a, R tr a → R' tr a) : p.Along P R' tr := by
  induction p generalizing tr with
  | ret a => exact hR tr a h
  | op o k ih => exact ⟨h.1, fun r => ih r (h.2 r)⟩

theorem along_each_of_mem {K : List ((o : Op) × Res o) → Prop} {body : β → Prog Op Res Unit}
    {bs : List β} (h : ∀ b ∈ bs, ∀ tr, K tr → (body b).Along P (fun tr _ => K tr) tr) (hK : K tr) :
    (each body bs).Along P (fun tr _ => K tr) tr := by
  induction bs generalizing tr with
  | nil => exact hK
  | cons b bs ih =>
    apply along_bind
    apply (h b (by simp) tr hK).mono
    exact fun tr _ hK => ih (fun b hb => h b (by simp [hb])) hK

theorem along_each {K : List ((o : Op) × Res o) → Prop} {body : β → Prog Op Res Unit}
    (h : ∀ b tr, K tr → (body b).Along P (fun tr _ => K tr) tr) (bs : List β) (hK : K tr) :
    (each body bs).Along P (fun tr _ => K tr) tr :=
  along_each_of_mem (fun b _ => h b) hK

end Along

section Completes

variable {σ : Type} (exec : σ → (o : Op) → Res o → σ → Prop)

/-- The program runs to its end alone, from the first state to the second. -/
def Completes : Prog Op Res α → σ → α → σ → Prop
  | ret a, s, b, s' => b = a ∧ s' = s
  | op o k, s, b, s' => ∃ r s₁, exec s o r s₁ ∧ (k r).Completes s₁ b s'

variable {exec}

theorem completes_op {o : Op} {k : Res o → Prog Op Res α} {s s' : σ} {b : α} :
    (op o k).Completes exec s b s' ↔ ∃ r s₁, exec s o r s₁ ∧ (k r).Completes exec s₁ b s' :=
  Iff.rfl

/-- What every operation a program may reach keeps, the whole program keeps. -/
theorem Completes.invariant (ok : (o : Op) → Res o → Prop) {I : σ → Prop} {Q : Op → Prop}
    (hok : ∀ s o r s', I s → exec s o r s' → ok o r)
    (hI : ∀ s o r s', Q o → exec s o r s' → I s → I s') {p : Prog Op Res α} {s s' : σ} {b : α}
    (hp : p.Always ok fun o _ => Q o) (h : p.Completes exec s b s') (hs : I s) : I s' := by
  induction p generalizing s with
  | ret a =>
    obtain ⟨-, rfl⟩ := h
    exact hs
  | op o k ih =>
    obtain ⟨r, s₁, hexec, hrest⟩ := h
    exact ih r (hp.2 r (hok s o r s₁ hs hexec)) hrest (hI s o r s₁ hp.1 hexec hs)

theorem Completes.mono {exec' : σ → (o : Op) → Res o → σ → Prop}
    (hmono : ∀ s o r s', exec s o r s' → exec' s o r s') {p : Prog Op Res α} {s s' : σ} {b : α}
    (h : p.Completes exec s b s') : p.Completes exec' s b s' := by
  induction p generalizing s with
  | ret a => exact h
  | op o k ih =>
    obtain ⟨r, s₁, hexec, hrest⟩ := h
    exact ⟨r, s₁, hmono s o r s₁ hexec, ih r hrest⟩

theorem completes_bind {p : Prog Op Res α} {f : α → Prog Op Res β} {s s' : σ} {b : β} :
    (p.bind f).Completes exec s b s' ↔
      ∃ a m, p.Completes exec s a m ∧ (f a).Completes exec m b s' := by
  induction p generalizing s with
  | ret a =>
    constructor
    · intro h
      exact ⟨a, s, ⟨rfl, rfl⟩, h⟩
    · rintro ⟨a', m, ⟨rfl, rfl⟩, h⟩
      exact h
  | op o k ih =>
    constructor
    · rintro ⟨r, s₁, hexec, hrest⟩
      obtain ⟨a, m, hp, hf⟩ := (ih r).mp hrest
      exact ⟨a, m, ⟨r, s₁, hexec, hp⟩, hf⟩
    · rintro ⟨a, m, ⟨r, s₁, hexec, hp⟩, hf⟩
      exact ⟨r, s₁, hexec, (ih r).mpr ⟨a, m, hp, hf⟩⟩

theorem completes_each {body : β → Prog Op Res Unit} {g : σ → β → σ}
    (hbody : ∀ b s u s', (body b).Completes exec s u s' ↔ s' = g s b) {bs : List β} {s s' : σ}
    {u : Unit} : (each body bs).Completes exec s u s' ↔ s' = bs.foldl g s := by
  induction bs generalizing s with
  | nil =>
    constructor
    · exact fun h => h.2
    · exact fun h => ⟨rfl, h⟩
  | cons b bs ih =>
    rw [each, completes_bind, List.foldl_cons]
    simp only [hbody, ih]
    simp

end Completes

end Prog

section Pool

/-- The task at index `i` performs its next operation `o` and gets the answer `r`. -/
def Performs (tasks : List (Prog Op Res α)) (i : ℕ) (o : Op) (r : Res o)
    (tasks' : List (Prog Op Res α)) : Prop :=
  ∃ k, tasks[i]? = some (.op o k) ∧ tasks' = tasks.set i (k r)

/-- No task has anything left to do. -/
def Finished (tasks : List (Prog Op Res α)) : Prop := ∀ p ∈ tasks, ∃ a, p = .ret a

instance (p : Prog Op Res α) : Decidable (∃ a, p = .ret a) :=
  match p with
  | .ret a => isTrue ⟨a, rfl⟩
  | .op _ _ => isFalse nofun

instance (tasks : List (Prog Op Res α)) : Decidable (Finished tasks) :=
  inferInstanceAs (Decidable (∀ p ∈ tasks, ∃ a, p = .ret a))

variable {ok : (o : Op) → Res o → Prop} {goal : Op → Prop} {tasks tasks' : List (Prog Op Res α)}
variable {i : ℕ} {o : Op} {r : Res o}

theorem Finished.not_will (h : Finished tasks) : ¬ ∃ p ∈ tasks, p.Will ok goal := by
  rintro ⟨p, hp, hw⟩
  obtain ⟨a, rfl⟩ := h p hp
  exact hw

theorem Finished.always (h : Finished tasks) {P : (o : Op) → (Res o → Prog Op Res α) → Prop} :
    ∀ p ∈ tasks, p.Always ok P := by
  intro p hp
  obtain ⟨a, rfl⟩ := h p hp
  trivial

theorem Performs.mem_of_ne (hperf : Performs tasks i o r tasks') {j : ℕ} {p : Prog Op Res α}
    (hj : tasks[j]? = some p) (hne : j ≠ i) : p ∈ tasks' := by
  obtain ⟨k, -, rfl⟩ := hperf
  apply List.mem_of_getElem? (i := j)
  rw [List.getElem?_set_ne hne.symm, hj]

/-- What some task will do is done by this operation, or some task still will do it. -/
theorem Performs.will (hperf : Performs tasks i o r tasks') (hok : ok o r)
    (h : ∃ p ∈ tasks, p.Will ok goal) : goal o ∨ ∃ p ∈ tasks', p.Will ok goal := by
  obtain ⟨p, hp, hw⟩ := h
  obtain ⟨j, hj⟩ := List.mem_iff_getElem?.mp hp
  by_cases hij : i = j
  · subst hij
    obtain ⟨k, hi, rfl⟩ := hperf
    obtain rfl := Option.some.inj (hj.symm.trans hi)
    rcases hw with hgoal | hk
    · exact Or.inl hgoal
    · exact Or.inr ⟨k r, List.mem_of_getElem? (List.getElem?_set_self
        (List.getElem?_eq_some_iff.mp hi).1), hk r hok⟩
  · exact Or.inr ⟨p, hperf.mem_of_ne hj (Ne.symm hij), hw⟩

theorem Performs.always {P : (o : Op) → (Res o → Prog Op Res α) → Prop}
    (hperf : Performs tasks i o r tasks') (hok : ok o r)
    (h : ∀ p ∈ tasks, p.Always ok P) : ∀ p ∈ tasks', p.Always ok P := by
  obtain ⟨k, hi, rfl⟩ := hperf
  intro p hp
  rcases List.mem_or_eq_of_mem_set hp with hmem | rfl
  · exact h p hmem
  · exact (h _ (List.mem_of_getElem? hi)).2 r hok

theorem Performs.getElem?_eq (hperf : Performs tasks i o r tasks') {j : ℕ} {p : Prog Op Res α}
    (hp : tasks'[j]? = some p) :
    (i = j ∧ ∃ k, tasks[j]? = some (.op o k) ∧ p = k r) ∨ i ≠ j ∧ tasks[j]? = some p := by
  obtain ⟨k, hi, rfl⟩ := hperf
  by_cases hij : i = j
  · subst hij
    rw [List.getElem?_set_self (List.getElem?_eq_some_iff.mp hi).1] at hp
    exact Or.inl ⟨rfl, k, hi, (Option.some.inj hp).symm⟩
  · rw [List.getElem?_set_ne hij] at hp
    exact Or.inr ⟨hij, hp⟩

theorem Performs.holds {P : (o : Op) → (Res o → Prog Op Res α) → Prop}
    (hperf : Performs tasks i o r tasks') (h : ∀ p ∈ tasks, p.Always ok P) :
    ∃ k, P o k ∧ k r ∈ tasks' := by
  obtain ⟨k, hi, rfl⟩ := hperf
  exact ⟨k, (h _ (List.mem_of_getElem? hi)).1, List.mem_of_getElem? (List.getElem?_set_self
    (List.getElem?_eq_some_iff.mp hi).1)⟩

end Pool

end Tasks
