import Meshlite.Library.Runs
import Meshlite.Library.Tasks
import Mathlib.Algebra.BigOperators.Group.List.Basic
import Mathlib.Logic.Hydra
import Mathlib.Order.WellFounded

/-!
# Work that comes to an end

Events that can not go on for ever, with the states in which none of them is possible: every
run of them that is continued as long as one is possible ends in such a state. Tasks that
take no new orders are one example, since each operation leaves a part of one program.
-/

namespace Runs

variable {σ ε β : Type*} (step : σ → ε → σ → Prop) (allowed : ε → Prop)

/-- No run of allowed events goes on for ever. -/
def Ends : Prop := WellFounded fun s' s => ∃ e, allowed e ∧ step s e s'

/-- No allowed event is possible. -/
def Stuck (s : σ) : Prop := ∀ e s', allowed e → ¬ step s e s'

variable {step allowed}

/-- Events end if each of them lowers a rank. -/
theorem Ends.of_rank {r : β → β → Prop} (hr : WellFounded r) (rank : σ → β)
    (hlower : ∀ s e s', allowed e → step s e s' → r (rank s') (rank s)) : Ends step allowed := by
  refine Subrelation.wf ?_ (InvImage.wf rank hr)
  rintro s' s ⟨e, hallowed, hstep⟩
  exact hlower s e s' hallowed hstep

theorem Ends.not_forever (h : Ends step allowed) (states : ℕ → σ) :
    ¬ ∀ n, ∃ e, allowed e ∧ step (states n) e (states (n + 1)) := by
  intro hforever
  have : IsWellFounded σ _ := ⟨h⟩
  obtain ⟨n, hn⟩ := WellFounded.not_rel_apply_succ
    (r := fun s' s => ∃ e, allowed e ∧ step s e s') states
  exact hn (hforever n)

/-- Whatever state is reached, the work there comes to an end. -/
theorem Ends.exists_stuck (h : Ends step allowed) (s : σ) :
    ∃ es s', Run (fun s e s' => allowed e ∧ step s e s') s es s' ∧ Stuck step allowed s' := by
  induction s using h.induction with
  | _ s ih =>
    by_cases hstuck : Stuck step allowed s
    · exact ⟨[], s, .start, hstuck⟩
    · simp only [Stuck, not_forall, not_not] at hstuck
      obtain ⟨e, m, hallowed, hstep⟩ := hstuck
      obtain ⟨es, s', hrun, hend⟩ := ih m ⟨e, hallowed, hstep⟩
      exact ⟨e :: es, s', hrun.cons ⟨hallowed, hstep⟩, hend⟩

theorem sum_map_set {α M : Type*} [AddCommMonoid M] {l : List α} {f : α → M} {i : ℕ} {a b : α}
    {x y : M} (ha : l[i]? = some a) (hab : f b + x = f a + y) :
    ((l.set i b).map f).sum + x = (l.map f).sum + y := by
  obtain ⟨hi, rfl⟩ := List.getElem?_eq_some_iff.mp ha
  have hold := ((List.getElem_cons_eraseIdx_perm hi).map f).sum_eq
  have hnew := ((List.set_perm_cons_eraseIdx hi b).map f).sum_eq
  rw [hnew, ← hold, List.map_cons, List.map_cons, List.sum_cons, List.sum_cons,
    add_right_comm, hab, add_right_comm]

theorem Run.append {init m s : σ} {es es' : List ε} (h : Run step init es m)
    (h' : Run step m es' s) : Run step init (es ++ es') s := by
  induction h' with
  | start => rwa [List.append_nil]
  | next _ hlast ih =>
    rw [← List.append_assoc]
    exact ih.next hlast

end Runs

namespace Tasks

variable {Op : Type} {Res : Op → Type} {α : Type}

/-- The first program is what is left of the second after an operation. -/
def Prog.Left (q p : Prog Op Res α) : Prop := ∃ o k r, p = .op o k ∧ q = k r

theorem Prog.left_wf : WellFounded (Prog.Left : Prog Op Res α → Prog Op Res α → Prop) := by
  refine ⟨fun p => ?_⟩
  induction p with
  | ret a =>
    refine ⟨_, ?_⟩
    rintro q ⟨o, k, r, heq, -⟩
    cases heq
  | op o k ih =>
    refine ⟨_, ?_⟩
    rintro q ⟨o, k, r, heq, rfl⟩
    cases heq
    exact ih r

theorem Performs.cutExpand {tasks tasks' : List (Prog Op Res α)} {i : ℕ} {o : Op} {r : Res o}
    (h : Performs tasks i o r tasks') :
    Relation.CutExpand Prog.Left (↑tasks' : Multiset (Prog Op Res α)) ↑tasks := by
  obtain ⟨k, hi, rfl⟩ := h
  obtain ⟨hlt, hget⟩ := List.getElem?_eq_some_iff.mp hi
  have hbefore : (↑tasks : Multiset (Prog Op Res α)) = tasks[i] ::ₘ ↑(tasks.eraseIdx i) := by
    rw [Multiset.cons_coe, Multiset.coe_eq_coe]
    exact (List.getElem_cons_eraseIdx_perm hlt).symm
  have hafter : (↑(tasks.set i (k r)) : Multiset (Prog Op Res α)) =
      k r ::ₘ ↑(tasks.eraseIdx i) := by
    rw [Multiset.cons_coe, Multiset.coe_eq_coe]
    exact List.set_perm_cons_eraseIdx hlt (k r)
  rw [hbefore, hafter, ← Multiset.singleton_add, ← Multiset.singleton_add]
  exact Relation.cutExpand_single_add ⟨o, k, r, hget, rfl⟩ _

theorem cutExpand_left_wf :
    WellFounded (Relation.CutExpand (Prog.Left : Prog Op Res α → Prog Op Res α → Prop)) := by
  have hirrefl : Std.Irrefl (Prog.Left : Prog Op Res α → Prog Op Res α → Prop) :=
    ⟨fun p => Prog.left_wf.irrefl.irrefl p⟩
  exact Prog.left_wf.cutExpand

end Tasks
