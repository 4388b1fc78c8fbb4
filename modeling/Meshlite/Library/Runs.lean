import Mathlib.Data.List.Induction

/-!
# Runs of labelled transition systems

A run is the list of its events, the latest last, so an invariant can speak of the
whole history along with the state.
-/

namespace Runs

variable {σ ε : Type*}

theorem eq_of_splits {pre pre' post post' : List ε} {e e' : ε}
    (h : pre ++ e :: post = pre' ++ e' :: post') (he : e ∉ pre') (he' : e' ∉ pre) :
    pre = pre' ∧ e = e' := by
  rcases List.append_eq_append_iff.mp h with ⟨mid, rfl, hmid⟩ | ⟨mid, rfl, hmid⟩
  · cases mid with
    | nil => exact ⟨(List.append_nil pre).symm, (List.cons.inj hmid).1⟩
    | cons x mid =>
      obtain ⟨rfl, -⟩ := List.cons.inj hmid
      exact absurd (by simp) he
  · cases mid with
    | nil => exact ⟨List.append_nil pre', (List.cons.inj hmid).1.symm⟩
    | cons x mid =>
      obtain ⟨rfl, -⟩ := List.cons.inj hmid
      exact absurd (by simp) he'

section Latest

variable {α : Type*}

/-- What the last event about something left there: `f` says what an event leaves, if it is
about it at all. -/
def latest (f : ε → Option (Option α)) (es : List ε) : Option α :=
  es.foldl (fun acc e => (f e).getD acc) none

variable {f : ε → Option (Option α)}

@[simp] theorem latest_nil : latest f [] = none := rfl

theorem latest_snoc (es : List ε) (e : ε) :
    latest f (es ++ [e]) = (f e).getD (latest f es) := by
  rw [latest, latest, List.foldl_append, List.foldl_cons, List.foldl_nil]

end Latest

/-- `Run step init es s`: from `init`, the events `es` in this order lead to `s`. -/
inductive Run (step : σ → ε → σ → Prop) (init : σ) : List ε → σ → Prop
  | start : Run step init [] init
  | next {es : List ε} {s s' : σ} {e : ε} :
      Run step init es s → step s e s' → Run step init (es ++ [e]) s'

namespace Run

variable {step : σ → ε → σ → Prop} {init : σ}

/-- What holds at the start and is kept by every step holds after every run. -/
theorem invariant {I : List ε → σ → Prop} (hinit : I [] init)
    (hstep : ∀ es s e s', Run step init es s → I es s → step s e s' → I (es ++ [e]) s')
    {es : List ε} {s : σ} (h : Run step init es s) : I es s := by
  induction h with
  | start => exact hinit
  | next hrun hlast ih => exact hstep _ _ _ _ hrun ih hlast

/-- Steps that another system can take wherever an invariant holds make runs of that system. -/
theorem mono_of_invariant {step' : σ → ε → σ → Prop} {I : σ → Prop} (hinit : I init)
    (hkeep : ∀ s e s', I s → step s e s' → I s')
    (hstep : ∀ s e s', I s → step s e s' → step' s e s')
    {es : List ε} {s : σ} (h : Run step init es s) : Run step' init es s := by
  induction h with
  | start => exact .start
  | next hrun hlast ih =>
    have hI := hrun.invariant (I := fun _ s => I s) hinit fun _ s e s' _ => hkeep s e s'
    exact ih.next (hstep _ _ _ hI hlast)

theorem mono {step' : σ → ε → σ → Prop} (hstep : ∀ s e s', step s e s' → step' s e s')
    {es : List ε} {s : σ} (h : Run step init es s) : Run step' init es s :=
  h.mono_of_invariant (I := fun _ => True) trivial (fun _ _ _ _ _ => trivial)
    fun s e s' _ => hstep s e s'

/-- A run of a part of the system, whose other events leave that part alone. -/
theorem project {τ ε' : Type*} {part : τ → ε' → τ → Prop} {f : σ → τ} {g : ε → Option ε'}
    (hstep : ∀ s e s' e', step s e s' → g e = some e' → part (f s) e' (f s'))
    (hquiet : ∀ s e s', step s e s' → g e = none → f s' = f s)
    {es : List ε} {s : σ} (h : Run step init es s) : Run part (f init) (es.filterMap g) (f s) := by
  induction h with
  | start => exact .start
  | @next es s s' e _ hlast ih =>
    rw [List.filterMap_append]
    cases he : g e with
    | none => simpa [he, hquiet s e s' hlast he] using ih
    | some e' => simpa [he] using ih.next (hstep s e s' e' hlast he)

theorem snoc_inv {es : List ε} {e : ε} {s : σ} (h : Run step init (es ++ [e]) s) :
    ∃ m, Run step init es m ∧ step m e s := by
  generalize hes : es ++ [e] = all at h
  cases h with
  | start => simp at hes
  | next hrun hlast =>
    obtain ⟨rfl, rfl⟩ := List.append_inj' hes rfl |>.imp id List.singleton_inj.mp
    exact ⟨_, hrun, hlast⟩

theorem step_of_split {pre post : List ε} {e : ε} {s : σ}
    (h : Run step init (pre ++ e :: post) s) :
    ∃ m m', Run step init pre m ∧ step m e m' := by
  induction post using List.reverseRecOn generalizing s with
  | nil =>
    obtain ⟨m, hrun, hlast⟩ := snoc_inv h
    exact ⟨m, s, hrun, hlast⟩
  | append_singleton post e' ih =>
    rw [← List.cons_append, ← List.append_assoc] at h
    obtain ⟨m, hrun, -⟩ := snoc_inv h
    exact ih hrun

theorem step_of_mem {es : List ε} {e : ε} {s : σ} (h : Run step init es s) (he : e ∈ es) :
    ∃ pre m m', pre ⊆ es ∧ Run step init pre m ∧ step m e m' := by
  obtain ⟨pre, post, rfl⟩ := List.append_of_mem he
  obtain ⟨m, m', hrun, hstep⟩ := h.step_of_split
  exact ⟨pre, m, m', List.subset_append_left _ _, hrun, hstep⟩

theorem unique (hdet : ∀ s e s₁ s₂, step s e s₁ → step s e s₂ → s₁ = s₂) {es : List ε}
    {s₁ s₂ : σ} (h₁ : Run step init es s₁) (h₂ : Run step init es s₂) : s₁ = s₂ := by
  induction h₁ generalizing s₂ with
  | start =>
    generalize hes : ([] : List ε) = all at h₂
    cases h₂ with
    | start => rfl
    | next => simp at hes
  | next _ hlast ih =>
    obtain ⟨m, hrun, hlast'⟩ := h₂.snoc_inv
    obtain rfl := ih hrun
    exact hdet _ _ _ _ hlast hlast'

theorem cons {e : ε} {m s : σ} {es : List ε} (hfirst : step init e m) (h : Run step m es s) :
    Run step init (e :: es) s := by
  induction h with
  | start => exact Run.start.next hfirst
  | next hrun hlast ih => exact ih.next hlast

end Run

section Follow

variable {μ : Type*} {step : σ → ε → σ → Prop} {move : σ → μ → Option (ε × σ)} {init s : σ}
variable {moves : List μ} {events : List ε}

/-- The events of a schedule and the state it leads to, if every move is possible. -/
def follow (move : σ → μ → Option (ε × σ)) (init : σ) (moves : List μ) : Option (List ε × σ) :=
  moves.foldl (fun acc m => acc.bind fun p => (move p.2 m).map fun q => (p.1 ++ [q.1], q.2))
    (some ([], init))

theorem run_of_follow (hmove : ∀ s m e s', move s m = some (e, s') → step s e s')
    (h : follow move init moves = some (events, s)) : Run step init events s := by
  induction moves using List.reverseRecOn generalizing events s with
  | nil =>
    obtain ⟨rfl, rfl⟩ := Prod.mk.inj (Option.some.inj h)
    exact .start
  | append_singleton moves m ih =>
    rw [follow, List.foldl_append] at h
    obtain ⟨⟨es, t⟩, hbefore, hlast⟩ := Option.bind_eq_some_iff.mp h
    obtain ⟨⟨e, t'⟩, hstep, hend⟩ := Option.map_eq_some_iff.mp hlast
    obtain ⟨rfl, rfl⟩ := Prod.mk.inj hend
    exact (ih hbefore).next (hmove _ _ _ _ hstep)

/-- What the end of a schedule is found to satisfy, some run ends with. -/
theorem exists_run_of_follow {P : List ε → σ → Prop} [∀ events s, Decidable (P events s)]
    (hmove : ∀ s m e s', move s m = some (e, s') → step s e s')
    (h : ((follow move init moves).any fun p => decide (P p.1 p.2)) = true) :
    ∃ events s, Run step init events s ∧ P events s := by
  cases hfollow : follow move init moves with
  | none =>
    rw [hfollow] at h
    cases h
  | some p =>
    rw [hfollow] at h
    exact ⟨p.1, p.2, run_of_follow hmove hfollow, of_decide_eq_true h⟩

end Follow

section CanReach

variable {step : σ → ε → σ → Prop} {allowed goal : ε → Prop} {s s' : σ} {e : ε}

/-- Some run of allowed events continues from here and ends with a goal. -/
def CanReach (step : σ → ε → σ → Prop) (allowed goal : ε → Prop) (s : σ) : Prop :=
  ∃ es e s', Run step s (es ++ [e]) s' ∧ (∀ x ∈ es ++ [e], allowed x) ∧ goal e

theorem CanReach.now (hstep : step s e s') (hallowed : allowed e) (hgoal : goal e) :
    CanReach step allowed goal s :=
  ⟨[], e, s', Run.start.next hstep, by simpa using hallowed, hgoal⟩

theorem CanReach.later (hstep : step s e s') (hallowed : allowed e)
    (h : CanReach step allowed goal s') : CanReach step allowed goal s := by
  obtain ⟨es, last, t, hrun, hall, hgoal⟩ := h
  refine ⟨e :: es, last, t, hrun.cons hstep, ?_, hgoal⟩
  intro x hx
  rcases List.mem_cons.mp hx with rfl | hx
  · exact hallowed
  · exact hall x hx

/-- A goal is out of reach where an invariant of the allowed steps rules out its step. -/
theorem not_canReach {I : σ → Prop} (hs : I s)
    (hkeep : ∀ s e s', I s → allowed e → step s e s' → I s')
    (hno : ∀ s e s', I s → step s e s' → ¬ goal e) : ¬ CanReach step allowed goal s := by
  rintro ⟨es, last, t, hrun, hall, hgoal⟩
  obtain ⟨m, hbefore, hlast⟩ := hrun.snoc_inv
  have hm : (∀ x ∈ es, allowed x) → I m :=
    hbefore.invariant (I := fun es s => (∀ x ∈ es, allowed x) → I s) (fun _ => hs)
      fun es s e s' _ ih hstep hes =>
        hkeep s e s' (ih fun x hx => hes x (by simp [hx])) (hes e (by simp)) hstep
  exact hno m last t (hm fun x hx => hall x (by simp [hx])) hlast hgoal

end CanReach

end Runs
