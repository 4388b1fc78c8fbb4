import Meshlite.Library.Progress
import Mathlib.Algebra.BigOperators.Group.Multiset.Basic
import Mathlib.Tactic.Abel

/-!
# Couriers

Senders with a bounded queue each, whose workers carry one item at a time to a common
receiver. A full queue drops what it is offered, and nobody sends an item twice: every
item offered has arrived, is lost, or is still on its way.
-/

namespace Courier

variable {α : Type*}

/-- What a worker does: it waits for an item, holds one that is not sent yet, or waits for the
answer to one that is. -/
inductive Worker (α : Type*) where
  | idle
  | holding (a : α)
  | waiting

structure Sender (α : Type*) where
  queue : List α
  worker : Worker α

/-- The senders, and the items that are sent and have not reached the receiver. -/
structure State (α : Type*) where
  senders : List (Sender α)
  flying : List α

inductive Event (α : Type*) where
  /-- an item enters the queue of a sender -/
  | offer (i : ℕ) (a : α)
  /-- an item finds the queue full -/
  | drop (i : ℕ) (a : α)
  /-- the worker takes the next item -/
  | take (i : ℕ)
  | send (i : ℕ) (a : α)
  /-- the worker drops the item before it is sent -/
  | giveUp (i : ℕ) (a : α)
  /-- the worker stops waiting, with an answer or without one -/
  | finish (i : ℕ)
  | arrive (a : α)
  | lose (a : α)

inductive Step (capacity : ℕ → ℕ) : State α → Event α → State α → Prop
  | offer {c : State α} {i : ℕ} {s : Sender α} (a : α) (hs : c.senders[i]? = some s)
      (hroom : s.queue.length < capacity i) :
      Step capacity c (.offer i a)
        { c with senders := c.senders.set i { s with queue := s.queue ++ [a] } }
  | drop {c : State α} {i : ℕ} {s : Sender α} (a : α) (hs : c.senders[i]? = some s)
      (hfull : capacity i ≤ s.queue.length) : Step capacity c (.drop i a) c
  | take {c : State α} {i : ℕ} {a : α} {queue : List α}
      (hs : c.senders[i]? = some ⟨a :: queue, .idle⟩) :
      Step capacity c (.take i) { c with senders := c.senders.set i ⟨queue, .holding a⟩ }
  | send {c : State α} {i : ℕ} {a : α} {queue : List α}
      (hs : c.senders[i]? = some ⟨queue, .holding a⟩) :
      Step capacity c (.send i a)
        { senders := c.senders.set i ⟨queue, .waiting⟩, flying := c.flying ++ [a] }
  | giveUp {c : State α} {i : ℕ} {a : α} {queue : List α}
      (hs : c.senders[i]? = some ⟨queue, .holding a⟩) :
      Step capacity c (.giveUp i a) { c with senders := c.senders.set i ⟨queue, .idle⟩ }
  | finish {c : State α} {i : ℕ} {queue : List α} (hs : c.senders[i]? = some ⟨queue, .waiting⟩) :
      Step capacity c (.finish i) { c with senders := c.senders.set i ⟨queue, .idle⟩ }
  | arrive {c : State α} {a : α} {pre post : List α} (hflying : c.flying = pre ++ a :: post) :
      Step capacity c (.arrive a) { c with flying := pre ++ post }
  | lose {c : State α} {a : α} {pre post : List α} (hflying : c.flying = pre ++ a :: post) :
      Step capacity c (.lose a) { c with flying := pre ++ post }

/-- So many senders with nothing to carry. -/
def start (n : ℕ) : State α where
  senders := List.replicate n ⟨[], .idle⟩
  flying := []

section History

/-- What an event emits, brings to the receiver, or loses. -/
def Event.emitted : Event α → Option α
  | .offer _ a | .drop _ a => some a
  | _ => none

def Event.arrived : Event α → Option α
  | .arrive a => some a
  | _ => none

def Event.lost : Event α → Option α
  | .drop _ a | .giveUp _ a | .lose a => some a
  | _ => none

def emitted (es : List (Event α)) : List α := es.filterMap Event.emitted

def arrived (es : List (Event α)) : List α := es.filterMap Event.arrived

def lost (es : List (Event α)) : List α := es.filterMap Event.lost

/-- What a sender was offered, and what its worker sent or gave up. -/
def Event.offeredTo (i : ℕ) : Event α → Option α
  | .offer j a => if i = j then some a else none
  | _ => none

def Event.handledBy (i : ℕ) : Event α → Option α
  | .send j a | .giveUp j a => if i = j then some a else none
  | _ => none

end History

def Worker.held : Worker α → List α
  | .holding a => [a]
  | _ => []

/-- The items of a sender, the oldest first. -/
def Sender.items (s : Sender α) : List α := s.worker.held ++ s.queue

/-- The items on their way. -/
def State.pending (c : State α) : Multiset α :=
  (c.senders.map fun s => (s.items : Multiset α)).sum + (c.flying : Multiset α)

section Accounts

variable {c c' : State α} {e : Event α} {es : List (Event α)}
  {capacity : ℕ → ℕ} {n : ℕ}

theorem items_set {l : List (Sender α)} {i : ℕ} {s t : Sender α} {x y : Multiset α}
    (hs : l[i]? = some s) (hst : (t.items : Multiset α) + x = s.items + y) :
    ((l.set i t).map fun s => (s.items : Multiset α)).sum + x =
      (l.map fun s => (s.items : Multiset α)).sum + y :=
  Runs.sum_map_set (f := fun s : Sender α => (s.items : Multiset α)) hs hst

theorem coe_middle (l m : List α) (a : α) : (↑(l ++ a :: m) : Multiset α) = ↑(l ++ m) + {a} := by
  rw [add_comm, Multiset.singleton_add, Multiset.cons_coe, Multiset.coe_eq_coe]
  exact List.perm_middle

theorem items_release {w : Worker α} (queue : List α) (a : α) (hw : w.held = []) :
    ((Sender.items ⟨queue, w⟩ : Multiset α)) + {a} = Sender.items ⟨queue, .holding a⟩ + 0 := by
  rw [add_zero, Sender.items, hw]
  exact (coe_middle [] queue a).symm

/-- What an event emits it adds to what has arrived, is lost or is on its way. -/
theorem Step.account (h : Step capacity c e c') :
    c'.pending + (↑e.arrived.toList + ↑e.lost.toList) = c.pending + ↑e.emitted.toList := by
  simp only [State.pending]
  cases h with
  | @offer i s a hs hroom =>
    have hitems : (Sender.items { s with queue := s.queue ++ [a] } : Multiset α) + 0 =
        s.items + {a} := by
      rw [add_zero, Sender.items, Sender.items, ← List.append_assoc, coe_middle, List.append_nil]
    have hset := items_set hs hitems
    rw [add_zero] at hset
    simp only [Event.arrived, Event.lost, Event.emitted, Option.toList_none, Option.toList_some,
      Multiset.coe_nil, Multiset.coe_singleton, hset]
    abel
  | drop a hs hfull => simp [Event.arrived, Event.lost, Event.emitted]
  | @take i a queue hs =>
    have hset := items_set (x := 0) (y := 0) (t := ⟨queue, .holding a⟩) hs rfl
    simpa [Event.arrived, Event.lost, Event.emitted] using hset
  | @send i a queue hs =>
    have hset := items_set (t := ⟨queue, .waiting⟩) hs (items_release queue a rfl)
    simp only [Event.arrived, Event.lost, Event.emitted, Option.toList_none, Multiset.coe_nil,
      coe_middle, List.append_nil]
    rw [add_zero] at hset
    rw [← hset]
    abel
  | @giveUp i a queue hs =>
    have hset := items_set (t := ⟨queue, .idle⟩) hs (items_release queue a rfl)
    simp only [Event.arrived, Event.lost, Event.emitted, Option.toList_none, Option.toList_some,
      Multiset.coe_nil, Multiset.coe_singleton]
    rw [add_zero] at hset
    rw [← hset]
    abel
  | @finish i queue hs =>
    have hset := items_set (x := 0) (y := 0) (t := ⟨queue, .idle⟩) hs rfl
    simpa [Event.arrived, Event.lost, Event.emitted] using hset
  | arrive hflying =>
    simp only [Event.arrived, Event.lost, Event.emitted, Option.toList_none, Option.toList_some,
      Multiset.coe_nil, Multiset.coe_singleton, hflying, coe_middle]
    abel
  | lose hflying =>
    simp only [Event.arrived, Event.lost, Event.emitted, Option.toList_none, Option.toList_some,
      Multiset.coe_nil, Multiset.coe_singleton, hflying, coe_middle]
    abel

theorem pending_start : (start n : State α).pending = 0 := by
  simp [State.pending, start, Sender.items, Worker.held]

theorem filterMap_snoc {β γ : Type*} (f : β → Option γ) (es : List β) (e : β) :
    (es ++ [e]).filterMap f = es.filterMap f ++ (f e).toList := by
  cases h : f e <;> simp [h]

/-- Every item emitted has arrived, is lost or is on its way, as often as it was emitted. -/
theorem account_of_run (h : Runs.Run (Step capacity) (start n) es c) :
    (↑(emitted es) : Multiset α) = ↑(arrived es) + ↑(lost es) + c.pending := by
  refine h.invariant (I := fun es c => (↑(emitted es) : Multiset α) =
    ↑(arrived es) + ↑(lost es) + c.pending) ?_ ?_
  · rw [pending_start]
    rfl
  · intro es c e c' _ ih hstep
    have haccount := hstep.account
    simp only [emitted, arrived, lost, filterMap_snoc, ← Multiset.coe_add] at ih ⊢
    rw [ih, add_assoc, ← haccount]
    abel

theorem mem_emitted_of_flying (h : Runs.Run (Step capacity) (start n) es c) {a : α}
    (ha : a ∈ c.flying) : a ∈ emitted es := by
  have hmem : a ∈ (↑(emitted es) : Multiset α) := by
    rw [account_of_run h]
    exact Multiset.mem_add.mpr (Or.inr (Multiset.mem_add.mpr (Or.inr ha)))
  exact hmem

theorem Step.mem_flying (h : Step capacity c e c') {a : α} (he : e = .arrive a ∨ e = .lose a) :
    a ∈ c.flying := by
  cases h with
  | arrive hflying | lose hflying =>
    rcases he with he | he <;> cases he
    rw [hflying]
    simp
  | _ => rcases he with he | he <;> cases he

end Accounts

section Order

variable {c c' : State α} {e : Event α} {es : List (Event α)} {capacity : ℕ → ℕ} {n i : ℕ}

theorem getElem?_set_cases {l : List (Sender α)} {j : ℕ} {s t u : Sender α}
    (hs : l[j]? = some s) (hu : (l.set j t)[i]? = some u) :
    i = j ∧ u = t ∨ i ≠ j ∧ l[i]? = some u := by
  by_cases hij : j = i
  · subst hij
    rw [List.getElem?_set_self', hs] at hu
    exact Or.inl ⟨rfl, (Option.some.inj hu).symm⟩
  · rw [List.getElem?_set_ne hij] at hu
    exact Or.inr ⟨Ne.symm hij, hu⟩

/-- What an event adds behind the items of a sender, and what it takes from their front. -/
theorem Step.order (h : Step capacity c e c') {s' : Sender α} (hs' : c'.senders[i]? = some s') :
    ∃ s, c.senders[i]? = some s ∧
      s.items ++ (e.offeredTo i).toList = (e.handledBy i).toList ++ s'.items := by
  cases h with
  | @offer j s a hs hroom =>
    obtain ⟨rfl, rfl⟩ | ⟨hij, hs'⟩ := getElem?_set_cases hs hs'
    · exact ⟨s, hs, by simp [Sender.items, Event.offeredTo, Event.handledBy]⟩
    · exact ⟨s', hs', by simp [Event.offeredTo, Event.handledBy, hij]⟩
  | drop a hs hfull => exact ⟨s', hs', by simp [Event.offeredTo, Event.handledBy]⟩
  | take hs =>
    obtain ⟨rfl, rfl⟩ | ⟨hij, hs'⟩ := getElem?_set_cases hs hs'
    · exact ⟨_, hs, by simp [Sender.items, Worker.held, Event.offeredTo, Event.handledBy]⟩
    · exact ⟨s', hs', by simp [Event.offeredTo, Event.handledBy]⟩
  | send hs =>
    obtain ⟨rfl, rfl⟩ | ⟨hij, hs'⟩ := getElem?_set_cases hs hs'
    · exact ⟨_, hs, by simp [Sender.items, Worker.held, Event.offeredTo, Event.handledBy]⟩
    · exact ⟨s', hs', by simp [Event.offeredTo, Event.handledBy, hij]⟩
  | giveUp hs =>
    obtain ⟨rfl, rfl⟩ | ⟨hij, hs'⟩ := getElem?_set_cases hs hs'
    · exact ⟨_, hs, by simp [Sender.items, Worker.held, Event.offeredTo, Event.handledBy]⟩
    · exact ⟨s', hs', by simp [Event.offeredTo, Event.handledBy, hij]⟩
  | finish hs =>
    obtain ⟨rfl, rfl⟩ | ⟨hij, hs'⟩ := getElem?_set_cases hs hs'
    · exact ⟨_, hs, by simp [Sender.items, Worker.held, Event.offeredTo, Event.handledBy]⟩
    · exact ⟨s', hs', by simp [Event.offeredTo, Event.handledBy]⟩
  | arrive _ => exact ⟨s', hs', by simp [Event.offeredTo, Event.handledBy]⟩
  | lose _ => exact ⟨s', hs', by simp [Event.offeredTo, Event.handledBy]⟩

/-- A sender handles its items in the order in which it was offered them. -/
theorem order_of_run (h : Runs.Run (Step capacity) (start n) es c) {s : Sender α}
    (hs : c.senders[i]? = some s) :
    es.filterMap (Event.offeredTo i) = es.filterMap (Event.handledBy i) ++ s.items := by
  refine h.invariant (I := fun es c => ∀ s, c.senders[i]? = some s →
    es.filterMap (Event.offeredTo i) = es.filterMap (Event.handledBy i) ++ s.items) ?_ ?_ s hs
  · intro s hs
    rw [List.eq_of_mem_replicate (List.mem_of_getElem? hs)]
    rfl
  · intro es c e c' _ ih hstep s' hs'
    obtain ⟨s, hs, horder⟩ := hstep.order hs'
    rw [filterMap_snoc, filterMap_snoc, ih s hs, List.append_assoc, horder, List.append_assoc]

/-- No queue outgrows its capacity. -/
theorem bounded_of_run (h : Runs.Run (Step capacity) (start n) es c) {s : Sender α}
    (hs : c.senders[i]? = some s) : s.queue.length ≤ capacity i := by
  refine h.invariant (I := fun _ c => ∀ i s, c.senders[i]? = some s →
    s.queue.length ≤ capacity i) ?_ ?_ i s hs
  · intro i s hs
    rw [List.eq_of_mem_replicate (List.mem_of_getElem? hs)]
    exact Nat.zero_le _
  · intro es c e c' _ ih hstep i s' hs'
    cases hstep with
    | offer a hs hroom =>
      obtain ⟨rfl, rfl⟩ | ⟨-, hs'⟩ := getElem?_set_cases hs hs'
      · rw [List.length_append]
        exact hroom
      · exact ih i s' hs'
    | take hs =>
      obtain ⟨rfl, rfl⟩ | ⟨-, hs'⟩ := getElem?_set_cases hs hs'
      · exact (Nat.le_succ _).trans (ih _ _ hs)
      · exact ih i s' hs'
    | send hs | giveUp hs | finish hs =>
      have hbound := ih _ _ hs
      obtain ⟨rfl, rfl⟩ | ⟨-, hs'⟩ := getElem?_set_cases hs hs'
      · exact hbound
      · exact ih i s' hs'
    | drop | arrive | lose => exact ih i s' hs'

end Order

end Courier
