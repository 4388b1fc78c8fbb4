import Mathlib.Data.List.Destutter
import Mathlib.Data.List.Sort
import Meshlite.Kprobe.VerdictSync
import Meshlite.Library.DerivedSet
import Meshlite.Library.Runs

/-!
# The pod watcher

`PodWatcher` keeps the snapshot from the events of a Kubernetes watch. A relist
clears it and fills it again; afterwards each event adds or removes the one pair its
pod object shows. The snapshot does not know which pod a pair came from, so it stays
exact only while no pod gives up a pair without a delete that names it.
-/

namespace Meshlite.Kprobe

open Runs DerivedSet

/-- One field of a dotted address: one to three digits, no leading zero, at most 255. -/
def parseOctet (digits : List Char) : Option Byte :=
  let value := digits.foldl (fun n c => 10 * n + (c.toNat - '0'.toNat)) 0
  if digits ≠ [] ∧ digits.length ≤ 3 ∧ digits.all Char.isDigit = true ∧
      (digits.head? = some '0' → digits.length = 1) ∧ value ≤ 255 then
    some (BitVec.ofNat 8 value)
  else none

/-- `str::parse::<Ipv4Addr>`. -/
def parseIpv4 (s : String) : Option Ipv4Addr :=
  match s.toList.splitOn '.' with
  | [a, b, c, d] => do
    return { a := ← parseOctet a, b := ← parseOctet b, c := ← parseOctet c, d := ← parseOctet d }
  | _ => none

/-- What names a pod in the cluster. -/
structure PodKey where
  nameSpace : String
  name : String
  deriving DecidableEq, Repr

structure PodStatus where
  podIp : Option String

structure Pod where
  key : PodKey
  labels : Option (AList fun _ : String => String)
  status : Option PodStatus

/-- `None` if the pod has no `app` label or no assigned address. -/
def extractServiceAndIp (pod : Pod) : Option (String × Ipv4Addr) := do
  let labels ← pod.labels
  let svcId ← labels.lookup "app"
  let status ← pod.status
  let ipStr ← status.podIp
  let ip ← parseIpv4 ipStr
  return (svcId, ip)

def Pod.app (pod : Pod) : Option String := pod.labels.bind fun labels => labels.lookup "app"

def Pod.address (pod : Pod) : Option Ipv4Addr :=
  (pod.status.bind PodStatus.podIp).bind parseIpv4

/-- The pod carries this app label and holds this IPv4 address. -/
def Pod.Holds (pod : Pod) (svc : String) (ip : Ipv4Addr) : Prop :=
  pod.app = some svc ∧ pod.address = some ip

instance (pod : Pod) (svc : String) (ip : Ipv4Addr) : Decidable (pod.Holds svc ip) :=
  inferInstanceAs (Decidable (_ ∧ _))

theorem extractServiceAndIp_eq_some {pod : Pod} {svc : String} {ip : Ipv4Addr} :
    extractServiceAndIp pod = some (svc, ip) ↔ pod.Holds svc ip := by
  have heq : extractServiceAndIp pod =
      pod.app.bind fun svcId => pod.address.bind fun ip => some (svcId, ip) := by
    simp only [extractServiceAndIp, Pod.app, Pod.address, Option.bind_eq_bind, Option.bind_assoc]
    rfl
  rw [heq, Pod.Holds]
  cases pod.app <;> cases pod.address <;> simp

/-- `v.sort(); v.dedup()`. -/
def sortDedup (ips : List Ipv4Addr) : List Ipv4Addr :=
  (ips.insertionSort fun x y => x.toU32 ≤ y.toU32).destutter (· ≠ ·)

theorem mem_destutter_ne {α : Type*} [DecidableEq α] {a : α} (l : List α) :
    a ∈ l.destutter (· ≠ ·) ↔ a ∈ l := by
  have haux : ∀ (l : List α) (b : α), a ∈ l.destutter' (· ≠ ·) b ↔ a = b ∨ a ∈ l := by
    intro l
    induction l with
    | nil => simp
    | cons c l ih =>
      intro b
      by_cases h : b = c
      · rw [List.destutter'_cons_neg _ (not_not.mpr h), ih, h, List.mem_cons]
        tauto
      · rw [List.destutter'_cons_pos _ h, List.mem_cons, ih, List.mem_cons]
  cases l with
  | nil => simp
  | cons b l => rw [List.destutter_cons', haux, List.mem_cons]

theorem mem_sortDedup {ip : Ipv4Addr} {ips : List Ipv4Addr} : ip ∈ sortDedup ips ↔ ip ∈ ips := by
  rw [sortDedup, mem_destutter_ne, List.mem_insertionSort]

namespace PodSnapshot

/-- `snap.values_mut().for_each(..)`. -/
def mapValues (snap : PodSnapshot) (f : List Ipv4Addr → List Ipv4Addr) : PodSnapshot where
  entries := snap.entries.map fun entry => ⟨entry.1, f entry.2⟩
  nodupKeys := by
    have h := snap.nodupKeys
    rw [List.NodupKeys, List.keys] at h ⊢
    rw [List.map_map]
    exact h

/-- The arm of `Apply` and `InitApply`. -/
def record (snap : PodSnapshot) (svcId : String) (ip : Ipv4Addr) : PodSnapshot :=
  mapValues (snap.insert svcId ((snap.lookup svcId).getD [] ++ [ip])) sortDedup

/-- The arm of `Delete`. -/
def forget (snap : PodSnapshot) (svcId : String) (ip : Ipv4Addr) : PodSnapshot :=
  match snap.lookup svcId with
  | none => snap
  | some ips =>
    let rest := ips.filter (· ≠ ip)
    if rest = [] then snap.erase svcId else snap.insert svcId rest

theorem lookup_mapValues (snap : PodSnapshot) (f : List Ipv4Addr → List Ipv4Addr) (svc : String) :
    (mapValues snap f).lookup svc = (snap.lookup svc).map f :=
  List.dlookup_map₂ (l := snap.entries) (f := fun _ => f) svc

theorem lists_mapValues {snap : PodSnapshot} {f : List Ipv4Addr → List Ipv4Addr}
    (hf : ∀ ip ips, ip ∈ f ips ↔ ip ∈ ips) {svc : String} {ip : Ipv4Addr} :
    (mapValues snap f).Lists svc ip ↔ snap.Lists svc ip := by
  rw [Lists, Lists, lookup_mapValues]
  cases snap.lookup svc with
  | none => simp
  | some ips => simp [hf]

theorem lists_insert {snap : PodSnapshot} {svcId svc : String} {ips : List Ipv4Addr}
    {ip : Ipv4Addr} :
    Lists (snap.insert svcId ips) svc ip ↔
      svc = svcId ∧ ip ∈ ips ∨ svc ≠ svcId ∧ snap.Lists svc ip := by
  by_cases h : svc = svcId
  · subst h
    simp [Lists]
  · simp [Lists, AList.lookup_insert_ne h, h]

theorem lists_erase {snap : PodSnapshot} {svcId svc : String} {ip : Ipv4Addr} :
    Lists (snap.erase svcId) svc ip ↔ svc ≠ svcId ∧ snap.Lists svc ip := by
  by_cases h : svc = svcId
  · subst h
    simp [Lists]
  · simp [Lists, AList.lookup_erase_ne h, h]

theorem lists_getD {snap : PodSnapshot} {svc : String} {ip : Ipv4Addr} :
    snap.Lists svc ip ↔ ip ∈ (snap.lookup svc).getD [] := by
  rw [Lists]
  cases snap.lookup svc <;> simp

theorem lists_record {snap : PodSnapshot} {svcId svc : String} {addr ip : Ipv4Addr} :
    (snap.record svcId addr).Lists svc ip ↔ svc = svcId ∧ ip = addr ∨ snap.Lists svc ip := by
  rw [record, lists_mapValues fun _ _ => mem_sortDedup, lists_insert, List.mem_append,
    List.mem_singleton]
  by_cases h : svc = svcId
  · subst h
    rw [lists_getD]
    tauto
  · tauto

theorem lists_forget {snap : PodSnapshot} {svcId svc : String} {addr ip : Ipv4Addr} :
    (snap.forget svcId addr).Lists svc ip ↔ snap.Lists svc ip ∧ ¬ (svc = svcId ∧ ip = addr) := by
  rw [forget]
  cases hl : snap.lookup svcId with
  | none =>
    have hno : ¬ snap.Lists svcId ip := by simp [lists_getD, hl]
    refine ⟨fun h => ⟨h, fun ⟨hs, _⟩ => hno (hs ▸ h)⟩, fun h => h.1⟩
  | some ips =>
    have hmem : snap.Lists svcId ip ↔ ip ∈ ips := by simp [lists_getD, hl]
    dsimp only
    split_ifs with hrest
    · have hall : ∀ x ∈ ips, x = addr := by simpa using hrest
      rw [lists_erase]
      by_cases hs : svc = svcId
      · subst hs
        rw [hmem]
        refine ⟨fun h => absurd rfl h.1, fun ⟨hin, hne⟩ => absurd ⟨rfl, hall ip hin⟩ hne⟩
      · tauto
    · rw [lists_insert, List.mem_filter, decide_eq_true_eq]
      by_cases hs : svc = svcId
      · subst hs
        rw [hmem]
        tauto
      · tauto

/-- No service is kept without an address. -/
def NoEmpty (snap : PodSnapshot) : Prop := ∀ svc ips, snap.lookup svc = some ips → ips ≠ []

theorem noEmpty_empty : NoEmpty ∅ := by
  intro svc ips h
  simp at h

theorem NoEmpty.exists_lists {snap : PodSnapshot} (h : snap.NoEmpty) {svc : String}
    (hs : svc ∈ snap) : ∃ ip, snap.Lists svc ip := by
  obtain ⟨ips, hl⟩ := Option.isSome_iff_exists.mp (AList.lookup_isSome.mpr hs)
  obtain ⟨ip, hip⟩ := List.exists_mem_of_ne_nil ips (h svc ips hl)
  exact ⟨ip, ips, hl, hip⟩

theorem NoEmpty.record {snap : PodSnapshot} (h : snap.NoEmpty) (svcId : String)
    (addr : Ipv4Addr) : (snap.record svcId addr).NoEmpty := by
  intro svc ips hl
  rw [PodSnapshot.record, lookup_mapValues] at hl
  obtain ⟨old, hold, rfl⟩ := Option.map_eq_some_iff.mp hl
  have hne : old ≠ [] := by
    by_cases hs : svc = svcId
    · subst hs
      rw [AList.lookup_insert] at hold
      obtain rfl := Option.some_inj.mp hold
      simp
    · rw [AList.lookup_insert_ne hs] at hold
      exact h svc old hold
  obtain ⟨ip, hip⟩ := List.exists_mem_of_ne_nil old hne
  exact List.ne_nil_of_mem (mem_sortDedup.mpr hip)

theorem NoEmpty.forget {snap : PodSnapshot} (h : snap.NoEmpty) (svcId : String)
    (addr : Ipv4Addr) : (snap.forget svcId addr).NoEmpty := by
  rw [PodSnapshot.forget]
  cases snap.lookup svcId with
  | none => exact h
  | some ips =>
    intro svc new hl
    dsimp only at hl
    by_cases hs : svc = svcId
    · subst hs
      split_ifs at hl with hrest
      · rw [AList.lookup_erase] at hl
        cases hl
      · rw [AList.lookup_insert] at hl
        obtain rfl := Option.some_inj.mp hl
        exact hrest
    · split_ifs at hl
      · exact h svc new (AList.lookup_erase_ne hs ▸ hl)
      · exact h svc new (AList.lookup_insert_ne hs ▸ hl)

end PodSnapshot

inductive WatchEvent where
  | apply (pod : Pod)
  | delete (pod : Pod)
  | init
  | initApply (pod : Pod)
  | initDone
  | error

/-- One round of the loop: the snapshot, and whether `PodEvent::Changed` is sent. -/
def handleWatchEvent (snap : PodSnapshot) : WatchEvent → PodSnapshot × Bool
  | .apply pod | .initApply pod =>
    match extractServiceAndIp pod with
    | some (svcId, ip) => (snap.record svcId ip, true)
    | none => (snap, false)
  | .delete pod =>
    match extractServiceAndIp pod with
    | some (svcId, ip) => (snap.forget svcId ip, true)
    | none => (snap, false)
  | .init => (∅, false)
  | .initDone => (snap, true)
  | .error => (snap, false)

/-- Where the watch stands: not started, inside `Init .. InitDone`, or after it. -/
inductive WatchPhase where
  | start
  | relisting
  | live
  deriving DecidableEq, Repr

/-- The snapshot, and beside it what the watch has reported: the latest object of
each existing pod, and the snapshot the last `Init` found. -/
structure Watch where
  snapshot : PodSnapshot
  phase : WatchPhase
  pods : PodKey → Option Pod
  before : PodSnapshot

namespace Watch

def start : Watch where
  snapshot := ∅
  phase := .start
  pods := fun _ => none
  before := ∅

/-- The events a watch can emit next. A list names each pod once; an error is followed
by more of the watch or by a new `Init`. -/
def Emits (w : Watch) : WatchEvent → Prop
  | .apply _ | .delete _ => w.phase = .live
  | .init | .error => True
  | .initApply pod => w.phase = .relisting ∧ w.pods pod.key = none
  | .initDone => w.phase = .relisting

/-- The reported cluster after the event, and the snapshot the source keeps. -/
def next (w : Watch) (e : WatchEvent) : Watch :=
  let snapshot := (handleWatchEvent w.snapshot e).1
  match e with
  | .apply pod | .initApply pod =>
    { w with snapshot, pods := Function.update w.pods pod.key (some pod) }
  | .delete pod => { w with snapshot, pods := Function.update w.pods pod.key none }
  | .init => { snapshot, phase := .relisting, pods := fun _ => none, before := w.snapshot }
  | .initDone => { w with snapshot, phase := .live }
  | .error => { w with snapshot }

/-- One event of the watch and its handling. -/
def Step (w : Watch) (e : WatchEvent) (w' : Watch) : Prop := w.Emits e ∧ w' = w.next e

/-- The snapshot maps each service to the addresses of the existing pods with that app
label, and no other service. -/
def Exact (w : Watch) : Prop :=
  (∀ svc ip, w.snapshot.Lists svc ip ↔ ∃ key pod, w.pods key = some pod ∧ pod.Holds svc ip) ∧
    ∀ svc ∈ w.snapshot, ∃ ip, w.snapshot.Lists svc ip

/-- An existing pod other than the one named holds the pair. -/
def HeldByOther (w : Watch) (key : PodKey) (svc : String) (ip : Ipv4Addr) : Prop :=
  ∃ key' pod, key' ≠ key ∧ w.pods key' = some pod ∧ pod.Holds svc ip

/-- The pair the event takes from its pod is one that the snapshot can take along: an
applied pod gives up no pair it alone held, a deleted pod shows the pair it alone held. -/
def Tracks (w : Watch) : WatchEvent → Prop
  | .apply pod => ∀ old svc ip, w.pods pod.key = some old → old.Holds svc ip →
      pod.Holds svc ip ∨ w.HeldByOther pod.key svc ip
  | .delete pod =>
      (∀ svc ip, pod.Holds svc ip → ¬ w.HeldByOther pod.key svc ip) ∧
      ∀ old svc ip, w.pods pod.key = some old → old.Holds svc ip →
        pod.Holds svc ip ∨ w.HeldByOther pod.key svc ip
  | .init | .initApply _ | .initDone | .error => True

end Watch

/-- The pairs the snapshot lists. -/
def PodSnapshot.pairs (snap : PodSnapshot) : Set (String × Ipv4Addr) := {x | snap.Lists x.1 x.2}

theorem PodSnapshot.pairs_empty : PodSnapshot.pairs ∅ = ∅ := by
  ext x
  simp [PodSnapshot.pairs, PodSnapshot.Lists]

theorem pairs_recorded (snap : PodSnapshot) (pod : Pod) :
    PodSnapshot.pairs (handleWatchEvent snap (.apply pod)).1 =
      add snap.pairs (extractServiceAndIp pod) := by
  ext ⟨svc, ip⟩
  rw [handleWatchEvent]
  cases extractServiceAndIp pod with
  | none => simp [add, PodSnapshot.pairs]
  | some x => simp [add, PodSnapshot.pairs, PodSnapshot.lists_record, Prod.ext_iff, eq_comm]

theorem pairs_forgotten (snap : PodSnapshot) (pod : Pod) :
    PodSnapshot.pairs (handleWatchEvent snap (.delete pod)).1 =
      remove snap.pairs (extractServiceAndIp pod) := by
  ext ⟨svc, ip⟩
  rw [handleWatchEvent]
  cases extractServiceAndIp pod with
  | none => simp [remove, PodSnapshot.pairs]
  | some x => simp [remove, PodSnapshot.pairs, PodSnapshot.lists_forget, Prod.ext_iff, eq_comm]

theorem PodSnapshot.NoEmpty.handleWatchEvent {snap : PodSnapshot} (h : snap.NoEmpty)
    (e : WatchEvent) : PodSnapshot.NoEmpty (handleWatchEvent snap e).1 := by
  cases e with
  | apply pod | initApply pod =>
    rw [Kprobe.handleWatchEvent]
    cases extractServiceAndIp pod with
    | none => exact h
    | some x => exact h.record x.1 x.2
  | delete pod =>
    rw [Kprobe.handleWatchEvent]
    cases extractServiceAndIp pod with
    | none => exact h
    | some x => exact h.forget x.1 x.2
  | init => exact PodSnapshot.noEmpty_empty
  | initDone | error => exact h

namespace Watch

/-- The pair each existing pod holds. -/
def store (w : Watch) : PodKey → Option (String × Ipv4Addr) :=
  fun key => (w.pods key).bind extractServiceAndIp

theorem store_eq_some {w : Watch} {key : PodKey} {svc : String} {ip : Ipv4Addr} :
    w.store key = some (svc, ip) ↔ ∃ pod, w.pods key = some pod ∧ pod.Holds svc ip := by
  simp only [store, Option.bind_eq_some_iff, extractServiceAndIp_eq_some]

theorem heldElsewhere_store {w : Watch} {key : PodKey} {svc : String} {ip : Ipv4Addr} :
    HeldElsewhere w.store key (svc, ip) ↔ w.HeldByOther key svc ip := by
  simp only [HeldElsewhere, store_eq_some, HeldByOther, exists_and_left]

/-- An event for `pod` gives up no pair but its own and those other pods hold. -/
theorem givesUp_iff {w : Watch} {pod : Pod} :
    (∀ x, w.store pod.key = some x →
        extractServiceAndIp pod = some x ∨ HeldElsewhere w.store pod.key x) ↔
      ∀ old svc ip, w.pods pod.key = some old → old.Holds svc ip →
        pod.Holds svc ip ∨ w.HeldByOther pod.key svc ip := by
  constructor
  · intro h old svc ip hold hholds
    have hx := h (svc, ip) (store_eq_some.mpr ⟨old, hold, hholds⟩)
    rwa [extractServiceAndIp_eq_some, heldElsewhere_store] at hx
  · rintro h ⟨svc, ip⟩ hx
    obtain ⟨old, hold, hholds⟩ := store_eq_some.mp hx
    rw [extractServiceAndIp_eq_some, heldElsewhere_store]
    exact h old svc ip hold hholds

theorem exact_iff_pairs {w : Watch} (h : w.snapshot.NoEmpty) :
    w.Exact ↔ w.snapshot.pairs = held w.store := by
  rw [Exact, and_iff_left fun svc => h.exists_lists, Set.ext_iff]
  constructor
  · rintro hx ⟨svc, ip⟩
    simpa only [held, PodSnapshot.pairs, Set.mem_ofPred_eq, store_eq_some] using hx svc ip
  · intro hx svc ip
    simpa only [held, PodSnapshot.pairs, Set.mem_ofPred_eq, store_eq_some] using hx (svc, ip)

theorem store_update (pods : PodKey → Option Pod) (key : PodKey) (pod : Option Pod) :
    (fun k => (Function.update pods key pod k).bind extractServiceAndIp) =
      Function.update (fun k => (pods k).bind extractServiceAndIp) key
        (pod.bind extractServiceAndIp) :=
  Function.comp_update (Option.bind · extractServiceAndIp) pods key pod

/-- From an exact snapshot, the next one is exact just when the event can be tracked. -/
theorem exact_next_iff {w : Watch} {e : WatchEvent} (hne : w.snapshot.NoEmpty)
    (hexact : w.Exact) (hemits : w.Emits e) : (w.next e).Exact ↔ w.Tracks e := by
  have hpairs := (exact_iff_pairs hne).mp hexact
  have hne' : (w.next e).snapshot.NoEmpty := by
    have h := hne.handleWatchEvent e
    cases e <;> exact h
  rw [exact_iff_pairs hne']
  cases e with
  | apply pod =>
    change PodSnapshot.pairs (handleWatchEvent w.snapshot (.apply pod)).1 =
      held (fun k => (Function.update w.pods pod.key (some pod) k).bind extractServiceAndIp) ↔ _
    rw [pairs_recorded, store_update, hpairs]
    exact (add_held_eq_iff w.store pod.key _).trans givesUp_iff
  | initApply pod =>
    change PodSnapshot.pairs (handleWatchEvent w.snapshot (.apply pod)).1 =
      held (fun k => (Function.update w.pods pod.key (some pod) k).bind extractServiceAndIp) ↔ _
    rw [pairs_recorded, store_update, hpairs]
    refine (add_held_eq_iff w.store pod.key _).trans (iff_of_true ?_ trivial)
    intro x hx
    rw [store, hemits.2] at hx
    cases hx
  | delete pod =>
    change PodSnapshot.pairs (handleWatchEvent w.snapshot (.delete pod)).1 =
      held (fun k => (Function.update w.pods pod.key none k).bind extractServiceAndIp) ↔ _
    rw [pairs_forgotten, store_update, hpairs]
    refine (remove_held_eq_iff w.store pod.key _).trans (and_congr ?_ givesUp_iff)
    simp only [Prod.forall, extractServiceAndIp_eq_some, heldElsewhere_store]
  | init =>
    refine iff_of_true ?_ trivial
    change PodSnapshot.pairs ∅ = held fun _ => none
    rw [PodSnapshot.pairs_empty]
    ext x
    simp [held]
  | initDone => exact iff_of_true hpairs trivial
  | error => exact iff_of_true hpairs trivial

theorem exact_start : start.Exact := by
  refine ⟨fun svc ip => ⟨fun h => ?_, ?_⟩, fun svc h => absurd h (AList.notMem_empty svc)⟩
  · simp [start, PodSnapshot.Lists] at h
  · rintro ⟨key, pod, h, -⟩
    cases h

theorem noEmpty_of_run {es : List WatchEvent} {w : Watch} (h : Run Step start es w) :
    w.snapshot.NoEmpty := by
  refine h.invariant (I := fun _ w => w.snapshot.NoEmpty) PodSnapshot.noEmpty_empty ?_
  rintro es w e w' - hne ⟨-, rfl⟩
  have h := hne.handleWatchEvent e
  cases e <;> exact h

end Watch

namespace Watch

theorem step_deterministic (w : Watch) (e : WatchEvent) (w₁ w₂ : Watch) (h₁ : Step w e w₁)
    (h₂ : Step w e w₂) : w₁ = w₂ :=
  h₁.2.trans h₂.2.symm

theorem tracks_or_live {w : Watch} {e : WatchEvent} (h : w.Emits e) :
    w.Tracks e ∨ w.phase = .live ∧ (w.next e).phase = .live := by
  cases e with
  | apply | delete => exact Or.inr ⟨h, h⟩
  | init | initApply | initDone | error => exact Or.inl trivial

end Watch

/-- In every run the snapshot is exact after each event outside a relist just when each
event of the run could be tracked. -/
theorem watch_exact_iff {es : List WatchEvent} {w : Watch} (h : Run Watch.Step .start es w) :
    (∀ pre post m, es = pre ++ post → Run Watch.Step .start pre m → m.phase = .live → m.Exact) ↔
      ∀ pre e post m, es = pre ++ e :: post → Run Watch.Step .start pre m → m.Tracks e := by
  constructor
  · intro hexact pre e post m hes hrun
    obtain ⟨m₀, m', hrun₀, hstep⟩ := Run.step_of_split (hes ▸ h)
    obtain rfl := hrun₀.unique Watch.step_deterministic hrun
    rcases Watch.tracks_or_live hstep.1 with htracks | ⟨hlive, hlive'⟩
    · exact htracks
    · have hnext : (m₀.next e).Exact :=
        hexact (pre ++ [e]) post _ (by simp [hes]) (hrun.next ⟨hstep.1, rfl⟩) hlive'
      exact (Watch.exact_next_iff (Watch.noEmpty_of_run hrun)
        (hexact pre (e :: post) m₀ hes hrun hlive) hstep.1).mp hnext
  · -- every state of the run is exact, by induction on the prefix that leads to it
    intro htracks pre post m hes hrun hlive
    clear hlive
    induction hrun generalizing post with
    | start => exact Watch.exact_start
    | @next pre s s' e hrun hstep ih =>
      rw [List.append_assoc] at hes
      have hs : s.Exact := ih _ hes
      obtain ⟨hemits, rfl⟩ := hstep
      exact (Watch.exact_next_iff (Watch.noEmpty_of_run hrun) hs hemits).mpr
        (htracks _ e post _ hes hrun)

/-- The pod `default/web-1` under an app label and an address. -/
def webPod (app ip : String) : Pod where
  key := { nameSpace := "default", name := "web-1" }
  labels := some (AList.singleton "app" app)
  status := some { podIp := some ip }

/-- A pod is listed and then deleted. -/
def podDeleted : List WatchEvent :=
  [.init, .initApply (webPod "alpha" "10.244.1.5"), .initDone,
    .delete (webPod "alpha" "10.244.1.5")]

/-- A pod is listed and then gets another app label. -/
def labelEdited : List WatchEvent :=
  [.init, .initApply (webPod "alpha" "10.244.1.5"), .initDone,
    .apply (webPod "beta" "10.244.1.5")]

def watched (es : List WatchEvent) : Watch := es.foldl Watch.next .start

theorem eq_watched {es : List WatchEvent} {w : Watch} (h : Run Watch.Step .start es w) :
    w = watched es := by
  refine h.invariant (I := fun es w => w = watched es) rfl ?_
  rintro es w e w' - rfl ⟨-, rfl⟩
  rw [watched, watched, List.foldl_append]
  rfl

theorem run_podDeleted : Run Watch.Step .start podDeleted (watched podDeleted) :=
  (((Run.start.next ⟨trivial, rfl⟩).next ⟨⟨rfl, rfl⟩, rfl⟩).next ⟨rfl, rfl⟩).next ⟨by rfl, rfl⟩

theorem run_labelEdited : Run Watch.Step .start labelEdited (watched labelEdited) :=
  (((Run.start.next ⟨trivial, rfl⟩).next ⟨⟨rfl, rfl⟩, rfl⟩).next ⟨rfl, rfl⟩).next ⟨by rfl, rfl⟩

theorem lookup_single {key k : PodKey} {pod q : Pod}
    (h : Function.update (fun _ => none) key (some pod) k = some q) : k = key ∧ q = pod := by
  by_cases hk : k = key
  · subst hk
    rw [Function.update_self] at h
    exact ⟨rfl, (Option.some_inj.mp h).symm⟩
  · rw [Function.update_of_ne hk] at h
    cases h

theorem podDeleted_exact : (watched podDeleted).Exact := by
  refine (watch_exact_iff run_podDeleted).mpr ?_ podDeleted [] _ (by simp) run_podDeleted rfl
  intro pre e post m hes hrun
  cases e with
  | init | initApply | initDone | error => trivial
  | apply pod =>
    have hmem : WatchEvent.apply pod ∈ podDeleted := by simp [hes]
    simp [podDeleted] at hmem
  | delete pod =>
    obtain ⟨rfl, rfl, rfl⟩ : pre = podDeleted.take 3 ∧ pod = webPod "alpha" "10.244.1.5" ∧
        post = [] := by
      rcases pre with _ | ⟨a, _ | ⟨b, _ | ⟨c, _ | ⟨d, pre⟩⟩⟩⟩ <;> simp [podDeleted] at hes ⊢
      tauto
    obtain rfl := eq_watched hrun
    have hpods : (watched (podDeleted.take 3)).pods = Function.update (fun _ => none)
        (webPod "alpha" "10.244.1.5").key (some (webPod "alpha" "10.244.1.5")) := rfl
    simp only [Watch.Tracks, Watch.HeldByOther, hpods]
    refine ⟨fun svc ip _ => ?_, fun old svc ip hold hholds => Or.inl ?_⟩
    · rintro ⟨key, other, hne, hother, -⟩
      exact hne (lookup_single hother).1
    · obtain ⟨-, rfl⟩ := lookup_single hold
      exact hholds

/-- A label edit leaves the address under the old label. -/
theorem labelEdited_not_exact :
    ¬ ∀ es w, Run Watch.Step .start es w → ∀ pre post m, es = pre ++ post →
      Run Watch.Step .start pre m → m.phase = .live → m.Exact := by
  intro h
  have hexact := h labelEdited _ run_labelEdited labelEdited [] _ (by simp) run_labelEdited rfl
  have hlisted : (watched labelEdited).snapshot.Lists "alpha" ⟨10, 244, 1, 5⟩ := by decide
  obtain ⟨key, pod, hpod, hholds⟩ := (hexact.1 _ _).mp hlisted
  have hkey : (webPod "alpha" "10.244.1.5").key = (webPod "beta" "10.244.1.5").key := rfl
  change Function.update (Function.update (fun _ => none) (webPod "alpha" "10.244.1.5").key _)
    (webPod "beta" "10.244.1.5").key _ key = _ at hpod
  rw [hkey, Function.update_idem] at hpod
  obtain ⟨-, rfl⟩ := lookup_single hpod
  exact absurd hholds (by decide)

end Meshlite.Kprobe
