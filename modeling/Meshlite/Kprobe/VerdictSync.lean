import Meshlite.Kprobe.Packet
import Meshlite.Policy.PolicyCache

/-!
# Rebuilding the verdict map

`sync` is a sequence of writes to the maps the kernel reads: the flag, one removal
for each old key, one insert for each address pair of two different services. The
kernel can look in after any of them, so the writes are a list and a state of the
sync is a prefix of it.
-/

namespace Meshlite.Kprobe

open Tls BoundedMap

/-- `HashMap<String, Vec<Ipv4Addr>>`: service (app label) to pod addresses. -/
abbrev PodSnapshot := AList fun _ : String => List Ipv4Addr

/-- `addr` is listed under the service. -/
def PodSnapshot.Lists (pods : PodSnapshot) (svc : String) (addr : Ipv4Addr) : Prop :=
  ∃ ips, pods.lookup svc = some ips ∧ addr ∈ ips

/-- `addr` is listed under the service and under no other. -/
def PodSnapshot.ListsOnly (pods : PodSnapshot) (svc : String) (addr : Ipv4Addr) : Prop :=
  pods.Lists svc addr ∧ ∀ other, pods.Lists other addr → other = svc

instance (pods : PodSnapshot) (svc : String) (addr : Ipv4Addr) : Decidable (pods.Lists svc addr) :=
  decidable_of_iff (addr ∈ (pods.lookup svc).getD []) (by
    rw [PodSnapshot.Lists]
    cases pods.lookup svc <;> simp)

theorem PodSnapshot.Lists.mem {pods : PodSnapshot} {svc : String} {addr : Ipv4Addr}
    (h : pods.Lists svc addr) : svc ∈ pods.keys := by
  obtain ⟨ips, hl, -⟩ := h
  rw [← AList.mem_keys, ← AList.lookup_isSome, hl]
  rfl

instance (pods : PodSnapshot) (svc : String) (addr : Ipv4Addr) :
    Decidable (pods.ListsOnly svc addr) :=
  decidable_of_iff
    (pods.Lists svc addr ∧ ∀ other ∈ pods.keys, pods.Lists other addr → other = svc)
    (and_congr_right fun _ => ⟨fun h other ho => h other ho.mem ho, fun h other _ => h other⟩)

/-- One system call on the maps. -/
inductive MapWrite where
  | setFlag (flag : BitVec 32)
  | remove (key : PacketKey)
  | insert (key : PacketKey) (verdict : Byte)
  deriving DecidableEq, Repr

/-- An insert that finds the map full is refused, and `sync` only logs it. -/
def MapWrite.apply (cap : Option ℕ) (maps : EbpfMaps) : MapWrite → EbpfMaps
  | setFlag flag => { maps with policyFlags := flag }
  | remove key => { maps with verdictMap := maps.verdictMap.erase key }
  | insert key verdict => { maps with verdictMap := write cap maps.verdictMap (key, verdict) }

/-- `VERDICT_MAP` has room for 4096 entries. -/
def verdictMapCapacity : Option ℕ := some 4096

/-- The key `sync` builds: both addresses converted with `to_be`. -/
def syncKey (e : Endian) (src dst : Ipv4Addr) : PacketKey where
  srcIp := e.toBe32 src.toU32
  dstIp := e.toBe32 dst.toU32

/-- 0 (allow) or 1 (deny). -/
def serviceVerdict (policy : PolicyCache) (fromSvc toSvc : String) : Byte :=
  if policy.isAllowed fromSvc toSvc then 0 else 1

/-- The inserts of step 3, services taken in the order of `svcNames`. -/
def verdictInserts (e : Endian) (policy : PolicyCache) (pods : PodSnapshot)
    (svcNames : List String) : List (PacketKey × Byte) :=
  svcNames.flatMap fun fromSvc => svcNames.flatMap fun toSvc =>
    if fromSvc = toSvc then []
    else
      ((pods.lookup fromSvc).getD []).flatMap fun src =>
        ((pods.lookup toSvc).getD []).map fun dst =>
          (syncKey e src dst, serviceVerdict policy fromSvc toSvc)

/-- The iteration orders a sync meets: of the old map and of the snapshot. -/
structure SyncOrder (maps : EbpfMaps) (pods : PodSnapshot) where
  keysToRemove : List PacketKey
  svcNames : List String
  keys_perm : keysToRemove.Perm maps.verdictMap.keys
  names_perm : svcNames.Perm pods.keys

/-- The iteration order of the association lists themselves. -/
def SyncOrder.listed (maps : EbpfMaps) (pods : PodSnapshot) : SyncOrder maps pods where
  keysToRemove := maps.verdictMap.keys
  svcNames := pods.keys
  keys_perm := List.Perm.refl _
  names_perm := List.Perm.refl _

def defaultFlag (policy : PolicyCache) : BitVec 32 := if policy.defaultAllow then 1 else 0

/-- What holds of every entry holds after a write, if it holds of what the write inserts. -/
theorem MapWrite.apply_forall {P : PacketKey → Byte → Prop} {cap : Option ℕ} {maps : EbpfMaps}
    {w : MapWrite} (h : ∀ key v, maps.verdictMap.lookup key = some v → P key v)
    (hw : ∀ key v, w = .insert key v → P key v) :
    ∀ key v, (w.apply cap maps).verdictMap.lookup key = some v → P key v := by
  intro key v hlookup
  cases w with
  | setFlag flag => exact h key v hlookup
  | remove old =>
    by_cases hkey : key = old
    · subst hkey
      simp [MapWrite.apply] at hlookup
    · rw [MapWrite.apply, AList.lookup_erase_ne hkey] at hlookup
      exact h key v hlookup
  | insert new verdict =>
    rw [MapWrite.apply, write] at hlookup
    split_ifs at hlookup
    · by_cases hkey : key = new
      · subst hkey
        rw [AList.lookup_insert] at hlookup
        have hv : verdict = v := Option.some.inj hlookup
        exact hw key v (by rw [hv])
      · rw [AList.lookup_insert_ne hkey] at hlookup
        exact h key v hlookup
    · exact h key v hlookup

section Sync

variable (cap : Option ℕ) (e : Endian) (policy : PolicyCache) (pods : PodSnapshot)
variable {maps : EbpfMaps} (order : SyncOrder maps pods)

/-- Every write of one `sync`, in program order. -/
def syncWrites : List MapWrite :=
  .setFlag (defaultFlag policy) :: order.keysToRemove.map .remove ++
    (verdictInserts e policy pods order.svcNames).map fun w => .insert w.1 w.2

/-- The maps after the first `n` writes of the sync. -/
def syncState (n : ℕ) : EbpfMaps :=
  ((syncWrites e policy pods order).take n).foldl (MapWrite.apply cap) maps

def sync : EbpfMaps := (syncWrites e policy pods order).foldl (MapWrite.apply cap) maps

/-- No map operation of the sync fails: every insert finds its key or a free entry. -/
def SyncSucceeds : Prop :=
  ∀ n key verdict, (syncWrites e policy pods order)[n]? = some (.insert key verdict) →
    Accepts cap (syncState cap e policy pods order n).verdictMap key

end Sync

theorem syncKey_eq_frameKey (e : Endian) (src dst : Ipv4Addr) :
    syncKey e src dst = frameKey e src dst := by
  simp only [syncKey, frameKey, Ipv4Addr.toU32, Endian.toBe32_word32]

/-- The verdict an absent key falls back to under the flag of the policy. -/
def fallbackVerdict (policy : PolicyCache) : Byte := if policy.defaultAllow then 0 else 1

theorem lookupVerdict_of_none {maps : EbpfMaps} {key : PacketKey} {policy : PolicyCache}
    (hf : maps.policyFlags = defaultFlag policy) (h : maps.verdictMap.lookup key = none) :
    lookupVerdict maps key = fallbackVerdict policy := by
  rw [lookupVerdict, h, hf, defaultFlag, fallbackVerdict]
  cases policy.defaultAllow <;> rfl

theorem lookupVerdict_of_some {maps : EbpfMaps} {key : PacketKey} {v : Byte}
    (h : maps.verdictMap.lookup key = some v) : lookupVerdict maps key = v := by
  rw [lookupVerdict, h]

theorem serviceVerdict_eq_fallback {policy : PolicyCache} {fromSvc toSvc : String} :
    (serviceVerdict policy fromSvc toSvc = 1 ↔ fallbackVerdict policy = 1) ↔
      policy.isAllowed fromSvc toSvc = policy.defaultAllow := by
  rw [serviceVerdict, fallbackVerdict]
  cases policy.isAllowed fromSvc toSvc <;> cases policy.defaultAllow <;> decide

theorem serviceVerdict_eq_one {policy : PolicyCache} {fromSvc toSvc : String} :
    serviceVerdict policy fromSvc toSvc = 1 ↔ policy.isAllowed fromSvc toSvc = false := by
  rw [serviceVerdict]
  cases policy.isAllowed fromSvc toSvc <;> decide

theorem fallbackVerdict_eq_one {policy : PolicyCache} :
    fallbackVerdict policy = 1 ↔ policy.defaultAllow = false := by
  rw [fallbackVerdict]
  cases policy.defaultAllow <;> decide

section Inserts

variable {e : Endian} {policy : PolicyCache} {pods : PodSnapshot} {svcNames : List String}

/-- What the four nested loops write: one entry for each pair of addresses listed
under two different services. -/
theorem mem_verdictInserts (hn : svcNames.Perm pods.keys) {key : PacketKey} {v : Byte} :
    (key, v) ∈ verdictInserts e policy pods svcNames ↔
      ∃ fromSvc toSvc src dst, fromSvc ≠ toSvc ∧ pods.Lists fromSvc src ∧ pods.Lists toSvc dst ∧
        key = frameKey e src dst ∧ v = serviceVerdict policy fromSvc toSvc := by
  have hlists : ∀ svc addr, pods.Lists svc addr ↔
      svc ∈ svcNames ∧ addr ∈ (pods.lookup svc).getD [] := by
    intro svc addr
    rw [hn.mem_iff, ← AList.mem_keys, ← AList.lookup_isSome, PodSnapshot.Lists]
    cases pods.lookup svc <;> simp
  simp only [verdictInserts, List.mem_flatMap, hlists]
  constructor
  · rintro ⟨fromSvc, hfrom, toSvc, hto, hmem⟩
    split_ifs at hmem with heq
    · simp at hmem
    · obtain ⟨src, hsrc, hmem⟩ := List.mem_flatMap.mp hmem
      obtain ⟨dst, hdst, hkv⟩ := List.mem_map.mp hmem
      obtain ⟨rfl, rfl⟩ := Prod.mk.inj hkv
      exact ⟨fromSvc, toSvc, src, dst, heq, ⟨hfrom, hsrc⟩, ⟨hto, hdst⟩,
        syncKey_eq_frameKey e src dst, rfl⟩
  · rintro ⟨fromSvc, toSvc, src, dst, hne, ⟨hfrom, hsrc⟩, ⟨hto, hdst⟩, rfl, rfl⟩
    refine ⟨fromSvc, hfrom, toSvc, hto, ?_⟩
    rw [if_neg hne]
    exact List.mem_flatMap.mpr ⟨src, hsrc, List.mem_map.mpr
      ⟨dst, hdst, by rw [syncKey_eq_frameKey]⟩⟩

end Inserts

section States

variable {cap : Option ℕ} {e : Endian} {policy : PolicyCache} {pods : PodSnapshot}
variable {maps : EbpfMaps} {order : SyncOrder maps pods}

theorem foldl_remove (keys : List PacketKey) (m : EbpfMaps) :
    (keys.map MapWrite.remove).foldl (MapWrite.apply cap) m =
      { m with verdictMap := eraseAll m.verdictMap keys } := by
  induction keys generalizing m with
  | nil => rfl
  | cons k ks ih => rw [List.map_cons, List.foldl_cons, ih]; rfl

theorem foldl_insert (ws : List (PacketKey × Byte)) (m : EbpfMaps) :
    (ws.map fun w => MapWrite.insert w.1 w.2).foldl (MapWrite.apply cap) m =
      { m with verdictMap := writeAll cap m.verdictMap ws } := by
  induction ws generalizing m with
  | nil => rfl
  | cons w ws ih => rw [List.map_cons, List.foldl_cons, ih]; rfl

/-- A state of the sync before its first insert: the new flag, part of the old map. -/
theorem syncState_removing {n : ℕ} (hn : n ≤ order.keysToRemove.length) :
    syncState cap e policy pods order (n + 1) =
      { verdictMap := eraseAll maps.verdictMap (order.keysToRemove.take n)
        policyFlags := defaultFlag policy } := by
  rw [syncState, syncWrites, List.cons_append, List.take_succ_cons,
    List.take_append_of_le_length (by simpa using hn), ← List.map_take, List.foldl_cons,
    foldl_remove]
  rfl

/-- A state of the sync once the old map is gone: the inserts made so far. -/
theorem syncState_inserting (n : ℕ) :
    syncState cap e policy pods order (1 + order.keysToRemove.length + n) =
      { verdictMap := writeAll cap ∅ ((verdictInserts e policy pods order.svcNames).take n)
        policyFlags := defaultFlag policy } := by
  have hlen : (MapWrite.setFlag (defaultFlag policy) ::
      order.keysToRemove.map MapWrite.remove).length = 1 + order.keysToRemove.length := by
    simp [Nat.add_comm]
  rw [syncState, syncWrites, ← hlen, List.take_length_add_append, List.foldl_append,
    List.foldl_cons, foldl_remove, ← List.map_take, foldl_insert]
  simp only [MapWrite.apply, eraseAll_keys order.keys_perm]

theorem sync_eq :
    sync cap e policy pods order =
      { verdictMap := writeAll cap ∅ (verdictInserts e policy pods order.svcNames)
        policyFlags := defaultFlag policy } := by
  rw [sync, syncWrites, List.foldl_append, List.foldl_cons, foldl_remove, foldl_insert]
  simp only [MapWrite.apply, eraseAll_keys order.keys_perm]

variable (cap e policy order) in
theorem syncState_cases (n : ℕ) :
    syncState cap e policy pods order n = maps ∨
      (∃ i ≤ order.keysToRemove.length,
        syncState cap e policy pods order n = syncState cap e policy pods order (i + 1)) ∨
      ∃ i, n = 1 + order.keysToRemove.length + i := by
  rcases Nat.eq_zero_or_pos n with rfl | hpos
  · exact Or.inl rfl
  · rcases Nat.lt_or_ge order.keysToRemove.length n with h | h
    · exact Or.inr (Or.inr ⟨n - (1 + order.keysToRemove.length), by omega⟩)
    · exact Or.inr (Or.inl ⟨n - 1, by omega, by rw [Nat.sub_add_cancel hpos]⟩)

theorem lookupVerdict_filled (ws : List (PacketKey × Byte)) (key : PacketKey) :
    lookupVerdict { verdictMap := writeAll cap ∅ ws, policyFlags := defaultFlag policy } key =
      (if Admitted cap (ws.map Prod.fst) key then lastWrite key ws else none).getD
        (fallbackVerdict policy) := by
  have hl := lookup_writeAll cap ws key
  cases hif : (if Admitted cap (ws.map Prod.fst) key then lastWrite key ws else none) with
  | none => exact lookupVerdict_of_none rfl (hl.trans hif)
  | some v => exact lookupVerdict_of_some (hl.trans hif)

theorem SyncSucceeds.admitted (h : SyncSucceeds cap e policy pods order) {key : PacketKey}
    (hk : key ∈ (verdictInserts e policy pods order.svcNames).map Prod.fst) :
    Admitted cap ((verdictInserts e policy pods order.svcNames).map Prod.fst) key := by
  obtain ⟨⟨k, v⟩, hmem, rfl⟩ := List.mem_map.mp hk
  obtain ⟨i, hi⟩ := List.mem_iff_getElem?.mp hmem
  have hwrite : (syncWrites e policy pods order)[1 + order.keysToRemove.length + i]? =
      some (.insert k v) := by
    rw [syncWrites, List.getElem?_append_right (by simp [Nat.add_comm])]
    simp [hi, Nat.add_comm]
  have hacc := h _ _ _ hwrite
  rw [syncState_inserting] at hacc
  have htake : (verdictInserts e policy pods order.svcNames).take (i + 1) =
      (verdictInserts e policy pods order.svcNames).take i ++ [(k, v)] := by
    rw [List.take_add_one, hi]
    rfl
  have hin : k ∈ write cap (writeAll cap ∅ ((verdictInserts e policy pods order.svcNames).take i))
      (k, v) := (mem_write cap).mpr (Or.inr ⟨rfl, hacc⟩)
  rw [← writeAll_snoc, ← htake, mem_writeAll] at hin
  rw [← List.take_append_drop (i + 1) (verdictInserts e policy pods order.svcNames),
    List.map_append]
  exact hin.append _

/-- A snapshot with no more address pairs than the capacity is synced without a refusal. -/
theorem syncSucceeds_of_card_le
    (h : ∀ n < ((verdictInserts e policy pods order.svcNames).map Prod.fst).toFinset.card,
      HasRoom cap n) : SyncSucceeds cap e policy pods order := by
  intro n key v hn
  have hlen : (MapWrite.setFlag (defaultFlag policy) ::
      order.keysToRemove.map MapWrite.remove).length = 1 + order.keysToRemove.length := by
    simp [Nat.add_comm]
  rcases Nat.lt_or_ge n (1 + order.keysToRemove.length) with hlt | hge
  · rw [syncWrites, List.getElem?_append_left (by omega)] at hn
    cases n with
    | zero => simp at hn
    | succ n => simp at hn
  · obtain ⟨i, rfl⟩ := Nat.exists_eq_add_of_le hge
    rw [syncWrites, List.getElem?_append_right (by omega), hlen, Nat.add_sub_cancel_left,
      List.getElem?_map] at hn
    obtain ⟨w, hw, hkv⟩ := Option.map_eq_some_iff.mp hn
    obtain ⟨rfl, rfl⟩ := MapWrite.insert.inj hkv
    rw [syncState_inserting]
    obtain ⟨hi, hget⟩ := List.getElem?_eq_some_iff.mp hw
    have hsplit : verdictInserts e policy pods order.svcNames =
        (verdictInserts e policy pods order.svcNames).take i ++
          w :: (verdictInserts e policy pods order.svcNames).drop (i + 1) := by
      rw [← hget, List.cons_getElem_drop_succ, List.take_append_drop]
    exact accepts_of_card_le cap h hsplit

end States

end Meshlite.Kprobe
