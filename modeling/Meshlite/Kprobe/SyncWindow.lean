import Meshlite.Kprobe.Enforcement

/-!
# Connections attempted during a sync

Between the removals and the inserts the flag answers for every pair. A pair whose
verdict the sync leaves unchanged keeps it throughout exactly when all verdicts the
sync writes for the pair are the one the new default gives.
-/

namespace Meshlite.Kprobe

open Tls BoundedMap

theorem drops_syn_iff {e : Endian} {maps : EbpfMaps} {f : Frame} {src dst : Ipv4Addr}
    (hf : f.IsSyn src dst) (hs : src.InPodCidr) (hd : dst.InPodCidr) :
    Drops e maps f ↔ lookupVerdict maps (frameKey e src dst) = 1 :=
  Frame.Opens.drops_iff (Or.inl hf) hs hd

section Window

variable (cap : Option ℕ) (e : Endian) (policy : PolicyCache) (pods : PodSnapshot)
variable {maps : EbpfMaps} (order : SyncOrder maps pods)

/-- In every state of the sync, a connection attempt between pod addresses whose
verdict is the same before and after the sync gets that verdict. -/
def WindowSafe : Prop :=
  ∀ (n : ℕ) (f : Frame) (src dst : Ipv4Addr), f.IsSyn src dst → src.InPodCidr → dst.InPodCidr →
    (Drops e maps f ↔ Drops e (sync cap e policy pods order) f) →
    (Drops e (syncState cap e policy pods order n) f ↔ Drops e maps f)

/-- The sync inserts an entry for the pair, and the map has room for it. -/
def Rewrites (src dst : Ipv4Addr) : Prop :=
  Admitted cap ((verdictInserts e policy pods order.svcNames).map Prod.fst) (frameKey e src dst)

/-- The maps give the pair the verdict that the new policy gives it. -/
def KeepsVerdict (src dst : Ipv4Addr) : Prop :=
  lookupVerdict maps (frameKey e src dst) = 1 ↔ lastVerdict e policy pods order src dst = some 1

/-- Every unchanged pair the sync rewrites is decided as the default decides. -/
def UnchangedPairsDefault : Prop :=
  ∀ (src dst : Ipv4Addr) (fromSvc toSvc : String), src.InPodCidr → dst.InPodCidr →
    pods.Lists fromSvc src → pods.Lists toSvc dst → fromSvc ≠ toSvc →
    Rewrites cap e policy pods order src dst →
    KeepsVerdict e policy pods order src dst →
    policy.isAllowed fromSvc toSvc = policy.defaultAllow

variable {cap e policy pods order}

theorem keepsVerdict_iff {src dst : Ipv4Addr} (hadm : Rewrites cap e policy pods order src dst) :
    KeepsVerdict e policy pods order src dst ↔
      (lookupVerdict maps (frameKey e src dst) = 1 ↔
        lookupVerdict (sync cap e policy pods order) (frameKey e src dst) = 1) := by
  unfold Rewrites at hadm
  obtain ⟨v, hv⟩ := Option.isSome_iff_exists.mp (lastWrite_isSome.mpr hadm.1)
  rw [KeepsVerdict, lastVerdict, sync_eq, lookupVerdict_filled, if_pos hadm, hv, Option.getD_some,
    Option.some.injEq]

/-- Once the old map is gone the default answers for every pair. -/
theorem lookupVerdict_cleared (key : PacketKey) :
    lookupVerdict (syncState cap e policy pods order (1 + order.keysToRemove.length)) key =
      fallbackVerdict policy := by
  rw [← Nat.add_zero (1 + order.keysToRemove.length), syncState_inserting, List.take_zero]
  exact lookupVerdict_of_none rfl (AList.lookup_empty _)

theorem exists_state_of_insert {key : PacketKey} {v : Byte}
    (hmem : (key, v) ∈ verdictInserts e policy pods order.svcNames)
    (hadm : Admitted cap ((verdictInserts e policy pods order.svcNames).map Prod.fst) key) :
    ∃ n, lookupVerdict (syncState cap e policy pods order n) key = v := by
  obtain ⟨pre, post, hsplit⟩ := List.append_of_mem hmem
  refine ⟨1 + order.keysToRemove.length + (pre.length + 1), ?_⟩
  have htake : (verdictInserts e policy pods order.svcNames).take (pre.length + 1) =
      pre ++ [(key, v)] := by
    rw [hsplit, List.take_length_add_append]
    rfl
  have hpre : Admitted cap ((pre ++ [(key, v)]).map Prod.fst) key := by
    rw [hsplit, List.append_cons, List.map_append] at hadm
    exact (admitted_append_of_mem (by simp) _).mp hadm
  rw [syncState_inserting, htake, lookupVerdict_filled, if_pos hpre, lastWrite_snoc, if_pos rfl]
  rfl

theorem unchangedPairsDefault_of_windowSafe (h : WindowSafe cap e policy pods order) :
    UnchangedPairsDefault cap e policy pods order := by
  intro src dst fromSvc toSvc hs hd hls hld hne hadm hkeeps
  have hsame := (keepsVerdict_iff hadm).mp hkeeps
  have hf := Frame.syn_isSyn src dst
  have hstate : ∀ n, lookupVerdict (syncState cap e policy pods order n) (frameKey e src dst) = 1 ↔
      lookupVerdict maps (frameKey e src dst) = 1 := by
    intro n
    have hn := h n (Frame.syn src dst) src dst hf hs hd
    rw [drops_syn_iff hf hs hd, drops_syn_iff hf hs hd, drops_syn_iff hf hs hd] at hn
    exact hn hsame
  have hins : (frameKey e src dst, serviceVerdict policy fromSvc toSvc) ∈
      verdictInserts e policy pods order.svcNames := exists_insert order.names_perm hls hld hne
  obtain ⟨n, hn⟩ := exists_state_of_insert hins hadm
  have hwritten := hstate n
  have hcleared := hstate (1 + order.keysToRemove.length)
  rw [hn] at hwritten
  rw [lookupVerdict_cleared] at hcleared
  exact serviceVerdict_eq_fallback.mp (hwritten.trans hcleared.symm)

theorem written_eq_fallback (h : UnchangedPairsDefault cap e policy pods order)
    {src dst : Ipv4Addr} (hs : src.InPodCidr) (hd : dst.InPodCidr)
    (hsame : lookupVerdict maps (frameKey e src dst) = 1 ↔
      lookupVerdict (sync cap e policy pods order) (frameKey e src dst) = 1)
    (hadm : Rewrites cap e policy pods order src dst) {v : Byte}
    (hv : (frameKey e src dst, v) ∈ verdictInserts e policy pods order.svcNames) :
    v = 1 ↔ fallbackVerdict policy = 1 := by
  obtain ⟨A, B, a, b, hne, ha, hb, hkey, rfl⟩ := (mem_verdictInserts order.names_perm).mp hv
  obtain ⟨rfl, rfl⟩ := frameKey_inj.mp hkey
  have hkeeps := (keepsVerdict_iff hadm).mpr hsame
  exact serviceVerdict_eq_fallback.mpr (h src dst A B hs hd ha hb hne hadm hkeeps)

/-- Under the condition, an unchanged pair has the default's verdict in each state that
has lost its old entry. -/
theorem lookupVerdict_inserting (h : UnchangedPairsDefault cap e policy pods order)
    {src dst : Ipv4Addr} (hs : src.InPodCidr) (hd : dst.InPodCidr)
    (hsame : lookupVerdict maps (frameKey e src dst) = 1 ↔
      lookupVerdict (sync cap e policy pods order) (frameKey e src dst) = 1) (n : ℕ) :
    lookupVerdict { verdictMap := writeAll cap ∅ ((verdictInserts e policy pods
      order.svcNames).take n), policyFlags := defaultFlag policy } (frameKey e src dst) = 1 ↔
      fallbackVerdict policy = 1 := by
  rw [lookupVerdict_filled]
  by_cases hadm : Admitted cap (((verdictInserts e policy pods order.svcNames).take n).map
      Prod.fst) (frameKey e src dst)
  · rw [if_pos hadm]
    obtain ⟨v, hv⟩ := Option.isSome_iff_exists.mp (lastWrite_isSome.mpr hadm.1)
    have hfull : Rewrites cap e policy pods order src dst := by
      rw [Rewrites, ← List.take_append_drop n (verdictInserts e policy pods order.svcNames),
        List.map_append]
      exact hadm.append _
    rw [hv, Option.getD_some]
    exact written_eq_fallback h hs hd hsame hfull (List.mem_of_mem_take (mem_of_lastWrite hv))
  · rw [if_neg hadm, Option.getD_none]

theorem lookupVerdict_final (h : UnchangedPairsDefault cap e policy pods order)
    {src dst : Ipv4Addr} (hs : src.InPodCidr) (hd : dst.InPodCidr)
    (hsame : lookupVerdict maps (frameKey e src dst) = 1 ↔
      lookupVerdict (sync cap e policy pods order) (frameKey e src dst) = 1) :
    lookupVerdict maps (frameKey e src dst) = 1 ↔ fallbackVerdict policy = 1 := by
  have hfinal := lookupVerdict_inserting h hs hd hsame
    (verdictInserts e policy pods order.svcNames).length
  rw [List.take_length, ← sync_eq] at hfinal
  exact hsame.trans hfinal

theorem windowSafe_of_unchangedPairsDefault (h : UnchangedPairsDefault cap e policy pods order) :
    WindowSafe cap e policy pods order := by
  intro n f src dst hf hs hd hsame
  rw [drops_syn_iff hf hs hd, drops_syn_iff hf hs hd] at hsame ⊢
  have hbefore := lookupVerdict_final h hs hd hsame
  rcases syncState_cases cap e policy order n with hn | ⟨i, hi, hn⟩ | ⟨i, rfl⟩
  · rw [hn]
  · -- during the removals: the old entry, or the new default once it is gone
    rw [hn, syncState_removing hi]
    cases hl : (eraseAll maps.verdictMap (order.keysToRemove.take i)).lookup
        (frameKey e src dst) with
    | none => rw [lookupVerdict_of_none rfl hl, hbefore]
    | some v =>
      rw [lookupVerdict_of_some hl]
      rw [lookup_eraseAll] at hl
      split_ifs at hl
      rw [lookupVerdict_of_some hl]
  · rw [syncState_inserting, lookupVerdict_inserting h hs hd hsame, hbefore]

end Window

/-- No connection attempt of an unchanged pair meets the other verdict during a sync
exactly when every unchanged pair that the sync rewrites is decided by the policy as
its default decides. -/
theorem sync_window_safe_iff (cap : Option ℕ) (e : Endian) (policy : PolicyCache)
    (pods : PodSnapshot) (maps : EbpfMaps) (order : SyncOrder maps pods) :
    WindowSafe cap e policy pods order ↔ UnchangedPairsDefault cap e policy pods order :=
  ⟨unchangedPairsDefault_of_windowSafe, windowSafe_of_unchangedPairsDefault⟩

/-- The maps after the first sync of `oneWayPolicy`, which the next sync repeats. -/
def enforcedMaps : EbpfMaps :=
  sync verdictMapCapacity .little oneWayPolicy twoPods (.listed bootMaps twoPods)

theorem resync_window_unsafe :
    ¬ WindowSafe verdictMapCapacity .little oneWayPolicy twoPods (.listed enforcedMaps twoPods) := by
  intro h
  have hcleared := h 3 (Frame.syn ⟨10, 244, 1, 5⟩ ⟨10, 244, 2, 7⟩) _ _ (Frame.syn_isSyn _ _)
    (by decide) (by decide) (by decide)
  exact absurd hcleared (by decide)

end Meshlite.Kprobe
