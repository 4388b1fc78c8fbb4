import Meshlite.Kprobe.Enforcement
import Meshlite.Policy.Meshctl

/-!
# The operator's prediction

`meshctl verify` scans the rules of `GET /api/v1/policy`; the classifier looks the
addresses up in maps synced from the pushed bundle. They agree on two different
services. Replicas of one service have no entry, so the default decides for them.
-/

namespace Meshlite.Kprobe

open Policy Tls

section Prediction

variable {cap : Option ℕ} {e : Endian} {eng : Engine} {pods : PodSnapshot} {maps : EbpfMaps}
variable (bundleOrder httpOrder : eng.RangeOrder) (cache : PolicyCache)

/-- `meshctl verify` against the response of `GET /api/v1/policy`. -/
def predicted (A B : String) : Except String Meshctl.Verdict :=
  Meshctl.verify (.ok (Sigil.policyResp eng httpOrder).encode) A B

theorem predicted_eq {A B : String} (hA : A ≠ "") (hB : B ≠ "") :
    predicted httpOrder A B = .ok
      (if Meshctl.isAllowed (Meshctl.responseOf httpOrder) A B then .allow else .deny) := by
  have hnames : ¬ (A = "" ∨ B = "") := by tauto
  rw [predicted, Meshctl.verify, if_neg hnames]
  change (do let policy ← Meshctl.decodePolicyResponse _; _) = _
  rw [Meshctl.decodePolicyResponse_encode]
  rfl

theorem predicted_allow_iff {A B : String} (hA : A ≠ "") (hB : B ≠ "") :
    predicted httpOrder A B = .ok .allow ↔ eng.Exports A B := by
  rw [predicted_eq httpOrder hA hB, ← Meshctl.isAllowed_responseOf httpOrder]
  cases Meshctl.isAllowed (Meshctl.responseOf httpOrder) A B <;> decide

/-- The maps after kprobe applied the bundle of the engine and synced. -/
def enforced (cap : Option ℕ) (e : Endian) (order : SyncOrder maps pods) : EbpfMaps :=
  sync cap e (Sigil.pushedCache bundleOrder cache) pods order

variable {order : SyncOrder maps pods} {f : Frame} {src dst : Ipv4Addr} {A B : String}

theorem passes_iff_exports (hok : SyncSucceeds cap e (Sigil.pushedCache bundleOrder cache) pods order)
    (hf : f.IsSyn src dst) (hs : src.InPodCidr) (hd : dst.InPodCidr) (hA : pods.ListsOnly A src)
    (hB : pods.ListsOnly B dst) (hne : A ≠ B) :
    ¬ Drops e (enforced bundleOrder cache cap e order) f ↔ eng.Exports A B := by
  have hopens : f.Opens src dst := Or.inl hf
  rw [enforced, hopens.drops_iff hs hd, lookupVerdict_sync hok hA hB hne, serviceVerdict_eq_one,
    Bool.not_eq_false, Sigil.isAllowed_pushedCache]

theorem passes_iff_default (hf : f.IsSyn src dst) (hs : src.InPodCidr) (hd : dst.InPodCidr)
    (hA : pods.ListsOnly A src) (hB : pods.ListsOnly A dst) :
    ¬ Drops e (enforced bundleOrder cache cap e order) f ↔ eng.defaultAllow = true := by
  have hopens : f.Opens src dst := Or.inl hf
  have hone : ∀ C D, pods.Lists C src → pods.Lists D dst → C = D := by
    intro C D hC hD
    exact (hA.2 C hC).trans (hB.2 D hD).symm
  rw [enforced, hopens.drops_iff hs hd, lookupVerdict_sync_default hone, fallbackVerdict_eq_one,
    Bool.not_eq_false, Sigil.pushedCache_defaultAllow]

end Prediction

/-- After a sync of the pushed policy, a connection between two named services passes
exactly when `meshctl verify` prints ALLOW; between replicas of one service it passes
exactly when the default allows. -/
theorem connection_passes_iff (cfg : MeshConfig) (bundleOrder httpOrder : (newEngine cfg).RangeOrder)
    (cache : PolicyCache) (cap : Option ℕ) (e : Endian) (pods : PodSnapshot) (maps : EbpfMaps)
    (order : SyncOrder maps pods)
    (hok : SyncSucceeds cap e (Sigil.pushedCache bundleOrder cache) pods order) (f : Frame)
    (src dst : Ipv4Addr) (hf : f.IsSyn src dst) (hs : src.InPodCidr) (hd : dst.InPodCidr)
    (A B : String) (hA : pods.ListsOnly A src) (hB : pods.ListsOnly B dst) :
    (A ≠ B → A ≠ "" → B ≠ "" →
      (¬ Drops e (enforced bundleOrder cache cap e order) f ↔
        predicted httpOrder A B = .ok .allow)) ∧
    (A = B →
      (¬ Drops e (enforced bundleOrder cache cap e order) f ↔ cfg.policy.defaultAllow = true)) := by
  constructor
  · intro hne hnameA hnameB
    rw [predicted_allow_iff httpOrder hnameA hnameB]
    exact passes_iff_exports bundleOrder cache hok hf hs hd hA hB hne
  · rintro rfl
    exact passes_iff_default bundleOrder cache hf hs hd hA hB

/-- Deny by default; `alpha → [alpha, beta]` and `"" → [beta]`. -/
def replicaConfig : MeshConfig where
  mesh := { name := "demo", clusterId := "cluster-1" }
  policy :=
    { mtlsMode := "enforce"
      defaultAllow := false
      allow := .of [{ fromSvc := "alpha", toSvcs := .of ["alpha", "beta"] },
        { fromSvc := "", toSvcs := .of ["beta"] }] }

/-- Two replicas of `alpha`, one pod of `beta`, and one pod with an empty app label. -/
def replicaPods : PodSnapshot :=
  [⟨"alpha", [⟨10, 244, 1, 5⟩, ⟨10, 244, 1, 6⟩]⟩, ⟨"beta", [⟨10, 244, 2, 7⟩]⟩,
    ⟨"", [⟨10, 244, 3, 9⟩]⟩].toAList

def replicaOrder : SyncOrder bootMaps replicaPods := .listed bootMaps replicaPods

def replicaRules : (newEngine replicaConfig).RangeOrder := .listed _

theorem replica_syncSucceeds :
    SyncSucceeds verdictMapCapacity .little (Sigil.pushedCache replicaRules .new) replicaPods
      replicaOrder := by
  apply syncSucceeds_of_card_le
  intro n hn
  have hcard : ((verdictInserts .little (Sigil.pushedCache replicaRules .new) replicaPods
      replicaOrder.svcNames).map Prod.fst).toFinset.card = 10 := by decide
  have hlt : n < 4096 := by omega
  exact hlt

/-- `alpha` reaches `beta`, as predicted. -/
theorem replica_connection_passes :
    ¬ Drops .little (enforced replicaRules .new verdictMapCapacity .little replicaOrder)
      (Frame.syn ⟨10, 244, 1, 5⟩ ⟨10, 244, 2, 7⟩) := by
  obtain ⟨hpair, -⟩ := connection_passes_iff replicaConfig replicaRules replicaRules .new
    verdictMapCapacity .little replicaPods bootMaps replicaOrder replica_syncSucceeds _ _ _
    (Frame.syn_isSyn ⟨10, 244, 1, 5⟩ ⟨10, 244, 2, 7⟩) (by decide) (by decide) "alpha" "beta"
    (by decide) (by decide)
  exact (hpair (by decide) (by decide) (by decide)).mpr (by decide)

/-- The predicted ALLOW between the replicas is dropped; and the allowed connection of
the pod with the empty label is refused a prediction. -/
theorem replicas_mispredicted :
    SyncSucceeds verdictMapCapacity .little (Sigil.pushedCache replicaRules .new) replicaPods
      replicaOrder ∧
    (replicaPods.ListsOnly "alpha" ⟨10, 244, 1, 5⟩ ∧
      replicaPods.ListsOnly "alpha" ⟨10, 244, 1, 6⟩ ∧
      ¬ (¬ Drops .little (enforced replicaRules .new verdictMapCapacity .little replicaOrder)
          (Frame.syn ⟨10, 244, 1, 5⟩ ⟨10, 244, 1, 6⟩) ↔
        predicted replicaRules "alpha" "alpha" = .ok .allow)) ∧
    (replicaPods.ListsOnly "" ⟨10, 244, 3, 9⟩ ∧ replicaPods.ListsOnly "beta" ⟨10, 244, 2, 7⟩ ∧
      ¬ (¬ Drops .little (enforced replicaRules .new verdictMapCapacity .little replicaOrder)
          (Frame.syn ⟨10, 244, 3, 9⟩ ⟨10, 244, 2, 7⟩) ↔
        predicted replicaRules "" "beta" = .ok .allow)) := by
  refine ⟨replica_syncSucceeds, ⟨by decide, by decide, ?_⟩, by decide, by decide, ?_⟩
  · have hdrops : Drops .little (enforced replicaRules .new verdictMapCapacity .little replicaOrder)
        (Frame.syn ⟨10, 244, 1, 5⟩ ⟨10, 244, 1, 6⟩) := by decide
    have hallow : predicted replicaRules "alpha" "alpha" = .ok .allow := by decide
    exact fun h => h.mpr hallow hdrops
  · have hpasses : ¬ Drops .little (enforced replicaRules .new verdictMapCapacity .little
        replicaOrder) (Frame.syn ⟨10, 244, 3, 9⟩ ⟨10, 244, 2, 7⟩) := by decide
    have hrefused : predicted replicaRules "" "beta" ≠ .ok .allow := by decide
    exact fun h => hrefused (h.mp hpasses)

end Meshlite.Kprobe
