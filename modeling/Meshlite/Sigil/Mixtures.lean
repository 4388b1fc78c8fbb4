import Meshlite.Sigil.Origins
import Meshlite.Sigil.Snapshots

/-!
# What published policies are made of

A handler that is overtaken by a reload may read the rules of one config and the default of
another. All that Sigil pushes or serves is made of such parts of accepted configs.
-/

namespace Meshlite.Sigil

open Policy Tasks Runs

/-- Each part of the engine is that of one of these. -/
structure Mixed (engines : List Engine) (E : Engine) : Prop where
  allow : ∃ D ∈ engines, D.allow = E.allow
  defaultAllow : ∃ D ∈ engines, D.defaultAllow = E.defaultAllow
  mtlsMode : ∃ D ∈ engines, D.mtlsMode = E.mtlsMode

theorem Mixed.mono {engines engines' : List Engine} {E : Engine} (h : Mixed engines E)
    (hsub : engines ⊆ engines') : Mixed engines' E := by
  obtain ⟨⟨D₁, h₁, hallow⟩, ⟨D₂, h₂, hdefault⟩, D₃, h₃, hmode⟩ := h
  exact ⟨⟨D₁, hsub h₁, hallow⟩, ⟨D₂, hsub h₂, hdefault⟩, ⟨D₃, hsub h₃, hmode⟩⟩

theorem eq_deliver {sid : ℕ} {e : Event} {push : Proto.AgentPush} (h : push ∈ e.deliversTo sid) :
    e = .deliver sid push := by
  cases e with
  | deliver sid' push' =>
    simp only [Event.deliversTo, List.mem_ite_nil_right, List.mem_singleton] at h
    rw [h.1, h.2]
  | _ => cases h

section Runs

variable {unmarshal : List UInt8 → Except String MeshConfig} {S : System} {eng : Engine}
variable {leafTtl : Duration} {rootKey : Proto.KeyId} {now : Time} {events : List Event} {i sid : ℕ}

theorem accepted_append (eng : Engine) (events events' : List Event) :
    accepted eng (events ++ events') = accepted eng events ++ events'.filterMap Event.installs := by
  simp [accepted]

theorem accepted_of_record {o : Op} {r : o.Res}
    (h : Run (Step unmarshal) (.boot eng leafTtl rootKey now) events S)
    (hr : ⟨o, r⟩ ∈ record i events) :
    ∃ s s' : Server, s.Exec o r s' ∧ s.eng ∈ accepted eng events := by
  obtain ⟨pre, post, rfl⟩ := List.append_of_mem (mem_record.mp hr)
  obtain ⟨m, m', hrun, hstep⟩ := h.step_of_split
  refine ⟨m.server, m'.server, hstep.exec, ?_⟩
  rw [eng_eq_installed hrun, accepted_append]
  exact List.mem_append_left _ (List.getLast_mem _)

/-- A policy that was read is made of accepted configs. -/
theorem mixed_of_reads {rules : List AllowRule} {defaultAllow : Bool} {mtlsMode : String}
    (h : Run (Step unmarshal) (.boot eng leafTtl rootKey now) events S)
    (hreads : Reads (record i events) rules defaultAllow mtlsMode) :
    ∃ (E : Engine) (order : E.RangeOrder), Mixed (accepted eng events) E ∧
      rules = E.rules order ∧ defaultAllow = E.defaultAllow ∧ mtlsMode = E.mtlsMode := by
  obtain ⟨s₁, -, ⟨⟨order, rfl⟩, -⟩, h₁⟩ := accepted_of_record h hreads.rules
  obtain ⟨s₂, -, ⟨rfl, -⟩, h₂⟩ := accepted_of_record h hreads.defaultAllow
  obtain ⟨s₃, -, ⟨rfl, -⟩, h₃⟩ := accepted_of_record h hreads.mtlsMode
  refine ⟨{ s₁.eng with defaultAllow := s₂.eng.defaultAllow, mtlsMode := s₃.eng.mtlsMode },
    ⟨order.sources, order.dests, order.sources_perm, order.dests_perm⟩, ?_, rfl, rfl, rfl⟩
  exact ⟨⟨_, h₁, rfl⟩, ⟨_, h₂, rfl⟩, ⟨_, h₃, rfl⟩⟩

theorem mixed_of_delivered {pb : Proto.PolicyBundle}
    (h : Run (Step unmarshal) (.boot eng leafTtl rootKey now) events S)
    (hdel : .deliver sid (.policy pb) ∈ events) :
    ∃ (E : Engine) (order : E.RangeOrder), Mixed (accepted eng events) E ∧
      pb = (snapshot E order).bundle := by
  obtain ⟨i, hi⟩ := enqueued_of_delivered h hdel
  obtain ⟨pre, post, rfl⟩ := List.append_of_mem hi
  obtain ⟨rules, defaultAllow, mtlsMode, hreads, rfl⟩ := sourced_of_perform h
  obtain ⟨E, order, hE, rfl, rfl, rfl⟩ := mixed_of_reads (i := i) h (by
    rw [record_append]
    exact hreads.append _)
  exact ⟨E, order, hE, rfl⟩

theorem mixed_of_served {resp : PolicyResp}
    (h : Run (Step unmarshal) (.boot eng leafTtl rootKey now) events S)
    (hserves : Serves S i resp) :
    ∃ (E : Engine) (order : E.RangeOrder), Mixed (accepted eng events) E ∧
      resp = policyResp E order := by
  obtain ⟨E, order, hE, hrules, hdefault, hmode⟩ := mixed_of_reads h (answered_of_reply h hserves)
  exact ⟨E, order, hE, by rw [policyResp, ← hrules, ← hdefault, ← hmode]⟩

end Runs

end Meshlite.Sigil
