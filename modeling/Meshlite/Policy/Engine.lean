import Mathlib.Data.List.AList
import Mathlib.Tactic

/-!
# The Sigil policy engine

`mesh.yaml` becomes a map from sources to sets of destinations. Go maps are
association lists with distinct keys; their iteration order is not fixed by the
language, so `Rules` takes the order of each of its `range` loops as an argument.
-/

namespace Meshlite.Policy

/-- A Go slice: `nil`, or allocated with the elements it holds. -/
inductive Slice (α : Type) where
  | nil
  | of (elems : List α)
  deriving DecidableEq, Repr

namespace Slice

def elems {α : Type} : Slice α → List α
  | nil => []
  | of xs => xs

/-- Go's `append(s, a)`: the result is allocated even when `s` is `nil`. -/
def append {α : Type} (s : Slice α) (a : α) : Slice α := of (s.elems ++ [a])

@[simp] theorem elems_nil {α : Type} : (nil : Slice α).elems = [] := rfl

@[simp] theorem elems_of {α : Type} (xs : List α) : (of xs).elems = xs := rfl

@[simp] theorem elems_append {α : Type} (s : Slice α) (a : α) :
    (s.append a).elems = s.elems ++ [a] := rfl

/-- Appending one element at a time to `nil` allocates exactly when there is one. -/
theorem foldl_append {α : Type} (xs : List α) :
    xs.foldl append (nil : Slice α) = if xs = [] then nil else of xs := by
  have hgen : ∀ (ys : List α) (s : Slice α),
      ys.foldl append s = if ys = [] then s else of (s.elems ++ ys) := by
    intro ys
    induction ys with
    | nil => intro s; rfl
    | cons y ys ih =>
      intro s
      rw [List.foldl_cons, ih]
      by_cases h : ys = [] <;> simp [h, append]
  simpa using hgen xs nil

end Slice

/-- The result of a policy evaluation. -/
inductive Decision where
  | deny
  | allow
  deriving DecidableEq, Repr

/-- `From` and `To` of an allow rule of `mesh.yaml`. -/
structure AllowRule where
  fromSvc : String
  toSvcs : Slice String
  deriving DecidableEq, Repr

structure MeshMeta where
  name : String
  clusterId : String
  deriving DecidableEq, Repr

structure PolicyConfig where
  mtlsMode : String
  defaultAllow : Bool
  allow : Slice AllowRule
  deriving DecidableEq, Repr

structure MeshConfig where
  mesh : MeshMeta
  policy : PolicyConfig
  deriving DecidableEq, Repr

/-- `map[string]bool` with the destinations of one source as keys. -/
abbrev DestSet := AList fun _ : String => Bool

/-- `map[string]map[string]bool`. -/
abbrev AllowMap := AList fun _ : String => DestSet

/-- Every value ever stored in an inner map is `true`. -/
def AllowMap.Marked (m : AllowMap) : Prop :=
  ∀ src dsts, m.lookup src = some dsts → ∀ dst ∈ dsts, dsts.lookup dst = some true

structure Engine where
  allow : AllowMap
  defaultAllow : Bool
  mtlsMode : String
  clusterId : String
  marked : allow.Marked

/-- The body of the inner loop of `newEngine`: `allow[from][to] = true`. -/
def AllowMap.mark (src : String) (m : AllowMap) (dst : String) : AllowMap :=
  m.insert src (((m.lookup src).getD ∅).insert dst true)

/-- The body of the outer loop of `newEngine`. -/
def AllowMap.addRule (m : AllowMap) (rule : AllowRule) : AllowMap :=
  let m := if (m.lookup rule.fromSvc).isNone then m.insert rule.fromSvc ∅ else m
  rule.toSvcs.elems.foldl (AllowMap.mark rule.fromSvc) m

namespace AllowMap

/-- `dst` is a key of the inner map of `src`. -/
def Lists (m : AllowMap) (src dst : String) : Prop :=
  ∃ dsts, m.lookup src = some dsts ∧ dst ∈ dsts

theorem marked_empty : Marked ∅ := by
  intro src dsts h
  simp at h

theorem Marked.insert_empty {m : AllowMap} (hm : m.Marked) (src : String) :
    Marked (m.insert src ∅) := by
  intro s dsts h dst hd
  by_cases hs : s = src
  · subst hs
    rw [AList.lookup_insert, Option.some.injEq] at h
    subst h
    simp at hd
  · rw [AList.lookup_insert_ne hs] at h
    exact hm s dsts h dst hd

theorem Marked.mark {m : AllowMap} (hm : m.Marked) (src dst : String) :
    Marked (m.mark src dst) := by
  intro s dsts h d hd
  by_cases hs : s = src
  · subst hs
    rw [AllowMap.mark, AList.lookup_insert, Option.some.injEq] at h
    subst h
    by_cases hdst : d = dst
    · subst hdst
      exact AList.lookup_insert _
    · rw [AList.lookup_insert_ne hdst]
      have hmem : d ∈ (m.lookup s).getD ∅ := ((AList.mem_insert _).mp hd).resolve_left hdst
      cases hl : m.lookup s with
      | none => simp [hl] at hmem
      | some old => exact hm s old hl d (by simpa [hl] using hmem)
  · rw [AllowMap.mark, AList.lookup_insert_ne hs] at h
    exact hm s dsts h d hd

theorem Marked.foldl_mark {m : AllowMap} (hm : m.Marked) (src : String) (dsts : List String) :
    Marked (dsts.foldl (AllowMap.mark src) m) := by
  induction dsts generalizing m with
  | nil => exact hm
  | cons d ds ih => exact ih (hm.mark src d)

theorem Marked.addRule {m : AllowMap} (hm : m.Marked) (rule : AllowRule) :
    Marked (m.addRule rule) := by
  unfold AllowMap.addRule
  split
  · exact (hm.insert_empty _).foldl_mark _ _
  · exact hm.foldl_mark _ _

theorem Marked.foldl_addRule {m : AllowMap} (hm : m.Marked) (rules : List AllowRule) :
    Marked (rules.foldl AllowMap.addRule m) := by
  induction rules generalizing m with
  | nil => exact hm
  | cons r rs ih => exact ih (hm.addRule r)

end AllowMap

def newEngine (cfg : MeshConfig) : Engine where
  allow := cfg.policy.allow.elems.foldl AllowMap.addRule ∅
  defaultAllow := cfg.policy.defaultAllow
  mtlsMode := if cfg.policy.mtlsMode = "" then "off" else cfg.policy.mtlsMode
  clusterId := cfg.mesh.clusterId
  marked := AllowMap.marked_empty.foldl_addRule _

/-- `NewFromBytes`; `unmarshal` stands for `yaml.Unmarshal` into a `MeshConfig`. -/
def newFromBytes (unmarshal : List UInt8 → Except String MeshConfig) (data : List UInt8) :
    Except String Engine :=
  match unmarshal data with
  | .error err => .error ("policy: parse yaml: " ++ err)
  | .ok cfg => .ok (newEngine cfg)

namespace AllowMap

theorem mem_mark {m : AllowMap} {src dst s : String} : s ∈ m.mark src dst ↔ s = src ∨ s ∈ m :=
  AList.mem_insert _

theorem lists_mark {m : AllowMap} {src dst s d : String} :
    (m.mark src dst).Lists s d ↔ (s = src ∧ d = dst) ∨ m.Lists s d := by
  by_cases hs : s = src
  · subst hs
    simp only [Lists, mark, AList.lookup_insert, Option.some.injEq, exists_eq_left',
      AList.mem_insert, true_and]
    cases m.lookup s <;> simp
  · simp [Lists, mark, AList.lookup_insert_ne hs, hs]

theorem mem_foldl_mark {m : AllowMap} {src s : String} {dsts : List String} :
    s ∈ dsts.foldl (mark src) m ↔ (s = src ∧ dsts ≠ []) ∨ s ∈ m := by
  induction dsts generalizing m with
  | nil => simp
  | cons d ds ih =>
    rw [List.foldl_cons, ih, mem_mark]
    by_cases hs : s = src <;> simp [hs]

theorem lists_foldl_mark {m : AllowMap} {src s d : String} {dsts : List String} :
    (dsts.foldl (mark src) m).Lists s d ↔ (s = src ∧ d ∈ dsts) ∨ m.Lists s d := by
  induction dsts generalizing m with
  | nil => simp
  | cons x xs ih =>
    rw [List.foldl_cons, ih, lists_mark, List.mem_cons]
    tauto

theorem lists_insert_empty {m : AllowMap} {src s d : String} (h : src ∉ m) :
    Lists (m.insert src ∅) s d ↔ m.Lists s d := by
  by_cases hs : s = src
  · subst hs
    simp [Lists, AList.lookup_eq_none.mpr h]
  · simp [Lists, AList.lookup_insert_ne hs]

theorem mem_addRule {m : AllowMap} {rule : AllowRule} {s : String} :
    s ∈ m.addRule rule ↔ s = rule.fromSvc ∨ s ∈ m := by
  unfold addRule
  split
  · rw [mem_foldl_mark, AList.mem_insert]
    tauto
  case isFalse h =>
    have hmem : rule.fromSvc ∈ m := by
      simpa [AList.lookup_eq_none] using h
    rw [mem_foldl_mark]
    constructor
    · rintro (⟨rfl, -⟩ | hs)
      · exact Or.inl rfl
      · exact Or.inr hs
    · rintro (rfl | hs)
      · exact Or.inr hmem
      · exact Or.inr hs

theorem lists_addRule {m : AllowMap} {rule : AllowRule} {s d : String} :
    (m.addRule rule).Lists s d ↔ (s = rule.fromSvc ∧ d ∈ rule.toSvcs.elems) ∨ m.Lists s d := by
  unfold addRule
  split
  case isTrue h =>
    have hnot : rule.fromSvc ∉ m := by
      simpa [AList.lookup_eq_none] using h
    rw [lists_foldl_mark, lists_insert_empty hnot]
  case isFalse => exact lists_foldl_mark

theorem mem_foldl_addRule {m : AllowMap} {rules : List AllowRule} {s : String} :
    s ∈ rules.foldl addRule m ↔ (∃ r ∈ rules, r.fromSvc = s) ∨ s ∈ m := by
  induction rules generalizing m with
  | nil => simp
  | cons r rs ih =>
    rw [List.foldl_cons, ih, mem_addRule, List.exists_mem_cons_iff, @eq_comm _ s,
      or_assoc, or_left_comm]

theorem lists_foldl_addRule {m : AllowMap} {rules : List AllowRule} {s d : String} :
    (rules.foldl addRule m).Lists s d ↔
      (∃ r ∈ rules, r.fromSvc = s ∧ d ∈ r.toSvcs.elems) ∨ m.Lists s d := by
  induction rules generalizing m with
  | nil => simp
  | cons r rs ih =>
    rw [List.foldl_cons, ih, lists_addRule, List.exists_mem_cons_iff, @eq_comm _ s,
      or_assoc, or_left_comm]

end AllowMap

namespace PolicyConfig

/-- Some allow rule has `src` as its source. -/
def Names (p : PolicyConfig) (src : String) : Prop :=
  ∃ r ∈ p.allow.elems, r.fromSvc = src

/-- Some allow rule with source `src` lists `dst`. -/
def Permits (p : PolicyConfig) (src dst : String) : Prop :=
  ∃ r ∈ p.allow.elems, r.fromSvc = src ∧ dst ∈ r.toSvcs.elems

instance (p : PolicyConfig) (src : String) : Decidable (p.Names src) :=
  inferInstanceAs (Decidable (∃ r ∈ p.allow.elems, r.fromSvc = src))

instance (p : PolicyConfig) (src dst : String) : Decidable (p.Permits src dst) :=
  inferInstanceAs (Decidable (∃ r ∈ p.allow.elems, r.fromSvc = src ∧ dst ∈ r.toSvcs.elems))

end PolicyConfig

theorem mem_newEngine_allow {cfg : MeshConfig} {src : String} :
    src ∈ (newEngine cfg).allow ↔ cfg.policy.Names src := by
  simp [newEngine, AllowMap.mem_foldl_addRule, PolicyConfig.Names]

theorem newEngine_lists {cfg : MeshConfig} {src dst : String} :
    (newEngine cfg).allow.Lists src dst ↔ cfg.policy.Permits src dst := by
  have hempty : ¬ AllowMap.Lists ∅ src dst := by simp [AllowMap.Lists]
  rw [newEngine, AllowMap.lists_foldl_addRule, or_iff_left hempty, PolicyConfig.Permits]

namespace Engine

def evaluate (e : Engine) (src dst : String) : Decision :=
  let explicit := match e.allow.lookup src with
    | some dsts => (dsts.lookup dst).getD false
    | none => false
  if explicit then .allow
  else if e.defaultAllow then .allow
  else .deny

/-- The iteration order Go picks for the two nested `range` loops of `Rules`. -/
structure RangeOrder (e : Engine) where
  sources : List String
  dests : String → List String
  sources_perm : sources.Perm e.allow.keys
  dests_perm : ∀ src dsts, e.allow.lookup src = some dsts → (dests src).Perm dsts.keys

/-- A snapshot of the allow rules, in the order the maps were iterated. -/
def rules (e : Engine) (order : RangeOrder e) : List AllowRule :=
  order.sources.map fun src =>
    { fromSvc := src, toSvcs := (order.dests src).foldl Slice.append Slice.nil }

/-- One possible iteration order: that of the association lists. -/
def RangeOrder.listed (e : Engine) : RangeOrder e where
  sources := e.allow.keys
  dests src := ((e.allow.lookup src).getD ∅).keys
  sources_perm := List.Perm.refl _
  dests_perm src dsts h := by simp [h]

theorem evaluate_eq_allow {e : Engine} {src dst : String} :
    e.evaluate src dst = .allow ↔ e.allow.Lists src dst ∨ e.defaultAllow = true := by
  have hexplicit : (match e.allow.lookup src with
      | some dsts => (dsts.lookup dst).getD false
      | none => false) = true ↔ e.allow.Lists src dst := by
    cases hl : e.allow.lookup src with
    | none => simp [AllowMap.Lists, hl]
    | some dsts =>
      simp only [AllowMap.Lists, hl, Option.some.injEq, exists_eq_left']
      by_cases hd : dst ∈ dsts
      · simp [hd, e.marked src dsts hl dst hd]
      · simp [hd, AList.lookup_eq_none.mpr hd]
  unfold evaluate
  dsimp only
  rw [← hexplicit]
  split_ifs with h₁ h₂ <;> simp_all

section Export

variable {e : Engine} (order : RangeOrder e)

theorem mem_sources {src : String} : src ∈ order.sources ↔ src ∈ e.allow :=
  order.sources_perm.mem_iff

theorem mem_dests {src dst : String} (h : src ∈ e.allow) :
    dst ∈ order.dests src ↔ e.allow.Lists src dst := by
  obtain ⟨dsts, hl⟩ := Option.isSome_iff_exists.mp (AList.lookup_isSome.mpr h)
  rw [(order.dests_perm src dsts hl).mem_iff]
  simp [AllowMap.Lists, hl, AList.mem_keys]

theorem exported_elems (src : String) :
    ((order.dests src).foldl Slice.append Slice.nil).elems = order.dests src := by
  rw [Slice.foldl_append]
  split_ifs with h <;> simp [h]

theorem sources_nodup : order.sources.Nodup :=
  order.sources_perm.nodup_iff.mpr e.allow.keys_nodup

theorem dests_nodup {src : String} (h : src ∈ e.allow) : (order.dests src).Nodup := by
  obtain ⟨dsts, hl⟩ := Option.isSome_iff_exists.mp (AList.lookup_isSome.mpr h)
  exact (order.dests_perm src dsts hl).nodup_iff.mpr dsts.keys_nodup

@[simp] theorem rules_sources : (e.rules order).map AllowRule.fromSvc = order.sources := by
  simp [rules, Function.comp_def]

theorem mem_rules {rule : AllowRule} (h : rule ∈ e.rules order) :
    rule.fromSvc ∈ e.allow ∧ rule.toSvcs.elems = order.dests rule.fromSvc := by
  obtain ⟨src, hsrc, rfl⟩ := List.mem_map.mp h
  exact ⟨(mem_sources order).mp hsrc, exported_elems order src⟩

theorem exists_mem_rules {src dst : String} :
    (∃ r ∈ e.rules order, r.fromSvc = src ∧ dst ∈ r.toSvcs.elems) ↔ e.allow.Lists src dst := by
  constructor
  · rintro ⟨r, hr, rfl, hd⟩
    obtain ⟨hsrc, helems⟩ := mem_rules order hr
    rw [helems] at hd
    exact (mem_dests order hsrc).mp hd
  · intro h
    obtain ⟨dsts, hl, hd⟩ := h
    have hmem : src ∈ e.allow := by
      rw [← AList.lookup_isSome, hl]
      rfl
    refine ⟨_, List.mem_map.mpr ⟨src, (mem_sources order).mpr hmem, rfl⟩, rfl, ?_⟩
    rw [exported_elems]
    exact (mem_dests order hmem).mpr ⟨dsts, hl, hd⟩

end Export

end Engine

end Meshlite.Policy
