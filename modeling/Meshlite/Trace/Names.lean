import Meshlite.Trace.Store
import Mathlib.Data.List.DropRight

/-!
# The names of services

A record names each service, or else gives its address. A name that is given comes out
trimmed; what is taken from an address comes out as it stands there, and need not be a
name at all.
-/

namespace Meshlite.Trace

open Conduit (isWhitespace trim)

/-- A name for a node: it is not empty, and there is no white space around it. -/
structure IsName (s : String) : Prop where
  ne_empty : s ≠ ""
  trimmed : trimSpace s = s

/-- The name is absent or says nothing. -/
def Generic (name : String) : Prop :=
  trimSpace name = "" ∨ equalFold (trimSpace name) "unknown" = true

instance (name : String) : Decidable (Generic name) := inferInstanceAs (Decidable (_ ∨ _))

/-- An address with a port, and its host: a host with colons stands in brackets. -/
def HostPort (address host : List Char) : Prop :=
  ('[' ∉ host ∧ ']' ∉ host) ∧ ∃ port, (':' ∉ port ∧ '[' ∉ port ∧ ']' ∉ port) ∧
    (':' ∉ host ∧ address = host ++ ':' :: port ∨
      address = '[' :: host ++ ']' :: ':' :: port)

/-- The address names a node: the host before its port, or else the address as a whole. -/
structure NamesNode (address : String) : Prop where
  host : ∀ host, HostPort address.toList host → IsName (String.ofList host)
  whole : (∀ host, ¬ HostPort address.toList host) → IsName address

section Trim

theorem trim_trim (text : List Char) : trim (trim text) = trim text := by
  have hkept : (trim text).dropWhile isWhitespace = trim text := by
    rw [List.dropWhile_eq_self_iff]
    intro hlength
    have hne : trim text ≠ [] := List.ne_nil_of_length_pos hlength
    have hpre : trim text <+: text.dropWhile isWhitespace := List.rdropWhile_prefix _ _
    have hfirst := List.head_dropWhile_not isWhitespace (hpre.ne_nil hne)
    rw [← hpre.head hne, List.head_eq_getElem] at hfirst
    simp [hfirst]
  have htrim : ∀ l, trim l = (l.dropWhile isWhitespace).rdropWhile isWhitespace := fun _ => rfl
  rw [htrim (trim text), hkept, htrim, List.rdropWhile_idempotent]

@[simp] theorem trimSpace_trimSpace (s : String) : trimSpace (trimSpace s) = trimSpace s := by
  rw [trimSpace, trimSpace, String.toList_ofList, trim_trim]

theorem generic_trimSpace {name : String} : Generic (trimSpace name) ↔ Generic name := by
  rw [Generic, Generic, trimSpace_trimSpace]

theorem isName_trimSpace {name : String} (h : ¬ Generic name) : IsName (trimSpace name) :=
  ⟨fun hempty => h (Or.inl hempty), trimSpace_trimSpace name⟩

end Trim

section Address

variable {address host port before port' before' : List Char}

theorem span_reverse (before : List Char) (hport : ':' ∉ port) :
    (before ++ ':' :: port).reverse.span (· ≠ ':') = (port.reverse, ':' :: before.reverse) := by
  have hkeep : ∀ c ∈ port.reverse, decide (c ≠ ':') = true := by
    intro c hc
    exact decide_eq_true fun h => hport (h ▸ List.mem_reverse.mp hc)
  rw [List.reverse_append, List.reverse_cons, List.append_assoc, List.singleton_append,
    List.span_eq_takeWhile_dropWhile, List.takeWhile_append_of_pos hkeep,
    List.dropWhile_append_of_pos hkeep]
  simp

theorem last_colon_inj (hport : ':' ∉ port) (hport' : ':' ∉ port') :
    before ++ ':' :: port = before' ++ ':' :: port' ↔ before = before' ∧ port = port' := by
  constructor
  · intro h
    have hspan := span_reverse before hport
    rw [h, span_reverse before' hport'] at hspan
    simpa [eq_comm, and_comm] using hspan
  · rintro ⟨rfl, rfl⟩
    rfl

theorem exists_last_colon (h : ':' ∈ address) :
    ∃ before port, address = before ++ ':' :: port ∧ ':' ∉ port := by
  obtain ⟨a, b, heq, ha⟩ := List.eq_append_cons_of_mem (List.mem_reverse.mpr h)
  refine ⟨b.reverse, a.reverse, ?_, by simpa using ha⟩
  rw [← List.reverse_reverse address, heq]
  simp

theorem hostPort_colon_iff (hport : ':' ∉ port) : HostPort (before ++ ':' :: port) host ↔
    ('[' ∉ host ∧ ']' ∉ host) ∧ ('[' ∉ port ∧ ']' ∉ port) ∧
      (':' ∉ host ∧ before = host ∨ before = '[' :: host ++ [']']) := by
  have hbracketed : ∀ port', '[' :: host ++ ']' :: ':' :: port' =
      ('[' :: host ++ [']']) ++ ':' :: port' := by
    intro port'
    simp
  rw [HostPort]
  refine and_congr_right fun _ => ⟨?_, ?_⟩
  · rintro ⟨port', ⟨hport', hopen, hclose⟩, ⟨hhost, heq⟩ | heq⟩
    · obtain ⟨rfl, rfl⟩ := (last_colon_inj hport hport').mp heq
      exact ⟨⟨hopen, hclose⟩, Or.inl ⟨hhost, rfl⟩⟩
    · rw [hbracketed] at heq
      obtain ⟨rfl, rfl⟩ := (last_colon_inj hport hport').mp heq
      exact ⟨⟨hopen, hclose⟩, Or.inr rfl⟩
  · rintro ⟨hbrackets, ⟨hhost, rfl⟩ | rfl⟩
    · exact ⟨port, ⟨hport, hbrackets⟩, Or.inl ⟨hhost, rfl⟩⟩
    · exact ⟨port, ⟨hport, hbrackets⟩, Or.inr (hbracketed port).symm⟩

theorem splitHostPort_bracketed (hport : ':' ∉ port) {inner : List Char} :
    splitHostPort ('[' :: inner ++ [']'] ++ ':' :: port) =
      if ']' ∈ inner ∨ '[' ∈ inner ∨ '[' ∈ port ∨ ']' ∈ port then none
      else some (inner, port) := by
  rw [splitHostPort, span_reverse _ hport]
  simp

theorem splitHostPort_plain (hport : ':' ∉ port) (hopen : before.head? ≠ some '[') :
    splitHostPort (before ++ ':' :: port) =
      if ':' ∈ before ∨ '[' ∈ before ++ ':' :: port ∨ ']' ∈ before ++ ':' :: port then none
      else some (before, port) := by
  rw [splitHostPort, span_reverse _ hport]
  cases before with
  | nil => simp
  | cons c before =>
    have hc : c ≠ '[' := by simpa using hopen
    simp [hc]

theorem splitHostPort_unclosed (hport : ':' ∉ port) {rest : List Char}
    (hclose : rest.getLast? ≠ some ']') : splitHostPort ('[' :: rest ++ ':' :: port) = none := by
  rw [splitHostPort, span_reverse _ hport]
  cases rest using List.reverseRecOn with
  | nil => simp
  | append_singleton inner c =>
    have hc : c ≠ ']' := by simpa using hclose
    simp [hc]

theorem splitHostPort_no_colon (h : ':' ∉ address) : splitHostPort address = none := by
  have hall : ∀ c ∈ address.reverse, decide (c ≠ ':') = true := by
    intro c hc
    exact decide_eq_true fun heq => h (heq ▸ List.mem_reverse.mp hc)
  rw [splitHostPort, List.span_eq_takeWhile_dropWhile, List.dropWhile_eq_nil_iff.mpr hall]

theorem exists_split_bracketed_iff (hport : ':' ∉ port) {inner : List Char} :
    (∃ port', splitHostPort ('[' :: inner ++ [']'] ++ ':' :: port) = some (host, port')) ↔
      HostPort ('[' :: inner ++ [']'] ++ ':' :: port) host := by
  rw [splitHostPort_bracketed hport, hostPort_colon_iff hport]
  constructor
  · rintro ⟨port', h⟩
    obtain ⟨hbrackets, rfl, -⟩ := by simpa using h
    simp [hbrackets]
  · rintro ⟨hhost, hbrackets, ⟨-, rfl⟩ | hinner⟩
    · exact absurd (List.mem_cons_self ..) hhost.1
    · obtain rfl : inner = host := by simpa using hinner
      exact ⟨port, if_neg (by simp [hhost, hbrackets])⟩

theorem not_hostPort_unclosed (hport : ':' ∉ port) {rest : List Char}
    (hclose : rest.getLast? ≠ some ']') : ¬ HostPort ('[' :: rest ++ ':' :: port) host := by
  rw [hostPort_colon_iff hport]
  rintro ⟨hhost, -, ⟨-, rfl⟩ | hinner⟩
  · exact hhost.1 List.mem_cons_self
  · obtain rfl : rest = host ++ [']'] := by simpa using hinner
    exact hclose (by simp)

theorem exists_split_plain_iff (hport : ':' ∉ port) (hopen : before.head? ≠ some '[') :
    (∃ port', splitHostPort (before ++ ':' :: port) = some (host, port')) ↔
      HostPort (before ++ ':' :: port) host := by
  rw [splitHostPort_plain hport hopen, hostPort_colon_iff hport]
  constructor
  · rintro ⟨port', h⟩
    obtain ⟨hbrackets, rfl, -⟩ := by simpa using h
    simp [hbrackets]
  · rintro ⟨hhost, hbrackets, ⟨hcolon, rfl⟩ | rfl⟩
    · exact ⟨port, if_neg (by simp [hhost, hbrackets, hcolon])⟩
    · exact absurd rfl hopen

/-- What `net.SplitHostPort` accepts. -/
theorem exists_splitHostPort_iff :
    (∃ port, splitHostPort address = some (host, port)) ↔ HostPort address host := by
  by_cases hcolon : ':' ∈ address
  · obtain ⟨before, port, rfl, hport⟩ := exists_last_colon hcolon
    by_cases hopen : before.head? = some '['
    · obtain ⟨rest, rfl⟩ : ∃ rest, before = '[' :: rest := by
        cases before with
        | nil => cases hopen
        | cons c rest => exact ⟨rest, by simpa using hopen⟩
      by_cases hclose : rest.getLast? = some ']'
      · obtain ⟨inner, rfl⟩ := List.getLast?_eq_some_iff.mp hclose
        exact exists_split_bracketed_iff hport
      · rw [splitHostPort_unclosed hport hclose]
        exact iff_of_false (by simp) (not_hostPort_unclosed hport hclose)
    · exact exists_split_plain_iff hport hopen
  · rw [splitHostPort_no_colon hcolon]
    refine iff_of_false (by simp) ?_
    rintro ⟨-, port, -, ⟨-, rfl⟩ | rfl⟩
    · exact hcolon (by simp)
    · exact hcolon (by simp)

end Address

section Name

variable {name address : String}

theorem normalizeServiceName_of_name (h : ¬ Generic name) :
    normalizeServiceName name address = trimSpace name := if_neg h

/-- What a generic name is replaced by does not depend on it. -/
theorem normalizeServiceName_of_generic (h : Generic name) :
    normalizeServiceName name address =
      if address ≠ "" then
        match splitHostPort address.toList with
        | some (host, _) => String.ofList host
        | none => address
      else "unknown" := if_pos h

theorem normalizeServiceName_of_host {host : List Char} (h : Generic name)
    (hhost : HostPort address.toList host) :
    normalizeServiceName name address = String.ofList host := by
  obtain ⟨port, hsplit⟩ := exists_splitHostPort_iff.mpr hhost
  have hne : address ≠ "" := by
    rintro rfl
    cases hsplit
  rw [normalizeServiceName_of_generic h, if_pos hne, hsplit]

theorem normalizeServiceName_of_address (h : Generic name) (hne : address ≠ "")
    (hhost : ∀ host, ¬ HostPort address.toList host) :
    normalizeServiceName name address = address := by
  have hsplit : splitHostPort address.toList = none := by
    rw [Option.eq_none_iff_forall_ne_some]
    rintro ⟨host, port⟩ heq
    exact hhost host (exists_splitHostPort_iff.mp ⟨port, heq⟩)
  rw [normalizeServiceName_of_generic h, if_pos hne, hsplit]

theorem HostPort.unique {address host host' : List Char} (h : HostPort address host)
    (h' : HostPort address host') : host = host' := by
  obtain ⟨port, hsplit⟩ := exists_splitHostPort_iff.mpr h
  obtain ⟨port', hsplit'⟩ := exists_splitHostPort_iff.mpr h'
  exact congrArg Prod.fst (Option.some.inj (hsplit.symm.trans hsplit'))

theorem isName_unknown : IsName "unknown" := ⟨by decide, by decide +kernel⟩

/-- A service gets a name exactly if it is given one, or no address, or the address names a
node. -/
theorem isName_normalized_iff : IsName (normalizeServiceName name address) ↔
    ¬ Generic name ∨ address = "" ∨ NamesNode address := by
  by_cases hname : Generic name
  · rw [or_iff_right (not_not.mpr hname)]
    by_cases hempty : address = ""
    · subst hempty
      rw [normalizeServiceName_of_generic hname]
      exact iff_of_true isName_unknown (Or.inl rfl)
    · rw [or_iff_right hempty]
      by_cases hhost : ∃ host, HostPort address.toList host
      · obtain ⟨host, hhost⟩ := hhost
        rw [normalizeServiceName_of_host hname hhost]
        constructor
        · intro hnamed
          exact ⟨fun host' hhost' => hhost.unique hhost' ▸ hnamed,
            fun hnone => absurd hhost (hnone host)⟩
        · intro hnode
          exact hnode.host host hhost
      · rw [not_exists] at hhost
        rw [normalizeServiceName_of_address hname hempty hhost]
        constructor
        · intro hnamed
          exact ⟨fun host hhost' => absurd hhost' (hhost host), fun _ => hnamed⟩
        · intro hnode
          exact hnode.whole hhost
  · rw [normalizeServiceName_of_name hname]
    exact iff_of_true (isName_trimSpace hname) (Or.inl hname)

theorem normalizeServiceName_idem (h : IsName (normalizeServiceName name address)) :
    normalizeServiceName (normalizeServiceName name address) address =
      normalizeServiceName name address := by
  by_cases hgeneric : Generic (normalizeServiceName name address)
  · -- a generic name comes from the address, and does so again
    have hname : Generic name := by
      by_contra hname
      rw [normalizeServiceName_of_name hname, generic_trimSpace] at hgeneric
      exact hname hgeneric
    rw [normalizeServiceName_of_generic hgeneric, normalizeServiceName_of_generic hname]
  · rw [normalizeServiceName_of_name hgeneric, h.trimmed]

end Name

/-- The record comes out of normalization with two names, and a second normalization, whenever
it is done, changes nothing. -/
structure Settles (r : TelemetryRecord) : Prop where
  source : ∀ now, IsName (normalizeRecord now r).sourceService
  destination : ∀ now, IsName (normalizeRecord now r).destinationService
  idem : ∀ now now', normalizeRecord now' (normalizeRecord now r) = normalizeRecord now r

theorem normalizeRecord_source (now : Timestamp) (r : TelemetryRecord) :
    (normalizeRecord now r).sourceService = normalizeServiceName r.sourceService r.sourceIp := by
  rw [normalizeRecord]

theorem normalizeRecord_destination (now : Timestamp) (r : TelemetryRecord) :
    (normalizeRecord now r).destinationService =
      normalizeServiceName r.destinationService r.destIp := by
  rw [normalizeRecord]

theorem filled_idem (text dflt : String) :
    (if trimSpace (if trimSpace text = "" then dflt else text) = "" then dflt
      else if trimSpace text = "" then dflt else text) =
      if trimSpace text = "" then dflt else text := by
  split_ifs with hblank
  · rfl
  · rfl
  · rfl

/-- A record with a timestamp of its own settles exactly if each of its services is given a
name, or no address, or an address that names a node. -/
theorem normalizeRecord_settles_iff (r : TelemetryRecord) (ht : r.timestamp ≠ 0) :
    Settles r ↔
      (¬ Generic r.sourceService ∨ r.sourceIp = "" ∨ NamesNode r.sourceIp) ∧
        (¬ Generic r.destinationService ∨ r.destIp = "" ∨ NamesNode r.destIp) := by
  rw [← isName_normalized_iff, ← isName_normalized_iff]
  constructor
  · intro h
    rw [← normalizeRecord_source 0, ← normalizeRecord_destination 0]
    exact ⟨h.source 0, h.destination 0⟩
  · rintro ⟨hsource, hdestination⟩
    constructor
    · intro now
      rw [normalizeRecord_source]
      exact hsource
    · intro now
      rw [normalizeRecord_destination]
      exact hdestination
    · intro now now'
      have hsource' := normalizeServiceName_idem hsource
      have hdestination' := normalizeServiceName_idem hdestination
      simp only [normalizeRecord, if_neg ht, filled_idem, hsource', hdestination']

theorem given_settles : Settles { sourceService := " alpha", timestamp := 1 } := by
  refine (normalizeRecord_settles_iff _ (by decide)).mpr ⟨Or.inl ?_, Or.inr (Or.inl rfl)⟩
  decide +kernel

/-- An address without a host: its node has no name. -/
theorem portOnly_unnamed : ¬ ∀ r : TelemetryRecord, r.timestamp ≠ 0 → Settles r := by
  intro h
  have hsource := ((h { sourceIp := ":8080", timestamp := 1 } (by decide)).source 0).ne_empty
  revert hsource
  decide +kernel

end Meshlite.Trace
