import Meshlite.Library.Separators
import Meshlite.Sigil.Authority

/-!
# What a SPIFFE URI names

`buildSPIFFEURI` writes cluster, namespace and service between separators and escapes none of
them, and they come from hellos and enroll requests as they are. `Issue` refuses only what
`url.Parse` or the encoding of the certificate does, so a part may show the separators; and
the certificate has the URI as the parsed URL is written out, which is one for many.
-/

namespace Meshlite.Sigil

open Escapes Separators

def Identity.uri (id : Identity) : String := buildSpiffeUri id.clusterId id.nspace id.serviceId

/-- The URI in a certificate of the identity. -/
def Identity.certUri (id : Identity) : String :=
  Sigil.certUri id.clusterId id.nspace id.serviceId

def Identity.path (id : Identity) : List Char :=
  spiffePath id.clusterId id.nspace id.serviceId

/-- `Issue` and `IssueWithDNS` do not refuse the strings: `url.Parse` succeeds, and the
certificate takes the URI as an IA5 string. -/
def Identity.Accepted (id : Identity) : Prop :=
  Reference.parses id.path = true ∧ id.certUri.toList.all (·.toNat < 128) = true

instance (id : Identity) : Decidable id.Accepted := inferInstanceAs (Decidable (_ ∧ _))

/-- No part shows a separator that it borders on, not even with the help of its slash. -/
def Identity.Unambiguous (id : Identity) : Prop :=
  (¬ "/ns/".toList <:+: id.clusterId.toList ++ ['/'] ∧
    ¬ "/ns/".toList <:+: '/' :: id.nspace.toList) ∧
  ¬ "/svc/".toList <:+: id.nspace.toList ++ ['/'] ∧
    ¬ "/svc/".toList <:+: '/' :: id.serviceId.toList

instance (id : Identity) : Decidable id.Unambiguous :=
  inferInstanceAs (Decidable ((_ ∧ _) ∧ _ ∧ _))

/-- No other URL is written out as the one that is parsed. -/
def Identity.Unmistakable (id : Identity) : Prop := (Reference.ofText id.path).Unmistakable

/-- The part of a URI that its parts decide. -/
def Identity.joined (id : Identity) : List Char :=
  id.clusterId.toList ++ fenced '/' ['n', 's'] ++
    (id.nspace.toList ++ fenced '/' ['s', 'v', 'c'] ++ id.serviceId.toList)

theorem Identity.toList_uri (id : Identity) :
    id.uri.toList = spiffeOrigin.toList ++ ("/cluster/".toList ++ id.joined) := by
  simp [uri, buildSpiffeUri, spiffeOrigin, spiffeScheme, spiffeTrustDomain, joined, fenced]

theorem Identity.path_eq (id : Identity) : id.path = "/cluster/".toList ++ id.joined := by
  have huri := id.toList_uri
  rw [uri] at huri
  rw [path, spiffePath, huri, ← String.length_toList, List.drop_left]

theorem Identity.uri_inj {id id' : Identity} : id'.uri = id.uri ↔ id'.joined = id.joined := by
  rw [← String.toList_inj, toList_uri, toList_uri, List.append_cancel_left_eq,
    List.append_cancel_left_eq]

theorem Identity.certUri_inj {id id' : Identity} : id'.certUri = id.certUri ↔
    (Reference.ofText id'.path).string = (Reference.ofText id.path).string := by
  rw [certUri, certUri, ← String.toList_inj, Sigil.certUri, Sigil.certUri, String.toList_append,
    String.toList_append, String.toList_ofList, String.toList_ofList, List.append_cancel_left_eq]
  rfl

theorem Identity.certUri_of_uri {id id' : Identity} (h : id'.uri = id.uri) :
    id'.certUri = id.certUri := by
  rw [certUri_inj, path_eq, path_eq, uri_inj.mp h]

theorem Identity.Accepted.of_certUri {id id' : Identity} (h : id.Accepted)
    (hparses : Reference.parses id'.path = true) (huri : id'.certUri = id.certUri) :
    id'.Accepted := by
  refine ⟨hparses, ?_⟩
  rw [huri]
  exact h.2

theorem Identity.unambiguous_iff (id : Identity) :
    id.Unambiguous ↔ ∀ cluster nspace service : List Char,
      cluster ++ fenced '/' ['n', 's'] ++ (nspace ++ fenced '/' ['s', 'v', 'c'] ++ service) =
        id.joined →
      cluster = id.clusterId.toList ∧ nspace = id.nspace.toList ∧
        service = id.serviceId.toList := by
  rw [joined, joined_unique_iff (by decide), sole_fenced_iff (by decide),
    sole_fenced_iff (by decide)]
  rfl

/-- An identity shares the string that is parsed with no other one exactly when no part of it
shows a separator. -/
theorem Identity.uri_injective_iff (id : Identity) :
    (∀ id' : Identity, id'.uri = id.uri → id' = id) ↔ id.Unambiguous := by
  rw [id.unambiguous_iff]
  constructor
  · intro hunique cluster nspace service hjoined
    let other : Identity :=
      { serviceId := .ofList service, clusterId := .ofList cluster, nspace := .ofList nspace }
    have huri : other.uri = id.uri := by
      rw [Identity.uri_inj, ← hjoined]
      simp [other, Identity.joined]
    rw [← hunique other huri]
    simp [other]
  · intro hunique id' huri
    obtain ⟨hcluster, hnspace, hservice⟩ := hunique _ _ _ (Identity.uri_inj.mp huri)
    cases id
    cases id'
    simp only [String.toList_inj] at hcluster hnspace hservice
    subst hcluster hnspace hservice
    rfl

/-- What the separators are written with. -/
def separatorLetters : List Char := "/cluster/ns/svc".toList

theorem separatorLetters_plain : Letters separatorLetters := by
  have hletters : separatorLetters.Forall fun c => c ≠ '%' ∧
      escape .path (String.utf8EncodeChar c) = [c] ∧
      escape .fragment (String.utf8EncodeChar c) = [c] := by decide +kernel
  intro c hc
  obtain ⟨hpercent, hpath, hfragment⟩ := List.forall_iff_forall_mem.mp hletters c hc
  refine ⟨hpercent, fun part => ?_⟩
  cases part with
  | path => exact hpath
  | fragment => exact hfragment

/-- A text written otherwise still is the URI of an identity. -/
theorem Identity.exists_respelled {id : Identity} {text : List Char}
    (h : Respelled '/' separatorLetters id.path text) : ∃ id' : Identity, id'.path = text := by
  rw [path_eq, joined] at h
  have hmark : '/' ∈ separatorLetters := by decide +kernel
  obtain ⟨rest, rfl, hrest⟩ := Respelled.of_letters (by decide +kernel) h
  obtain ⟨cluster, rest', rfl, hrest'⟩ := Respelled.of_fenced hmark (by decide +kernel) hrest
  obtain ⟨nspace, service, rfl, -⟩ := Respelled.of_fenced hmark (by decide +kernel) hrest'
  exact ⟨⟨.ofList service, .ofList cluster, .ofList nspace⟩, by simp [path_eq, joined]⟩

/-- Another URI is written out as one that can be mistaken, and an identity has it. -/
theorem Identity.exists_certUri_eq {id : Identity} (h : id.Accepted) (hmis : ¬ id.Unmistakable) :
    ∃ id' : Identity, id'.Accepted ∧ id'.certUri = id.certUri ∧ id' ≠ id := by
  obtain ⟨text, hne, hparses, hstring, hshape⟩ :=
    Reference.exists_string_eq separatorLetters_plain (by decide +kernel) h.1 hmis
  have hother : ∃ id' : Identity, id'.path = text := by
    rcases hshape with rfl | hrespelled
    · refine ⟨{ id with serviceId := id.serviceId ++ "#" }, ?_⟩
      simp [path_eq, joined]
    · exact exists_respelled hrespelled
  obtain ⟨id', rfl⟩ := hother
  have huri : id'.certUri = id.certUri := certUri_inj.mpr hstring
  refine ⟨id', h.of_certUri hparses huri, huri, ?_⟩
  rintro rfl
  exact hne rfl

/-- An identity that the authority accepts shares its URI, as it is built or as a certificate
has it, with no other one exactly when no part of it shows a separator and no other URL is
written out as its own. -/
theorem uri_unique_iff (id : Identity) (h : id.Accepted) :
    (∀ id' : Identity, id'.Accepted → id'.uri = id.uri ∨ id'.certUri = id.certUri → id' = id) ↔
      id.Unambiguous ∧ id.Unmistakable := by
  constructor
  · intro hunique
    refine ⟨?_, ?_⟩
    · rw [← id.uri_injective_iff]
      intro id' huri
      have hparses : Reference.parses id'.path = true := by
        rw [Identity.path_eq, Identity.uri_inj.mp huri, ← Identity.path_eq]
        exact h.1
      exact hunique id' (h.of_certUri hparses (Identity.certUri_of_uri huri)) (Or.inl huri)
    · by_contra hmistaken
      obtain ⟨id', haccepted, huri, hne⟩ := Identity.exists_certUri_eq h hmistaken
      exact hne (hunique id' haccepted (Or.inr huri))
  · rintro ⟨hunambiguous, hunmistakable⟩ id' haccepted huri
    rw [← id.uri_injective_iff] at hunambiguous
    have hcert : id'.certUri = id.certUri := huri.elim Identity.certUri_of_uri (·)
    have hpath := Reference.eq_of_string_eq h.1 haccepted.1 hunmistakable
      (Identity.certUri_inj.mp hcert)
    rw [Identity.path_eq, Identity.path_eq, List.append_cancel_left_eq] at hpath
    exact hunambiguous id' (Identity.uri_inj.mpr hpath)

/-- A service of an agent in the cluster `dev`, with a version behind a number sign. -/
def alphaInDev : Identity where
  serviceId := "alpha#v1"
  clusterId := "dev"
  nspace := "default"

theorem alphaInDev_unique : alphaInDev.Accepted ∧
    ∀ id' : Identity, id'.Accepted →
      id'.uri = alphaInDev.uri ∨ id'.certUri = alphaInDev.certUri → id' = alphaInDev := by
  have haccepted : alphaInDev.Accepted := by decide +kernel
  refine ⟨haccepted, (uri_unique_iff alphaInDev haccepted).mpr ⟨by decide +kernel, ?_⟩⟩
  refine ⟨by decide +kernel, ?_, ?_⟩
  · exact unmistakable_of_plain (by decide +kernel) (by decide +kernel)
  · exact unmistakable_of_plain (by decide +kernel) (by decide +kernel)

/-- Two hellos whose services get the same URI, in the namespace that Sigil takes for both; and
two whose URIs differ by the mark of an empty fragment, which no certificate shows. -/
theorem nested_uri_shared :
    (¬ ∀ id id' : Identity, id.Accepted → id'.Accepted → id'.uri = id.uri → id' = id) ∧
      ¬ ∀ id id' : Identity, id.Accepted → id'.Accepted → id'.certUri = id.certUri →
        id' = id := by
  refine ⟨fun h => ?_, fun h => ?_⟩
  · have hsame := h ⟨"beta", "dev/ns/default/svc/alpha", "default"⟩
      ⟨"alpha/ns/default/svc/beta", "dev", "default"⟩ (by decide +kernel) (by decide +kernel)
      (by decide +kernel)
    exact absurd hsame (by decide)
  · have hsame := h ⟨"alpha", "dev", "default"⟩ ⟨"alpha#", "dev", "default"⟩
      (by decide +kernel) (by decide +kernel) (by decide +kernel)
    exact absurd hsame (by decide)

end Meshlite.Sigil
