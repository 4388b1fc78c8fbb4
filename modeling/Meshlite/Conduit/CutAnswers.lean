import Meshlite.Conduit.PolicyFetch
import Meshlite.Library.JsonPrefixes

/-!
# Answers that break off

`http_get` reads until the connection ends and checks no length, so `fetch_policy` may be
handed the front of an answer. It takes a policy off it only if the whole of the text is there.
-/

namespace Bytes

variable {pat raw : Bytes} {q : ℕ}

/-- The first window of the pattern lies within the bytes, and stays the first one. -/
theorem position_some (h : position pat raw = some q) :
    q + pat.length ≤ raw.length ∧ ∀ rest, position pat (raw ++ rest) = some q := by
  induction raw generalizing q with
  | nil => cases h
  | cons b bs ih =>
    rw [position] at h
    split_ifs at h with hprefix
    · obtain rfl := Option.some.inj h
      have hpat := List.isPrefixOf_iff_prefix.mp hprefix
      refine ⟨by simpa using hpat.length_le, fun rest => ?_⟩
      have hlong := List.isPrefixOf_iff_prefix.mpr (hpat.trans (List.prefix_append _ rest))
      rw [List.cons_append, position, ← List.cons_append, if_pos hlong]
    · obtain ⟨q, hq, rfl⟩ := Option.map_eq_some_iff.mp h
      obtain ⟨hle, hrest⟩ := ih hq
      refine ⟨by rw [List.length_cons]; omega, fun rest => ?_⟩
      have hshort : ¬ pat.isPrefixOf (b :: (bs ++ rest)) = true := by
        rw [List.isPrefixOf_iff_prefix, ← List.cons_append]
        intro hlong
        refine hprefix (List.isPrefixOf_iff_prefix.mpr (List.prefix_of_prefix_length_le hlong
          (List.prefix_append _ _) ?_))
        rw [List.length_cons]
        omega
      rw [List.cons_append, position, if_neg hshort, hrest]
      rfl

end Bytes

namespace Http

open Bytes

theorem position_lflf_block {lines : List Bytes} (h : ∀ l ∈ lines, IsLine l) :
    position lflf (block lines) = none := by
  obtain hnil | ⟨init, last, hsplit⟩ := List.eq_nil_or_concat (crlfLines lines h)
  · rw [block, ← crlfLines_bytes h, hnil]
    decide
  · have hlast : last.eol = .crlf := crlfLines_eol h (hsplit ▸ by simp)
    have hblock : block lines = init.flatMap HeaderLine.bytes ++ (last.bytes ++ crlf) := by
      rw [block, ← crlfLines_bytes h, hsplit]
      simp
    have hend : position lflf (last.bytes ++ crlf) = none := by
      have heol : position [10, 10] (Eol.crlf.bytes ++ crlf) = none := by decide
      rw [HeaderLine.bytes, hlast, List.append_assoc, lflf, position_append last.clean.2.2, heol]
      rfl
    rw [hblock, passesLines_lflf.position_flatMap, hend]
    rfl

end Http

namespace Meshlite.Conduit

open Bytes Policy

section Head

variable {fields : List Bytes}

/-- No part of the header block but all of it has a header terminator. -/
theorem headerEnd_take {lines : List Bytes} (hlines : ∀ l ∈ lines, IsLine l) (hne : lines ≠ [])
    {n : ℕ} (hn : n < (block lines).length) : headerEnd ((block lines).take n) = none := by
  obtain ⟨p, hp, hdrop⟩ := Http.position_block hlines hne []
  rw [List.append_nil] at hp hdrop
  have hp4 := List.drop_eq_nil_iff.mp hdrop
  have hcrlf : position [13, 10, 13, 10] ((block lines).take n) = none := by
    by_contra hsome
    obtain ⟨q, hq⟩ := Option.ne_none_iff_exists'.mp hsome
    obtain ⟨hle, hrest⟩ := position_some hq
    have hsame := hrest ((block lines).drop n)
    rw [List.take_append_drop, ← Http.crlfcrlf, hp] at hsame
    obtain rfl := Option.some.inj hsame
    rw [List.length_take] at hle
    simp only [List.length_cons, List.length_nil] at hle
    omega
  have hlf : position [10, 10] ((block lines).take n) = none := by
    by_contra hsome
    obtain ⟨q, hq⟩ := Option.ne_none_iff_exists'.mp hsome
    have hsame := (position_some hq).2 ((block lines).drop n)
    rw [List.take_append_drop, ← Http.lflf, Http.position_lflf_block hlines] at hsame
    cases hsame
  rw [headerEnd, hcrlf, hlf]
  rfl

/-- An answer that breaks off has no body while the header is not complete, and then the part
of its body that is there. -/
theorem extractBody_take (hfields : ∀ l ∈ fields, IsLine l) (body : Bytes) (n : ℕ) :
    extractBody ((block (utf8 "HTTP/1.1 200 OK" :: fields) ++ body).take n) =
      if n < (block (utf8 "HTTP/1.1 200 OK" :: fields)).length then
        .error "HTTP response has no header terminator"
      else .ok (body.take (n - (block (utf8 "HTTP/1.1 200 OK" :: fields)).length)) := by
  have hlines : ∀ l ∈ utf8 "HTTP/1.1 200 OK" :: fields, IsLine l := by
    rw [List.forall_mem_cons]
    exact ⟨by decide, hfields⟩
  split_ifs with hn
  · rw [List.take_append_of_le_length hn.le, extractBody, headerEnd_take hlines (by simp) hn]
  · obtain ⟨m, rfl⟩ := Nat.exists_eq_add_of_le (not_lt.mp hn)
    rw [List.take_length_add_append, extractBody_block hfields, Nat.add_sub_cancel_left]

end Head

section Fetch

variable (fromSlice : Bytes → Except String Json)

/-- The nesting that `serde_json` allows. -/
def recursionLimit : ℕ := 128

/-- What the parser accepts is JSON, and means what JSON means. -/
def ReadsJson : Prop :=
  ∀ raw j, fromSlice raw = .ok j → Json.read Json.textLeaf recursionLimit raw = some j

variable {fromSlice} {e : Engine} (order : e.RangeOrder)

theorem policyResp_readable : Json.Readable recursionLimit (Sigil.policyResp e order).encode := by
  have hstrings : ∀ (xs : Slice String) (depth : ℕ),
      Json.Readable (depth + 1) (Sigil.encodeStrings xs) := by
    intro xs depth
    cases xs with
    | nil => exact .null
    | of xs =>
      refine .arr fun j hj => ?_
      obtain ⟨s, -, rfl⟩ := List.mem_map.mp hj
      exact .str s
  refine .obj fun f hf => ?_
  simp only [List.mem_cons, List.not_mem_nil, or_false] at hf
  rcases hf with rfl | rfl | rfl
  · exact .str _
  · exact .bool _
  · refine .arr fun j hj => ?_
    obtain ⟨rule, -, rfl⟩ := List.mem_map.mp hj
    refine .obj fun f hf => ?_
    simp only [List.mem_cons, List.not_mem_nil, or_false] at hf
    rcases hf with rfl | rfl
    · exact .str _
    · exact hstrings _ _

/-- A chunked body is not taken for a policy, wherever it breaks off. -/
theorem decode_chunked_take (hreads : ReadsJson fromSlice) {body : Bytes} (hbody : body ≠ [])
    {k : ℕ} {j : Json} (h : fromSlice ((Sigil.chunked body).take k) = .ok j)
    (resp : PolicyResponse) : decodePolicyResponse j ≠ .ok resp := by
  obtain ⟨b, rest, hsize, hb⟩ := Sigil.digits_cons (List.length_pos_iff.mpr hbody).ne'
  have hread := hreads _ _ h
  rw [Sigil.chunked, hsize] at hread
  cases k with
  | zero => cases hread
  | succ k =>
    have hhex : ∀ b, Sigil.IsHexDigit b → Json.isSpace b = false ∧ b ∉ [91, 123] := by
      have hall : ∀ b ∈ utf8 "0123456789abcdef", Json.isSpace b = false ∧ b ∉ [91, 123] := by
        decide +kernel
      exact hall
    obtain ⟨hspace, hopen⟩ := hhex b hb
    obtain ⟨hobj, harr⟩ := Json.unstructured_of_head hspace hopen hread
    cases j with
    | obj fields => exact absurd rfl (hobj fields)
    | arr items => exact absurd rfl (harr items)
    | _ => rintro ⟨⟩

variable (fromSlice) in
theorem fetchPolicy_take_eq (header : Sigil.HeaderLines) (n : ℕ) :
    ∃ b, (Sigil.getPolicy header e order).length =
        b + (Sigil.framed (Sigil.jsonBody (Sigil.policyResp e order).encode)).length ∧
      fetchPolicy fromSlice (.ok ((Sigil.getPolicy header e order).take n)) =
        if n < b then .error "HTTP response has no header terminator" else (do
          let resp ← decodePolicyResponse (← fromSlice ((Sigil.framed
            (Sigil.jsonBody (Sigil.policyResp e order).encode)).take (n - b)))
          return {
            mtlsMode := resp.mtlsMode
            defaultAllow := resp.defaultAllow
            rules := resp.rules.map fun r =>
              { fromService := r.fromSvc, toServices := r.toSvcs } }) := by
  refine ⟨_, by rw [Sigil.getPolicy, Sigil.writeJson, List.length_append], ?_⟩
  have hbody := extractBody_take
    (Sigil.header_isLine header (Sigil.jsonBody (Sigil.policyResp e order).encode))
    (Sigil.framed (Sigil.jsonBody (Sigil.policyResp e order).encode)) n
  rw [fetchPolicy, Sigil.getPolicy, Sigil.writeJson]
  simp only [bind, Except.bind, hbody]
  split_ifs <;> rfl

theorem length_jsonBody (j : Json) : (Sigil.jsonBody j).length = j.text.length + 1 := by
  rw [Sigil.jsonBody, List.length_append]
  rfl

/-- A policy taken off the front of an answer is the one that was served, and all of it. -/
theorem fetchPolicy_take (hreads : ReadsJson fromSlice) (header : Sigil.HeaderLines) {n : ℕ}
    {snap : PolicySnapshot}
    (h : fetchPolicy fromSlice (.ok ((Sigil.getPolicy header e order).take n)) = .ok snap) :
    snap = snapshotOf order ∧ Sigil.policySize e ≤ 2048 ∧
      (∀ src ∈ order.sources, order.dests src ≠ []) ∧
      (Sigil.getPolicy header e order).length ≤ n + 1 := by
  obtain ⟨b, hlength, hfetch⟩ := fetchPolicy_take_eq fromSlice order header n
  rw [hfetch] at h
  split_ifs at h with hn
  cases hj : fromSlice ((Sigil.framed (Sigil.jsonBody (Sigil.policyResp e order).encode)).take
      (n - b)) with
  | error err => rw [hj] at h; cases h
  | ok j =>
    rw [hj] at h
    cases hresp : decodePolicyResponse j with
    | error err => simp only [bind, Except.bind, hresp] at h; cases h
    | ok resp =>
      simp only [bind, Except.bind, hresp] at h
      by_cases hsize : (Sigil.jsonBody (Sigil.policyResp e order).encode).length ≤
          Sigil.bufferBeforeChunkingSize
      · rw [Sigil.framed, if_pos hsize] at hj hlength
        obtain ⟨rfl, htext⟩ := Json.read_front (policyResp_readable order)
          (by decide : (utf8 "\n").all Json.isSpace = true) (hreads _ _ hj)
        have hdests : ∀ src ∈ order.sources, order.dests src ≠ [] := by
          intro src hsrc hnil
          exact decodePolicyResponse_ne_ok order hsrc hnil resp hresp
        have hdecoded := decodePolicyResponse_encode order hdests
        obtain rfl := Except.ok.inj (hresp.symm.trans hdecoded)
        refine ⟨?_, Sigil.jsonBody_length order ▸ hsize, hdests, ?_⟩
        · simpa [snapshotOf, pure, Except.pure, Function.comp_def] using (Except.ok.inj h).symm
        · have hline := length_jsonBody (Sigil.policyResp e order).encode
          have htext : (Sigil.policyResp e order).encode.text.length ≤ n - b := htext
          omega
      · have hne : Sigil.jsonBody (Sigil.policyResp e order).encode ≠ [] := by
          intro hnil
          exact hsize (hnil ▸ Nat.zero_le _)
        rw [Sigil.framed, if_neg hsize] at hj
        exact absurd hresp (decode_chunked_take hreads hne hj resp)

theorem dests_ne_nil_iff :
    (∀ src ∈ order.sources, order.dests src ≠ []) ↔
      ∀ src ∈ e.allow, ∃ dst, e.allow.Lists src dst := by
  have hdest : ∀ src ∈ e.allow, order.dests src ≠ [] ↔ ∃ dst, e.allow.Lists src dst := by
    intro src hsrc
    rw [← List.length_pos_iff, List.length_pos_iff_exists_mem]
    simp only [Engine.mem_dests order hsrc]
  simp only [Engine.mem_sources order]
  exact forall₂_congr hdest

/-- A parser that reads the text, its line feed there or not, sees the whole policy in an answer
that has lost no more than the line feed. -/
theorem fetchPolicy_take_ok (header : Sigil.HeaderLines) {n : ℕ}
    (hwhole : ∀ k, fromSlice ((Sigil.jsonBody (Sigil.policyResp e order).encode).take
      ((Sigil.policyResp e order).encode.text.length + k)) = .ok (Sigil.policyResp e order).encode)
    (hsize : Sigil.policySize e ≤ 2048) (hdests : ∀ src ∈ order.sources, order.dests src ≠ [])
    (hn : (Sigil.getPolicy header e order).length ≤ n + 1) :
    fetchPolicy fromSlice (.ok ((Sigil.getPolicy header e order).take n)) =
      .ok (snapshotOf order) := by
  obtain ⟨b, hlength, hfetch⟩ := fetchPolicy_take_eq fromSlice order header n
  have hplain : (Sigil.jsonBody (Sigil.policyResp e order).encode).length ≤
      Sigil.bufferBeforeChunkingSize := by
    rw [Sigil.jsonBody_length]
    exact hsize
  have hline := length_jsonBody (Sigil.policyResp e order).encode
  rw [Sigil.framed, if_pos hplain] at hlength hfetch
  obtain ⟨k, hk⟩ := Nat.exists_eq_add_of_le (by omega :
    (Sigil.policyResp e order).encode.text.length ≤ n - b)
  rw [hfetch, if_neg (by omega), hk, hwhole]
  simp [bind, Except.bind, decodePolicyResponse_encode order hdests, snapshotOf, pure,
    Except.pure, Function.comp_def]

end Fetch

/-- However much of the answer arrives, a policy taken off it is the engine's; and one is taken
off exactly if nothing but the final line feed is missing, the body is not chunked and every
source has a destination. -/
theorem fetches_front_iff (fromSlice : Bytes → Except String Json) (e : Engine)
    (order : e.RangeOrder) (header : Sigil.HeaderLines) (n : ℕ) (hreads : ReadsJson fromSlice)
    (hwhole : ∀ k, fromSlice ((Sigil.jsonBody (Sigil.policyResp e order).encode).take
      ((Sigil.policyResp e order).encode.text.length + k)) =
        .ok (Sigil.policyResp e order).encode) :
    (∀ snap, fetchPolicy fromSlice (.ok ((Sigil.getPolicy header e order).take n)) = .ok snap →
      snap.Carries e) ∧
    ((∃ snap, fetchPolicy fromSlice (.ok ((Sigil.getPolicy header e order).take n)) = .ok snap) ↔
      Sigil.policySize e ≤ 2048 ∧ (∀ src ∈ e.allow, ∃ dst, e.allow.Lists src dst) ∧
        (Sigil.getPolicy header e order).length ≤ n + 1) := by
  constructor
  · intro snap hsnap
    obtain ⟨rfl, -⟩ := fetchPolicy_take order hreads header hsnap
    exact snapshotOf_carries order
  · constructor
    · rintro ⟨snap, hsnap⟩
      obtain ⟨-, hsize, hdests, hn⟩ := fetchPolicy_take order hreads header hsnap
      exact ⟨hsize, (dests_ne_nil_iff order).mp hdests, hn⟩
    · rintro ⟨hsize, hdests, hn⟩
      have hlisted := (dests_ne_nil_iff order).mpr hdests
      exact ⟨_, fetchPolicy_take_ok order header hwhole hsize hlisted hn⟩

/-- The parser that reads what JSON is, and nothing else. -/
def jsonReader (raw : Bytes) : Except String Json :=
  match Json.read Json.textLeaf recursionLimit raw with
  | some j => .ok j
  | none => .error "expected value"

theorem jsonReader_eq_ok {raw : Bytes} {j : Json} :
    jsonReader raw = .ok j ↔ Json.read Json.textLeaf recursionLimit raw = some j := by
  rw [jsonReader]
  cases Json.read Json.textLeaf recursionLimit raw <;> simp

theorem jsonReader_whole {e : Engine} (order : e.RangeOrder) (k : ℕ) :
    jsonReader ((Sigil.jsonBody (Sigil.policyResp e order).encode).take
      ((Sigil.policyResp e order).encode.text.length + k)) =
        .ok (Sigil.policyResp e order).encode := by
  have hblank : ((utf8 "\n").take k).all Json.isSpace = true := by
    have hall : (utf8 "\n").all Json.isSpace = true := by decide
    rw [List.all_eq_true] at hall ⊢
    intro b hb
    exact hall b (List.mem_of_mem_take hb)
  rw [jsonReader_eq_ok, Sigil.jsonBody, List.take_length_add_append]
  exact (Json.read_append_iff (Json.read_text (policyResp_readable order)) (by rintro _ ⟨⟩)).mpr
    ⟨rfl, hblank⟩

/-- The line feed may get lost, and not the brace before it. -/
theorem servedConfig_front :
    (∃ snap, fetchPolicy jsonReader (.ok ((Sigil.getPolicy contentType _
        (listedOrder servedConfig)).take 176)) = .ok snap) ∧
      ¬ ∃ snap, fetchPolicy jsonReader (.ok ((Sigil.getPolicy contentType _
        (listedOrder servedConfig)).take 175)) = .ok snap := by
  have hfront := fun n => (fetches_front_iff jsonReader _ (listedOrder servedConfig) contentType n
    (fun _ _ => jsonReader_eq_ok.mp) (jsonReader_whole _)).2
  rw [hfront, hfront, ← dests_ne_nil_iff (listedOrder servedConfig)]
  decide +kernel

end Meshlite.Conduit
