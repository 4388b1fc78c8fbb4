import Meshlite.Library.Bytes

/-!
# Readers of a byte string

A reader takes something off the front of a byte string and leaves the rest. What matters
about it: that it takes at least one byte, and that bytes coming later do not change what
it has read.
-/

abbrev Reader (α : Type*) := Bytes → Option (α × Bytes)

namespace Reader

variable {α β : Type*} {p q : Reader α} {raw rest more : Bytes} {a : α}

/-- A reader consumes something. -/
def Shrinks (p : Reader α) : Prop :=
  ∀ raw a rest, p raw = some (a, rest) → rest.length < raw.length

/-- More bytes are left to the rest; a reader that came to the end may need them to be ones
that `stops` allows. -/
def Stable (stops : Bytes → Prop) (p : Reader α) : Prop :=
  ∀ raw a rest more, p raw = some (a, rest) → (rest = [] → stops more) →
    p (raw ++ more) = some (a, rest ++ more)

/-- A reader that knows its end by itself. -/
abbrev Settled (p : Reader α) : Prop := Stable (fun _ => True) p

theorem Settled.append (h : Settled p) (hread : p raw = some (a, rest)) (more : Bytes) :
    p (raw ++ more) = some (a, rest ++ more) :=
  h raw a rest more hread fun _ => trivial

theorem Settled.stable (h : Settled p) (stops : Bytes → Prop) : Stable stops p :=
  fun _ _ _ more hread _ => h.append hread more

theorem Stable.map {stops : Bytes → Prop} (h : Stable stops p) (f : α → β) :
    Stable stops fun raw => (p raw).map (Prod.map f id) := by
  intro raw b rest more hread hstops
  obtain ⟨⟨a, rest⟩, hp, heq⟩ := Option.map_eq_some_iff.mp hread
  obtain ⟨rfl, rfl⟩ := Prod.mk.inj heq
  have hmore := h raw a rest more hp hstops
  simp [hmore]

theorem Shrinks.map (h : Shrinks p) (f : α → β) :
    Shrinks fun raw => (p raw).map (Prod.map f id) := by
  intro raw b rest hread
  obtain ⟨⟨a, rest⟩, hp, heq⟩ := Option.map_eq_some_iff.mp hread
  obtain ⟨rfl, rfl⟩ := Prod.mk.inj heq
  exact h raw a rest hp

theorem Stable.bind {stops : Bytes → Prop} {r : α → Reader β} (hp : Stable stops p)
    (hr : ∀ a, Stable stops (r a)) (hnil : ∀ a b rest, r a [] = some (b, rest) → rest = []) :
    Stable stops fun raw => (p raw).bind fun a => r a.1 a.2 := by
  intro raw b rest more hread hstops
  obtain ⟨⟨a, mid⟩, hfirst, hread⟩ := Option.bind_eq_some_iff.mp hread
  have hfirst' := hp raw a mid more hfirst fun hmid => hstops (hnil a b rest (hmid ▸ hread))
  simp [hfirst', hr a mid b rest more hread hstops]

theorem Shrinks.bind {r : α → Reader β} (hp : Shrinks p) (hr : ∀ a, Shrinks (r a)) :
    Shrinks fun raw => (p raw).bind fun a => r a.1 a.2 := by
  intro raw b rest hread
  obtain ⟨⟨a, mid⟩, hfirst, hread⟩ := Option.bind_eq_some_iff.mp hread
  have hlt := hp raw a mid hfirst
  have hlt' := hr a mid b rest hread
  omega

/-- A fixed text. -/
def literal (text : Bytes) (a : α) : Reader α := fun raw =>
  if text.isPrefixOf raw then some (a, raw.drop text.length) else none

theorem literal_append (text : Bytes) (a : α) (rest : Bytes) :
    literal text a (text ++ rest) = some (a, rest) := by
  simp [literal]

theorem literal_eq_some {text : Bytes} {b : α} :
    literal text b raw = some (a, rest) ↔ raw = text ++ rest ∧ a = b := by
  rw [literal]
  constructor
  · intro h
    split_ifs at h with hpre
    obtain ⟨tail, rfl⟩ := List.isPrefixOf_iff_prefix.mp hpre
    rw [List.drop_left, Option.some.injEq, Prod.mk.injEq] at h
    exact ⟨by rw [h.2], h.1.symm⟩
  · rintro ⟨rfl, rfl⟩
    exact literal_append text a rest

theorem literal_settled (text : Bytes) (a : α) : Settled (literal text a) := by
  intro raw b rest more hread _
  obtain ⟨rfl, rfl⟩ := literal_eq_some.mp hread
  rw [List.append_assoc, literal_append]

theorem literal_shrinks {text : Bytes} (hne : text ≠ []) (a : α) :
    Shrinks (literal text a) := by
  intro raw b rest hread
  obtain ⟨rfl, rfl⟩ := literal_eq_some.mp hread
  have hpos := List.length_pos_iff.mpr hne
  rw [List.length_append]
  omega

section Space

variable (blank : UInt8 → Bool) {c : UInt8} {cs : Bytes}

theorem run_append (h : raw.dropWhile blank = [] → ∀ b ∈ more.head?, blank b = false) :
    (raw ++ more).takeWhile blank = raw.takeWhile blank ∧
      (raw ++ more).dropWhile blank = raw.dropWhile blank ++ more := by
  induction raw with
  | nil =>
    cases more with
    | nil => simp
    | cons b more => simp [h rfl b rfl]
  | cons a raw ih =>
    by_cases ha : blank a = true
    · simp only [List.dropWhile_cons_of_pos ha] at h
      simpa [ha] using ih h
    · simp [ha]

theorem dropWhile_append_cons (h : raw.dropWhile blank = c :: cs) (more : Bytes) :
    (raw ++ more).dropWhile blank = c :: (cs ++ more) := by
  rw [List.dropWhile_append, h]
  rfl

theorem length_of_dropWhile (h : raw.dropWhile blank = c :: cs) : cs.length < raw.length := by
  have hle := (List.dropWhile_suffix blank (l := raw)).length_le
  rw [h, List.length_cons] at hle
  omega

/-- Skips what is blank and goes on with the byte behind it. -/
def dispatch (f : UInt8 → Reader α) : Reader α := fun raw =>
  match raw.dropWhile blank with
  | [] => none
  | c :: rest => f c rest

variable {blank} {f : UInt8 → Reader α}

theorem dispatch_cons (h : raw.dropWhile blank = c :: cs) : dispatch blank f raw = f c cs := by
  simp [dispatch, h]

theorem dispatch_nil : dispatch blank f [] = none := rfl

theorem dispatch_cases (h : dispatch blank f raw = some (a, rest)) :
    ∃ c cs, raw.dropWhile blank = c :: cs ∧ f c cs = some (a, rest) := by
  rw [dispatch] at h
  cases hraw : raw.dropWhile blank with
  | nil => simp [hraw] at h
  | cons c cs =>
    simp only [hraw] at h
    exact ⟨c, cs, rfl, h⟩

theorem dispatch_stable {stops : Bytes → Prop} (hf : ∀ c, Stable stops (f c)) :
    Stable stops (dispatch blank f) := by
  intro raw a rest more hread hstops
  obtain ⟨c, cs, hraw, hread⟩ := dispatch_cases hread
  rw [dispatch_cons (dropWhile_append_cons blank hraw more)]
  exact hf c cs a rest more hread hstops

theorem dispatch_shrinks
    (hf : ∀ c cs a rest, f c cs = some (a, rest) → rest.length ≤ cs.length) :
    Shrinks (dispatch blank f) := by
  intro raw a rest hread
  obtain ⟨c, cs, hraw, hread⟩ := dispatch_cases hread
  have hlt := length_of_dropWhile blank hraw
  have hle := hf c cs a rest hread
  omega

/-- The byte `b`, behind what is blank. -/
def symbol (blank : UInt8 → Bool) (b : UInt8) : Reader Unit :=
  dispatch blank fun c rest => if c = b then some ((), rest) else none

theorem symbol_settled (b : UInt8) : Settled (symbol blank b) := by
  refine dispatch_stable fun c raw u rest more hread _ => ?_
  split_ifs at hread ⊢
  obtain ⟨rfl, rfl⟩ := Prod.mk.inj (Option.some.inj hread)
  rfl

theorem symbol_shrinks (b : UInt8) : Shrinks (symbol blank b) := by
  refine dispatch_shrinks fun c raw u rest hread => ?_
  split_ifs at hread
  obtain ⟨rfl, rfl⟩ := Prod.mk.inj (Option.some.inj hread)
  exact le_rfl

end Space

section Separated

variable (blank : UInt8 → Bool) (elem : Reader α) (comma close : UInt8)

/-- Elements with a comma between them, up to the closing byte. -/
def separated : ℕ → Reader (List α)
  | 0, _ => none
  | n + 1, raw => (elem raw).bind fun (a, rest) =>
    match rest.dropWhile blank with
    | [] => none
    | c :: rest =>
      if c = close then some ([a], rest)
      else if c = comma then (separated n rest).map (Prod.map (a :: ·) id)
      else none

/-- What stands between the opening byte and the closing one: nothing, or elements. -/
def enclosed (n : ℕ) : Reader (List α) := fun raw =>
  match raw.dropWhile blank with
  | [] => none
  | c :: rest => if c = close then some ([], rest) else separated blank elem comma close n raw

variable {blank elem comma close} {stops : Bytes → Prop} {as : List α} {n m : ℕ}

theorem separated_cases (h : separated blank elem comma close (n + 1) raw = some (as, rest)) :
    ∃ a mid c tail, elem raw = some (a, mid) ∧ mid.dropWhile blank = c :: tail ∧
      (c = close ∧ as = [a] ∧ rest = tail ∨
        c ≠ close ∧ c = comma ∧ ∃ as', separated blank elem comma close n tail = some (as', rest) ∧
          as = a :: as') := by
  rw [separated, Option.bind_eq_some_iff] at h
  obtain ⟨⟨a, mid⟩, helem, h⟩ := h
  cases hmid : mid.dropWhile blank with
  | nil => simp [hmid] at h
  | cons c tail =>
    refine ⟨a, mid, c, tail, helem, hmid, ?_⟩
    simp only [hmid] at h
    split_ifs at h with hclose hcomma
    · obtain ⟨rfl, rfl⟩ := Prod.mk.inj (Option.some.inj h)
      exact Or.inl ⟨hclose, rfl, rfl⟩
    · obtain ⟨⟨as', rest'⟩, hrest, heq⟩ := Option.map_eq_some_iff.mp h
      obtain ⟨rfl, rfl⟩ := Prod.mk.inj heq
      exact Or.inr ⟨hclose, hcomma, as', hrest, rfl⟩

theorem separated_close {c : UInt8} {mid tail : Bytes} (helem : elem raw = some (a, mid))
    (hmid : mid.dropWhile blank = c :: tail) (hclose : c = close) :
    separated blank elem comma close (n + 1) raw = some ([a], tail) := by
  simp [separated, helem, hmid, hclose]

theorem separated_comma {c : UInt8} {mid tail : Bytes} (helem : elem raw = some (a, mid))
    (hmid : mid.dropWhile blank = c :: tail) (hne : c ≠ close) (hcomma : c = comma)
    (hrest : separated blank elem comma close n tail = some (as, rest)) :
    separated blank elem comma close (n + 1) raw = some (a :: as, rest) := by
  subst hcomma
  simp [separated, helem, hmid, hne, hrest]

theorem separated_settled (helem : Stable stops elem) :
    ∀ n, Settled (separated blank elem comma close n) := by
  intro n
  induction n with
  | zero => intro raw as rest more hread
            simp [separated] at hread
  | succ n ih =>
    intro raw as rest more hread _
    obtain ⟨a, mid, c, tail, hread, hmid, hcases⟩ := separated_cases hread
    have hne : mid ≠ [] := by
      rintro rfl
      simp at hmid
    have hread' := helem raw a mid more hread fun hnil => absurd hnil hne
    have hmid' := dropWhile_append_cons blank hmid more
    rcases hcases with ⟨hclose, rfl, rfl⟩ | ⟨hclose, hcomma, as', hrest, rfl⟩
    · exact separated_close hread' hmid' hclose
    · exact separated_comma hread' hmid' hclose hcomma (ih.append hrest more)

theorem separated_shrinks (helem : Shrinks elem) :
    ∀ n, Shrinks (separated blank elem comma close n) := by
  intro n
  induction n with
  | zero => intro raw as rest hread
            simp [separated] at hread
  | succ n ih =>
    intro raw as rest hread
    obtain ⟨a, mid, c, tail, hread, hmid, hcases⟩ := separated_cases hread
    have hfirst := helem raw a mid hread
    have hsep := length_of_dropWhile blank hmid
    rcases hcases with ⟨-, -, rfl⟩ | ⟨-, -, as', hrest, -⟩
    · omega
    · have hlast := ih tail as' rest hrest
      omega

theorem separated_of_le {elem' : Reader α} {bound : ℕ} (hshrinks : Shrinks elem)
    (helem : ∀ raw a rest, raw.length ≤ bound → elem raw = some (a, rest) →
      elem' raw = some (a, rest))
    (hread : separated blank elem comma close m raw = some (as, rest))
    (hbound : raw.length ≤ bound) (hn : raw.length < n) :
    separated blank elem' comma close n raw = some (as, rest) := by
  induction m generalizing n raw as with
  | zero => simp [separated] at hread
  | succ m ih =>
    obtain ⟨n, rfl⟩ : ∃ k, n = k + 1 := ⟨n - 1, by omega⟩
    obtain ⟨a, mid, c, tail, hread, hmid, hcases⟩ := separated_cases hread
    have hfirst := hshrinks raw a mid hread
    have hsep := length_of_dropWhile blank hmid
    have hread' := helem raw a mid hbound hread
    rcases hcases with ⟨hclose, rfl, rfl⟩ | ⟨hclose, hcomma, as', hrest, rfl⟩
    · exact separated_close hread' hmid hclose
    · exact separated_comma hread' hmid hclose hcomma (ih hrest (by omega) (by omega))

theorem enclosed_cases (h : enclosed blank elem comma close n raw = some (as, rest)) :
    ∃ c tail, raw.dropWhile blank = c :: tail ∧
      (c = close ∧ as = [] ∧ rest = tail ∨
        c ≠ close ∧ separated blank elem comma close n raw = some (as, rest)) := by
  rw [enclosed] at h
  cases hraw : raw.dropWhile blank with
  | nil => simp [hraw] at h
  | cons c tail =>
    refine ⟨c, tail, rfl, ?_⟩
    simp only [hraw] at h
    split_ifs at h with hclose
    · obtain ⟨rfl, rfl⟩ := Prod.mk.inj (Option.some.inj h)
      exact Or.inl ⟨hclose, rfl, rfl⟩
    · exact Or.inr ⟨hclose, h⟩

theorem enclosed_close {c : UInt8} {tail : Bytes} (hraw : raw.dropWhile blank = c :: tail)
    (hclose : c = close) : enclosed blank elem comma close n raw = some ([], tail) := by
  simp [enclosed, hraw, hclose]

theorem enclosed_separated {c : UInt8} {tail : Bytes} (hraw : raw.dropWhile blank = c :: tail)
    (hclose : c ≠ close) :
    enclosed blank elem comma close n raw = separated blank elem comma close n raw := by
  simp [enclosed, hraw, hclose]

theorem enclosed_settled (helem : Stable stops elem) (n : ℕ) :
    Settled (enclosed blank elem comma close n) := by
  intro raw as rest more hread _
  obtain ⟨c, tail, hraw, ⟨hclose, rfl, rfl⟩ | ⟨hclose, hread⟩⟩ := enclosed_cases hread
  · exact enclosed_close (dropWhile_append_cons blank hraw more) hclose
  · rw [enclosed_separated (dropWhile_append_cons blank hraw more) hclose]
    exact (separated_settled helem n).append hread more

theorem enclosed_shrinks (helem : Shrinks elem) (n : ℕ) :
    Shrinks (enclosed blank elem comma close n) := by
  intro raw as rest hread
  obtain ⟨c, tail, hraw, ⟨-, -, rfl⟩ | ⟨-, hread⟩⟩ := enclosed_cases hread
  · exact length_of_dropWhile blank hraw
  · exact separated_shrinks helem n raw as rest hread

theorem enclosed_of_le {elem' : Reader α} {bound : ℕ} (hshrinks : Shrinks elem)
    (helem : ∀ raw a rest, raw.length ≤ bound → elem raw = some (a, rest) →
      elem' raw = some (a, rest))
    (hread : enclosed blank elem comma close m raw = some (as, rest))
    (hbound : raw.length ≤ bound) (hn : raw.length < n) :
    enclosed blank elem' comma close n raw = some (as, rest) := by
  obtain ⟨c, tail, hraw, ⟨hclose, rfl, rfl⟩ | ⟨hclose, hread⟩⟩ := enclosed_cases hread
  · exact enclosed_close hraw hclose
  · rw [enclosed_separated hraw hclose]
    exact separated_of_le hshrinks helem hread hbound hn

section Joined

variable {t : β → Bytes} {g : β → α}

/-- A list of texts with commas between them. -/
def joined (comma : UInt8) : List Bytes → Bytes
  | [] => []
  | [text] => text
  | text :: texts => text ++ comma :: joined comma texts

theorem joined_cons (comma : UInt8) (text : Bytes) {texts : List Bytes} (hne : texts ≠ []) :
    joined comma (text :: texts) = text ++ comma :: joined comma texts := by
  cases texts with
  | nil => exact absurd rfl hne
  | cons => rfl

theorem joined_head (comma : UInt8) (c : UInt8) (cs : Bytes) (texts : List Bytes) :
    ∃ tail, joined comma ((c :: cs) :: texts) = c :: tail := by
  cases texts with
  | nil => exact ⟨cs, rfl⟩
  | cons => exact ⟨_, rfl⟩

theorem length_joined (comma : UInt8) (texts : List Bytes) :
    (texts.map List.length).sum ≤ (joined comma texts).length := by
  induction texts with
  | nil => rfl
  | cons text texts ih =>
    cases texts with
    | nil => simp [joined]
    | cons =>
      rw [joined_cons comma text (List.cons_ne_nil _ _), List.length_append, List.length_cons,
        List.map_cons, List.sum_cons]
      omega

/-- Elements that are read where a comma or the closing byte follows are read in a list. -/
theorem separated_joined (hcomma : blank comma = false) (hclose : blank close = false)
    (hne : comma ≠ close) {bs : List β} (hbs : bs ≠ [])
    (helem : ∀ b ∈ bs, ∀ c ∈ [comma, close], ∀ rest,
      elem (t b ++ c :: rest) = some (g b, c :: rest))
    (hn : bs.length ≤ n) :
    separated blank elem comma close n (joined comma (bs.map t) ++ close :: rest) =
      some (bs.map g, rest) := by
  induction bs generalizing n with
  | nil => exact absurd rfl hbs
  | cons b bs ih =>
    obtain ⟨n, rfl⟩ : ∃ k, n = k + 1 := ⟨n - 1, by simp at hn; omega⟩
    obtain ⟨hfirst, hlater⟩ := List.forall_mem_cons.mp helem
    by_cases hnil : bs = []
    · subst hnil
      exact separated_close (hfirst close (by simp) rest)
        (List.dropWhile_cons_of_neg (by simp [hclose])) rfl
    · rw [List.map_cons, joined_cons comma _ (by simpa using hnil), List.append_assoc,
        List.cons_append]
      exact separated_comma (hfirst comma (by simp) _)
        (List.dropWhile_cons_of_neg (by simp [hcomma])) hne rfl
        (ih hnil hlater (by simpa using hn))

/-- The same between an opening and a closing byte, if no element starts with the latter. -/
theorem enclosed_joined (hcomma : blank comma = false) (hclose : blank close = false)
    (hne : comma ≠ close) {bs : List β}
    (hstart : ∀ b ∈ bs, ∃ c cs, t b = c :: cs ∧ blank c = false ∧ c ≠ close)
    (helem : ∀ b ∈ bs, ∀ c ∈ [comma, close], ∀ rest,
      elem (t b ++ c :: rest) = some (g b, c :: rest))
    (hn : bs.length ≤ n) :
    enclosed blank elem comma close n (joined comma (bs.map t) ++ close :: rest) =
      some (bs.map g, rest) := by
  cases bs with
  | nil => exact enclosed_close (List.dropWhile_cons_of_neg (by simp [hclose])) rfl
  | cons b bs =>
    obtain ⟨c, cs, hc, hblank, hother⟩ := hstart b List.mem_cons_self
    obtain ⟨tail, htail⟩ := joined_head comma c cs (bs.map t)
    rw [← hc, ← List.map_cons] at htail
    have hraw : (joined comma ((b :: bs).map t) ++ close :: rest).dropWhile blank =
        c :: (tail ++ close :: rest) := by
      rw [htail, List.cons_append, List.dropWhile_cons_of_neg (by simp [hblank])]
    rw [enclosed_separated hraw hother]
    exact separated_joined hcomma hclose hne (List.cons_ne_nil _ _) helem hn

end Joined

end Separated

end Reader
