import Meshlite.Library.JsonText
import Meshlite.Library.Readers
import Meshlite.Library.Utf8

/-!
# Reading JSON text

The reader of Go's `encoding/json`: white space, literals, numbers, strings with their
escapes, arrays and objects up to a nesting depth. Invalid UTF-8 in a string and half a
surrogate pair are read as U+FFFD; a number is kept as its text.
-/

namespace Json

open Bytes Reader

def isSpace (b : UInt8) : Bool := b = 32 || b = 9 || b = 10 || b = 13

section Strings

/-- What a string is made of: bytes, and UTF-16 units written as `\u` escapes. -/
inductive Piece where
  | byte (b : UInt8)
  | unit (u : ℕ)

def hexValue (b : UInt8) : Option ℕ :=
  if 48 ≤ b ∧ b ≤ 57 then some (b.toNat - 48)
  else if 65 ≤ b ∧ b ≤ 70 then some (b.toNat - 55)
  else if 97 ≤ b ∧ b ≤ 102 then some (b.toNat - 87)
  else none

def hex4 (a b c d : UInt8) : Option ℕ := do
  return 4096 * (← hexValue a) + 256 * (← hexValue b) + 16 * (← hexValue c) + (← hexValue d)

/-- The byte that a backslash and `b` stand for. -/
def unescape (b : UInt8) : Option UInt8 :=
  if b = 34 ∨ b = 92 ∨ b = 47 then some b
  else if b = 98 then some 8
  else if b = 102 then some 12
  else if b = 110 then some 10
  else if b = 114 then some 13
  else if b = 116 then some 9
  else none

/-- The pieces up to the closing quote. -/
def pieces : Reader (List Piece)
  | [] => none
  | b :: rest =>
    if b = 34 then some ([], rest)
    else if b = 92 then
      match rest with
      | 117 :: h₁ :: h₂ :: h₃ :: h₄ :: rest => (hex4 h₁ h₂ h₃ h₄).bind fun u =>
        (pieces rest).map (Prod.map (.unit u :: ·) id)
      | e :: rest => (unescape e).bind fun b => (pieces rest).map (Prod.map (.byte b :: ·) id)
      | [] => none
    else if b < 32 then none
    else (pieces rest).map (Prod.map (.byte b :: ·) id)

def isHighSurrogate (u : ℕ) : Bool := 0xD800 ≤ u && u < 0xDC00

def isLowSurrogate (u : ℕ) : Bool := 0xDC00 ≤ u && u < 0xE000

/-- The character of a unit that is not half of a pair. -/
def unitChar (u : ℕ) : Char :=
  if isHighSurrogate u || isLowSurrogate u then '\uFFFD' else Char.ofNat u

def pairChar (high low : ℕ) : Char := Char.ofNat ((high - 0xD800) * 1024 + (low - 0xDC00) + 0x10000)

/-- The text of the pieces, in which bytes may still be invalid. -/
def render : List Piece → Bytes
  | [] => []
  | .byte b :: ps => b :: render ps
  | [.unit u] => String.utf8EncodeChar (unitChar u)
  | .unit u :: .byte b :: ps => String.utf8EncodeChar (unitChar u) ++ b :: render ps
  | .unit u :: .unit v :: ps =>
    if isHighSurrogate u && isLowSurrogate v then String.utf8EncodeChar (pairChar u v) ++ render ps
    else String.utf8EncodeChar (unitChar u) ++ render (.unit v :: ps)

/-- The character that a byte string starts with, if its first bytes encode one. -/
def firstChar (raw : Bytes) : Option Char := ByteArray.utf8DecodeChar? ⟨raw.toArray⟩ 0

/-- The characters of a byte string, of which the first `skip` bytes belong to the character
before; a byte that starts none is U+FFFD. -/
def lossy : ℕ → Bytes → List Char
  | _, [] => []
  | skip + 1, _ :: bs => lossy skip bs
  | 0, b :: bs => match firstChar (b :: bs) with
    | some c => c :: lossy (c.utf8Size - 1) bs
    | none => '\uFFFD' :: lossy 0 bs

/-- A string behind its opening quote. -/
def string : Reader String := fun raw =>
  (pieces raw).map (Prod.map (fun ps => String.ofList (lossy 0 (render ps))) id)

end Strings

section Bodies

variable {b e h₁ h₂ h₃ h₄ : UInt8} {raw rest body body' : Bytes} {p : Piece} {ps ps' : List Piece}

/-- The bytes that one piece is written with. -/
inductive PieceOf : Bytes → Piece → Prop
  | unit {h₁ h₂ h₃ h₄ : UInt8} {u : ℕ} (hhex : hex4 h₁ h₂ h₃ h₄ = some u) :
      PieceOf [92, 117, h₁, h₂, h₃, h₄] (.unit u)
  | escape {e b : UInt8} (hescape : unescape e = some b) : PieceOf [92, e] (.byte b)
  | byte {b : UInt8} (hquote : b ≠ 34) (hescape : b ≠ 92) (hcontrol : ¬ b < 32) :
      PieceOf [b] (.byte b)

/-- What may stand between the quotes of a string. -/
inductive Body : Bytes → List Piece → Prop
  | nil : Body [] []
  | cons {front body : Bytes} {p : Piece} {ps : List Piece} :
      PieceOf front p → Body body ps → Body (front ++ body) (p :: ps)

theorem Body.singleton (h : PieceOf body p) : Body body [p] := by
  have hbody := Body.cons h .nil
  rwa [List.append_nil] at hbody

theorem Body.append (h : Body body ps) (h' : Body body' ps') :
    Body (body ++ body') (ps ++ ps') := by
  induction h with
  | nil => exact h'
  | cons hpiece _ ih =>
    rw [List.append_assoc]
    exact .cons hpiece ih

theorem unescape_ne (h : unescape e = some b) : e ≠ 117 := by
  rintro rfl
  have hnone : unescape 117 = none := by decide
  rw [hnone] at h
  cases h

theorem PieceOf.pieces_append (h : PieceOf body p) (rest : Bytes) :
    pieces (body ++ rest) = (pieces rest).map (Prod.map (p :: ·) id) := by
  cases h with
  | unit hhex =>
    rw [List.cons_append, pieces.eq_def]
    simp [hhex]
  | escape hescape =>
    rw [List.cons_append, pieces.eq_def]
    simp [unescape_ne hescape, hescape]
  | byte hquote hescape hcontrol =>
    rw [List.cons_append, pieces.eq_def]
    simp [hquote, hescape, hcontrol]

theorem Body.pieces_append (h : Body body ps) (rest : Bytes) :
    pieces (body ++ 34 :: rest) = some (ps, rest) := by
  induction h with
  | nil => rw [List.nil_append, pieces.eq_def]; rfl
  | cons hpiece _ ih => rw [List.append_assoc, hpiece.pieces_append, ih]; rfl

/-- The reader takes exactly what may stand between the quotes. -/
theorem pieces_eq_some_iff :
    pieces raw = some (ps, rest) ↔ ∃ body, Body body ps ∧ raw = body ++ 34 :: rest := by
  refine ⟨fun h => ?_, fun ⟨body, hbody, hraw⟩ => hraw ▸ hbody.pieces_append rest⟩
  fun_induction pieces raw generalizing ps rest with
  | case1 => cases h
  | case2 =>
    obtain ⟨rfl, rfl⟩ := Prod.mk.inj (Option.some.inj h)
    exact ⟨[], .nil, rfl⟩
  | case3 h₁ h₂ h₃ h₄ tail _ ih =>
    obtain ⟨u, hhex, h⟩ := Option.bind_eq_some_iff.mp h
    obtain ⟨⟨ps, _⟩, hread, heq⟩ := Option.map_eq_some_iff.mp h
    obtain ⟨rfl, rfl⟩ := Prod.mk.inj heq
    obtain ⟨body, hbody, rfl⟩ := ih hread
    exact ⟨_, .cons (.unit hhex) hbody, rfl⟩
  | case4 e tail _ _ ih =>
    obtain ⟨b, hescape, h⟩ := Option.bind_eq_some_iff.mp h
    obtain ⟨⟨ps, _⟩, hread, heq⟩ := Option.map_eq_some_iff.mp h
    obtain ⟨rfl, rfl⟩ := Prod.mk.inj heq
    obtain ⟨body, hbody, rfl⟩ := ih hread
    exact ⟨_, .cons (.escape hescape) hbody, rfl⟩
  | case5 => cases h
  | case6 => cases h
  | case7 b tail hquote hescape hcontrol ih =>
    obtain ⟨⟨ps, _⟩, hread, heq⟩ := Option.map_eq_some_iff.mp h
    obtain ⟨rfl, rfl⟩ := Prod.mk.inj heq
    obtain ⟨body, hbody, rfl⟩ := ih hread
    exact ⟨_, .cons (.byte hquote hescape hcontrol) hbody, rfl⟩

end Bodies

section Leaves

theorem pieces_settled : Settled pieces := by
  intro raw ps rest more hread _
  obtain ⟨body, hbody, rfl⟩ := pieces_eq_some_iff.mp hread
  exact pieces_eq_some_iff.mpr ⟨body, hbody, by simp⟩

theorem pieces_shrinks : Shrinks pieces := by
  intro raw ps rest hread
  obtain ⟨body, -, rfl⟩ := pieces_eq_some_iff.mp hread
  rw [List.length_append, List.length_cons]
  omega

theorem string_settled : Settled string := pieces_settled.map _

theorem string_shrinks : Shrinks string := pieces_shrinks.map _

/-- What is made of a string, behind its opening quote. -/
structure Leaf (σ : Type) where
  read : Reader σ
  settled : Settled read
  shrinks : Shrinks read

theorem Leaf.read_nil {σ : Type} (L : Leaf σ) : L.read [] = none := by
  cases hread : L.read [] with
  | none => rfl
  | some s => exact absurd (L.shrinks _ _ _ hread) (Nat.not_lt_zero _)

/-- The text of a string. -/
def textLeaf : Leaf String := ⟨string, string_settled, string_shrinks⟩

/-- A string, with the bytes between its quotes. -/
structure Quoted where
  text : String
  raw : Bytes

def quoted : Reader Quoted := fun raw =>
  (string raw).map fun s => (⟨s.1, raw.take (raw.length - (s.2.length + 1))⟩, s.2)

theorem quoted_settled : Settled quoted := by
  intro raw q rest more hread _
  obtain ⟨⟨s, _⟩, hs, heq⟩ := Option.map_eq_some_iff.mp hread
  obtain ⟨rfl, rfl⟩ := Prod.mk.inj heq
  rw [quoted, string_settled.append hs more, Option.map_some, List.length_append,
    List.length_append, List.take_append_of_le_length (by omega)]
  simp only [Option.some.injEq, Prod.mk.injEq, Quoted.mk.injEq, true_and, and_true]
  congr 1
  omega

theorem quoted_shrinks : Shrinks quoted := by
  intro raw q rest hread
  obtain ⟨⟨s, _⟩, hs, heq⟩ := Option.map_eq_some_iff.mp hread
  obtain ⟨-, rfl⟩ := Prod.mk.inj heq
  exact string_shrinks _ _ _ hs

/-- The text of a string and the bytes it is written with. -/
def quotedLeaf : Leaf Quoted := ⟨quoted, quoted_settled, quoted_shrinks⟩

end Leaves

section Numbers

def isDigit (b : UInt8) : Bool := 48 ≤ b && b ≤ 57

def digits : Reader Bytes := fun raw =>
  if raw.takeWhile isDigit = [] then none
  else some (raw.takeWhile isDigit, raw.dropWhile isDigit)

/-- One byte that may be missing, before others that may not. -/
def optional (p : UInt8 → Bool) : Reader Bytes
  | [] => none
  | b :: rest => if p b then some ([b], rest) else some ([], b :: rest)

/-- No leading zeros. -/
def intPart : Reader Bytes
  | [] => none
  | b :: rest => if b = 48 then some ([48], rest) else digits (b :: rest)

def fracPart : Reader Bytes
  | [] => some ([], [])
  | b :: rest =>
    if b = 46 then (digits rest).map (Prod.map (46 :: ·) id) else some ([], b :: rest)

def expDigits (e : UInt8) : Reader Bytes := fun raw =>
  (optional (fun b => b = 43 || b = 45) raw).bind fun sign =>
    (digits sign.2).map (Prod.map (e :: sign.1 ++ ·) id)

def expPart : Reader Bytes
  | [] => some ([], [])
  | e :: rest => if e = 101 ∨ e = 69 then expDigits e rest else some ([], e :: rest)

def numberText : Reader Bytes := fun raw =>
  (optional (· = 45) raw).bind fun sign => (intPart sign.2).bind fun int =>
    (fracPart int.2).bind fun frac =>
      (expPart frac.2).map (Prod.map (sign.1 ++ int.1 ++ frac.1 ++ ·) id)

/-- The characters of ASCII bytes. -/
def asciiText (raw : Bytes) : String := String.ofList (raw.map fun b => Char.ofNat b.toNat)

def number {σ : Type} : Reader (Json σ) := fun raw =>
  (numberText raw).map (Prod.map (fun text => num (asciiText text)) id)

end Numbers

section Values

variable {σ : Type} (L : Leaf σ)

/-- A member of an object: a string, a colon and a value. -/
def member (val : Reader (Json σ)) : Reader (σ × Json σ) := fun raw =>
  (symbol isSpace 34 raw).bind fun quote => (L.read quote.2).bind fun name =>
    (symbol isSpace 58 name.2).bind fun colon => (val colon.2).map (Prod.map (Prod.mk name.1) id)

/-- A value that is neither an array nor an object, from its first byte on. -/
def scalar (c : UInt8) : Reader (Json σ) := fun rest =>
  if c = 34 then (L.read rest).map (Prod.map str id)
  else if c = 110 then literal (utf8 "ull") null rest
  else if c = 116 then literal (utf8 "rue") (bool true) rest
  else if c = 102 then literal (utf8 "alse") (bool false) rest
  else number (c :: rest)

/-- A value with at most `depth` arrays and objects around each other. -/
def value : ℕ → ℕ → Reader (Json σ)
  | 0, _ => fun _ => none
  | n + 1, depth => dispatch isSpace fun c rest =>
    if c = 91 then
      if depth = 0 then none
      else (enclosed isSpace (value n (depth - 1)) 44 93 n rest).map (Prod.map arr id)
    else if c = 123 then
      if depth = 0 then none
      else (enclosed isSpace (member L (value n (depth - 1))) 44 125 n rest).map (Prod.map obj id)
    else scalar L c rest

/-- `json.Unmarshal`: one value with white space around it. -/
def read (depth : ℕ) (raw : Bytes) : Option (Json σ) :=
  (value L (raw.length + 1) depth raw).bind fun j => if j.2.all isSpace then some j.1 else none

end Values

/-- The nesting depth that `encoding/json` allows. -/
def maxNestingDepth : ℕ := 10000

section Settled

variable {σ : Type} {L : Leaf σ}

/-- Nothing that would be read as more of a number. -/
def EndsNumber (more : Bytes) : Prop :=
  ∀ b ∈ more.head?, isDigit b = false ∧ b ≠ 46 ∧ b ≠ 101 ∧ b ≠ 69

theorem digits_stable : Stable EndsNumber digits := by
  intro raw ds rest more hread hstops
  rw [digits] at hread ⊢
  split_ifs at hread with hnil
  obtain ⟨rfl, rfl⟩ := Prod.mk.inj (Option.some.inj hread)
  obtain ⟨htake, hdrop⟩ := run_append isDigit fun hend b hb => (hstops hend b hb).1
  rw [htake, hdrop, if_neg hnil]

theorem digits_nil : digits [] = none := rfl

theorem optional_settled (p : UInt8 → Bool) : Settled (optional p) := by
  intro raw sign rest more hread _
  cases raw with
  | nil => cases hread
  | cons b raw =>
    rw [List.cons_append, optional]
    rw [optional] at hread
    split_ifs at hread ⊢
    all_goals
      obtain ⟨rfl, rfl⟩ := Prod.mk.inj (Option.some.inj hread)
      rfl

theorem intPart_stable : Stable EndsNumber intPart := by
  intro raw ds rest more hread hstops
  cases raw with
  | nil => cases hread
  | cons b raw =>
    rw [List.cons_append, intPart]
    rw [intPart] at hread
    split_ifs at hread ⊢ with hzero
    · obtain ⟨rfl, rfl⟩ := Prod.mk.inj (Option.some.inj hread)
      rfl
    · exact digits_stable _ ds rest more hread hstops

theorem fracPart_stable : Stable EndsNumber fracPart := by
  intro raw ds rest more hread hstops
  cases raw with
  | nil =>
    obtain ⟨rfl, rfl⟩ := Prod.mk.inj (Option.some.inj hread)
    cases more with
    | nil => rfl
    | cons b more => exact if_neg (hstops rfl b rfl).2.1
  | cons b raw =>
    rw [List.cons_append, fracPart]
    rw [fracPart] at hread
    split_ifs at hread ⊢
    · exact digits_stable.map _ raw ds rest more hread hstops
    · obtain ⟨rfl, rfl⟩ := Prod.mk.inj (Option.some.inj hread)
      rfl

theorem expDigits_stable (e : UInt8) : Stable EndsNumber (expDigits e) :=
  ((optional_settled _).stable _).bind
    (r := fun sign rest => (digits rest).map (Prod.map (e :: sign ++ ·) id))
    (fun _ => digits_stable.map _) (by simp [digits_nil])

theorem expPart_stable : Stable EndsNumber expPart := by
  intro raw ds rest more hread hstops
  cases raw with
  | nil =>
    obtain ⟨rfl, rfl⟩ := Prod.mk.inj (Option.some.inj hread)
    cases more with
    | nil => rfl
    | cons b more => exact if_neg (not_or.mpr (hstops rfl b rfl).2.2)
  | cons b raw =>
    rw [List.cons_append, expPart]
    rw [expPart] at hread
    split_ifs at hread ⊢
    · exact expDigits_stable b raw ds rest more hread hstops
    · obtain ⟨rfl, rfl⟩ := Prod.mk.inj (Option.some.inj hread)
      rfl

theorem numberText_stable : Stable EndsNumber numberText := by
  have hfrac : ∀ sign int : Bytes, Stable EndsNumber fun raw => (fracPart raw).bind fun frac =>
      (expPart frac.2).map (Prod.map (sign ++ int ++ frac.1 ++ ·) id) := fun sign int =>
    fracPart_stable.bind (r := fun frac rest =>
      (expPart rest).map (Prod.map (sign ++ int ++ frac ++ ·) id))
      (fun _ => expPart_stable.map _) (by simp [expPart])
  have hint : ∀ sign : Bytes, Stable EndsNumber fun raw => (intPart raw).bind fun int =>
      (fracPart int.2).bind fun frac =>
        (expPart frac.2).map (Prod.map (sign ++ int.1 ++ frac.1 ++ ·) id) := fun sign =>
    intPart_stable.bind (hfrac sign) (by simp [fracPart, expPart])
  exact ((optional_settled _).stable _).bind hint (by simp [intPart])

theorem number_stable : Stable EndsNumber (@number σ) := numberText_stable.map _

/-- The value is no number. -/
def Delimited (j : Json σ) : Prop := ∀ text, j ≠ num text

theorem scalar_append {c : UInt8} {raw rest more : Bytes} {j : Json σ}
    (hread : scalar L c raw = some (j, rest))
    (hstops : rest = [] → Delimited j ∨ EndsNumber more) :
    scalar L c (raw ++ more) = some (j, rest ++ more) := by
  rw [scalar] at hread ⊢
  split_ifs at hread ⊢
  · exact Settled.append (L.settled.map str) hread more
  · exact (literal_settled _ _).append hread more
  · exact (literal_settled _ _).append hread more
  · exact (literal_settled _ _).append hread more
  · refine number_stable (c :: raw) j rest more hread fun hnil => (hstops hnil).resolve_left ?_
    obtain ⟨⟨text, _⟩, -, heq⟩ := Option.map_eq_some_iff.mp hread
    exact fun hj => hj _ (Prod.mk.inj heq).1.symm

theorem member_stable {val : Reader (Json σ)} (hval : Stable EndsNumber val)
    (hnil : val [] = none) : Stable EndsNumber (member L val) := by
  have hcolon : ∀ name : σ, Stable EndsNumber fun raw => (symbol isSpace 58 raw).bind
      fun colon => (val colon.2).map (Prod.map (Prod.mk name) id) := fun name =>
    ((symbol_settled _).stable _).bind
      (r := fun _ raw => (val raw).map (Prod.map (Prod.mk name) id))
      (fun _ => hval.map _) (by simp [hnil])
  have hname : Stable EndsNumber fun raw => (L.read raw).bind fun name =>
      (symbol isSpace 58 name.2).bind fun colon =>
        (val colon.2).map (Prod.map (Prod.mk name.1) id) :=
    (L.settled.stable _).bind hcolon (by simp [symbol, dispatch_nil])
  exact ((symbol_settled _).stable _).bind (fun _ => hname) (by simp [L.read_nil])

theorem value_nil (n depth : ℕ) : value L n depth [] = none := by
  cases n <;> rfl

/-- Only a number at the end of the bytes can be read on. -/
theorem value_append {n depth : ℕ} {raw rest more : Bytes} {j : Json σ}
    (hread : value L n depth raw = some (j, rest))
    (hstops : rest = [] → Delimited j ∨ EndsNumber more) :
    value L n depth (raw ++ more) = some (j, rest ++ more) := by
  induction n generalizing depth raw rest more j with
  | zero => cases hread
  | succ n ih =>
    have hval : Stable EndsNumber (value L n (depth - 1)) := fun _ _ _ _ hread hstops =>
      ih hread fun hnil => Or.inr (hstops hnil)
    rw [value] at hread ⊢
    obtain ⟨c, tail, hraw, hread⟩ := dispatch_cases hread
    rw [dispatch_cons (dropWhile_append_cons isSpace hraw more)]
    split_ifs at hread ⊢
    · exact Settled.append ((enclosed_settled hval n).map arr) hread more
    · have hmember : Stable EndsNumber (member L (value L n (depth - 1))) :=
        member_stable hval (value_nil _ _)
      exact Settled.append ((enclosed_settled hmember n).map obj) hread more
    · exact scalar_append hread hstops

end Settled

section Exact

/-- What a reader of numbers takes is what it answers. -/
def Exact (p : Reader Bytes) : Prop :=
  ∀ raw text rest, p raw = some (text, rest) → raw = text ++ rest

theorem digits_exact : Exact digits := by
  intro raw text rest hread
  rw [digits] at hread
  split_ifs at hread
  obtain ⟨rfl, rfl⟩ := Prod.mk.inj (Option.some.inj hread)
  exact List.takeWhile_append_dropWhile.symm

theorem optional_exact (p : UInt8 → Bool) : Exact (optional p) := by
  intro raw text rest hread
  cases raw with
  | nil => cases hread
  | cons b raw =>
    rw [optional] at hread
    split_ifs at hread
    all_goals
      obtain ⟨rfl, rfl⟩ := Prod.mk.inj (Option.some.inj hread)
      rfl

theorem intPart_exact : Exact intPart := by
  intro raw text rest hread
  cases raw with
  | nil => cases hread
  | cons b raw =>
    rw [intPart] at hread
    split_ifs at hread with hzero
    · obtain ⟨rfl, rfl⟩ := Prod.mk.inj (Option.some.inj hread)
      rw [hzero]
      rfl
    · exact digits_exact _ _ _ hread

theorem fracPart_exact : Exact fracPart := by
  intro raw text rest hread
  cases raw with
  | nil =>
    obtain ⟨rfl, rfl⟩ := Prod.mk.inj (Option.some.inj hread)
    rfl
  | cons b raw =>
    rw [fracPart] at hread
    split_ifs at hread with hdot
    · obtain ⟨⟨ds, _⟩, hdigits, heq⟩ := Option.map_eq_some_iff.mp hread
      obtain ⟨rfl, rfl⟩ := Prod.mk.inj heq
      rw [hdot, digits_exact _ _ _ hdigits]
      rfl
    · obtain ⟨rfl, rfl⟩ := Prod.mk.inj (Option.some.inj hread)
      rfl

theorem expPart_exact : Exact expPart := by
  intro raw text rest hread
  cases raw with
  | nil =>
    obtain ⟨rfl, rfl⟩ := Prod.mk.inj (Option.some.inj hread)
    rfl
  | cons e raw =>
    rw [expPart] at hread
    split_ifs at hread
    · obtain ⟨⟨sign, mid⟩, hsign, hread⟩ := Option.bind_eq_some_iff.mp hread
      obtain ⟨⟨ds, _⟩, hdigits, heq⟩ := Option.map_eq_some_iff.mp hread
      obtain ⟨rfl, rfl⟩ := Prod.mk.inj heq
      have hmid : mid = ds ++ _ := digits_exact _ _ _ hdigits
      rw [optional_exact _ _ _ _ hsign, hmid]
      simp
    · obtain ⟨rfl, rfl⟩ := Prod.mk.inj (Option.some.inj hread)
      rfl

theorem intPart_ne_nil {raw text rest : Bytes} (hread : intPart raw = some (text, rest)) :
    text ≠ [] := by
  cases raw with
  | nil => cases hread
  | cons b raw =>
    rw [intPart, digits] at hread
    split_ifs at hread with _ hnil
    · obtain ⟨rfl, -⟩ := Prod.mk.inj (Option.some.inj hread)
      nofun
    · obtain ⟨rfl, -⟩ := Prod.mk.inj (Option.some.inj hread)
      exact hnil

theorem numberText_exact {raw text rest : Bytes} (hread : numberText raw = some (text, rest)) :
    raw = text ++ rest ∧ text ≠ [] := by
  obtain ⟨⟨sign, raw₁⟩, hsign, hread⟩ := Option.bind_eq_some_iff.mp hread
  obtain ⟨⟨int, raw₂⟩, hint, hread⟩ := Option.bind_eq_some_iff.mp hread
  obtain ⟨⟨frac, raw₃⟩, hfrac, hread⟩ := Option.bind_eq_some_iff.mp hread
  obtain ⟨⟨exp, _⟩, hexp, heq⟩ := Option.map_eq_some_iff.mp hread
  obtain ⟨rfl, rfl⟩ := Prod.mk.inj heq
  refine ⟨?_, by simp [intPart_ne_nil hint]⟩
  calc raw = sign ++ raw₁ := optional_exact _ _ _ _ hsign
    _ = sign ++ (int ++ raw₂) := by rw [← intPart_exact _ _ _ hint]
    _ = sign ++ (int ++ (frac ++ raw₃)) := by rw [← fracPart_exact _ _ _ hfrac]
    _ = sign ++ (int ++ (frac ++ (exp ++ _))) := by rw [← expPart_exact _ _ _ hexp]
    _ = _ := by simp

end Exact

section Fuel

variable {σ : Type} {L : Leaf σ} {raw rest : Bytes} {j : Json σ} {n m depth : ℕ}

theorem number_shrinks : Shrinks (@number σ) := by
  intro raw j rest hread
  obtain ⟨⟨text, _⟩, htext, heq⟩ := Option.map_eq_some_iff.mp hread
  obtain ⟨-, rfl⟩ := Prod.mk.inj heq
  obtain ⟨rfl, hne⟩ := numberText_exact htext
  have hpos := List.length_pos_iff.mpr hne
  simp only [List.length_append, id_eq]
  omega

theorem member_shrinks {val : Reader (Json σ)} (hval : Shrinks val) :
    Shrinks (member L val) := by
  have hcolon : ∀ name : σ, Shrinks fun raw => (symbol isSpace 58 raw).bind fun colon =>
      (val colon.2).map (Prod.map (Prod.mk name) id) := fun name =>
    (symbol_shrinks 58).bind (r := fun _ raw => (val raw).map (Prod.map (Prod.mk name) id))
      fun _ => hval.map _
  exact (symbol_shrinks 34).bind fun _ => L.shrinks.bind hcolon

theorem member_of_le {val val' : Reader (Json σ)} {bound : ℕ} {m : σ × Json σ}
    (hval : ∀ raw j rest, raw.length ≤ bound → val raw = some (j, rest) →
      val' raw = some (j, rest))
    (hraw : raw.length ≤ bound) (hread : member L val raw = some (m, rest)) :
    member L val' raw = some (m, rest) := by
  obtain ⟨⟨quote, raw₁⟩, hquote, hread⟩ := Option.bind_eq_some_iff.mp hread
  obtain ⟨⟨name, raw₂⟩, hname, hread⟩ := Option.bind_eq_some_iff.mp hread
  obtain ⟨⟨colon, raw₃⟩, hcolon, hread⟩ := Option.bind_eq_some_iff.mp hread
  obtain ⟨⟨j, _⟩, hj, heq⟩ := Option.map_eq_some_iff.mp hread
  have hlt₁ := symbol_shrinks _ _ _ _ hquote
  have hlt₂ := L.shrinks _ _ _ hname
  have hlt₃ := symbol_shrinks _ _ _ _ hcolon
  have hj' := hval raw₃ j _ (by simp only at hlt₂ hlt₃; omega) hj
  simp only [member, hquote, Option.bind_some, hname, hcolon, hj', Option.map_some, heq]

theorem scalar_length (c : UInt8) (hread : scalar L c raw = some (j, rest)) :
    rest.length ≤ raw.length := by
  rw [scalar] at hread
  split_ifs at hread
  · exact (L.shrinks.map str raw j rest hread).le
  · exact (literal_shrinks (by decide) _ raw j rest hread).le
  · exact (literal_shrinks (by decide) _ raw j rest hread).le
  · exact (literal_shrinks (by decide) _ raw j rest hread).le
  · exact Nat.lt_succ_iff.mp (number_shrinks (c :: raw) j rest hread)

theorem value_shrinks (n depth : ℕ) : Shrinks (value L n depth) := by
  induction n generalizing depth with
  | zero =>
    intro raw j rest hread
    cases hread
  | succ n ih =>
    rw [value]
    refine dispatch_shrinks fun c raw j rest hread => ?_
    split_ifs at hread
    · exact ((enclosed_shrinks (ih _) n).map arr raw j rest hread).le
    · exact ((enclosed_shrinks (member_shrinks (ih _)) n).map obj raw j rest hread).le
    · exact scalar_length c hread

/-- The fuel is enough once it exceeds the length: no other amount reads more. -/
theorem value_of_le (hread : value L m depth raw = some (j, rest)) (hn : raw.length < n) :
    value L n depth raw = some (j, rest) := by
  induction m generalizing n depth raw j rest with
  | zero => cases hread
  | succ m ih =>
    obtain ⟨n, rfl⟩ : ∃ k, n = k + 1 := ⟨n - 1, by omega⟩
    rw [value] at hread ⊢
    obtain ⟨c, tail, hraw, hread⟩ := dispatch_cases hread
    have hlen := length_of_dropWhile isSpace hraw
    rw [dispatch_cons hraw]
    have hval : ∀ raw j rest, raw.length ≤ tail.length →
        value L m (depth - 1) raw = some (j, rest) → value L n (depth - 1) raw = some (j, rest) :=
      fun raw j rest hle hread => ih hread (by omega)
    split_ifs at hread ⊢
    · obtain ⟨⟨js, rest'⟩, hitems, heq⟩ := Option.map_eq_some_iff.mp hread
      rw [enclosed_of_le (value_shrinks m _) hval hitems le_rfl (by omega), Option.map_some, heq]
    · obtain ⟨⟨fs, rest'⟩, hfields, heq⟩ := Option.map_eq_some_iff.mp hread
      rw [enclosed_of_le (member_shrinks (value_shrinks m _))
        (fun _ _ _ hle => member_of_le hval hle) hfields le_rfl (by omega), Option.map_some, heq]
    · exact hread

end Fuel

section Read

variable {σ : Type} {L : Leaf σ} {raw more : Bytes} {j j' : Json σ} {depth : ℕ}

theorem read_eq_some : read L depth raw = some j ↔
    ∃ n rest, value L n depth raw = some (j, rest) ∧ rest.all isSpace = true := by
  constructor
  · intro h
    obtain ⟨⟨j', rest⟩, hvalue, h⟩ := Option.bind_eq_some_iff.mp h
    simp only [Option.ite_none_right_eq_some, Option.some.injEq] at h
    obtain ⟨hblank, rfl⟩ := h
    exact ⟨_, rest, hvalue, hblank⟩
  · rintro ⟨n, rest, hvalue, hblank⟩
    rw [read, value_of_le hvalue (Nat.lt_succ_self _), Option.bind_some]
    exact if_pos hblank

/-- A text that is a value by itself is one with more behind it exactly if that is blank. -/
theorem read_append_iff (h : read L depth raw = some j) (hj : Delimited j) :
    read L depth (raw ++ more) = some j' ↔ j = j' ∧ more.all isSpace = true := by
  obtain ⟨n, rest, hvalue, hblank⟩ := read_eq_some.mp h
  have hvalue' : value L n depth (raw ++ more) = some (j, rest ++ more) :=
    value_append hvalue fun _ => Or.inl hj
  constructor
  · intro h'
    obtain ⟨m, rest', hread, hblank'⟩ := read_eq_some.mp h'
    have hone : value L (m + n + (raw ++ more).length + 1) depth (raw ++ more) = some (j', rest') :=
      value_of_le hread (by omega)
    rw [value_of_le hvalue' (by omega)] at hone
    obtain ⟨rfl, rfl⟩ := Prod.mk.inj (Option.some.inj hone)
    rw [List.all_append, Bool.and_eq_true] at hblank'
    exact ⟨rfl, hblank'.2⟩
  · rintro ⟨rfl, hmore⟩
    exact read_eq_some.mpr ⟨n, _, hvalue', by rw [List.all_append, hblank, hmore]; rfl⟩

end Read

end Json
