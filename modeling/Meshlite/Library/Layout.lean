import Meshlite.Library.Endian
import Mathlib.Logic.Equiv.Prod

/-!
# Records in memory

A layout places a value at an offset: its fields one after another, each moved up to a
multiple of its alignment. The bytes skipped hold whatever was there before, so a writer is
given them and a reader does not look at them. A record is placed at offset 0, and its size is
rounded up to its alignment.
-/

/-- The bytes between `off` and the next multiple of `align`. -/
def padLength (align off : ℕ) : ℕ := (align - off % align) % align

/-- What is found in the `n` bytes from `off` on. -/
def skipped (fill : ℕ → Byte) (off n : ℕ) : List Byte := (List.range' off n).map fill

@[simp] theorem length_skipped (fill : ℕ → Byte) (off n : ℕ) : (skipped fill off n).length = n := by
  simp [skipped]

/-- How values of a type lie in memory. -/
structure Layout (α : Type*) where
  align : ℕ
  /-- the offset behind a value placed from the given one on -/
  stop : ℕ → ℕ
  write : (ℕ → Byte) → ℕ → α → List Byte
  read : List Byte → ℕ → α
  length_write : ∀ fill off a, off + (write fill off a).length = stop off
  read_write : ∀ fill before a after,
    read (before ++ write fill before.length a ++ after) before.length = a

namespace Layout

variable {α β : Type*}

/-- A scalar is aligned to its own width. -/
def scalar (width : ℕ) (encode : α → List Byte) (decode : List Byte → α)
    (length_encode : ∀ a, (encode a).length = width) (decode_encode : ∀ a, decode (encode a) = a) :
    Layout α where
  align := width
  stop off := off + padLength width off + width
  write fill off a := skipped fill off (padLength width off) ++ encode a
  read mem off := decode ((mem.drop (off + padLength width off)).take width)
  length_write fill off a := by
    rw [List.length_append, length_skipped, length_encode, Nat.add_assoc]
  read_write fill before a after := by
    have hdrop : (before ++ (skipped fill before.length (padLength width before.length) ++
        encode a) ++ after).drop (before.length + padLength width before.length) =
        encode a ++ after := by
      rw [List.append_assoc, List.append_assoc, ← List.append_assoc before]
      exact List.drop_left' (by simp)
    rw [hdrop, List.take_left' (length_encode a), decode_encode]

/-- One field after another. -/
def seq (l : Layout α) (m : Layout β) : Layout (α × β) where
  align := max l.align m.align
  stop off := m.stop (l.stop off)
  write fill off p := l.write fill off p.1 ++ m.write fill (l.stop off) p.2
  read mem off := (l.read mem off, m.read mem (l.stop off))
  length_write fill off p := by
    rw [List.length_append, ← Nat.add_assoc, l.length_write, m.length_write]
  read_write fill before p after := by
    have hfirst := l.read_write fill before p.1
      (m.write fill (l.stop before.length) p.2 ++ after)
    have hsecond := m.read_write fill (before ++ l.write fill before.length p.1) p.2 after
    rw [List.length_append, l.length_write] at hsecond
    simp only [List.append_assoc] at hfirst hsecond ⊢
    rw [hfirst, hsecond]

/-- A type whose values are those of another under different names. -/
def map (l : Layout α) (f : α ≃ β) : Layout β where
  align := l.align
  stop := l.stop
  write fill off b := l.write fill off (f.symm b)
  read mem off := f (l.read mem off)
  length_write fill off b := l.length_write fill off (f.symm b)
  read_write fill before b after := by
    rw [l.read_write, Equiv.apply_symm_apply]

section Parts

variable (l : Layout α) (m : Layout β) (f : α ≃ β) (fill : ℕ → Byte) (off : ℕ)

@[simp] theorem seq_align : (l.seq m).align = max l.align m.align := rfl

@[simp] theorem seq_stop : (l.seq m).stop off = m.stop (l.stop off) := rfl

@[simp] theorem seq_write (p : α × β) :
    (l.seq m).write fill off p = l.write fill off p.1 ++ m.write fill (l.stop off) p.2 := rfl

@[simp] theorem map_align : (l.map f).align = l.align := rfl

@[simp] theorem map_stop : (l.map f).stop off = l.stop off := rfl

@[simp] theorem map_write (b : β) : (l.map f).write fill off b = l.write fill off (f.symm b) := rfl

end Parts

section Scalars

variable (e : Endian)

def u8 : Layout Byte :=
  scalar 1 (fun b => [b]) (fun bytes => bytes.headD 0) (fun _ => rfl) fun _ => rfl

def u16 : Layout (BitVec 16) :=
  scalar 2 e.store16 e.ofBytes16 e.length_store16 e.ofBytes16_store16

def u32 : Layout (BitVec 32) :=
  scalar 4 e.store32 e.ofBytes32 e.length_store32 e.ofBytes32_store32

end Scalars

variable (l : Layout α)

/-- `size_of`: room for the fields, and for the next record to be aligned. -/
def size : ℕ := l.stop 0 + padLength l.align (l.stop 0)

/-- The bytes of a record. -/
def image (fill : ℕ → Byte) (a : α) : List Byte :=
  l.write fill 0 a ++ skipped fill (l.stop 0) (padLength l.align (l.stop 0))

/-- A record read from the start of a buffer, unless the buffer is too short for one. -/
def tryRead (mem : List Byte) : Option α :=
  if mem.length < l.size then none else some (l.read mem 0)

theorem length_image (fill : ℕ → Byte) (a : α) : (l.image fill a).length = l.size := by
  have hwrite := l.length_write fill 0 a
  rw [Nat.zero_add] at hwrite
  rw [image, List.length_append, length_skipped, hwrite, size]

/-- Whatever the padding holds and whatever follows, the record that was written is read. -/
theorem tryRead_image (fill : ℕ → Byte) (a : α) (after : List Byte) :
    l.tryRead (l.image fill a ++ after) = some a := by
  have hlen : ¬ (l.image fill a ++ after).length < l.size := by
    rw [List.length_append, length_image]
    omega
  have hread : l.read (l.image fill a ++ after) 0 = a := by
    have h := l.read_write fill [] a
      (skipped fill (l.stop 0) (padLength l.align (l.stop 0)) ++ after)
    simpa [image] using h
  rw [tryRead, if_neg hlen, hread]

theorem image_inj {fill fill' : ℕ → Byte} {a b : α} (h : l.image fill a = l.image fill' b) :
    a = b := by
  have ha := l.tryRead_image fill a []
  rw [h, l.tryRead_image fill' b []] at ha
  exact (Option.some.inj ha).symm

end Layout
