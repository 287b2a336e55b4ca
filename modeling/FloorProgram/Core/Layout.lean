import FloorProgram.Core.Bytes

/-!
# Layouts

How a value of a fixed size stands in a buffer: its fields one after the other, with no gaps other
than the padding that is written out.  A layout carries the proofs that it always takes the same
number of bytes, and that what fits is read back; the combinators build both for a whole record.

* `num`, `int`, `big`, `flag`, `pad` — the fields: numbers, little- or big-endian, integers, flags
  and padding.
* `seq`, `vector`, `via` — fields in sequence, arrays, and structures.
* `read_slice` — a value is read from the place where it stands.
* `fill` — a buffer is filled by copying the fields into it one by one.
-/

open Bytes

/-- How the values of a type stand in a buffer, and which of them fit. -/
structure Layout (α : Type) where
  size : ℕ
  Fits : α → Prop
  write : α → List UInt8
  read : List UInt8 → α
  length_write : ∀ a, (write a).length = size
  read_write : ∀ a, Fits a → read (write a) = a

namespace Layout

variable {α β : Type}

/-! ## Fields -/

/-- A number of `w` bytes, least significant first. -/
def num (w : ℕ) : Layout ℕ where
  size := w
  Fits n := n < 256 ^ w
  write := leBytes w
  read := leNat
  length_write := length_leBytes w
  read_write _ h := leNat_leBytes_of_lt h

/-- A number of `w` bytes, most significant first. -/
def big (w : ℕ) : Layout ℕ where
  size := w
  Fits n := n < 256 ^ w
  write := beBytes w
  read := beNat
  length_write := length_beBytes w
  read_write _ h := beNat_beBytes_of_lt h

/-- An integer of `w` bytes in two's complement. -/
def int (w : ℕ) : Layout ℤ where
  size := w
  Fits z := -256 ^ w ≤ 2 * z ∧ 2 * z < 256 ^ w
  write := leIntBytes w
  read := leInt
  length_write := length_leIntBytes w
  read_write _ h := leInt_leIntBytes h.1 h.2

/-- A byte that is `1` or `0`. -/
def flag : Layout Bool where
  size := 1
  Fits _ := True
  write b := leBytes 1 (if b then 1 else 0)
  read bytes := decide (leNat bytes = 1)
  length_write _ := length_leBytes 1 _
  read_write b _ := by cases b <;> rfl

/-- Bytes that are not used. -/
def pad (w : ℕ) : Layout Unit where
  size := w
  Fits _ := True
  write _ := List.replicate w 0
  read _ := ()
  length_write _ := List.length_replicate
  read_write _ _ := rfl

/-! ## Records and arrays -/

/-- One value after another. -/
def seq (l : Layout α) (m : Layout β) : Layout (α × β) where
  size := l.size + m.size
  Fits p := l.Fits p.1 ∧ m.Fits p.2
  write p := l.write p.1 ++ m.write p.2
  read bytes := (l.read (bytes.take l.size), m.read (bytes.drop l.size))
  length_write p := by rw [List.length_append, l.length_write, m.length_write]
  read_write p h := by
    have hlength := l.length_write p.1
    rw [List.take_left' hlength, List.drop_left' hlength, l.read_write _ h.1, m.read_write _ h.2]

/-- The same bytes read as another type. -/
def via (l : Layout α) (f : β → α) (g : α → β) (hinv : ∀ b, g (f b) = b) : Layout β where
  size := l.size
  Fits b := l.Fits (f b)
  write b := l.write (f b)
  read bytes := g (l.read bytes)
  length_write b := l.length_write (f b)
  read_write b h := by rw [l.read_write _ h, hinv]

/-- `n` values of one size. -/
def vector (l : Layout α) (n : ℕ) : Layout (Vector α n) where
  size := n * l.size
  Fits v := ∀ a ∈ v.toList, l.Fits a
  write v := v.toList.flatMap l.write
  read bytes := Vector.ofFn fun i : Fin n => l.read (slice bytes (i * l.size) l.size)
  length_write v := by
    rw [List.length_flatMap, List.map_congr_left fun a _ => l.length_write a, List.map_const',
      List.sum_replicate_nat, Vector.length_toList]
  read_write v h := by
    ext i hi
    have hget : v.toList[i]? = some v[i] := by
      rw [Vector.getElem?_toList, Vector.getElem?_eq_getElem hi]
    have hat := (at_flatMap (fun a _ => l.length_write a) hget).slice_eq
    rw [l.length_write] at hat
    rw [Vector.getElem_ofFn, hat]
    exact l.read_write _ (h _ (List.mem_of_getElem? hget))

/-! ## Reading in a buffer -/

variable {l : Layout α} {a : α} {buf : List UInt8} {off : ℕ}

/-- What stands somewhere is read there. -/
lemma read_slice (h : At buf off (l.write a)) (hfits : l.Fits a) :
    l.read (slice buf off l.size) = a := by
  have hslice := h.slice_eq
  rw [l.length_write] at hslice
  rw [hslice, l.read_write a hfits]

end Layout

/-- A flag behind a number, with a byte between. -/
example : ((Layout.num 2).seq ((Layout.pad 1).seq Layout.flag)).read [2, 1, 0, 1]
    = (258, (), true) := by decide

/-! ## Filling a buffer -/

namespace Bytes

/-- `buf[off..off + src.len()].copy_from_slice(src)`. -/
def copyFromSlice (off : ℕ) (src buf : List UInt8) : List UInt8 :=
  buf.take off ++ (src ++ buf.drop (off + src.length))

/-- Copy fields into a buffer, each behind the one before. -/
def fill : ℕ → List (List UInt8) → List UInt8 → List UInt8
  | _, [], buf => buf
  | off, field :: fields, buf => fill (off + field.length) fields (copyFromSlice off field buf)

lemma fill_append {fields : List (List UInt8)} {pre buf : List UInt8}
    (h : fields.flatten.length = buf.length) :
    fill pre.length fields (pre ++ buf) = pre ++ fields.flatten := by
  induction fields generalizing pre buf with
  | nil =>
      obtain rfl : buf = [] := List.eq_nil_of_length_eq_zero (by simpa using h.symm)
      rfl
  | cons field fields ih =>
      have hcopy : copyFromSlice pre.length field (pre ++ buf)
          = (pre ++ field) ++ buf.drop field.length := by
        rw [copyFromSlice, List.take_left, List.drop_append, List.drop_eq_nil_of_le (by omega),
          Nat.add_sub_cancel_left, List.nil_append, List.append_assoc]
      have hrest : fields.flatten.length = (buf.drop field.length).length := by
        rw [List.flatten_cons, List.length_append] at h
        rw [List.length_drop]
        omega
      rw [fill, hcopy, ← List.length_append, ih hrest, List.flatten_cons, List.append_assoc]

/-- **A buffer of the right size** holds the fields and nothing else. -/
lemma fill_eq_flatten {fields : List (List UInt8)} {buf : List UInt8}
    (h : fields.flatten.length = buf.length) : fill 0 fields buf = fields.flatten :=
  @fill_append fields [] buf h

end Bytes
