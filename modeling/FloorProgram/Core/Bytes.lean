import Mathlib.Data.Nat.Digits.Defs
import Mathlib.Tactic.Ring
import Mathlib.Tactic.Common

/-!
# Numbers in byte buffers

Fixed-width integers as lists of bytes, and how to find them again in a buffer.

* `leBytes w n` are the `w` low bytes of `n`, least significant first, and `leNat` reads them back.
  `leIntBytes` and `leInt` do the same for integers in two's complement.  `beBytes` and `beNat` are
  the big-endian forms.
* `At buf off bytes` says that `bytes` stand at offset `off` of `buf`.  A record is its fields one
  after the other, so a field stands where the widths of the fields before it add up to
  (`at_flatten`), and a table of entries of one width has its `i`-th entry at a multiple of the
  width (`at_flatMap`).
-/

namespace Bytes

/-! ## Numbers as bytes -/

/-- The `w` low bytes of `n`, least significant first. -/
def leBytes : ℕ → ℕ → List UInt8
  | 0, _ => []
  | w + 1, n => UInt8.ofNat n :: leBytes w (n / 256)

/-- The number that a list of bytes denotes, least significant first. -/
def leNat (l : List UInt8) : ℕ := Nat.ofDigits 256 (l.map UInt8.toNat)

@[simp] lemma length_leBytes (w n : ℕ) : (leBytes w n).length = w := by
  induction w generalizing n with
  | zero => rfl
  | succ w ih => simp [leBytes, ih]

/-- Reading back what was written gives the number, as far as it fits. -/
lemma leNat_leBytes (w n : ℕ) : leNat (leBytes w n) = n % 256 ^ w := by
  induction w generalizing n with
  | zero => simp [leNat, leBytes, Nat.mod_one]
  | succ w ih =>
      have hrest : Nat.ofDigits 256 ((leBytes w (n / 256)).map UInt8.toNat) = n / 256 % 256 ^ w :=
        ih (n / 256)
      have hmod : n % 256 ^ (w + 1) = n % 256 + 256 * (n / 256 % 256 ^ w) := by
        rw [pow_succ', Nat.mod_mul]
      rw [leNat, leBytes, List.map_cons, Nat.ofDigits_cons, hrest, UInt8.toNat_ofNat', hmod]

/-- A number that fits is read back as it was written. -/
lemma leNat_leBytes_of_lt {w n : ℕ} (h : n < 256 ^ w) : leNat (leBytes w n) = n := by
  rw [leNat_leBytes, Nat.mod_eq_of_lt h]

/-- The number that a list of bytes denotes, most significant first. -/
def beNat (l : List UInt8) : ℕ := leNat l.reverse

/-- The `w` low bytes of `n`, most significant first. -/
def beBytes (w n : ℕ) : List UInt8 := (leBytes w n).reverse

@[simp] lemma length_beBytes (w n : ℕ) : (beBytes w n).length = w := by simp [beBytes]

/-- The same for the other byte order. -/
lemma beNat_beBytes_of_lt {w n : ℕ} (h : n < 256 ^ w) : beNat (beBytes w n) = n := by
  rw [beNat, beBytes, List.reverse_reverse, leNat_leBytes_of_lt h]

/-! ## Two's complement -/

/-- An integer in two's complement, least significant byte first. -/
def leIntBytes (w : ℕ) (z : ℤ) : List UInt8 := leBytes w (z % 256 ^ w).toNat

/-- The integer that a list of bytes denotes in two's complement. -/
def leInt (l : List UInt8) : ℤ :=
  if 2 * leNat l < 256 ^ l.length then leNat l else leNat l - 256 ^ l.length

@[simp] lemma length_leIntBytes (w : ℕ) (z : ℤ) : (leIntBytes w z).length = w := length_leBytes _ _

/-- A signed number that fits is read back as it was written. -/
lemma leInt_leIntBytes {w : ℕ} {z : ℤ} (hlow : -256 ^ w ≤ 2 * z) (hhigh : 2 * z < 256 ^ w) :
    leInt (leIntBytes w z) = z := by
  have hpos : (0 : ℤ) < 256 ^ w := by positivity
  have hnonneg := Int.emod_nonneg z hpos.ne'
  have hlt := Int.emod_lt_of_pos z hpos
  have hnat : (leNat (leIntBytes w z) : ℤ) = z % 256 ^ w := by
    have hfits : (z % 256 ^ w).toNat < 256 ^ w := by
      zify
      rwa [Int.toNat_of_nonneg hnonneg]
    rw [leIntBytes, leNat_leBytes_of_lt hfits, Int.toNat_of_nonneg hnonneg]
  rw [leInt, length_leIntBytes]
  zify
  rw [hnat]
  rcases le_or_gt 0 z with hz | hz
  · have hmod : z % 256 ^ w = z := Int.emod_eq_of_lt hz (by omega)
    rw [hmod, if_pos hhigh]
  · have hmod : z % 256 ^ w = z + 256 ^ w := by
      rw [← Int.add_emod_right]
      exact Int.emod_eq_of_lt (by omega) (by omega)
    rw [hmod, if_neg (by omega)]
    omega

/-! ## Finding bytes in a buffer -/

/-- The `w` bytes from `off` on, as far as there are so many. -/
def slice (buf : List UInt8) (off w : ℕ) : List UInt8 := (buf.drop off).take w

/-- These bytes stand at this offset. -/
def At (buf : List UInt8) (off : ℕ) (bytes : List UInt8) : Prop :=
  ∃ pre post, buf = pre ++ (bytes ++ post) ∧ pre.length = off

section At

variable {buf bytes inner : List UInt8} {off off' : ℕ}

/-- Bytes at an offset end within the buffer. -/
lemma At.le (h : At buf off bytes) : off + bytes.length ≤ buf.length := by
  obtain ⟨pre, post, rfl, rfl⟩ := h
  simp only [List.length_append]
  omega

/-- The slice at the offset is the bytes. -/
lemma At.slice_eq (h : At buf off bytes) : slice buf off bytes.length = bytes := by
  obtain ⟨pre, post, rfl, rfl⟩ := h
  rw [slice, List.drop_left, List.take_left]

/-- What stands inside of something stands in the buffer. -/
lemma At.inside (h : At buf off bytes) (hinner : At bytes off' inner) :
    At buf (off + off') inner := by
  obtain ⟨pre, post, rfl, rfl⟩ := h
  obtain ⟨pre', post', rfl, rfl⟩ := hinner
  exact ⟨pre ++ pre', post' ++ post, by simp, by simp⟩

/-- **The fields of a record** stand one after the other. -/
lemma at_flatten {fields : List (List UInt8)} {i : ℕ} {field : List UInt8}
    (h : fields[i]? = some field) (hoff : ((fields.take i).map List.length).sum = off) :
    At fields.flatten off field := by
  induction fields generalizing i off with
  | nil => simp at h
  | cons first fields ih =>
      cases i with
      | zero =>
          obtain rfl : first = field := by simpa using h
          exact ⟨[], fields.flatten, rfl, hoff⟩
      | succ i =>
          obtain ⟨pre, post, hbuf, hlen⟩ := ih (by simpa using h) rfl
          exact ⟨first ++ pre, post, by simp [hbuf], by simpa [hlen] using hoff⟩

/-- **The entries of a table** stand at the multiples of their width. -/
lemma at_flatMap {α : Type} {f : α → List UInt8} {width : ℕ} {l : List α} {i : ℕ} {a : α}
    (hwidth : ∀ a ∈ l, (f a).length = width) (h : l[i]? = some a) :
    At (l.flatMap f) (i * width) (f a) := by
  have hfield : (l.map f)[i]? = some (f a) := by rw [List.getElem?_map, h, Option.map_some]
  have hi : i < l.length := (List.getElem?_eq_some_iff.mp h).1
  rw [List.flatMap_def]
  refine at_flatten hfield ?_
  have hconst : ((l.take i).map f).map List.length = (l.take i).map fun _ => width := by
    rw [List.map_map]
    exact List.map_congr_left fun a ha => hwidth a (List.mem_of_mem_take ha)
  rw [← List.map_take, hconst, List.map_const', List.sum_replicate_nat, List.length_take,
    min_eq_left hi.le]

end At

end Bytes
