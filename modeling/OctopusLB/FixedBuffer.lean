/-
# Fixed-size buffers

An array of `cap` cells together with the two operations a stream buffer needs:

* `store off xs` overwrites the cells from `off` on (`read` into the buffer,
  `strncpy`, `memcpy`);
* `shift k len` moves the `len` cells starting at `k` to the front (the
  overlapping `memcpy` read as `memmove`).

`contents n` is the part in use.  The two laws `contents_store` and
`contents_shift` say that storing at the end of the used part appends and that
shifting drops from its front, which is all a first-in first-out stream needs.
-/
import Mathlib.Data.List.Basic
import Mathlib.Tactic.Common

/-- An array of exactly `cap` cells. -/
structure FixedBuffer (α : Type*) (cap : ℕ) where
  cells : List α
  length_cells : cells.length = cap

namespace FixedBuffer

variable {α : Type*} {cap : ℕ}

/-- A buffer with the same value in every cell. -/
def fill (cap : ℕ) (a : α) : FixedBuffer α cap :=
  ⟨List.replicate cap a, List.length_replicate⟩

/-- The used part: the first `n` cells. -/
def contents (b : FixedBuffer α cap) (n : ℕ) : List α :=
  b.cells.take n

/-- The `len` cells starting at `off`. -/
def slice (b : FixedBuffer α cap) (off len : ℕ) : List α :=
  (b.cells.drop off).take len

/-- Overwrite the cells from `off` on with `xs`; what would fall past the end
of the array is not stored. -/
def store (b : FixedBuffer α cap) (off : ℕ) (xs : List α) : FixedBuffer α cap where
  cells := (b.cells.take off ++ xs ++ b.cells.drop (off + xs.length)).take cap
  length_cells := by
    have h := b.length_cells
    simp only [List.length_take, List.length_append, List.length_drop]
    omega

/-- Move the `len` cells starting at `k` to the front. -/
def shift (b : FixedBuffer α cap) (k len : ℕ) : FixedBuffer α cap :=
  b.store 0 (b.slice k len)

@[simp] theorem contents_zero (b : FixedBuffer α cap) : b.contents 0 = [] :=
  List.take_zero

theorem length_contents (b : FixedBuffer α cap) {n : ℕ} (h : n ≤ cap) :
    (b.contents n).length = n := by
  rw [contents, List.length_take, b.length_cells]
  omega

theorem length_slice (b : FixedBuffer α cap) {off len : ℕ} (h : off + len ≤ cap) :
    (b.slice off len).length = len := by
  rw [slice, List.length_take, List.length_drop, b.length_cells]
  omega

/-- The cells written by `store` at the end of the used part extend it. -/
theorem contents_store (b : FixedBuffer α cap) (off : ℕ) (xs : List α)
    (h : off + xs.length ≤ cap) :
    (b.store off xs).contents (off + xs.length) = b.contents off ++ xs := by
  have hlen : (b.cells.take off ++ xs).length = off + xs.length := by
    rw [List.length_append, List.length_take, b.length_cells]
    omega
  rw [contents, store, List.take_take, Nat.min_eq_left h,
    List.take_append_of_le_length (Nat.le_of_eq hlen.symm),
    List.take_of_length_le (Nat.le_of_eq hlen), contents]

/-- The buffer with one value in every cell behind the used part. -/
theorem cells_store_replicate (b : FixedBuffer α cap) (off : ℕ) (a : α) :
    (b.store off (List.replicate (cap - off) a)).cells
      = b.contents off ++ List.replicate (cap - off) a := by
  have hlen := b.length_cells
  show List.take cap _ = _
  rw [List.length_replicate, List.drop_eq_nil_of_le (by omega), List.append_nil, contents,
    List.take_of_length_le]
  rw [List.length_append, List.length_take, List.length_replicate]
  omega

/-- Reading back the slice just stored gives the stored cells. -/
theorem slice_store (b : FixedBuffer α cap) (off : ℕ) (xs : List α)
    (h : off + xs.length ≤ cap) : (b.store off xs).slice off xs.length = xs := by
  have hsplit : (b.store off xs).slice off xs.length
      = ((b.store off xs).contents (off + xs.length)).drop off := by
    rw [contents, slice, List.take_drop]
  have hoff : (b.contents off).length = off := b.length_contents (by omega)
  rw [hsplit, b.contents_store off xs h, List.drop_append_of_le_length (Nat.le_of_eq hoff.symm),
    List.drop_of_length_le (Nat.le_of_eq hoff), List.nil_append]

/-- Shifting the remaining `len` of `k + len` used cells to the front drops the
first `k` of them. -/
theorem contents_shift (b : FixedBuffer α cap) (k len : ℕ) (h : k + len ≤ cap) :
    (b.shift k len).contents len = (b.contents (k + len)).drop k := by
  have hlen : (b.slice k len).length = len := b.length_slice h
  have hstore := b.contents_store 0 (b.slice k len) (by omega)
  rw [Nat.zero_add, hlen, contents_zero, List.nil_append] at hstore
  rw [shift, hstore, slice, contents, List.take_drop]

/-- **Stream law.**  If `k` cells leave the front of the used part and the rest
is shifted, the cells that left followed by the new used part are the old used
part. -/
theorem take_append_contents_shift (b : FixedBuffer α cap) (k len : ℕ) (h : k + len ≤ cap) :
    (b.contents (k + len)).take k ++ (b.shift k len).contents len = b.contents (k + len) := by
  rw [b.contents_shift k len h, List.take_append_drop]

/-- The stream law for a buffer that is only shifted if something is left. -/
theorem take_append_contents_drain (b : FixedBuffer α cap) {k used : ℕ} (hk : k ≤ used)
    (h : used ≤ cap) :
    (b.contents used).take k
        ++ (if used - k = 0 then b else b.shift k (used - k)).contents (used - k)
      = b.contents used := by
  by_cases hz : used - k = 0
  · rw [if_pos hz, hz, contents_zero, List.append_nil, List.take_of_length_le]
    rw [b.length_contents h]
    omega
  · have hsplit := b.take_append_contents_shift k (used - k) (by omega)
    rw [Nat.add_sub_of_le hk] at hsplit
    rw [if_neg hz, hsplit]

end FixedBuffer
