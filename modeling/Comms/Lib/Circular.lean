import Mathlib.Data.List.TakeDrop
import Mathlib.Data.List.DropRight
import Mathlib.Tactic.Ring
import Mathlib.Tactic.Linarith

/-!
# Circular stores

A circular store keeps the tail of an unbounded stream in `size` cells: the element with index `i`
of the stream lives in cell `i % size`, and a write cursor runs over the cells and returns to cell
`0` when it reaches the end. Nothing here knows what the elements are.

* `Circular.splice` — overwriting a block of cells, the effect of one contiguous write;
* `Circular.Holds` — the store `cells` holds the tail of the stream `s`;
* `Circular.Holds.splice` — one contiguous write at the cursor appends to the stream;
* `Circular.Holds.slice_eq` — a contiguous block of cells reads back a block of the stream, and
  its two corollaries for the block that ends at the cursor and the one that wraps around;
* `Circular.unroll` — the cells laid out up to the cursor, of which a store of any size holds the tail.
-/

namespace Circular

variable {α : Type}

/-- `n` elements of `l` from index `i`. -/
def slice (l : List α) (i n : ℕ) : List α := (l.drop i).take n

/-- The list `cells` with the block of length `chunk.length` at `pos` overwritten by `chunk`. -/
def splice (cells : List α) (pos : ℕ) (chunk : List α) : List α :=
  cells.take pos ++ chunk ++ cells.drop (pos + chunk.length)

/-! ### Slices -/

@[simp] theorem slice_zero (l : List α) (i : ℕ) : slice l i 0 = [] := by
  simp [slice]

theorem slice_length {l : List α} {i n : ℕ} (h : i + n ≤ l.length) :
    (slice l i n).length = n := by
  simp only [slice, List.length_take, List.length_drop]
  omega

theorem slice_getElem? (l : List α) (i n j : ℕ) (hj : j < n) :
    (slice l i n)[j]? = l[i + j]? := by
  simp [slice, hj]

/-- Two adjacent slices make one. -/
theorem slice_append (l : List α) (i m n : ℕ) :
    slice l i m ++ slice l (i + m) n = slice l i (m + n) := by
  simp only [slice]
  rw [List.take_add, List.drop_drop]

theorem slice_append_left {l t : List α} {i n : ℕ} (h : i + n ≤ l.length) :
    slice (l ++ t) i n = slice l i n := by
  simp only [slice]
  rw [List.drop_append_of_le_length (by omega), List.take_append_of_le_length]
  rw [List.length_drop]
  omega

theorem slice_take (l : List α) (i m n : ℕ) (h : n ≤ m) :
    (slice l i m).take n = slice l i n := by
  simp only [slice, List.take_take, Nat.min_eq_left h]

/-- The slice that starts at `i` and runs to the end is the suffix. -/
theorem slice_eq_drop {l : List α} {i n : ℕ} (h : l.length ≤ i + n) : slice l i n = l.drop i := by
  simp only [slice]
  exact List.take_of_length_le (by rw [List.length_drop]; omega)

/-- Slices of equal length agree when they agree element by element. -/
theorem slice_ext {l l' : List α} {i i' n : ℕ}
    (h : ∀ j, j < n → l[i + j]? = l'[i' + j]?) : slice l i n = slice l' i' n := by
  apply List.ext_getElem?
  intro j
  by_cases hj : j < n
  · rw [slice_getElem? _ _ _ _ hj, slice_getElem? _ _ _ _ hj, h j hj]
  · have hlen : ∀ (m : List α) (k : ℕ), (slice m k n).length ≤ j := by
      intro m k
      simp only [slice, List.length_take]
      omega
    rw [List.getElem?_eq_none (hlen _ _), List.getElem?_eq_none (hlen _ _)]

/-! ### Overwriting a block -/

theorem splice_length {cells chunk : List α} {pos : ℕ} (h : pos + chunk.length ≤ cells.length) :
    (splice cells pos chunk).length = cells.length := by
  simp only [splice, List.length_append, List.length_take, List.length_drop]
  omega

/-- Inside the block the new elements are read. -/
theorem splice_getElem?_inside {cells chunk : List α} {pos i : ℕ}
    (h : pos + chunk.length ≤ cells.length) (h₁ : pos ≤ i) (h₂ : i < pos + chunk.length) :
    (splice cells pos chunk)[i]? = chunk[i - pos]? := by
  have htake : (cells.take pos).length = pos := by rw [List.length_take]; omega
  unfold splice
  rw [List.getElem?_append_left (by simp only [List.length_append, htake]; omega),
    List.getElem?_append_right (by rw [htake]; exact h₁), htake]

/-- Outside the block every cell keeps its element. -/
theorem splice_getElem?_outside {cells chunk : List α} {pos i : ℕ}
    (h : pos + chunk.length ≤ cells.length) (hi : i < pos ∨ pos + chunk.length ≤ i) :
    (splice cells pos chunk)[i]? = cells[i]? := by
  have htake : (cells.take pos).length = pos := by rw [List.length_take]; omega
  unfold splice
  rcases hi with hi | hi
  · rw [List.append_assoc, List.getElem?_append_left (by rw [htake]; exact hi),
      List.getElem?_take_of_lt hi]
  · rw [List.getElem?_append_right (by simp only [List.length_append, htake]; exact hi),
      List.getElem?_drop]
    simp only [List.length_append, htake]
    congr 1
    omega

/-! ### The store invariant -/

/-- The circular store `cells` holds the tail of the stream `s`: it has `size` cells, and each of
the last `size` elements of `s` is in the cell of its index. -/
structure Holds (size : ℕ) (cells s : List α) : Prop where
  /-- The number of cells never changes. -/
  length_eq : cells.length = size
  /-- The last `size` elements are in place. -/
  mem : ∀ i, i < s.length → s.length ≤ i + size → cells[i % size]? = s[i]?

/-- The empty stream is held by any store. -/
theorem Holds.nil {size : ℕ} {cells : List α} (h : cells.length = size) :
    Holds size cells ([] : List α) :=
  ⟨h, fun i hi _ => absurd hi (by simp)⟩

/-- The cursor after the element with index `n` was written. -/
theorem mod_add_of_le {size n k : ℕ} (h : n % size + k ≤ size) :
    (n + k) % size = if n % size + k = size then 0 else n % size + k := by
  have hdiv := Nat.div_add_mod n size
  split
  · next heq =>
    have : n + k = size * (n / size + 1) := by rw [Nat.mul_add]; omega
    rw [this, Nat.mul_mod_right]
  · next hne =>
    have : n + k = n % size + k + size * (n / size) := by omega
    rw [this, Nat.add_mul_mod_self_left, Nat.mod_eq_of_lt (by omega)]

/-- Two indices less than `size` apart that share a cell are equal. -/
theorem eq_of_mod_eq {size i j : ℕ} (h : i % size = j % size) (hij : i ≤ j) (hlt : j < i + size) :
    i = j := by
  obtain ⟨k, rfl⟩ := Nat.exists_eq_add_of_le hij
  have hk : k < size := by omega
  have hi := Nat.div_add_mod i size
  have hmod : (i % size + k) % size = i % size := by
    rw [Nat.mod_add_mod]; exact h.symm
  have hpos : 0 < size := by omega
  have hlt' := Nat.mod_lt i hpos
  rcases Nat.lt_or_ge (i % size + k) size with hc | hc
  · rw [Nat.mod_eq_of_lt hc] at hmod
    omega
  · rw [Nat.mod_eq_sub_mod hc, Nat.mod_eq_of_lt (by omega)] at hmod
    omega

/-- **One contiguous write.** Writing `chunk` at the cursor, without running past the last cell,
appends it to the stream. -/
theorem Holds.splice {size : ℕ} {cells s : List α} (h : Holds size cells s) (chunk : List α)
    (hfit : s.length % size + chunk.length ≤ size) :
    Holds size (Circular.splice cells (s.length % size) chunk) (s ++ chunk) := by
  have hbound : s.length % size + chunk.length ≤ cells.length := by rw [h.length_eq]; exact hfit
  refine ⟨by rw [splice_length hbound, h.length_eq], ?_⟩
  intro i hi hlow
  rw [List.length_append] at hi hlow
  by_cases hnew : s.length ≤ i
  · -- a new element: its cell is inside the written block
    obtain ⟨k, rfl⟩ := Nat.exists_eq_add_of_le hnew
    have hk : k < chunk.length := by omega
    have hmod : (s.length + k) % size = s.length % size + k := by
      rw [mod_add_of_le (by omega), if_neg (by omega)]
    rw [hmod, splice_getElem?_inside hbound (by omega) (by omega),
      List.getElem?_append_right (by omega)]
    congr 1
    omega
  · -- an old element that survives: the block misses its cell
    have hold : i < s.length := by omega
    rw [splice_getElem?_outside hbound, h.mem i hold (by omega), List.getElem?_append_left hold]
    by_contra hin
    push Not at hin
    obtain ⟨hge, hlt⟩ := hin
    have hcell : (s.length + (i % size - s.length % size)) % size = i % size := by
      rw [mod_add_of_le (by omega), if_neg (by omega)]
      omega
    have := eq_of_mod_eq (i := i) (j := s.length + (i % size - s.length % size)) hcell.symm
      (by omega) (by omega)
    omega

/-! ### Reading back -/

/-- **A contiguous read.** A block of cells that does not run past the last one and lies in the
held tail reads back the stream. -/
theorem Holds.slice_eq {size : ℕ} {cells s : List α} (h : Holds size cells s) {i n : ℕ}
    (hlow : s.length ≤ i + size) (hhigh : i + n ≤ s.length) (hfit : i % size + n ≤ size) :
    slice cells (i % size) n = slice s i n := by
  apply slice_ext
  intro j hj
  have hmod : (i + j) % size = i % size + j := by
    rw [mod_add_of_le (by omega), if_neg (by omega)]
  rw [← hmod]
  exact h.mem (i + j) (by omega) (by omega)

/-- The cell of the element `d` places before the cursor, when the cursor is past it. -/
theorem sub_mod_of_le {size n d : ℕ} (hd : d ≤ n % size) : (n - d) % size = n % size - d := by
  have hdiv := Nat.div_add_mod n size
  have hle := Nat.mod_le n size
  rcases Nat.eq_zero_or_pos size with rfl | hpos
  · simp
  · have hlt := Nat.mod_lt n hpos
    have : n - d = n % size - d + size * (n / size) := by omega
    rw [this, Nat.add_mul_mod_self_left, Nat.mod_eq_of_lt (by omega)]

/-- The cell of the element `d` places before the cursor, when the store wraps in between. -/
theorem sub_mod_of_lt {size n d : ℕ} (hlt : n % size < d) (hd : d ≤ size) (hn : d ≤ n) :
    (n - d) % size = size - d + n % size := by
  have hdiv := Nat.div_add_mod n size
  obtain ⟨q, hq⟩ : ∃ q, n / size = q + 1 := by
    refine Nat.exists_eq_succ_of_ne_zero fun h0 => ?_
    rw [h0, Nat.mul_zero] at hdiv
    omega
  rw [hq, Nat.mul_add, Nat.mul_one] at hdiv
  have : n - d = size - d + n % size + size * q := by omega
  rw [this, Nat.add_mul_mod_self_left, Nat.mod_eq_of_lt (by omega)]

section Read

variable {size : ℕ} {cells s : List α}

/-- The first `n` of the last `d` elements, when the cursor is past all of them. -/
theorem Holds.read_direct (h : Holds size cells s) (hpos : 0 < size) {d n : ℕ}
    (hd : d ≤ s.length % size) (hn : n ≤ d) :
    slice cells (s.length % size - d) n = slice s (s.length - d) n := by
  have hle := Nat.mod_le s.length size
  have hlt := Nat.mod_lt s.length hpos
  rw [← sub_mod_of_le hd]
  exact h.slice_eq (by omega) (by omega) (by rw [sub_mod_of_le hd]; omega)

/-- The first `n` of the last `d` elements, when they start in the wrapped part and end there. -/
theorem Holds.read_wrapped (h : Holds size cells s) {d n : ℕ} (hlt : s.length % size < d)
    (hd : d ≤ size) (hs : d ≤ s.length) (hn : n ≤ d - s.length % size) :
    slice cells (size - d + s.length % size) n = slice s (s.length - d) n := by
  rw [← sub_mod_of_lt hlt hd hs]
  exact h.slice_eq (by omega) (by omega) (by rw [sub_mod_of_lt hlt hd hs]; omega)

/-- The first `n` of the last `d` elements, when they start in the wrapped part and go on from
cell `0`: two blocks. -/
theorem Holds.read_split (h : Holds size cells s) {d n : ℕ} (hlt : s.length % size < d)
    (hd : d ≤ size) (hs : d ≤ s.length) (hn : d - s.length % size ≤ n) (hnd : n ≤ d) :
    slice cells (size - d + s.length % size) (d - s.length % size) ++
      slice cells 0 (n - (d - s.length % size)) = slice s (s.length - d) n := by
  have hpos : 0 < size := by omega
  have hmod := Nat.mod_lt s.length hpos
  rw [h.read_wrapped hlt hd hs le_rfl]
  have h0 := h.read_direct hpos (d := s.length % size) (n := n - (d - s.length % size)) le_rfl
    (by omega)
  rw [Nat.sub_self] at h0
  have hidx : s.length - s.length % size = s.length - d + (d - s.length % size) := by omega
  rw [h0, hidx, slice_append, show d - s.length % size + (n - (d - s.length % size)) = n by omega]

end Read

/-! ### Ends of lists -/

theorem rtake_eq_slice (s : List α) (d : ℕ) : s.rtake d = slice s (s.length - d) d :=
  (slice_eq_drop (by omega)).symm

/-- Lists with the same end have the same shorter end. -/
theorem rtake_congr {s t : List α} {j k : ℕ} (h : s.rtake k = t.rtake k) (hj : j ≤ k) :
    s.rtake j = t.rtake j := by
  rw [List.rtake_eq_reverse_take_reverse, List.rtake_eq_reverse_take_reverse,
    List.reverse_inj] at h ⊢
  rw [← Nat.min_eq_left hj, ← List.take_take, h, List.take_take]

theorem rtake_append (s p : List α) (k : ℕ) :
    (s ++ p).rtake k = s.rtake (k - p.length) ++ p.rtake k := by
  simp only [List.rtake_eq_reverse_take_reverse, List.reverse_append, List.take_append,
    List.length_reverse]

/-- Lists with the same end have the same end after both were appended to. -/
theorem rtake_append_congr {s t : List α} {k j : ℕ} (h : s.rtake k = t.rtake k) (p : List α)
    (hj : j ≤ k + p.length) : (s ++ p).rtake j = (t ++ p).rtake j := by
  rw [rtake_append, rtake_append, rtake_congr h (by omega)]

/-! ### Unrolled stores -/

/-- The cells once around, and again up to the cursor. -/
def unroll (cells : List α) (pos : ℕ) : List α := cells ++ cells.take pos

theorem unroll_length {cells : List α} {pos : ℕ} (h : pos ≤ cells.length) :
    (unroll cells pos).length = cells.length + pos := by
  rw [unroll, List.length_append, List.length_take, Nat.min_eq_left h]

/-- A store holds the tail of what it is unrolled to. -/
theorem holds_unroll {cells : List α} {pos : ℕ} (h : pos ≤ cells.length) :
    Holds cells.length cells (unroll cells pos) := by
  refine ⟨rfl, fun i hi _ => ?_⟩
  rw [unroll_length h] at hi
  unfold unroll
  by_cases hround : i < cells.length
  · rw [Nat.mod_eq_of_lt hround, List.getElem?_append_left hround]
  · rw [List.getElem?_append_right (by omega), List.getElem?_take_of_lt (by omega),
      Nat.mod_eq_sub_mod (by omega), Nat.mod_eq_of_lt (by omega)]

/-- The last elements, in front of the cursor. -/
theorem slice_unroll_front {cells : List α} {pos d : ℕ} (hd : d ≤ pos) :
    slice (unroll cells pos) (cells.length + pos - d) d = slice cells (pos - d) d := by
  apply slice_ext
  intro j hj
  rw [unroll, List.getElem?_append_right (by omega), List.getElem?_take_of_lt (by omega)]
  congr 1
  omega

/-- The last elements, when they go back over the last cell. -/
theorem slice_unroll_wrapped {cells : List α} {pos d : ℕ} (hd : pos ≤ d)
    (hlen : d ≤ cells.length + pos) : slice (unroll cells pos) (cells.length + pos - d) d =
      slice cells (cells.length + pos - d) (d - pos) ++ slice cells 0 pos := by
  have hsplit := slice_append (unroll cells pos) (cells.length + pos - d) (d - pos) pos
  rw [Nat.sub_add_cancel hd] at hsplit
  rw [← hsplit, show cells.length + pos - d + (d - pos) = cells.length by omega]
  congr 1
  · exact slice_append_left (by omega)
  · rw [unroll, slice, List.drop_left, List.take_take, Nat.min_self, slice, List.drop_zero]

/-- Streams that are held by the same cells, with the same cursor, have the same end. -/
theorem Holds.rtake_congr {size : ℕ} {cells s t : List α} (hs : Holds size cells s)
    (ht : Holds size cells t) (hmod : s.length % size = t.length % size) {d : ℕ} (hd : d ≤ size)
    (hds : d ≤ s.length) (hdt : d ≤ t.length) : s.rtake d = t.rtake d := by
  rw [rtake_eq_slice, rtake_eq_slice]
  rcases Nat.lt_or_ge (t.length % size) d with hlt | hge
  · rw [← hs.read_split (hmod ▸ hlt) hd hds (Nat.sub_le _ _) le_rfl,
      ← ht.read_split hlt hd hdt (Nat.sub_le _ _) le_rfl, hmod]
  · rcases Nat.eq_zero_or_pos d with rfl | hpos
    · rw [slice_zero, slice_zero]
    · have hsize : 0 < size := hpos.trans_le hd
      rw [← hs.read_direct hsize (hmod ▸ hge) le_rfl, ← ht.read_direct hsize hge le_rfl, hmod]

/-- The end of the unrolled cells is the end of the stream they hold. -/
theorem Holds.rtake_unroll {size : ℕ} {cells s : List α} (h : Holds size cells s) (hpos : 0 < size)
    {d : ℕ} (hd : d ≤ size) (hs : d ≤ s.length) :
    (unroll cells (s.length % size)).rtake d = s.rtake d := by
  have hmod := Nat.mod_lt s.length hpos
  have hlen : s.length % size ≤ cells.length := by rw [h.length_eq]; omega
  have hunroll := holds_unroll hlen
  have hlength := unroll_length hlen
  rw [h.length_eq] at hunroll hlength
  refine hunroll.rtake_congr h ?_ hd (by omega) hs
  rw [hlength, Nat.add_mod_left, Nat.mod_mod]

/-- A write in front of the tail of a longer list. -/
theorem splice_append {cells chunk : List α} {pos : ℕ} (h : pos + chunk.length ≤ cells.length)
    (tail : List α) : splice (cells ++ tail) pos chunk = splice cells pos chunk ++ tail := by
  unfold splice
  rw [List.take_append_of_le_length (by omega), List.drop_append_of_le_length h,
    List.append_assoc, List.append_assoc, List.append_assoc]

end Circular
