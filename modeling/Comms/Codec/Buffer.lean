import Comms.Lib.Circular
import Mathlib.Data.List.TakeWhile

/-!
# Byte buffers

`Buffer` of `buffer/buffer.hpp`: a block of memory with a read index and a write index. A `Buffer`
may own its block or be wrapped around somebody else's memory, and the pointer it hands out reads
the memory, not the readable range: `mem` is everything from `m_buffer` on, the stale bytes behind
the write index included.

* `Buffer.Reads` — the readable bytes, whatever lies behind them;
* `Buffer.Reads.readByte` / `Buffer.Reads.advance` — taking bytes off the front;
* `Buffer.Reads.indexOf_one` / `Buffer.Reads.indexOf_crlf` — where a search of the readable bytes
  ends.
-/

namespace Comms

/-- A `std::string` or a block of raw bytes. -/
abbrev Bytes := List UInt8

instance : LawfulBEq Bytes := List.instLawfulBEq

/-- `comms::Buffer`. -/
structure Buffer where
  /-- The memory from `m_buffer` on; bytes past the list read as `0`. -/
  mem : Bytes
  bufferLen : ℕ
  writeIdx : ℕ
  readIdx : ℕ
  inHeap : Bool
deriving DecidableEq, Repr

namespace Buffer

/-- `Buffer(char* value, size_t off, size_t len)` around memory that starts with `value`. -/
def wrap (mem : Bytes) (off len : ℕ) : Buffer :=
  { mem := mem, bufferLen := len, writeIdx := off + len, readIdx := off, inHeap := false }

/-- `Readable`. -/
def Readable (b : Buffer) : Prop := b.readIdx < b.writeIdx

instance (b : Buffer) : Decidable b.Readable := inferInstanceAs (Decidable (_ < _))

/-- `ReadableBytes`. -/
def readableBytes (b : Buffer) : ℕ := b.writeIdx - b.readIdx

/-- What `GetRawReadBuffer` points to. -/
def rawReadBuffer (b : Buffer) : Bytes := b.mem.drop b.readIdx

/-- `GetRawReadBuffer()[i]`. -/
def rawAt (b : Buffer) (i : ℤ) : UInt8 := b.mem.getD ((b.readIdx : ℤ) + i).toNat 0

/-- `AdvanceReadIndex`. -/
def advanceReadIndex (b : Buffer) (step : ℤ) : Buffer :=
  { b with readIdx := ((b.readIdx : ℤ) + step).toNat }

/-- `SetReadIndex`. -/
def setReadIndex (b : Buffer) (idx : ℕ) : Buffer := { b with readIdx := idx }

/-- `ReadByte`. -/
def readByte (b : Buffer) : Option (UInt8 × Buffer) :=
  if b.Readable then some (b.rawAt 0, b.advanceReadIndex 1) else none

/-- `memchr(m_buffer + start, ch, n)`, as an index of the buffer. -/
def memchr (b : Buffer) (ch : UInt8) (start n : ℕ) : Option ℕ :=
  ((Circular.slice b.mem start n).findIdx? (· == ch)).map (start + ·)

/-- The `while (start_idx < end)` loop of `IndexOf`. A first byte that is not followed by the rest
of the pattern moves the search on by the length of the pattern. -/
def indexOfLoop (b : Buffer) (data : Bytes) (end_ : ℕ) : ℕ → ℕ → Option ℕ
  | 0, _ => none
  | fuel + 1, startIdx =>
    if startIdx < end_ then
      match b.memchr (data.headD 0) startIdx (end_ - startIdx) with
      | none => none
      | some p =>
        if p + data.length - 1 < end_ then
          if data.length = 1 then some p
          else if Circular.slice b.mem p data.length = data then
            if end_ < p + data.length then none else some p
          else indexOfLoop b data end_ fuel (p + data.length)
        else none
    else none

/-- `IndexOf(data, len, start, end)`; `none` is `-1`. -/
def indexOf (b : Buffer) (data : Bytes) (start end_ : ℕ) : Option ℕ :=
  if data = [] then none
  else if end_ < start + data.length ∨ b.writeIdx < end_ then none
  else b.indexOfLoop data end_ (end_ - start + 1) start

/-! ### Field lemmas -/

@[simp] theorem advanceReadIndex_mem (b : Buffer) (n : ℤ) : (b.advanceReadIndex n).mem = b.mem :=
  rfl

@[simp] theorem advanceReadIndex_writeIdx (b : Buffer) (n : ℤ) :
    (b.advanceReadIndex n).writeIdx = b.writeIdx := rfl

@[simp] theorem advanceReadIndex_ofNat (b : Buffer) (n : ℕ) :
    (b.advanceReadIndex n).readIdx = b.readIdx + n := rfl

@[simp] theorem setReadIndex_mem (b : Buffer) (n : ℕ) : (b.setReadIndex n).mem = b.mem := rfl

@[simp] theorem setReadIndex_writeIdx (b : Buffer) (n : ℕ) :
    (b.setReadIndex n).writeIdx = b.writeIdx := rfl

@[simp] theorem setReadIndex_readIdx (b : Buffer) (n : ℕ) : (b.setReadIndex n).readIdx = n := rfl

@[simp] theorem setReadIndex_self (b : Buffer) : b.setReadIndex b.readIdx = b := rfl

@[simp] theorem advanceReadIndex_zero (b : Buffer) : b.advanceReadIndex 0 = b := by
  simp [advanceReadIndex]

theorem advanceReadIndex_advance (b : Buffer) (m n : ℕ) :
    (b.advanceReadIndex m).advanceReadIndex n = b.advanceReadIndex (m + n : ℕ) := by
  simp only [advanceReadIndex, Buffer.mk.injEq, true_and, and_true]
  omega

/-- Stepping back over the byte just read. -/
theorem advanceReadIndex_back (b : Buffer) : (b.advanceReadIndex 1).advanceReadIndex (-1) = b := by
  have h : (((b.readIdx : ℤ) + 1).toNat + (-1 : ℤ)).toNat = b.readIdx := by omega
  simp only [advanceReadIndex, h]

theorem setReadIndex_advance (b : Buffer) (n : ℕ) :
    (b.advanceReadIndex n).setReadIndex b.readIdx = b := rfl

/-- Reading a byte moves the read index by one, inside the readable range. -/
theorem readByte_eq_some {b b' : Buffer} {ch : UInt8} (h : b.readByte = some (ch, b')) :
    b.readIdx < b.writeIdx ∧ b' = b.advanceReadIndex (1 : ℕ) := by
  unfold readByte at h
  split at h
  · next hr =>
    obtain ⟨-, rfl⟩ := Prod.mk.inj (Option.some.inj h)
    exact ⟨hr, rfl⟩
  · cases h

/-! ### The readable bytes -/

/-- The readable bytes of the buffer are `bs`. -/
structure Reads (b : Buffer) (bs : Bytes) : Prop where
  idx : b.readIdx + bs.length = b.writeIdx
  mem : ∃ behind, b.rawReadBuffer = bs ++ behind

theorem Reads.readableBytes {b : Buffer} {bs : Bytes} (h : b.Reads bs) :
    b.readableBytes = bs.length := by
  have := h.idx
  unfold Buffer.readableBytes
  omega

theorem Reads.readable {b : Buffer} {bs : Bytes} (h : b.Reads bs) : b.Readable ↔ bs ≠ [] := by
  have := h.idx
  rw [← List.length_pos_iff]
  unfold Readable
  omega

/-- The buffer around a block reads the block. -/
theorem reads_wrap (bs behind : Bytes) : (wrap (bs ++ behind) 0 bs.length).Reads bs where
  idx := rfl
  mem := ⟨behind, rfl⟩

/-- A byte of the readable range. -/
theorem Reads.rawAt {b : Buffer} {bs : Bytes} (h : b.Reads bs) {i : ℕ} (hi : i < bs.length) :
    b.rawAt i = bs[i] := by
  obtain ⟨behind, hb⟩ := h.mem
  unfold Buffer.rawAt
  rw [show ((b.readIdx : ℤ) + (i : ℤ)).toNat = b.readIdx + i by omega, List.getD_eq_getElem?_getD,
    ← List.getElem?_drop]
  show (b.rawReadBuffer[i]?).getD 0 = _
  rw [hb, List.getElem?_append_left hi, List.getElem?_eq_getElem hi, Option.getD_some]

/-- The bytes a range of the buffer holds. -/
theorem Reads.slice {b : Buffer} {bs : Bytes} (h : b.Reads bs) {i n : ℕ} (hin : i + n ≤ bs.length) :
    Circular.slice b.mem (b.readIdx + i) n = Circular.slice bs i n := by
  obtain ⟨behind, hb⟩ := h.mem
  rw [← Circular.slice_append_left hin, ← hb]
  simp only [Circular.slice, rawReadBuffer, List.drop_drop]

/-- **Advancing.** Taking `xs` off the front leaves the rest. -/
theorem Reads.advance {b : Buffer} {xs ys : Bytes} (h : b.Reads (xs ++ ys)) :
    (b.advanceReadIndex xs.length).Reads ys := by
  obtain ⟨behind, hb⟩ := h.mem
  have hidx := h.idx
  rw [List.length_append] at hidx
  refine ⟨?_, behind, ?_⟩
  · rw [advanceReadIndex_ofNat, advanceReadIndex_writeIdx]
    omega
  · unfold rawReadBuffer at hb ⊢
    rw [advanceReadIndex_ofNat, advanceReadIndex_mem, ← List.drop_drop, hb, List.append_assoc,
      List.drop_left]

theorem Reads.readByte_nil {b : Buffer} (h : b.Reads []) : b.readByte = none := by
  unfold readByte
  rw [if_neg]
  rw [h.readable]
  simp

theorem Reads.readByte {b : Buffer} {ch : UInt8} {bs : Bytes} (h : b.Reads (ch :: bs)) :
    b.readByte = some (ch, b.advanceReadIndex 1) ∧ (b.advanceReadIndex 1).Reads bs := by
  refine ⟨?_, @Reads.advance b [ch] bs h⟩
  unfold Buffer.readByte
  rw [if_pos (h.readable.mpr (by simp)), show b.rawAt 0 = ch from h.rawAt (by simp)]

/-! ### Searching the readable bytes -/

/-- A search range that starts at the read index and holds `xs`. -/
theorem Reads.memchr {b : Buffer} {xs ys : Bytes} (h : b.Reads (xs ++ ys)) (ch : UInt8) :
    b.memchr ch b.readIdx xs.length = (xs.findIdx? (· == ch)).map (b.readIdx + ·) := by
  unfold Buffer.memchr
  have hs := h.slice (i := 0) (n := xs.length) (by simp)
  rw [Nat.add_zero] at hs
  rw [hs]
  simp [Circular.slice]

theorem findIdx?_append_of_not_mem {xs ys : Bytes} {ch : UInt8} (h : ch ∉ xs) :
    (xs ++ ch :: ys).findIdx? (· == ch) = some xs.length := by
  rw [List.findIdx?_append, List.findIdx?_eq_none_iff.mpr (by intro x hx; simp; rintro rfl; exact h hx)]
  simp [List.findIdx?_cons]

/-- A byte that does not occur is not found. -/
theorem Reads.indexOf_none {b : Buffer} {xs ys data : Bytes} {ch : UInt8}
    (h : b.Reads (xs ++ ys)) (hxs : ch ∉ xs) :
    b.indexOf (ch :: data) b.readIdx (b.readIdx + xs.length) = none := by
  unfold indexOf
  rw [if_neg (List.cons_ne_nil _ _)]
  split
  · rfl
  · unfold indexOfLoop
    split
    · rw [show b.readIdx + xs.length - b.readIdx = xs.length by omega, List.headD_cons, h.memchr,
        List.findIdx?_eq_none_iff.mpr (by intro x hx; simp; rintro rfl; exact hxs hx)]
      rfl
    · rfl

/-- The first occurrence of a byte. -/
theorem Reads.indexOf_one {b : Buffer} {xs ys zs : Bytes} {ch : UInt8}
    (h : b.Reads (xs ++ ch :: ys ++ zs)) (hxs : ch ∉ xs) :
    b.indexOf [ch] b.readIdx (b.readIdx + (xs ++ ch :: ys).length) = some (b.readIdx + xs.length) := by
  have hidx := h.idx
  simp only [List.length_append, List.length_cons] at hidx
  unfold indexOf
  rw [if_neg (List.cons_ne_nil _ _), if_neg (by simp; omega)]
  unfold indexOfLoop
  rw [if_pos (by simp), show b.readIdx + (xs ++ ch :: ys).length - b.readIdx
    = (xs ++ ch :: ys).length by omega, List.headD_cons, h.memchr, findIdx?_append_of_not_mem hxs]
  simp only [Option.map_some, List.length_singleton, if_true]
  rw [if_pos (by simp)]

/-- A line without CR ends at the first CRLF. -/
theorem Reads.indexOf_crlf {b : Buffer} {xs ys : Bytes} (h : b.Reads (xs ++ 13 :: 10 :: ys))
    (hxs : (13 : UInt8) ∉ xs) :
    b.indexOf [13, 10] b.readIdx b.writeIdx = some (b.readIdx + xs.length) := by
  have hidx := h.idx
  have hlen : b.writeIdx - b.readIdx = (xs ++ 13 :: 10 :: ys).length := by omega
  simp only [List.length_append, List.length_cons] at hidx
  unfold indexOf
  rw [if_neg (List.cons_ne_nil _ _), if_neg (by simp; omega)]
  unfold indexOfLoop
  have h' : b.Reads ((xs ++ 13 :: 10 :: ys) ++ []) := by rwa [List.append_nil]
  rw [if_pos (by omega), hlen, List.headD_cons, h'.memchr, findIdx?_append_of_not_mem hxs]
  have hslice : Circular.slice b.mem (b.readIdx + xs.length) 2 = [13, 10] := by
    rw [h.slice (by simp)]
    simp [Circular.slice]
  simp only [Option.map_some, List.length_cons, List.length_nil, hslice, if_true]
  rw [if_pos (by omega), if_neg (by omega), if_neg (by omega)]

/-- A CR at the end of the readable bytes is not a line end yet. -/
theorem Reads.indexOf_cr {b : Buffer} {xs : Bytes} (h : b.Reads (xs ++ [13]))
    (hxs : (13 : UInt8) ∉ xs) : b.indexOf [13, 10] b.readIdx b.writeIdx = none := by
  have hidx := h.idx
  have hlen : b.writeIdx - b.readIdx = (xs ++ [13]).length := by omega
  simp only [List.length_append, List.length_singleton] at hidx
  unfold indexOf
  rw [if_neg (List.cons_ne_nil _ _)]
  split
  · rfl
  unfold indexOfLoop
  have h' : b.Reads ((xs ++ [13]) ++ []) := by rwa [List.append_nil]
  rw [if_pos (by omega), hlen, List.headD_cons, h'.memchr, findIdx?_append_of_not_mem hxs]
  simp only [Option.map_some, List.length_cons, List.length_nil]
  rw [if_neg (by omega)]

/-- What a search finds lies in the range searched. -/
theorem indexOf_bounds {b : Buffer} {data : Bytes} {start end_ p : ℕ}
    (h : b.indexOf data start end_ = some p) :
    start ≤ p ∧ p + data.length ≤ end_ ∧ end_ ≤ b.writeIdx := by
  have hloop : ∀ fuel start, b.indexOfLoop data end_ fuel start = some p →
      start ≤ p ∧ p + data.length - 1 < end_ := by
    intro fuel
    induction fuel with
    | zero => intro start h; cases h
    | succ fuel ih =>
      intro start h
      unfold indexOfLoop at h
      split at h
      swap
      · cases h
      split at h
      · cases h
      next q hq =>
      have hsq : start ≤ q := by
        unfold memchr at hq
        obtain ⟨k, -, rfl⟩ := Option.map_eq_some_iff.mp hq
        omega
      split at h
      swap
      · cases h
      next hlt =>
      split at h
      · obtain rfl := Option.some.inj h
        exact ⟨hsq, hlt⟩
      split at h
      · split at h
        · cases h
        · obtain rfl := Option.some.inj h
          exact ⟨hsq, hlt⟩
      · obtain ⟨hle, hlt'⟩ := ih _ h
        exact ⟨by omega, hlt'⟩
  unfold indexOf at h
  split at h
  · cases h
  next hne =>
  split at h
  · cases h
  next hr =>
  have hpos : 0 < data.length := List.length_pos_iff.mpr hne
  obtain ⟨h1, h2⟩ := hloop _ _ h
  omega

end Buffer

end Comms
