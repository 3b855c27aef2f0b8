import Comms.Lib.Ledger
import Comms.Lib.Run
import Comms.Codec.HeapBuffer
import Mathlib.Data.UInt

/-!
# A buffer as a queue of bytes

`Buffer` once more, now with its types: the indexes are `size_t`, `AdvanceReadIndex` and `ReadFD`
count with `int`, and `Compact` with `uint32_t`. The memory may be exhausted.

* `SizedBuffer.ensureWritableBytes`, `write`, `read`, .. — the functions;
* `BufferState.Fifo` — what is read is what has been written, in order;
* `bufferStep` — the operations, in any order;
* `fifo_iff` — the runs in which a buffer is a queue.
-/

namespace Comms

/-- What `malloc` returns: a block with these bytes in it, or `NULL`. -/
abbrev Malloc := Option (ℕ → UInt8)

namespace SizedBuffer

open HeapBuffer

/-! ### The functions -/

/-- A `size_t` as an `int`. -/
def int32 (n : ℕ) : ℤ :=
  if n % 2 ^ 32 < 2 ^ 31 then (n % 2 ^ 32 : ℕ) else (n % 2 ^ 32 : ℕ) - 2 ^ 32

/-- `AdvanceReadIndex`. -/
def advanceReadIndex (h : HeapBuffer) (step : ℤ) : HeapBuffer :=
  h.setReadIndex ((h.readIdx + step) % 2 ^ 64).toNat

/-- `SkipBytes`. -/
def skipBytes (h : HeapBuffer) (len : ℕ) : HeapBuffer := advanceReadIndex h (int32 len)

theorem zero_fits (h : HeapBuffer) : 0 ≤ h.mem.length := Nat.zero_le _

/-- `Clear`. -/
def clear (h : HeapBuffer) : HeapBuffer :=
  { h with writeIdx := 0, readIdx := 0, fits := zero_fits h }

theorem slice_length_of_le (h : HeapBuffer) {n : ℕ} (hn : n ≤ h.readableBytes) :
    (Circular.slice h.mem h.readIdx n).length = n := by
  have hfits := h.fits
  unfold HeapBuffer.readableBytes at hn
  rcases Nat.eq_zero_or_pos n with rfl | hpos
  · rw [Circular.slice_zero, List.length_nil]
  · exact Circular.slice_length (by omega)

/-- `Compact`. -/
def compact (h : HeapBuffer) (leastLength : ℕ) (malloc : Malloc) : ℕ × HeapBuffer :=
  let h := if h.Readable then h else clear h
  if h.writeableBytes % 2 ^ 32 < leastLength then (0, h)
  else if 0 < h.readableBytes % 2 ^ 32 then
    match malloc with
    | none => (0, h)
    | some _ =>
      ((h.mem.length % 2 ^ 32 + 2 ^ 32 - h.readableBytes % 2 ^ 32) % 2 ^ 32,
        { generation := h.generation + 1
          mem := Circular.slice h.mem h.readIdx (h.readableBytes % 2 ^ 32)
          writeIdx := h.readableBytes % 2 ^ 32
          readIdx := 0
          fits := (slice_length_of_le h (Nat.mod_le _ _)).ge })
  else (0, h)

/-- The loop of `EnsureWritableBytes`. After 64 rounds the capacity is `0` for good. -/
def doubled (minNewCapacity : ℕ) : ℕ → ℕ → Option ℕ
  | 0, _ => none
  | fuel + 1, newCapacity =>
    if newCapacity < minNewCapacity then doubled minNewCapacity fuel (2 * newCapacity % 2 ^ 64)
    else some newCapacity

/-- The block is copied to a larger one. -/
def grown (h : HeapBuffer) (newCapacity : ℕ) (block : ℕ → UInt8) : HeapBuffer :=
  { h with
    generation := h.generation + 1
    mem := h.mem ++ (List.range' h.mem.length (newCapacity - h.mem.length)).map block
    fits := h.fits.trans (by simp) }

/-- The capacity that is doubled. -/
def firstCapacity (h : HeapBuffer) : ℕ := if h.mem.length = 0 then 32 else h.mem.length

/-- `EnsureWritableBytes`; `none` is a loop that does not end. -/
def ensureWritableBytes (h : HeapBuffer) (minWritableBytes : ℕ) (malloc : Malloc) :
    Option (Bool × HeapBuffer) :=
  if minWritableBytes ≤ h.writeableBytes then some (true, h)
  else
    (doubled ((h.writeIdx + minWritableBytes) % 2 ^ 64) 65 (firstCapacity h)).map fun newCapacity =>
      match malloc with
      | none => (false, h)
      | some block => (true, grown h newCapacity block)

/-- `memcpy(m_buffer + m_write_idx, data, datlen)`, and the write index moved. -/
def append (h : HeapBuffer) (data : Bytes) (hroom : h.writeIdx + data.length ≤ h.mem.length) :
    HeapBuffer :=
  { h with
    mem := Circular.splice h.mem h.writeIdx data
    writeIdx := h.writeIdx + data.length
    fits := hroom.trans (Circular.splice_length hroom).ge }

/-- `Write(data_in, datlen)`; `none` is also a write past the block. -/
def write (h : HeapBuffer) (data : Bytes) (malloc : Malloc) : Option (ℤ × HeapBuffer) :=
  (ensureWritableBytes h data.length malloc).bind fun r =>
    if r.1 then
      if hroom : r.2.writeIdx + data.length ≤ r.2.mem.length then
        some (int32 data.length, append r.2 data hroom)
      else none
    else some (-1, r.2)

/-- `Write(unit, datlen)`: what it returns, the buffer and the `unit`. -/
def writeUnit (h unit : HeapBuffer) (datlen : ℕ) (malloc : Malloc) :
    Option (ℤ × HeapBuffer × HeapBuffer) :=
  let datlen := if unit.readableBytes < datlen then unit.readableBytes else datlen
  (write h (Circular.slice unit.mem unit.readIdx datlen) malloc).map fun r =>
    (r.1, r.2, if 0 < r.1 then advanceReadIndex unit r.1 else unit)

/-- `Read(data_out, datlen)`: what it returns, the bytes and the buffer. -/
def read (h : HeapBuffer) (datlen : ℕ) : ℤ × Bytes × HeapBuffer :=
  if h.readableBytes < datlen then (-1, [], h)
  else
    (int32 datlen, Circular.slice h.mem h.readIdx datlen, h.setReadIndex (h.readIdx + datlen))

/-- `Read(unit, datlen)`, with the `unit` first. -/
def readUnit (h unit : HeapBuffer) (datlen : ℕ) (malloc : Malloc) :
    Option (ℤ × HeapBuffer × HeapBuffer) :=
  writeUnit unit h datlen malloc

theorem take_writeable_le (h : HeapBuffer) (data : Bytes) :
    h.writeIdx + (data.take h.writeableBytes).length ≤ h.mem.length := by
  have hfits := h.fits
  rw [List.length_take, writeableBytes]
  omega

/-- `readv` has filled the block; `m_write_idx = m_buffer_len`. -/
def filled (h : HeapBuffer) (data : Bytes) : HeapBuffer :=
  { h with
    mem := Circular.splice h.mem h.writeIdx (data.take h.writeableBytes)
    writeIdx := h.mem.length
    fits := (Circular.splice_length (take_writeable_le h data)).ge }

/-- `ReadFD`, when `readv` delivers `data`, or fails. The result of the last `Write` is not looked
at. -/
def readFD (h : HeapBuffer) (data : Option Bytes) (malloc : Malloc) : Option (ℤ × HeapBuffer) :=
  match data with
  | none => some (-1, h)
  | some data =>
    -- `(size_t) n <= writable`
    if hroom : h.writeIdx + data.length ≤ h.mem.length then some (data.length, append h data hroom)
    else
      (write (filled h data) (data.drop h.writeableBytes) malloc).map fun r => (data.length, r.2)

/-- What `WriteFD` asks `write` for. -/
def askedFD (h : HeapBuffer) : ℕ := (int32 h.readableBytes % 2 ^ 64).toNat

/-- `WriteFD`, when `write` takes `n` bytes, or fails. -/
def writeFD (h : HeapBuffer) (n : Option ℕ) : ℤ × Bytes × HeapBuffer :=
  if int32 h.readableBytes = 0 then (0, [], h)
  else
    match n with
    | none => (-1, [], h)
    | some n => (n, Circular.slice h.mem h.readIdx n, h.setReadIndex (h.readIdx + n))

/-! ### What they do -/

variable {h h' : HeapBuffer} {bs data : Bytes} {n : ℕ} {malloc : Malloc}

theorem int32_of_lt (hn : n < 2 ^ 31) : int32 n = n := by
  have hmod : n % 2 ^ 32 = n := Nat.mod_eq_of_lt (by omega)
  rw [int32, hmod, if_pos hn]

theorem int32_le (n : ℕ) : int32 n ≤ n := by
  unfold int32
  have hmod := Nat.mod_le n (2 ^ 32)
  split <;> omega

theorem int32_lt (n : ℕ) : int32 n < 2 ^ 31 := by
  unfold int32
  split <;> omega

/-- The loop ends at the first capacity that is large enough. -/
theorem doubled_spec (min : ℕ) : ∀ (fuel : ℕ) {newCapacity : ℕ}, newCapacity < 2 ^ 64 →
    (doubled min fuel newCapacity = none ∧ ∀ k < fuel, newCapacity * 2 ^ k % 2 ^ 64 < min) ∨
    ∃ k < fuel, doubled min fuel newCapacity = some (newCapacity * 2 ^ k % 2 ^ 64) ∧
      min ≤ newCapacity * 2 ^ k % 2 ^ 64
  | 0, _, _ => .inl ⟨rfl, nofun⟩
  | fuel + 1, newCapacity, hlt => by
    have hself : newCapacity * 2 ^ 0 % 2 ^ 64 = newCapacity := by
      rw [pow_zero, mul_one, Nat.mod_eq_of_lt hlt]
    rcases Nat.lt_or_ge newCapacity min with hmin | hmin
    · have hnext : ∀ k, 2 * newCapacity % 2 ^ 64 * 2 ^ k % 2 ^ 64 =
          newCapacity * 2 ^ (k + 1) % 2 ^ 64 := by
        intro k
        rw [Nat.mod_mul_mod, pow_succ]
        congr 1
        ring
      have hloop : doubled min (fuel + 1) newCapacity =
          doubled min fuel (2 * newCapacity % 2 ^ 64) := by
        rw [doubled, if_pos hmin]
      rw [hloop]
      rcases doubled_spec min fuel (Nat.mod_lt (2 * newCapacity) (by decide)) with
        ⟨hnone, hall⟩ | ⟨k, hk, hsome, hle⟩
      · refine .inl ⟨hnone, fun k hk => ?_⟩
        cases k with
        | zero =>
          rw [hself]
          exact hmin
        | succ k =>
          rw [← hnext]
          exact hall k (Nat.lt_of_succ_lt_succ hk)
      · rw [hnext] at hsome hle
        exact .inr ⟨k + 1, Nat.succ_lt_succ hk, hsome, hle⟩
    · refine .inr ⟨0, Nat.succ_pos fuel, ?_, ?_⟩
      · rw [doubled, if_neg (not_lt.mpr hmin), hself]
      · rw [hself]
        exact hmin

/-- A capacity is found: one that comes from doubling, in 64 bits, is large enough. -/
def Grows (h : HeapBuffer) (n : ℕ) : Prop :=
  n ≤ h.writeableBytes ∨
    ∃ k < 65, (h.writeIdx + n) % 2 ^ 64 ≤ firstCapacity h * 2 ^ k % 2 ^ 64

instance (h : HeapBuffer) (n : ℕ) : Decidable (Grows h n) := inferInstanceAs (Decidable (_ ∨ _))

theorem firstCapacity_lt (hsize : h.mem.length < 2 ^ 64) : firstCapacity h < 2 ^ 64 := by
  unfold firstCapacity
  split <;> omega

theorem ensure_of_not (hsize : h.mem.length < 2 ^ 64) (hnot : ¬ Grows h n) :
    ensureWritableBytes h n malloc = none := by
  obtain ⟨hroom, hall⟩ := not_or.mp hnot
  unfold ensureWritableBytes
  rw [if_neg hroom]
  rcases doubled_spec ((h.writeIdx + n) % 2 ^ 64) 65 (firstCapacity_lt hsize) with
    ⟨hnone, -⟩ | ⟨k, hk, -, hle⟩
  · rw [hnone]
    rfl
  · exact absurd ⟨k, hk, hle⟩ hall

/-- What `EnsureWritableBytes` has done. -/
structure Ensured (h : HeapBuffer) (n : ℕ) (malloc : Malloc) (ok : Bool) (h' : HeapBuffer) :
    Prop where
  reads : ∀ bs, h.Reads bs → h'.Reads bs
  writeIdx : h'.writeIdx = h.writeIdx
  size : h'.mem.length < 2 ^ 64
  room : ok = true → h.writeIdx + n < 2 ^ 64 → h.writeIdx + n ≤ h'.mem.length
  done : ok = true → n ≤ h.writeableBytes ∨ malloc.isSome = true
  failed : ok = false → h' = h ∧ h.writeableBytes < n ∧ malloc = none

theorem ensure_spec (hsize : h.mem.length < 2 ^ 64) (hgrows : Grows h n) (malloc : Malloc) :
    ∃ ok h', ensureWritableBytes h n malloc = some (ok, h') ∧ Ensured h n malloc ok h' := by
  have hfits := h.fits
  unfold ensureWritableBytes
  by_cases hroom : n ≤ h.writeableBytes
  · refine ⟨true, h, if_pos hroom, fun _ hr => hr, rfl, hsize, fun _ _ => ?_, fun _ => .inl hroom,
      nofun⟩
    unfold writeableBytes at hroom
    omega
  · rw [if_neg hroom]
    rcases doubled_spec ((h.writeIdx + n) % 2 ^ 64) 65 (firstCapacity_lt hsize) with
      ⟨-, hall⟩ | ⟨k, -, hsome, hle⟩
    · obtain ⟨k, hk, hle⟩ := hgrows.resolve_left hroom
      exact absurd hle (not_le.mpr (hall k hk))
    · rw [hsome]
      cases malloc with
      | none => exact ⟨false, h, rfl, fun _ hr => hr, rfl, hsize, nofun, nofun, fun _ =>
          ⟨rfl, not_le.mp hroom, rfl⟩⟩
      | some block =>
        refine ⟨true, grown h _ block, rfl, fun bs hr => extend_reads hr rfl rfl rfl, rfl, ?_,
          fun _ hfit => ?_, fun _ => .inr rfl, nofun⟩
        · have hcap := Nat.mod_lt (firstCapacity h * 2 ^ k) (show 0 < 2 ^ 64 by decide)
          simp only [grown, List.length_append, List.length_map, List.length_range']
          omega
        · rw [Nat.mod_eq_of_lt hfit] at hle
          simp only [grown, List.length_append, List.length_map, List.length_range']
          omega

theorem append_reads (hr : h.Reads bs) (hroom : h.writeIdx + data.length ≤ h.mem.length) :
    (append h data hroom).Reads (bs ++ data) :=
  splice_reads hr hroom rfl rfl rfl

theorem append_size (hroom : h.writeIdx + data.length ≤ h.mem.length) :
    (append h data hroom).mem.length = h.mem.length :=
  Circular.splice_length hroom

/-- What `Write` has done: all of it, or nothing, where there is no memory. -/
structure Written (h : HeapBuffer) (data : Bytes) (malloc : Malloc) (r : ℤ × HeapBuffer) :
    Prop where
  size : r.2.mem.length < 2 ^ 64
  result : (r.1 = int32 data.length ∧ r.2.writeIdx = h.writeIdx + data.length ∧
      (∀ bs, h.Reads bs → r.2.Reads (bs ++ data)) ∧
      (data.length ≤ h.writeableBytes ∨ malloc.isSome = true)) ∨
    (r = (-1, h) ∧ h.writeableBytes < data.length ∧ malloc = none)

theorem write_spec (hsize : h.mem.length + data.length < 2 ^ 64) (hgrows : Grows h data.length)
    (malloc : Malloc) : ∃ r, write h data malloc = some r ∧ Written h data malloc r := by
  have hfits := h.fits
  obtain ⟨ok, h', hensure, hdone⟩ := ensure_spec (by omega) hgrows malloc
  have hidx := hdone.writeIdx
  unfold write
  rw [hensure, Option.bind_some]
  cases ok with
  | false =>
    obtain ⟨rfl, hroom, hmalloc⟩ := hdone.failed rfl
    exact ⟨_, rfl, hdone.size, .inr ⟨rfl, hroom, hmalloc⟩⟩
  | true =>
    have hroom : h'.writeIdx + data.length ≤ h'.mem.length := by
      rw [hidx]
      exact hdone.room rfl (by omega)
    refine ⟨(int32 data.length, append h' data hroom), ?_, ?_,
      .inl ⟨rfl, ?_, fun bs hr => ?_, hdone.done rfl⟩⟩
    · exact dif_pos hroom
    · rw [append_size]
      exact hdone.size
    · exact congrArg (· + data.length) hidx
    · exact append_reads (hdone.reads bs hr) hroom

theorem write_of_not (hsize : h.mem.length < 2 ^ 64) (hnot : ¬ Grows h data.length) :
    write h data malloc = none := by
  rw [write, ensure_of_not hsize hnot, Option.bind_none]

theorem advance_eq (hlt : h.readIdx + n < 2 ^ 64) :
    advanceReadIndex h n = h.setReadIndex (h.readIdx + n) := by
  unfold advanceReadIndex
  congr 1
  omega

theorem advance_reads (hsize : h.mem.length < 2 ^ 64) (hr : h.Reads bs) (hn : n ≤ bs.length) :
    (advanceReadIndex h n).Reads (bs.drop n) := by
  have hidx := hr.idx
  have hfits := h.fits
  rw [advance_eq (by omega)]
  exact hr.skip hn

/-- `Compact` moves the bytes to a block of its own. -/
def Moves (h : HeapBuffer) (leastLength : ℕ) (malloc : Malloc) : Prop :=
  h.Readable ∧ leastLength ≤ h.writeableBytes % 2 ^ 32 ∧ 0 < h.readableBytes % 2 ^ 32 ∧
    malloc.isSome = true

instance (h : HeapBuffer) (leastLength : ℕ) (malloc : Malloc) :
    Decidable (Moves h leastLength malloc) :=
  inferInstanceAs (Decidable (_ ∧ _))

theorem compact_of_moves {leastLength : ℕ} (hmoves : Moves h leastLength malloc) :
    (compact h leastLength malloc).2.mem.length = h.readableBytes % 2 ^ 32 ∧
    (compact h leastLength malloc).2.writeIdx = h.readableBytes % 2 ^ 32 ∧
    (compact h leastLength malloc).2.readIdx = 0 ∧
    (compact h leastLength malloc).2.mem =
      Circular.slice h.mem h.readIdx (h.readableBytes % 2 ^ 32) := by
  obtain ⟨hreadable, hleast, hpos, hmalloc⟩ := hmoves
  obtain ⟨block, rfl⟩ := Option.isSome_iff_exists.mp hmalloc
  have hcompact : (compact h leastLength (some block)).2 =
      { generation := h.generation + 1
        mem := Circular.slice h.mem h.readIdx (h.readableBytes % 2 ^ 32)
        writeIdx := h.readableBytes % 2 ^ 32
        readIdx := 0
        fits := (slice_length_of_le h (Nat.mod_le _ _)).ge } := by
    simp only [compact, if_pos hreadable, if_neg (not_lt.mpr hleast), if_pos hpos]
  rw [hcompact]
  exact ⟨slice_length_of_le h (Nat.mod_le _ _), rfl, rfl, rfl⟩

/-- Otherwise it moves nothing; an empty buffer starts anew. -/
theorem compact_of_not {leastLength : ℕ} (hnot : ¬ Moves h leastLength malloc) :
    (compact h leastLength malloc).2 = if h.Readable then h else clear h := by
  by_cases hreadable : h.Readable
  · simp only [compact, if_pos hreadable]
    by_cases hleast : h.writeableBytes % 2 ^ 32 < leastLength
    · rw [if_pos hleast]
    · rw [if_neg hleast]
      by_cases hpos : 0 < h.readableBytes % 2 ^ 32
      · rw [if_pos hpos]
        cases malloc with
        | none => rfl
        | some block => exact absurd ⟨hreadable, not_lt.mp hleast, hpos, rfl⟩ hnot
      · rw [if_neg hpos]
  · have hempty : ¬ 0 < (clear h).readableBytes % 2 ^ 32 := by
      simp [clear, HeapBuffer.readableBytes]
    simp only [compact, if_neg hreadable, if_neg hempty, ite_self]

theorem clear_reads : (clear h).Reads [] :=
  ⟨rfl, by simp [clear, HeapBuffer.readable, HeapBuffer.readableBytes]⟩

theorem compact_reads {leastLength : ℕ} (hr : h.Reads bs)
    (hfits : Moves h leastLength malloc → h.readableBytes < 2 ^ 32) :
    (compact h leastLength malloc).2.Reads bs := by
  by_cases hmoves : Moves h leastLength malloc
  · obtain ⟨-, hwrite, hread, hmem⟩ := compact_of_moves hmoves
    rw [Nat.mod_eq_of_lt (hfits hmoves), hr.readableBytes] at hwrite hmem
    rw [hr.slice le_rfl, List.take_length] at hmem
    refine ⟨by omega, ?_⟩
    rw [HeapBuffer.readable, HeapBuffer.readableBytes, hmem, hwrite, hread]
    simp [Circular.slice]
  · rw [compact_of_not hmoves]
    by_cases hreadable : h.Readable
    · rw [if_pos hreadable]
      exact hr
    · rw [if_neg hreadable]
      have hnil : bs = [] := by
        rw [hr.readable_iff] at hreadable
        exact not_not.mp hreadable
      rw [hnil]
      exact clear_reads

theorem compact_size {leastLength : ℕ} (hsize : h.mem.length < 2 ^ 64) :
    (compact h leastLength malloc).2.mem.length < 2 ^ 64 := by
  by_cases hmoves : Moves h leastLength malloc
  · rw [(compact_of_moves hmoves).1]
    exact (Nat.mod_lt _ (by decide)).trans (by decide)
  · rw [compact_of_not hmoves]
    split
    · exact hsize
    · exact hsize

theorem grows_of_le (hn : n ≤ h.writeableBytes) : Grows h n := .inl hn

theorem filled_size : (filled h data).mem.length = h.mem.length :=
  Circular.splice_length (take_writeable_le h data)

theorem filled_writeable : (filled h data).writeableBytes = 0 := by
  rw [writeableBytes, filled_size]
  exact Nat.sub_self h.mem.length

theorem filled_reads (hfull : h.writeableBytes ≤ data.length) (hr : h.Reads bs) :
    (filled h data).Reads (bs ++ data.take h.writeableBytes) := by
  have hfits := h.fits
  refine splice_reads hr (take_writeable_le h data) rfl ?_ rfl
  change h.mem.length = _
  rw [List.length_take_of_le hfull, writeableBytes]
  omega

/-- The rest does not fit, and the same capacity is looked for. -/
theorem filled_grows (hfull : h.writeableBytes < data.length) :
    Grows (filled h data) (data.drop h.writeableBytes).length ↔ Grows h data.length := by
  have hfits := h.fits
  have hnone : ¬ (data.drop h.writeableBytes).length ≤ (filled h data).writeableBytes := by
    rw [filled_writeable, List.length_drop]
    omega
  have hsum : (filled h data).writeIdx + (data.drop h.writeableBytes).length =
      h.writeIdx + data.length := by
    rw [List.length_drop, writeableBytes]
    change h.mem.length + _ = _
    unfold writeableBytes at hfull
    omega
  unfold Grows
  rw [or_iff_right hnone, or_iff_right (not_le.mpr hfull), hsum, firstCapacity, filled_size,
    firstCapacity]

/-- What `ReadFD` has done with `data`: it is behind the other bytes, or what is behind the block
has been dropped. -/
structure Received (h : HeapBuffer) (data : Bytes) (malloc : Malloc) (r : ℤ × HeapBuffer) :
    Prop where
  size : r.2.mem.length < 2 ^ 64
  result : ((∀ bs, h.Reads bs → r.2.Reads (bs ++ data)) ∧
      (data.length ≤ h.writeableBytes ∨ malloc.isSome = true)) ∨
    (r.2 = filled h data ∧ h.writeableBytes < data.length ∧ malloc = none)

theorem readFD_spec (hsize : h.mem.length < 2 ^ 64) (hsum : h.writeIdx + data.length < 2 ^ 64)
    (hgrows : Grows h data.length) (malloc : Malloc) :
    ∃ r, readFD h (some data) malloc = some r ∧ Received h data malloc r := by
  have hfits := h.fits
  by_cases hroom : h.writeIdx + data.length ≤ h.mem.length
  · refine ⟨(data.length, append h data hroom), dif_pos hroom, ?_,
      .inl ⟨fun bs hr => append_reads hr hroom, .inl ?_⟩⟩
    · change (append h data hroom).mem.length < 2 ^ 64
      rw [append_size]
      exact hsize
    · unfold writeableBytes
      omega
  · have hfull : h.writeableBytes < data.length := by
      unfold writeableBytes
      omega
    have hrest : (filled h data).mem.length + (data.drop h.writeableBytes).length < 2 ^ 64 := by
      rw [filled_size, List.length_drop]
      unfold writeableBytes
      omega
    obtain ⟨r, hwrite, hdone⟩ := write_spec hrest ((filled_grows hfull).mpr hgrows) malloc
    refine ⟨(data.length, r.2), ?_, hdone.size, ?_⟩
    · unfold readFD
      exact (dif_neg hroom).trans (congrArg (Option.map _) hwrite)
    · rcases hdone.result with ⟨-, -, hreads, hmalloc⟩ | ⟨rfl, -, hmalloc⟩
      · refine .inl ⟨fun bs hr => ?_, .inr (hmalloc.resolve_left ?_)⟩
        swap
        · rw [filled_writeable, List.length_drop]
          omega
        have happended := hreads _ (filled_reads hfull.le hr)
        rwa [List.append_assoc, List.take_append_drop] at happended
      · exact .inr ⟨rfl, hfull, hmalloc⟩

theorem readFD_of_not (hsize : h.mem.length < 2 ^ 64) (hnot : ¬ Grows h data.length) :
    readFD h (some data) malloc = none := by
  have hfits := h.fits
  have hfull : h.writeableBytes < data.length := not_le.mp (not_or.mp hnot).1
  have hroom : ¬ h.writeIdx + data.length ≤ h.mem.length := by
    unfold writeableBytes at hfull
    omega
  have hwrite := @write_of_not _ _ malloc (filled_size.trans_lt hsize)
    (fun hgrows => hnot ((filled_grows hfull).mp hgrows))
  unfold readFD
  exact (dif_neg hroom).trans (congrArg (Option.map _) hwrite)

end SizedBuffer

/-! ### Use -/

/-- A buffer in use, with the bytes that have been written to it and those that have been read or
skipped. `stuck` is a loop that does not end, or a write past the block. -/
structure BufferState where
  buffer : HeapBuffer
  ledger : Ledger UInt8
  stuck : Bool

/-- An operation on a buffer. `readUnit` and `writeUnit` come with the other buffer. -/
inductive BufferOp
  | write (data : Bytes) (malloc : Malloc)
  | writeUnit (unit : HeapBuffer) (datlen : ℕ) (malloc : Malloc)
  | read (datlen : ℕ)
  | readUnit (unit : HeapBuffer) (datlen : ℕ) (malloc : Malloc)
  | readFD (data : Option Bytes) (malloc : Malloc)
  | writeFD (n : Option ℕ)
  | skipBytes (len : ℕ)
  | advanceReadIndex (step : ℕ)
  | ensureWritableBytes (minWritableBytes : ℕ) (malloc : Malloc)
  | compact (leastLength : ℕ) (malloc : Malloc)
  | discardReadedBytes

namespace BufferState

open SizedBuffer

/-- A buffer as it is found. -/
def start (h : HeapBuffer) : BufferState := ⟨h, .start h.readable, false⟩

/-- What has come of a call. -/
def after (s : BufferState) (o : Option BufferState) : BufferState :=
  o.getD { s with stuck := true }

/-- The bytes that a write of `data` to `h` has put there; it moves the write index if it does. -/
def written (h h' : HeapBuffer) (data : Bytes) : Bytes :=
  if h'.writeIdx = h.writeIdx then [] else data

/-- What `Write` or `Read` of another buffer hands over. -/
def handedOver (unit : HeapBuffer) (datlen : ℕ) : Bytes :=
  Circular.slice unit.mem unit.readIdx (min unit.readableBytes datlen)

/-- The operation. -/
def run (s : BufferState) : BufferOp → BufferState
  | .write data malloc => s.after <| (write s.buffer data malloc).map fun r =>
      { s with buffer := r.2, ledger := s.ledger.putIn (written s.buffer r.2 data) }
  | .writeUnit unit datlen malloc => s.after <| (writeUnit s.buffer unit datlen malloc).map fun r =>
      { s with
        buffer := r.2.1
        ledger := s.ledger.putIn (written s.buffer r.2.1 (handedOver unit datlen)) }
  | .read datlen =>
    let r := read s.buffer datlen
    { s with buffer := r.2.2, ledger := s.ledger.takeOut r.2.1 }
  | .readUnit unit datlen malloc => s.after <| (readUnit s.buffer unit datlen malloc).map fun r =>
      { s with
        buffer := r.2.2
        ledger := s.ledger.takeOut (written unit r.2.1 (handedOver s.buffer datlen)) }
  | .readFD data malloc => s.after <| (readFD s.buffer data malloc).map fun r =>
      { s with buffer := r.2, ledger := s.ledger.putIn (data.getD []) }
  | .writeFD n =>
    let r := writeFD s.buffer n
    { s with buffer := r.2.2, ledger := s.ledger.takeOut r.2.1 }
  | .skipBytes len =>
    { s with
      buffer := skipBytes s.buffer len
      ledger := s.ledger.takeOut (Circular.slice s.buffer.mem s.buffer.readIdx len) }
  | .advanceReadIndex step =>
    { s with
      buffer := advanceReadIndex s.buffer step
      ledger := s.ledger.takeOut (Circular.slice s.buffer.mem s.buffer.readIdx step) }
  | .ensureWritableBytes minWritableBytes malloc =>
    s.after <| (ensureWritableBytes s.buffer minWritableBytes malloc).map fun r =>
      { s with buffer := r.2 }
  | .compact leastLength malloc => { s with buffer := (compact s.buffer leastLength malloc).2 }
  | .discardReadedBytes => { s with buffer := s.buffer.discardReadedBytes }

/-- What `readv` and `write` transfer at most. -/
def maxRwCount : ℕ := 0x7ffff000

/-- The operations that are possible: what is copied is in the memory beside the block, the system
calls transfer no more than they are asked for, and what is skipped is readable. -/
def Allowed (s : BufferState) : BufferOp → Prop
  | .write data _ => s.buffer.mem.length + data.length < 2 ^ 64
  | .writeUnit unit datlen _ | .readUnit unit datlen _ =>
    s.buffer.mem.length + unit.mem.length < 2 ^ 64 ∧ datlen < 2 ^ 64
  | .read datlen => datlen < 2 ^ 64
  | .readFD (some data) _ => s.buffer.mem.length + HeapBuffer.extrabufSize < 2 ^ 64 ∧
      data.length ≤ s.buffer.readLimit ∧ data.length ≤ maxRwCount
  | .writeFD (some n) => n ≤ askedFD s.buffer ∧ n ≤ maxRwCount
  | .skipBytes len => len ≤ s.buffer.readableBytes
  | .advanceReadIndex step => step ≤ s.buffer.readableBytes ∧ step < 2 ^ 31
  | .ensureWritableBytes n _ | .compact n _ => n < 2 ^ 64
  | .readFD none _ | .writeFD none | .discardReadedBytes => True

instance (s : BufferState) : ∀ op, Decidable (s.Allowed op)
  | .write _ _ | .read _ | .ensureWritableBytes _ _ | .compact _ _ => Nat.decLt _ _
  | .skipBytes _ => Nat.decLe _ _
  | .writeUnit _ _ _ | .readUnit _ _ _ | .readFD (some _) _ | .writeFD (some _)
  | .advanceReadIndex _ => inferInstanceAs (Decidable (_ ∧ _))
  | .readFD none _ | .writeFD none | .discardReadedBytes => inferInstanceAs (Decidable True)

/-- **A queue of bytes.** -/
structure Fifo (s : BufferState) : Prop where
  runs : s.stuck = false
  readIdx_le : s.buffer.readIdx ≤ s.buffer.writeIdx
  writeIdx_le : s.buffer.writeIdx ≤ s.buffer.mem.length
  /-- The readable bytes are those that have been written and neither read nor skipped. -/
  order : s.ledger.Holds s.buffer.readable
  refuses : ∀ n, s.buffer.readableBytes < n → read s.buffer n = (-1, [], s.buffer)
  size : s.buffer.mem.length < 2 ^ 64

end BufferState

/-- One operation. -/
def bufferStep (s : BufferState) (op : BufferOp) : Option BufferState :=
  if s.stuck = false ∧ s.Allowed op then some (s.run op) else none

/-! ### Where it is one -/

namespace BufferState

open SizedBuffer

/-- The condition on an operation: a capacity is found by doubling; the last bytes of `readv` are
not dropped for want of memory; less than `2 ^ 31` bytes are skipped, or so many that the `int` that
comes of them is the same modulo `2 ^ 64`; less than `2 ^ 31` are handed over to another buffer; and
`Compact` does not move `2 ^ 32` bytes and more. -/
def OpOk (s : BufferState) : BufferOp → Prop
  | .write data _ => Grows s.buffer data.length
  | .writeUnit unit datlen _ => Grows s.buffer (min unit.readableBytes datlen)
  | .readUnit unit datlen malloc =>
    Grows unit (min s.buffer.readableBytes datlen) ∧
      (min s.buffer.readableBytes datlen < 2 ^ 31 ∨
        unit.writeableBytes < min s.buffer.readableBytes datlen ∧ malloc.isNone = true)
  | .readFD (some data) malloc =>
    Grows s.buffer data.length ∧ (data.length ≤ s.buffer.writeableBytes ∨ malloc.isSome = true)
  | .skipBytes len => len < 2 ^ 31 ∨ 2 ^ 64 - 2 ^ 31 ≤ len
  | .ensureWritableBytes n _ => Grows s.buffer n
  | .compact leastLength malloc =>
    Moves s.buffer leastLength malloc → s.buffer.readableBytes < 2 ^ 32
  | .read _ | .readFD none _ | .writeFD _ | .advanceReadIndex _ | .discardReadedBytes => True

instance (s : BufferState) : ∀ op, Decidable (s.OpOk op)
  | .write data _ => inferInstanceAs (Decidable (Grows s.buffer data.length))
  | .writeUnit unit n _ => inferInstanceAs (Decidable (Grows s.buffer (min unit.readableBytes n)))
  | .readUnit _ _ _ | .readFD (some _) _ => inferInstanceAs (Decidable (_ ∧ _))
  | .skipBytes _ => inferInstanceAs (Decidable (_ ∨ _))
  | .ensureWritableBytes n _ => inferInstanceAs (Decidable (Grows s.buffer n))
  | .compact n malloc => inferInstanceAs (Decidable (Moves s.buffer n malloc → _))
  | .read _ | .readFD none _ | .writeFD _ | .advanceReadIndex _ | .discardReadedBytes =>
    inferInstanceAs (Decidable True)

section Steps

variable {s t : BufferState} {q data : Bytes} {n : ℕ} {malloc : Malloc} {unit : HeapBuffer}

theorem fifo_of_reads (hruns : t.stuck = false) (hreads : t.buffer.Reads q)
    (hledger : t.ledger.Holds q) (hsize : t.buffer.mem.length < 2 ^ 64) : Fifo t where
  runs := hruns
  readIdx_le := by
    have hidx := hreads.idx
    omega
  writeIdx_le := t.buffer.fits
  order := by
    rw [hreads.readable]
    exact hledger
  refuses := fun _ hn => if_pos hn
  size := hsize

theorem Fifo.reads (h : Fifo s) : s.buffer.Reads s.buffer.readable := by
  refine ⟨?_, rfl⟩
  have hle := h.readIdx_le
  rw [HeapBuffer.readable_length, HeapBuffer.readableBytes]
  omega

/-- No byte is missing, and none is there twice. -/
theorem Fifo.count (h : Fifo s) :
    s.ledger.put.length + s.buffer.readIdx = s.ledger.taken.length + s.buffer.writeIdx := by
  have hlen := h.order.length
  have hle := h.readIdx_le
  rw [HeapBuffer.readable_length, HeapBuffer.readableBytes] at hlen
  omega

theorem not_fifo_of_none : ¬ Fifo (s.after none) := fun h => nomatch h.runs

theorem written_of_moved {h h' : HeapBuffer} (hidx : h'.writeIdx = h.writeIdx + data.length) :
    written h h' data = data := by
  unfold written
  split
  · have hnil : data = [] := List.length_eq_zero_iff.mp (by omega)
    exact hnil.symm
  · rfl

theorem run_write_iff (hs : Fifo s) (hallowed : s.Allowed (.write data malloc)) :
    Fifo (s.run (.write data malloc)) ↔ Grows s.buffer data.length := by
  by_cases hgrows : Grows s.buffer data.length
  · refine iff_of_true ?_ hgrows
    obtain ⟨r, hwrite, hdone⟩ := write_spec hallowed hgrows malloc
    rw [run, hwrite]
    rcases hdone.result with ⟨-, hidx, hreads, -⟩ | ⟨rfl, -, -⟩
    · refine fifo_of_reads hs.runs (hreads _ hs.reads) ?_ hdone.size
      change Ledger.Holds (s.ledger.putIn (written s.buffer r.2 data)) _
      rw [written_of_moved hidx]
      exact hs.order.putIn data
    · refine fifo_of_reads hs.runs hs.reads ?_ hs.size
      change Ledger.Holds (s.ledger.putIn (written s.buffer s.buffer data)) _
      rw [written, if_pos rfl, Ledger.putIn_nil]
      exact hs.order
  · refine iff_of_false ?_ hgrows
    rw [run, write_of_not hs.size hgrows]
    exact not_fifo_of_none

/-- The bytes handed over are the first of the other buffer. -/
theorem handedOver_length : (handedOver unit n).length = min unit.readableBytes n :=
  slice_length_of_le unit (Nat.min_le_left _ _)

theorem handedOver_eq (hr : unit.Reads q) :
    handedOver unit n = q.take (min unit.readableBytes n) := by
  refine hr.slice ?_
  rw [← hr.readableBytes]
  exact Nat.min_le_left _ _

theorem writeUnit_eq (h : HeapBuffer) :
    writeUnit h unit n malloc = (write h (handedOver unit n) malloc).map fun r =>
      (r.1, r.2, if 0 < r.1 then advanceReadIndex unit r.1 else unit) := by
  have hmin : (if unit.readableBytes < n then unit.readableBytes else n) =
      min unit.readableBytes n := by
    split <;> omega
  rw [writeUnit, hmin, handedOver]

theorem handedOver_le (unit : HeapBuffer) (n : ℕ) :
    (handedOver unit n).length ≤ unit.mem.length := by
  rw [handedOver_length]
  exact (Nat.min_le_left _ _).trans unit.readableBytes_le

theorem run_writeUnit_iff (hs : Fifo s) (hallowed : s.Allowed (.writeUnit unit n malloc)) :
    Fifo (s.run (.writeUnit unit n malloc)) ↔ Grows s.buffer (min unit.readableBytes n) := by
  have hle := handedOver_le unit n
  have hsum := hallowed.1
  have hrun : s.run (.writeUnit unit n malloc) = s.run (.write (handedOver unit n) malloc) := by
    change s.after ((writeUnit s.buffer unit n malloc).map _) = _
    rw [writeUnit_eq, Option.map_map]
    rfl
  have hiff := @run_write_iff _ _ malloc hs
    (show s.buffer.mem.length + (handedOver unit n).length < 2 ^ 64 by omega)
  rwa [← hrun, handedOver_length] at hiff

/-- The first bytes are taken. -/
theorem fifo_takeOut (hs : Fifo s) {bytes : Bytes}
    (hbytes : bytes = s.buffer.readable.take n) {h : HeapBuffer}
    (hreads : h.Reads (s.buffer.readable.drop n)) (hsize : h.mem.length < 2 ^ 64) :
    Fifo { s with buffer := h, ledger := s.ledger.takeOut bytes } := by
  have horder := hs.order
  rw [← List.take_append_drop n s.buffer.readable] at horder
  rw [hbytes]
  exact fifo_of_reads hs.runs hreads horder.takeOut hsize

/-- The read index is where it should be. -/
theorem fifo_moved_iff (hs : Fifo s) (hn : n ≤ s.buffer.readableBytes) {idx : ℕ} :
    Fifo { s with
      buffer := s.buffer.setReadIndex idx
      ledger := s.ledger.takeOut (s.buffer.readable.take n) } ↔ idx = s.buffer.readIdx + n := by
  have hlen : (s.buffer.readable.take n).length = n := by
    rw [List.length_take_of_le]
    rwa [HeapBuffer.readable_length]
  constructor
  · intro hfifo
    have hcount := hs.count
    have hcount' : s.ledger.put.length + idx =
        (s.ledger.taken ++ s.buffer.readable.take n).length + s.buffer.writeIdx := hfifo.count
    rw [List.length_append, hlen] at hcount'
    omega
  · rintro rfl
    refine fifo_takeOut hs rfl (hs.reads.skip ?_) hs.size
    rwa [HeapBuffer.readable_length]

/-- `unit->m_read_idx += ret`, where `ret` is positive. -/
theorem advance_returned {h : HeapBuffer} {ret : ℤ} (hlt : h.readIdx + ret.toNat < 2 ^ 64) :
    (if 0 < ret then advanceReadIndex h ret else h) = h.setReadIndex (h.readIdx + ret.toNat) := by
  split
  · next hpos =>
    rw [← advance_eq hlt, Int.toNat_of_nonneg hpos.le]
  · next hneg =>
    rw [Int.toNat_of_nonpos (not_lt.mp hneg)]
    rfl

theorem run_read (hs : Fifo s) (n : ℕ) : Fifo (s.run (.read n)) := by
  by_cases hn : s.buffer.readableBytes < n
  · have hrun : s.run (.read n) = s := by
      change { s with buffer := (read s.buffer n).2.2, ledger := _ } = s
      rw [hs.refuses n hn, Ledger.takeOut_nil]
    rw [hrun]
    exact hs
  · have hle : n ≤ s.buffer.readable.length := by
      rw [HeapBuffer.readable_length]
      exact not_lt.mp hn
    have hrun : s.run (.read n) = { s with
        buffer := s.buffer.setReadIndex (s.buffer.readIdx + n)
        ledger := s.ledger.takeOut (s.buffer.readable.take n) } := by
      rw [run, SizedBuffer.read, if_neg hn, ← hs.reads.slice hle]
    rw [hrun]
    exact fifo_takeOut hs rfl (hs.reads.skip hle) hs.size

theorem run_readUnit_iff (hs : Fifo s) (hallowed : s.Allowed (.readUnit unit n malloc)) :
    Fifo (s.run (.readUnit unit n malloc)) ↔ s.OpOk (.readUnit unit n malloc) := by
  have hlen := @handedOver_length n s.buffer
  have hle := handedOver_le s.buffer n
  have hfits := s.buffer.fits
  have hsize := hs.size
  have hidx := hs.readIdx_le
  have hsum := hallowed.1
  have hk : min s.buffer.readableBytes n ≤ s.buffer.readableBytes := Nat.min_le_left _ _
  change _ ↔ Grows unit _ ∧ _
  rw [← hlen] at hk ⊢
  have hrun : s.run (.readUnit unit n malloc) = s.after
      ((write unit (handedOver s.buffer n) malloc).map fun r : ℤ × HeapBuffer => { s with
        buffer := if 0 < r.1 then advanceReadIndex s.buffer r.1 else s.buffer
        ledger := s.ledger.takeOut (written unit r.2 (handedOver s.buffer n)) }) := by
    change s.after ((readUnit s.buffer unit n malloc).map _) = _
    rw [readUnit, writeUnit_eq, Option.map_map]
    rfl
  rw [hrun]
  by_cases hgrows : Grows unit (handedOver s.buffer n).length
  · obtain ⟨r, hwrite, hdone⟩ := write_spec (by omega) hgrows malloc
    rw [hwrite, and_iff_right hgrows]
    change Fifo { s with
      buffer := if 0 < r.1 then advanceReadIndex s.buffer r.1 else s.buffer
      ledger := s.ledger.takeOut (written unit r.2 (handedOver s.buffer n)) } ↔ _
    rcases hdone.result with ⟨hret, hwidx, -, hmalloc⟩ | ⟨rfl, hroom, hmalloc⟩
    · have hbounds := int32_le (handedOver s.buffer n).length
      have hlt := int32_lt (handedOver s.buffer n).length
      have hroom : s.buffer.readIdx + (int32 (handedOver s.buffer n).length).toNat < 2 ^ 64 := by
        unfold HeapBuffer.readableBytes at hk
        omega
      have hmoved := @fifo_moved_iff s _ hs hk
        (s.buffer.readIdx + (int32 (handedOver s.buffer n).length).toNat)
      rw [hlen, ← handedOver_eq hs.reads, ← hlen] at hmoved
      rw [written_of_moved hwidx, hret, advance_returned hroom, hmoved]
      have hnot : ¬ (unit.writeableBytes < (handedOver s.buffer n).length ∧
          malloc.isNone = true) := by
        rintro ⟨hfull, hnone⟩
        have hsome := hmalloc.resolve_left (not_le.mpr hfull)
        rw [Option.isNone_iff_eq_none.mp hnone] at hsome
        cases hsome
      rw [or_iff_left hnot]
      constructor
      · intro hmoved
        omega
      · intro hlt31
        rw [int32_of_lt hlt31, Int.toNat_natCast]
    · refine iff_of_true ?_ (.inr ⟨hroom, by rw [hmalloc]; rfl⟩)
      rw [written, if_pos rfl, Ledger.takeOut_nil]
      exact hs
  · refine iff_of_false ?_ fun hok => hgrows hok.1
    rw [write_of_not (by omega) hgrows]
    exact not_fifo_of_none

theorem run_readFD_iff (hs : Fifo s) (hallowed : s.Allowed (.readFD (some data) malloc)) :
    Fifo (s.run (.readFD (some data) malloc)) ↔ s.OpOk (.readFD (some data) malloc) := by
  obtain ⟨hroom, hlimit, -⟩ := hallowed
  have hfits := s.buffer.fits
  have hsum : s.buffer.writeIdx + data.length < 2 ^ 64 := by
    unfold HeapBuffer.readLimit HeapBuffer.writeableBytes at hlimit
    split at hlimit <;> omega
  change Fifo (s.after ((readFD s.buffer (some data) malloc).map _)) ↔ Grows _ _ ∧ _
  by_cases hgrows : Grows s.buffer data.length
  · obtain ⟨r, hread, hdone⟩ := readFD_spec hs.size hsum hgrows malloc
    rw [hread, and_iff_right hgrows]
    rcases hdone.result with ⟨hreads, hok⟩ | ⟨hfilled, hfull, hmalloc⟩
    · refine iff_of_true ?_ hok
      exact fifo_of_reads hs.runs (hreads _ hs.reads) (hs.order.putIn data) hdone.size
    · refine iff_of_false (fun hfifo => ?_) (by simp [hmalloc, hfull])
      have hcount := hs.count
      have hcount' : (s.ledger.put ++ data).length + r.2.readIdx =
          s.ledger.taken.length + r.2.writeIdx := hfifo.count
      have hwrite : r.2.writeIdx = s.buffer.mem.length := by rw [hfilled]; rfl
      have hidx : r.2.readIdx = s.buffer.readIdx := by rw [hfilled]; rfl
      rw [List.length_append, hwrite, hidx] at hcount'
      unfold HeapBuffer.writeableBytes at hfull
      omega
  · refine iff_of_false ?_ fun hok => hgrows hok.1
    rw [readFD_of_not hs.size hgrows]
    exact not_fifo_of_none

/-- `write` is asked for what is readable, or for more than it transfers. -/
theorem le_readable_of_asked {h : HeapBuffer} (hn : n ≤ askedFD h) (hmax : n ≤ maxRwCount) :
    n ≤ h.readableBytes := by
  have hmod := Nat.mod_le h.readableBytes (2 ^ 32)
  unfold askedFD int32 at hn
  unfold maxRwCount at hmax
  split at hn <;> omega

theorem run_writeFD (hs : Fifo s) {n : Option ℕ} (hallowed : s.Allowed (.writeFD n)) :
    Fifo (s.run (.writeFD n)) := by
  have hsame : ∀ ret : ℤ, writeFD s.buffer n = (ret, [], s.buffer) → Fifo (s.run (.writeFD n)) := by
    intro ret hret
    have hrun : s.run (.writeFD n) = s := by
      change { s with
        buffer := (writeFD s.buffer n).2.2
        ledger := s.ledger.takeOut (writeFD s.buffer n).2.1 } = s
      rw [hret, Ledger.takeOut_nil]
    rw [hrun]
    exact hs
  by_cases hzero : int32 s.buffer.readableBytes = 0
  · exact hsame 0 (if_pos hzero)
  · cases n with
    | none => exact hsame (-1) (if_neg hzero)
    | some n =>
      have hle := le_readable_of_asked hallowed.1 hallowed.2
      have hle' : n ≤ s.buffer.readable.length := by
        rwa [HeapBuffer.readable_length]
      have hrun : s.run (.writeFD (some n)) = { s with
          buffer := s.buffer.setReadIndex (s.buffer.readIdx + n)
          ledger := s.ledger.takeOut (s.buffer.readable.take n) } := by
        rw [run, writeFD, if_neg hzero, ← hs.reads.slice hle']
      rw [hrun, fifo_moved_iff hs hle]

theorem run_skipBytes_iff (hs : Fifo s) (hn : n ≤ s.buffer.readableBytes) :
    Fifo (s.run (.skipBytes n)) ↔ s.OpOk (.skipBytes n) := by
  have hfits := s.buffer.fits
  have hsize := hs.size
  have hle : n ≤ s.buffer.readable.length := by
    rwa [HeapBuffer.readable_length]
  have hrun : s.run (.skipBytes n) = { s with
      buffer := s.buffer.setReadIndex ((s.buffer.readIdx + int32 n) % 2 ^ 64).toNat
      ledger := s.ledger.takeOut (s.buffer.readable.take n) } := by
    rw [run, ← hs.reads.slice hle]
    rfl
  have hidx := hs.readIdx_le
  rw [hrun, fifo_moved_iff hs hn, OpOk]
  unfold HeapBuffer.readableBytes at hn
  -- the `int` is `n`, or too small by a multiple of `2 ^ 32`
  unfold int32
  split <;> omega

theorem run_advanceReadIndex (hs : Fifo s) (hn : n ≤ s.buffer.readableBytes) :
    Fifo (s.run (.advanceReadIndex n)) := by
  have hfits := s.buffer.fits
  have hsize := hs.size
  have hle : n ≤ s.buffer.readable.length := by
    rwa [HeapBuffer.readable_length]
  have hlt : s.buffer.readIdx + n < 2 ^ 64 := by
    unfold HeapBuffer.readableBytes at hn
    have hidx := hs.readIdx_le
    omega
  have hrun : s.run (.advanceReadIndex n) = { s with
      buffer := s.buffer.setReadIndex (s.buffer.readIdx + n)
      ledger := s.ledger.takeOut (s.buffer.readable.take n) } := by
    rw [run, ← hs.reads.slice hle, advance_eq hlt]
  rw [hrun, fifo_moved_iff hs hn]

theorem run_ensureWritableBytes_iff (hs : Fifo s) :
    Fifo (s.run (.ensureWritableBytes n malloc)) ↔ Grows s.buffer n := by
  by_cases hgrows : Grows s.buffer n
  · refine iff_of_true ?_ hgrows
    obtain ⟨ok, h', hensure, hdone⟩ := ensure_spec hs.size hgrows malloc
    rw [run, hensure]
    exact fifo_of_reads hs.runs (hdone.reads _ hs.reads) hs.order hdone.size
  · refine iff_of_false ?_ hgrows
    rw [run, ensure_of_not hs.size hgrows]
    exact not_fifo_of_none

theorem run_compact_iff (hs : Fifo s) :
    Fifo (s.run (.compact n malloc)) ↔ s.OpOk (.compact n malloc) := by
  constructor
  · intro hfifo hmoves
    obtain ⟨-, hwrite, hread, -⟩ := compact_of_moves hmoves
    have hidx := hs.readIdx_le
    have hcount := hs.count
    have hcount' : s.ledger.put.length + (compact s.buffer n malloc).2.readIdx =
        s.ledger.taken.length + (compact s.buffer n malloc).2.writeIdx := hfifo.count
    rw [hwrite, hread] at hcount'
    have hmod := Nat.mod_lt s.buffer.readableBytes (show 0 < 2 ^ 32 by decide)
    have hreadable : s.buffer.readableBytes = s.buffer.writeIdx - s.buffer.readIdx := rfl
    omega
  · intro hok
    exact fifo_of_reads hs.runs (compact_reads hs.reads hok) hs.order (compact_size hs.size)

theorem discardReadedBytes_size (h : HeapBuffer) :
    h.discardReadedBytes.mem.length = h.mem.length := by
  unfold HeapBuffer.discardReadedBytes
  split
  · split
    · refine Circular.splice_length ?_
      rw [HeapBuffer.readable_length, Nat.zero_add]
      exact h.readableBytes_le
    · rfl
  · rfl

theorem run_discardReadedBytes (hs : Fifo s) : Fifo (s.run .discardReadedBytes) :=
  fifo_of_reads hs.runs (HeapBuffer.discardReadedBytes_reads hs.reads) hs.order
    ((discardReadedBytes_size s.buffer).trans_lt hs.size)

/-- **One operation keeps a buffer a queue** exactly if it meets the condition. -/
theorem fifo_run_iff {op : BufferOp} (hs : Fifo s) (hallowed : s.Allowed op) :
    Fifo (s.run op) ↔ s.OpOk op := by
  cases op with
  | write data malloc => exact run_write_iff hs hallowed
  | writeUnit unit n malloc => exact run_writeUnit_iff hs hallowed
  | read n => exact iff_of_true (run_read hs n) trivial
  | readUnit unit n malloc => exact run_readUnit_iff hs hallowed
  | readFD data malloc =>
    cases data with
    | none => exact iff_of_true (by
        have hrun : s.run (.readFD none malloc) = s := by
          change { s with ledger := s.ledger.putIn [] } = s
          rw [Ledger.putIn_nil]
        rw [hrun]
        exact hs) trivial
    | some data => exact run_readFD_iff hs hallowed
  | writeFD n => exact iff_of_true (run_writeFD hs hallowed) trivial
  | skipBytes n => exact run_skipBytes_iff hs hallowed
  | advanceReadIndex n => exact iff_of_true (run_advanceReadIndex hs hallowed.1) trivial
  | ensureWritableBytes n malloc => exact run_ensureWritableBytes_iff hs
  | compact n malloc => exact run_compact_iff hs
  | discardReadedBytes => exact iff_of_true (run_discardReadedBytes hs) trivial

end Steps

end BufferState

/-- **A buffer is a queue of bytes** all along a run exactly if every operation meets the condition.
-/
theorem fifo_iff {h : HeapBuffer} (hidx : h.readIdx ≤ h.writeIdx) (hsize : h.mem.length < 2 ^ 64)
    (ops : List BufferOp) :
    Run.Always bufferStep BufferState.Fifo (.start h) ops ↔
      Run.Along bufferStep (fun s op => s.Allowed op → s.OpOk op) (.start h) ops := by
  have hreads : h.Reads h.readable := by
    refine ⟨?_, rfl⟩
    rw [HeapBuffer.readable_length, HeapBuffer.readableBytes]
    omega
  have hstart : BufferState.Fifo (.start h) :=
    BufferState.fifo_of_reads rfl hreads (Ledger.holds_start _) hsize
  refine @Run.always_iff_along _ _ _ (fun _ => True) _ (fun _ _ => True) _
    (fun _ _ _ _ _ _ => trivial) (fun s op _ _ hs => ?_) _ _ trivial
    (Run.along_of_forall fun _ _ => trivial) hstart
  by_cases hallowed : s.Allowed op
  · have hstep : bufferStep s op = some (s.run op) := if_pos ⟨hs.runs, hallowed⟩
    rw [hstep, ← BufferState.fifo_run_iff hs hallowed]
    exact ⟨fun h _ => h _ rfl, fun h t ht => Option.some.inj ht ▸ h hallowed⟩
  · have hstep : bufferStep s op = none := if_neg fun h => hallowed h.2
    rw [hstep]
    exact iff_of_true (fun _ ht => by cases ht) fun h => absurd h hallowed

/-- Two writes, the second from a socket into a block that is full, and two reads. -/
theorem fifo_of_four_operations :
    Run.Always bufferStep BufferState.Fifo (.start .empty)
      [.write [1, 2] (some 0), .readFD (some [3]) none, .read 2, .compact 1 (some 0)] :=
  (fifo_iff le_rfl (by decide) _).mpr (by decide +kernel)

/-- **A buffer is not always a queue**: `readv` delivers a byte to a buffer without memory, and
there is none. -/
theorem received_byte_dropped :
    ¬ ∀ ops, Run.Always bufferStep BufferState.Fifo (.start .empty) ops := by
  intro h
  have hfifo := (h [.readFD (some [3]) none]).of_steps rfl
  have horder : ([3] : Bytes) = [] := hfifo.order
  cases horder

end Comms
