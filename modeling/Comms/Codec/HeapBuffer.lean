import Comms.Codec.CommandStream

/-!
# Buffers that own their memory

`Channel::m_inputBuffer` and the decoder's `m_cumulation` hold what a connection has read. Unlike
the `Buffer` of one call of `decode`, they live on and their memory is used again: it is compacted,
overwritten by the next read, and replaced by a larger block when it is full. The raw message of a
frame points into this memory.

* `HeapBuffer.rawBytes` — what a view shows; nothing once its block has been freed;
* `HeapBuffer.discardReadedBytes_reads` / `HeapBuffer.write_reads` / `HeapBuffer.readFD_reads` —
  what the operations do to the readable bytes;
* `HeapBuffer.rawBytes_discard` / `HeapBuffer.rawBytes_write` — they leave the views alone that
  they do not overlap, as long as the block is not replaced.

`generation` counts the blocks a buffer has had. It is not in the source; a pointer into an earlier
block dangles.
-/

namespace Comms

/-- A `Buffer` with `m_in_heap` set. Its memory is `m_buffer_len` bytes long; `malloc` leaves
arbitrary bytes in a new block, here zeros. -/
structure HeapBuffer where
  generation : ℕ
  mem : Bytes
  writeIdx : ℕ
  readIdx : ℕ
  fits : writeIdx ≤ mem.length
deriving DecidableEq

/-- A pointer with a length, into the block of a certain generation. -/
structure HeapView where
  generation : ℕ
  view : View
deriving DecidableEq, Repr

namespace HeapBuffer

/-- `Buffer()`: no memory yet. -/
def empty : HeapBuffer := ⟨0, [], 0, 0, le_refl _⟩

/-- The buffer as one call of the decoder sees it. -/
def buffer (h : HeapBuffer) : Buffer :=
  { mem := h.mem, bufferLen := h.mem.length, writeIdx := h.writeIdx, readIdx := h.readIdx
    inHeap := true }

/-- The bytes a view shows, while its block is the buffer's. -/
def rawBytes (h : HeapBuffer) (v : HeapView) : Option Bytes :=
  if v.generation = h.generation then some (v.view.bytes h.mem) else none

/-- `SetReadIndex`. -/
def setReadIndex (h : HeapBuffer) (idx : ℕ) : HeapBuffer := { h with readIdx := idx }

/-- `Readable`. -/
def Readable (h : HeapBuffer) : Prop := h.readIdx < h.writeIdx

instance (h : HeapBuffer) : Decidable h.Readable := inferInstanceAs (Decidable (_ < _))

/-- `ReadableBytes`. -/
def readableBytes (h : HeapBuffer) : ℕ := h.writeIdx - h.readIdx

/-- `WriteableBytes`. -/
def writeableBytes (h : HeapBuffer) : ℕ := h.mem.length - h.writeIdx

/-- The readable bytes. -/
def readable (h : HeapBuffer) : Bytes := Circular.slice h.mem h.readIdx h.readableBytes

theorem readable_length (h : HeapBuffer) : h.readable.length = h.readableBytes := by
  have hfits := h.fits
  unfold readable readableBytes Circular.slice
  rw [List.length_take, List.length_drop]
  omega

theorem readableBytes_le (h : HeapBuffer) : h.readableBytes ≤ h.mem.length :=
  le_trans (Nat.sub_le _ _) h.fits

/-- `while (newCapacity < minNewCapacity) newCapacity <<= 1`. A capacity that is not `0` doubles
past `minNewCapacity` in at most `minNewCapacity` rounds. -/
def doubleCapacity (minNewCapacity : ℕ) : ℕ → ℕ → ℕ
  | 0, newCapacity => newCapacity
  | fuel + 1, newCapacity =>
    if newCapacity < minNewCapacity then doubleCapacity minNewCapacity fuel (2 * newCapacity)
    else newCapacity

theorem le_doubleCapacity {minNewCapacity : ℕ} (fuel newCapacity : ℕ) (h0 : 0 < newCapacity)
    (h : minNewCapacity ≤ newCapacity + fuel) :
    minNewCapacity ≤ doubleCapacity minNewCapacity fuel newCapacity := by
  induction fuel generalizing newCapacity with
  | zero => exact h
  | succ fuel ih =>
    unfold doubleCapacity
    split
    · exact ih (2 * newCapacity) (by omega) (by omega)
    · next hge => exact not_lt.mp hge

/-- The capacity `EnsureWritableBytes` grows to: it doubles, from `DEFAULT_BUFFER_SIZE` on. -/
def newCapacity (h : HeapBuffer) (minWritableBytes : ℕ) : ℕ :=
  doubleCapacity (h.writeIdx + minWritableBytes) (h.writeIdx + minWritableBytes)
    (if h.mem.length = 0 then 32 else h.mem.length)

theorem le_newCapacity (h : HeapBuffer) (n : ℕ) : h.writeIdx + n ≤ h.newCapacity n := by
  refine le_doubleCapacity _ _ ?_ (Nat.le_add_left _ _)
  split <;> omega

/-- `EnsureWritableBytes`: when there is no room the block is copied to a larger one and freed. -/
def ensureWritableBytes (h : HeapBuffer) (minWritableBytes : ℕ) : HeapBuffer :=
  if minWritableBytes ≤ h.writeableBytes then h
  else
    { h with
      generation := h.generation + 1
      mem := h.mem ++ List.replicate (h.newCapacity minWritableBytes - h.mem.length) 0
      fits := le_trans h.fits (by simp) }

@[simp] theorem ensureWritableBytes_writeIdx (h : HeapBuffer) (n : ℕ) :
    (h.ensureWritableBytes n).writeIdx = h.writeIdx := by
  unfold ensureWritableBytes
  split <;> rfl

@[simp] theorem ensureWritableBytes_readIdx (h : HeapBuffer) (n : ℕ) :
    (h.ensureWritableBytes n).readIdx = h.readIdx := by
  unfold ensureWritableBytes
  split <;> rfl

theorem ensureWritableBytes_fits (h : HeapBuffer) (n : ℕ) :
    h.writeIdx + n ≤ (h.ensureWritableBytes n).mem.length := by
  have hfits := h.fits
  unfold ensureWritableBytes
  split
  · next hle =>
    unfold writeableBytes at hle
    omega
  · have hcap := h.le_newCapacity n
    simp only [List.length_append, List.length_replicate]
    omega

/-- `Write(data_in, datlen)`. -/
def write (h : HeapBuffer) (data : Bytes) : HeapBuffer :=
  let grown := h.ensureWritableBytes data.length
  { grown with
    mem := Circular.splice grown.mem h.writeIdx data
    writeIdx := h.writeIdx + data.length
    fits := by
      rw [Circular.splice_length (h.ensureWritableBytes_fits _)]
      exact h.ensureWritableBytes_fits _ }

/-- `DiscardReadedBytes`. -/
def discardReadedBytes (h : HeapBuffer) : HeapBuffer :=
  if 0 < h.readIdx then
    if h.Readable then
      { h with
        mem := Circular.splice h.mem 0 h.readable
        readIdx := 0
        writeIdx := h.readableBytes
        fits := by
          have hle := h.readableBytes_le
          rwa [Circular.splice_length (by rwa [h.readable_length, Nat.zero_add])] }
    else { h with readIdx := 0, writeIdx := 0, fits := Nat.zero_le _ }
  else h

/-- `sizeof(extrabuf)` of `ReadFD`. -/
def extrabufSize : ℕ := 65536

/-- What one `readv` can deliver: it also fills `extrabuf` unless there is more room than that. -/
def readLimit (h : HeapBuffer) : ℕ :=
  if extrabufSize < h.writeableBytes then h.writeableBytes else h.writeableBytes + extrabufSize

/-- `ReadFD`, when `readv` delivers `data`: into the room there is, the rest by `Write`. -/
def readFD (h : HeapBuffer) (data : Bytes) : HeapBuffer :=
  (h.write (data.take h.writeableBytes)).write (data.drop h.writeableBytes)

/-- `Write(unit, unit->ReadableBytes())`, on the buffer written to. -/
def writeFrom (h unit : HeapBuffer) : HeapBuffer := h.write unit.readable

/-- `Write(unit, unit->ReadableBytes())`, on the buffer read from. -/
def drained (unit : HeapBuffer) : HeapBuffer :=
  unit.setReadIndex (unit.readIdx + unit.readableBytes)

/-! ### The readable bytes -/

/-- The readable bytes of the buffer are `bs`. -/
structure Reads (h : HeapBuffer) (bs : Bytes) : Prop where
  idx : h.readIdx + bs.length = h.writeIdx
  readable : h.readable = bs

theorem Reads.readableBytes {h : HeapBuffer} {bs : Bytes} (hr : h.Reads bs) :
    h.readableBytes = bs.length := by
  have hidx := hr.idx
  unfold HeapBuffer.readableBytes
  omega

theorem Reads.readable_iff {h : HeapBuffer} {bs : Bytes} (hr : h.Reads bs) :
    h.Readable ↔ bs ≠ [] := by
  have hidx := hr.idx
  rw [← List.length_pos_iff]
  unfold Readable
  omega

/-- The view of `decode` on the buffer. -/
theorem Reads.buffer {h : HeapBuffer} {bs : Bytes} (hr : h.Reads bs) : h.buffer.Reads bs where
  idx := hr.idx
  mem := by
    refine ⟨h.mem.drop h.writeIdx, ?_⟩
    have hbytes : (h.mem.drop h.readIdx).take bs.length = bs := by
      have := hr.readable
      rwa [HeapBuffer.readable, hr.readableBytes] at this
    calc h.mem.drop h.readIdx
        = (h.mem.drop h.readIdx).take bs.length ++ (h.mem.drop h.readIdx).drop bs.length :=
          (List.take_append_drop _ _).symm
      _ = bs ++ h.mem.drop h.writeIdx := by rw [hbytes, List.drop_drop, hr.idx]

/-- Moving the read index over `xs`. -/
theorem Reads.advance {h : HeapBuffer} {xs ys : Bytes} (hr : h.Reads (xs ++ ys)) :
    (h.setReadIndex (h.readIdx + xs.length)).Reads ys := by
  have hidx := hr.idx
  rw [List.length_append] at hidx
  have hdrop := congrArg (List.drop xs.length) hr.readable
  refine ⟨by simpa [setReadIndex, Nat.add_assoc] using hidx, ?_⟩
  rw [List.drop_left, HeapBuffer.readable, hr.readableBytes] at hdrop
  rw [← hdrop]
  unfold HeapBuffer.readable HeapBuffer.readableBytes setReadIndex Circular.slice
  rw [List.drop_take, List.drop_drop]
  congr 1
  simp only [List.length_append]
  omega

theorem Reads.slice {h : HeapBuffer} {bs : Bytes} {n : ℕ} (hr : h.Reads bs)
    (hn : n ≤ bs.length) :
    Circular.slice h.mem h.readIdx n = bs.take n := by
  have hbytes := hr.readable
  rw [HeapBuffer.readable, hr.readableBytes] at hbytes
  rw [← hbytes, Circular.slice_take _ _ _ _ hn]

/-- The read index moves over the first bytes. -/
theorem Reads.skip {h : HeapBuffer} {bs : Bytes} {n : ℕ} (hr : h.Reads bs)
    (hn : n ≤ bs.length) :
    (h.setReadIndex (h.readIdx + n)).Reads (bs.drop n) := by
  have hlen : (bs.take n).length = n := List.length_take_of_le hn
  rw [← List.take_append_drop n bs] at hr
  have hskip := hr.advance
  rwa [hlen] at hskip

/-- The bytes in front of the rest, as a view. -/
theorem Reads.rawBytes {h : HeapBuffer} {xs ys : Bytes} (hr : h.Reads (xs ++ ys)) :
    h.rawBytes ⟨h.generation, h.readIdx, xs.length⟩ = some xs := by
  have htake := congrArg (List.take xs.length) hr.readable
  rw [List.take_left, HeapBuffer.readable, hr.readableBytes, Circular.slice_take _ _ _ _ (by simp)]
    at htake
  unfold HeapBuffer.rawBytes View.bytes
  rw [if_pos rfl, htake]

theorem drained_reads {h : HeapBuffer} {bs : Bytes} (hr : h.Reads bs) : h.drained.Reads [] := by
  have hr' : h.Reads (bs ++ []) := by rwa [List.append_nil]
  unfold drained
  rw [hr.readableBytes]
  exact hr'.advance

/-- Compacting keeps the readable bytes. -/
theorem discardReadedBytes_reads {h : HeapBuffer} {bs : Bytes} (hr : h.Reads bs) :
    h.discardReadedBytes.Reads bs := by
  have hidx := hr.idx
  have hfits := h.fits
  unfold discardReadedBytes
  split
  swap
  · exact hr
  split
  · refine ⟨by simp [hr.readableBytes], ?_⟩
    change Circular.slice (Circular.splice h.mem 0 h.readable) 0 (h.readableBytes - 0) = bs
    rw [hr.readable, hr.readableBytes]
    simp [Circular.slice, Circular.splice]
  · next hemp =>
    have hnil : bs = [] := by
      rw [hr.readable_iff] at hemp
      exact not_not.mp hemp
    subst hnil
    exact ⟨rfl, by simp [HeapBuffer.readable, HeapBuffer.readableBytes]⟩

/-- A larger block with the same bytes at its front keeps them. -/
theorem extend_reads {h h' : HeapBuffer} {bs tail : Bytes} (hr : h.Reads bs)
    (hmem : h'.mem = h.mem ++ tail) (hwrite : h'.writeIdx = h.writeIdx)
    (hread : h'.readIdx = h.readIdx) : h'.Reads bs := by
  have hidx := hr.idx
  have hfits := h.fits
  refine ⟨by rw [hwrite, hread]; exact hidx, ?_⟩
  have hbytes := hr.readable
  unfold HeapBuffer.readable HeapBuffer.readableBytes at hbytes ⊢
  rw [hmem, hwrite, hread, Circular.slice_append_left (by omega)]
  exact hbytes

/-- Growing keeps them. -/
theorem ensureWritableBytes_reads {h : HeapBuffer} {bs : Bytes} (hr : h.Reads bs) (n : ℕ) :
    (h.ensureWritableBytes n).Reads bs := by
  unfold ensureWritableBytes
  split
  · exact hr
  · exact extend_reads hr rfl rfl rfl

/-- The bytes behind the write index are appended to them. -/
theorem splice_reads {h h' : HeapBuffer} {bs data : Bytes} (hr : h.Reads bs)
    (hroom : h.writeIdx + data.length ≤ h.mem.length)
    (hmem : h'.mem = Circular.splice h.mem h.writeIdx data)
    (hwrite : h'.writeIdx = h.writeIdx + data.length) (hread : h'.readIdx = h.readIdx) :
    h'.Reads (bs ++ data) := by
  have hidx := hr.idx
  have hbytes := hr.readable
  refine ⟨by rw [hread, hwrite, List.length_append]; omega, ?_⟩
  unfold HeapBuffer.readable HeapBuffer.readableBytes at hbytes ⊢
  rw [hmem, hread, hwrite]
  -- the old bytes end where the new ones start
  rw [show h.writeIdx + data.length - h.readIdx = (h.writeIdx - h.readIdx) + data.length by omega,
    ← Circular.slice_append, show h.readIdx + (h.writeIdx - h.readIdx) = h.writeIdx by omega]
  congr 1
  · rw [← hbytes]
    apply Circular.slice_ext
    intro j hj
    exact Circular.splice_getElem?_outside hroom (.inl (by omega))
  · apply List.ext_getElem?
    intro j
    by_cases hj : j < data.length
    · rw [Circular.slice_getElem? _ _ _ _ hj,
        Circular.splice_getElem?_inside hroom (by omega) (by omega), Nat.add_sub_cancel_left]
    · rw [List.getElem?_eq_none (not_lt.mp hj), List.getElem?_eq_none]
      unfold Circular.slice
      rw [List.length_take]
      omega

/-- Writing appends to them. -/
theorem write_reads {h : HeapBuffer} {bs : Bytes} (hr : h.Reads bs) (data : Bytes) :
    (h.write data).Reads (bs ++ data) := by
  have hroom := h.ensureWritableBytes_fits data.length
  rw [← h.ensureWritableBytes_writeIdx data.length] at hroom
  refine splice_reads (ensureWritableBytes_reads hr data.length) hroom ?_ ?_ rfl
  · rw [ensureWritableBytes_writeIdx]
    rfl
  · rw [ensureWritableBytes_writeIdx]
    rfl

theorem readFD_reads {h : HeapBuffer} {bs : Bytes} (hr : h.Reads bs) (data : Bytes) :
    (h.readFD data).Reads (bs ++ data) := by
  have hwrite := write_reads (write_reads hr (data.take h.writeableBytes))
    (data.drop h.writeableBytes)
  rwa [List.append_assoc, List.take_append_drop] at hwrite

end HeapBuffer

/-! ### The memory behind the views -/

/-- The view does not overlap the `n` bytes from `lo` on. -/
def HeapView.Clear (v : HeapView) (lo n : ℕ) : Prop :=
  n = 0 ∨ v.view.off + v.view.len ≤ lo ∨ lo + n ≤ v.view.off

instance (v : HeapView) (lo n : ℕ) : Decidable (v.Clear lo n) :=
  inferInstanceAs (Decidable (_ ∨ _))

namespace HeapBuffer

/-- Compacting moves the readable bytes to the front: not over the view. -/
def DiscardSpares (h : HeapBuffer) (v : HeapView) : Prop :=
  h.readIdx = 0 ∨ v.Clear 0 h.readableBytes

/-- There is room for `n` more bytes, and they do not go over the view. -/
def WriteSpares (h : HeapBuffer) (v : HeapView) (n : ℕ) : Prop :=
  n ≤ h.writeableBytes ∧ v.Clear h.writeIdx n

instance (h : HeapBuffer) (v : HeapView) : Decidable (h.DiscardSpares v) :=
  inferInstanceAs (Decidable (_ ∨ _))

instance (h : HeapBuffer) (v : HeapView) (n : ℕ) : Decidable (h.WriteSpares v n) :=
  inferInstanceAs (Decidable (_ ∧ _))

/-- A block of bytes that does not overlap a view does not change what it shows. -/
theorem bytes_splice {v : HeapView} {mem data : Bytes} {lo : ℕ}
    (hfits : lo + data.length ≤ mem.length) (h : v.Clear lo data.length) :
    v.view.bytes (Circular.splice mem lo data) = v.view.bytes mem := by
  rcases h with h0 | h
  · have hnil : data = [] := List.length_eq_zero_iff.mp h0
    subst hnil
    simp [Circular.splice]
  · apply Circular.slice_ext
    intro j hj
    exact Circular.splice_getElem?_outside hfits (by omega)

@[simp] theorem rawBytes_setReadIndex (h : HeapBuffer) (v : HeapView) (idx : ℕ) :
    (h.setReadIndex idx).rawBytes v = h.rawBytes v := rfl

@[simp] theorem rawBytes_drained (h : HeapBuffer) (v : HeapView) :
    h.drained.rawBytes v = h.rawBytes v := rfl

theorem rawBytes_discard {h : HeapBuffer} {v : HeapView} (hs : h.DiscardSpares v) :
    h.discardReadedBytes.rawBytes v = h.rawBytes v := by
  unfold discardReadedBytes
  split
  swap
  · rfl
  next hpos =>
  split
  swap
  · rfl
  have hclear : v.Clear 0 h.readable.length := by
    rw [h.readable_length]
    exact hs.resolve_left (by omega)
  have hroom : 0 + h.readable.length ≤ h.mem.length := by
    rw [h.readable_length, Nat.zero_add]
    exact h.readableBytes_le
  unfold rawBytes
  rw [bytes_splice hroom hclear]

theorem rawBytes_write {h : HeapBuffer} {v : HeapView} {data : Bytes}
    (hs : h.WriteSpares v data.length) : (h.write data).rawBytes v = h.rawBytes v := by
  have hgrown : h.ensureWritableBytes data.length = h := if_pos hs.1
  have hroom : h.writeIdx + data.length ≤ h.mem.length := by
    have := h.ensureWritableBytes_fits data.length
    rwa [hgrown] at this
  have hmem : (h.write data).mem = Circular.splice h.mem h.writeIdx data := by
    simp only [write, hgrown]
  have hgen : (h.write data).generation = h.generation := by
    simp only [write, hgrown]
  unfold rawBytes
  rw [hmem, hgen, bytes_splice hroom hs.2]

theorem rawBytes_readFD {h : HeapBuffer} {v : HeapView} {data : Bytes}
    (hs : h.WriteSpares v data.length) : (h.readFD data).rawBytes v = h.rawBytes v := by
  unfold readFD
  rw [List.take_of_length_le hs.1, List.drop_eq_nil_of_le hs.1]
  have hnil : (h.write data).WriteSpares v ([] : Bytes).length := ⟨Nat.zero_le _, .inl rfl⟩
  rw [rawBytes_write hnil, rawBytes_write hs]

end HeapBuffer

end Comms
