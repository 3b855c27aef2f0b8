import Comms.Repl.SwalReplay

/-!
# The two stores of a log

The file of a log and its ring are circular stores of the same bytes, with sizes, cursors and
windows of their own.

* `Circulates` — a store, its cursor and its window, and the bytes that the log has been given since
  it was empty;
* `Swal.TwoStores` — both stores of a log;
* `swal_twoStores` — every history of appends and resets keeps them.
-/

namespace Comms

/-- A circular store of `size` bytes with a cursor at `pos`, and a window from `start` to `end_`.
It has been given the bytes of the log, however long the records and the log were. -/
structure Circulates (size pos start end_ : UInt64) (cells : List UInt8) (l : Log) : Prop where
  pos_lt : pos < size
  /-- The cursor counts the bytes since the reset, modulo the size. -/
  pos_eq : pos.toNat = l.bytes.length % size.toNat
  end_eq : end_ = l.base + l.bytes.length.toUInt64
  window : (end_ - start).toNat = min l.bytes.length size.toNat
  /-- The bytes of the window are where their indexes say. -/
  stored : ∀ i, i < l.bytes.length → l.bytes.length ≤ i + size.toNat →
    cells[i % size.toNat]? = l.bytes[i]?
  /-- The same in offsets, which come round after `2 ^ 64` bytes. -/
  pos_offset : l.bytes.length < 2 ^ 64 → pos.toNat = (end_ - l.base).toNat % size.toNat
  stored_offset : l.bytes.length < 2 ^ 64 → ∀ o, o - start < end_ - start →
    (o - l.base).toNat < l.bytes.length ∧
      cells[(o - l.base).toNat % size.toNat]? = l.bytes[(o - l.base).toNat]?

/-- **Both stores.** -/
structure Swal.TwoStores (wal : Swal) (l : Log) : Prop where
  file : Circulates wal.options.maxFileSize wal.logMeta.logFilePos wal.logMeta.logStartOffset
    wal.logMeta.logEndOffset wal.file l
  ring_iff : wal.ringCache.isSome ↔ 0 < wal.options.ringCacheSize
  ring : ∀ r, wal.ringCache = some r →
    Circulates wal.options.ringCacheSize wal.ringCacheIdx wal.ringCacheStartOffset
      wal.logMeta.logEndOffset r l

section Offsets

variable {size pos start end_ : UInt64} {cells : List UInt8} {l : Log}

/-- The length of a log is read off its offsets, while they have not come round. -/
theorem Log.length_of_endOffset (hend : end_ = l.endOffset) (hsmall : l.bytes.length < 2 ^ 64) :
    (end_ - l.base).toNat = l.bytes.length := by
  have hsub : end_ - l.base = l.bytes.length.toUInt64 := by
    rw [hend, Log.endOffset]
    grind
  rw [hsub, length_toNat hsmall]

/-- An offset of the window is a place in the log. -/
theorem Log.index_of_window (hend : end_ = l.endOffset) (hsmall : l.bytes.length < 2 ^ 64)
    (hwindow : (end_ - start).toNat ≤ l.bytes.length) {o : UInt64} (ho : o - start < end_ - start) :
    (o - l.base).toNat = l.bytes.length - (end_ - start).toNat + (o - start).toNat := by
  rw [UInt64.lt_iff_toNat_lt] at ho
  have hlen := Log.length_of_endOffset hend hsmall
  have hstart : (start - l.base).toNat = l.bytes.length - (end_ - start).toNat := by
    have hsub : start - l.base = (end_ - l.base) - (end_ - start) := by grind
    rw [hsub, toNat_sub_of_le (by omega), hlen]
  have hsub : o - l.base = (start - l.base) + (o - start) := by grind
  rw [hsub, toNat_add_of_lt (by omega), hstart]

/-- A store that holds the tail of the log. -/
theorem circulates_of_holds (hsize : 0 < size.toNat) (hpos : pos.toNat = l.bytes.length % size.toNat)
    (hend : end_ = l.endOffset) (hwindow : (end_ - start).toNat = min l.bytes.length size.toNat)
    (hholds : Circular.Holds size.toNat cells l.bytes) :
    Circulates size pos start end_ cells l where
  pos_lt := by
    rw [UInt64.lt_iff_toNat_lt, hpos]
    exact Nat.mod_lt _ hsize
  pos_eq := hpos
  end_eq := hend
  window := hwindow
  stored := hholds.mem
  pos_offset := fun hsmall => by rw [Log.length_of_endOffset hend hsmall, hpos]
  stored_offset := fun hsmall o ho => by
    have hindex := Log.index_of_window hend hsmall (by omega) ho
    rw [UInt64.lt_iff_toNat_lt] at ho
    exact ⟨by omega, hholds.mem _ (by omega) (by omega)⟩

end Offsets

/-- What represents a log has it in both stores. -/
theorem Faithful.twoStores {wal : Swal} {l : Log} (h : Faithful wal l) : wal.TwoStores l where
  file := circulates_of_holds h.file.size_pos h.file.pos_eq h.file.end_eq h.file.window h.file.file
  ring_iff := by
    rw [h.ring.some_iff, UInt64.lt_iff_toNat_lt, UInt64.toNat_zero]
  ring := fun r hr => by
    have hsome : wal.ringCache.isSome := by rw [hr]; rfl
    exact circulates_of_holds (h.ring.some_iff.mp hsome) (h.ring.idx_eq r hr) h.file.end_eq
      (h.ringWindow hsome) (h.ring.ring r hr)

/-- A reset begins anew, whatever the ring has been given. -/
theorem Faithful.of_reset {wal : Swal} {l : Log} {t : List UInt8} (hf : FileRep wal l)
    (hr : RingRep wal t) (offset cksm : UInt64) :
    Faithful (swalReset wal offset cksm) (Log.reset offset) := by
  obtain ⟨hf', hr'⟩ := swalReset_spec hf hr offset cksm
  refine ⟨hf', hr', fun hsome => ?_⟩
  have hs : wal.ringCache.isSome := hsome
  simp [swalReset, hs]

/-- A log that was closed and is opened again is in order from its next reset on. -/
theorem Faithful.reopen {wal wal₁ : Swal} {l : Log} (h : Faithful wal l)
    {malloc : Option (MallocBlock wal.options.ringCacheSize)}
    (hopen : swalOpen (swalClose wal) wal.options malloc = .ok wal₁) (offset cksm : UInt64) :
    Faithful (swalReset wal₁ offset cksm) (Log.reset offset) := by
  obtain ⟨hf, hr, -⟩ := swalOpen_spec (.of_close h.file) h.file.size_lt hopen
  exact .of_reset hf hr offset cksm

/-- **The stores of a log.** Every history of appends and resets of a new log returns, and in the
state it comes to both stores are in order: the cursor is below the size and counts the bytes since
the last reset, the window is as long as they are many, up to the size, and each byte of the window
is in the cell of its offset. The same holds of a log that was closed and is opened again, from its
next reset on. -/
theorem swal_twoStores {options : SwalOptions} (h0 : 0 < options.maxFileSize)
    {malloc : Option (MallocBlock options.ringCacheSize)} {wal₀ : Swal}
    (hopen : swalOpen .fresh options malloc = .ok wal₀) (ops : List SwalOp) :
    ∃ wal, swalRun wal₀ ops = some wal ∧ wal.TwoStores ((Log.reset 0).run ops) ∧
      ∀ malloc' wal₁, swalOpen (swalClose wal) wal.options malloc' = .ok wal₁ →
        ∀ offset cksm ops', ∃ wal', swalRun wal₁ (.reset offset cksm :: ops') = some wal' ∧
          wal'.TwoStores ((Log.reset offset).run ops') := by
  have h0' : 0 < options.maxFileSize.toNat := by simpa [UInt64.lt_iff_toNat_lt] using h0
  obtain ⟨wal, hrun, hfaith, -⟩ := (Faithful.fresh h0' hopen).run ops
  refine ⟨wal, hrun, hfaith.twoStores, fun malloc' wal₁ hopen' offset cksm ops' => ?_⟩
  obtain ⟨wal', hrun', hfaith', -⟩ := (hfaith.reopen hopen' offset cksm).run ops'
  refine ⟨wal', ?_, hfaith'.twoStores⟩
  rw [swalRun, swalStep]
  exact hrun'

/-- A file of four bytes and a record that is longer. -/
theorem swal_twoStores_six : ∃ wal, swalRun smallWal [.append sixBytes] = some wal ∧
    wal.TwoStores ((Log.reset 0).run [.append sixBytes]) ∧
      ∀ malloc' wal₁, swalOpen (swalClose wal) wal.options malloc' = .ok wal₁ →
        ∀ offset cksm ops', ∃ wal', swalRun wal₁ (.reset offset cksm :: ops') = some wal' ∧
          wal'.TwoStores ((Log.reset offset).run ops') :=
  @swal_twoStores smallOptions (by decide) none smallWal rfl _

end Comms
