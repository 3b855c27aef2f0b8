import Comms.Repl.Swal
import Mathlib.Tactic.Linarith

/-!
# What a log represents

The abstract log is a base offset and the bytes appended since: `Log.append` and `Log.reset` are
all that can happen to it. The file of a `Swal` is a circular store of that byte stream, and the
ring is a second one, of the bytes the ring has been fed since it was last emptied.

* `FileRep` — the file, the cursor, the descriptor and the window represent a `Log`;
* `RingRep` — the ring represents the bytes `t` fed to it;
* `swalAppend_spec`, `swalReset_spec` — the operations keep both representations, and say what
  becomes of the two window starts;
* `swalAppend_meta` — the meta page behind an append, whatever the log represents;
* `clampStart_sub` — the arithmetic of the sliding window, in `size_t`.
-/

namespace Comms

/-- The logical content of a log: the offset of the last reset and the bytes appended since. -/
structure Log where
  base : UInt64
  bytes : List UInt8

/-- The offset after the last byte. -/
def Log.endOffset (l : Log) : UInt64 := l.base + l.bytes.length.toUInt64

def Log.append (l : Log) (p : List UInt8) : Log := { l with bytes := l.bytes ++ p }

def Log.reset (offset : UInt64) : Log := { base := offset, bytes := [] }

/-- The bytes of the log from `offset` to the end. -/
def Log.since (l : Log) (offset : UInt64) : List UInt8 :=
  l.bytes.drop (l.bytes.length - (l.endOffset - offset).toNat)

@[simp] theorem Log.append_bytes (l : Log) (p : List UInt8) :
    (l.append p).bytes = l.bytes ++ p := rfl

@[simp] theorem Log.reset_bytes (o : UInt64) : (Log.reset o).bytes = [] := rfl

@[simp] theorem Log.reset_endOffset (o : UInt64) : (Log.reset o).endOffset = o := by
  simp [Log.endOffset, Log.reset]

/-! ### Arithmetic of sizes -/

@[simp] theorem length_toNat {p : List UInt8} (h : p.length < 2 ^ 64) :
    p.length.toUInt64.toNat = p.length := by
  simp only [Nat.toUInt64, UInt64.toNat_ofNat']
  exact Nat.mod_eq_of_lt h

theorem toUInt64_add (a b : ℕ) : (a + b).toUInt64 = a.toUInt64 + b.toUInt64 := by
  simp [Nat.toUInt64, UInt64.ofNat_add]

theorem Log.append_endOffset (l : Log) (p : List UInt8) :
    (l.append p).endOffset = l.endOffset + p.length.toUInt64 := by
  simp only [Log.endOffset, Log.append, List.length_append, toUInt64_add, UInt64.add_assoc]

/-- A subtraction that does not wrap. -/
theorem toNat_sub_of_le {a b : UInt64} (h : b.toNat ≤ a.toNat) :
    (a - b).toNat = a.toNat - b.toNat := by
  rw [UInt64.toNat_sub_of_le]
  exact UInt64.le_iff_toNat_le.mpr h

/-- An addition that does not wrap. -/
theorem toNat_add_of_lt {a b : UInt64} (h : a.toNat + b.toNat < 2 ^ 64) :
    (a + b).toNat = a.toNat + b.toNat := by
  rw [UInt64.toNat_add]
  exact Nat.mod_eq_of_lt h

/-- **The sliding window.** When the window of a store of `size` bytes is `k` long and `n` bytes
are appended, the clamped window is `min (k + n) size` long. -/
theorem clampStart_sub {start end_ size n : UInt64}
    (hn : (end_ - start).toNat + n.toNat < 2 ^ 64) :
    (end_ + n - clampStart start (end_ + n) size).toNat
      = min ((end_ - start).toNat + n.toNat) size.toNat := by
  have hsub : end_ + n - start = end_ - start + n := by grind
  have hnat : (end_ + n - start).toNat = (end_ - start).toNat + n.toNat := by
    rw [hsub, toNat_add_of_lt hn]
  unfold clampStart
  split
  · next h =>
    rw [UInt64.le_iff_toNat_le, hnat] at h
    have hback : end_ + n - (end_ + n - size) = size := by grind
    rw [hback]
    omega
  · next h =>
    rw [UInt64.le_iff_toNat_le, hnat] at h
    rw [hnat]
    omega

/-! ### The representations -/

/-- The file side of a log. -/
structure FileRep (wal : Swal) (l : Log) : Prop where
  /-- The file has a size, and one that `ftruncate` accepts. -/
  size_pos : 0 < wal.options.maxFileSize.toNat
  size_lt : wal.options.maxFileSize.toNat < 2 ^ 63
  /-- The end of the window is the end of the log. -/
  end_eq : wal.logMeta.logEndOffset = l.endOffset
  /-- The window is as long as the log, up to the size of the file. -/
  window : (wal.logMeta.logEndOffset - wal.logMeta.logStartOffset).toNat
    = min l.bytes.length wal.options.maxFileSize.toNat
  /-- The cursor is where the log ends in the file, and so is the descriptor. -/
  pos_eq : wal.logMeta.logFilePos.toNat = l.bytes.length % wal.options.maxFileSize.toNat
  fd_eq : wal.fdPos = wal.logMeta.logFilePos
  /-- The file holds the tail of the log. -/
  file : Circular.Holds wal.options.maxFileSize.toNat wal.file l.bytes

/-- The ring side of a log: `t` is what the ring has been fed since it was empty. -/
structure RingRep (wal : Swal) (t : List UInt8) : Prop where
  some_iff : wal.ringCache.isSome ↔ 0 < wal.options.ringCacheSize.toNat
  size_lt : wal.options.ringCacheSize.toNat < 2 ^ 63
  idx_eq : ∀ r, wal.ringCache = some r →
    wal.ringCacheIdx.toNat = t.length % wal.options.ringCacheSize.toNat
  ring : ∀ r, wal.ringCache = some r → Circular.Holds wal.options.ringCacheSize.toNat r t

/-! ### The chunk loops -/

/-- One chunk of a chunk loop, over sizes that do not wrap: how far it goes, and where the cursor
comes out. -/
theorem chunk_spec {size pos : UInt64} {p : List UInt8} (hsize : size.toNat < 2 ^ 63)
    (hp : p.length < 2 ^ 63) (hpos : pos.toNat < size.toNat) (hne : p ≠ []) :
    let room := size - pos
    let thislen := if p.length.toUInt64 < room then p.length.toUInt64 else room
    thislen.toNat = min p.length (size.toNat - pos.toNat) ∧ 0 < thislen.toNat ∧
      (pos + thislen).toNat = pos.toNat + thislen.toNat := by
  intro room thislen
  have hlen : p.length.toUInt64.toNat = p.length := length_toNat (by omega)
  have hroom : room.toNat = size.toNat - pos.toNat := toNat_sub_of_le (by omega)
  have hpos' : 0 < p.length := List.length_pos_iff.mpr hne
  have hthis : thislen.toNat = min p.length (size.toNat - pos.toNat) := by
    show (if _ then _ else _ : UInt64).toNat = _
    split
    · next h => rw [UInt64.lt_iff_toNat_lt] at h; omega
    · next h => rw [UInt64.lt_iff_toNat_lt] at h; omega
  exact ⟨hthis, by omega, toNat_add_of_lt (by omega)⟩

/-- The cursor after a chunk is the cursor of the longer stream. -/
theorem chunk_cursor {size pos thislen : UInt64} {n : ℕ} (hpos : pos.toNat = n % size.toNat)
    (hadd : (pos + thislen).toNat = pos.toNat + thislen.toNat)
    (hle : pos.toNat + thislen.toNat ≤ size.toNat) :
    (if pos + thislen = size then 0 else pos + thislen).toNat = (n + thislen.toNat) % size.toNat := by
  rw [Circular.mod_add_of_le (by omega), ← hpos]
  by_cases h : pos + thislen = size
  · have : pos.toNat + thislen.toNat = size.toNat := by rw [← hadd, h]
    simp [h, this]
  · have : pos.toNat + thislen.toNat ≠ size.toNat := by
      rw [← hadd]
      exact fun h' => h (UInt64.toNat_inj.mp h')
    rw [if_neg h, if_neg this, hadd]

/-- The kernel write of a whole chunk at the descriptor. -/
theorem padTo_of_le {pos : ℕ} {file : List UInt8} (h : pos ≤ file.length) :
    padTo pos file = file := by
  simp [padTo, Nat.sub_eq_zero_of_le h]

/-- The part of `FileRep` the chunk loop keeps: everything but the window. -/
structure CursorRep (wal : Swal) (s : List UInt8) : Prop where
  size_lt : wal.options.maxFileSize.toNat < 2 ^ 63
  pos_eq : wal.logMeta.logFilePos.toNat = s.length % wal.options.maxFileSize.toNat
  fd_eq : wal.fdPos = wal.logMeta.logFilePos
  file : Circular.Holds wal.options.maxFileSize.toNat wal.file s

/-- **The chunk loop over the file.** With every `write` complete and enough fuel the loop returns
`0`, and moves nothing but the file, the descriptor and the cursor. -/
theorem writeLoop_full {wal : Swal} {s : List UInt8} (h : CursorRep wal s)
    (hpos : 0 < wal.options.maxFileSize.toNat) {p : List UInt8} (hp : p.length < 2 ^ 63)
    (fuel : ℕ) (hfuel : p.length < fuel) :
    ∃ wal', writeLoop fuel [] wal p = some (0, wal') ∧ CursorRep wal' (s ++ p) ∧
      wal' = { wal with
        file := wal'.file, fdPos := wal'.fdPos
        logMeta := { wal.logMeta with logFilePos := wal'.logMeta.logFilePos } } := by
  induction fuel generalizing wal s p with
  | zero => omega
  | succ fuel ih =>
    by_cases hne : p = []
    · subst hne
      exact ⟨wal, by simp [writeLoop], by simpa using h, rfl⟩
    -- one chunk, then the loop on the rest
    have hmod : wal.logMeta.logFilePos.toNat < wal.options.maxFileSize.toNat := by
      rw [h.pos_eq]; exact Nat.mod_lt _ hpos
    obtain ⟨hthis, hthis0, hadd⟩ := chunk_spec h.size_lt hp hmod hne
    rw [writeLoop, if_neg (by simpa using hne)]
    simp only [List.headD_nil, WriteResult.taken, List.tail_nil]
    generalize (if p.length.toUInt64 < wal.options.maxFileSize - wal.logMeta.logFilePos
      then p.length.toUInt64 else wal.options.maxFileSize - wal.logMeta.logFilePos) = thislen
      at hthis hthis0 hadd ⊢
    have htake : (p.take thislen.toNat).length = thislen.toNat := by
      rw [List.length_take]; omega
    have hcursor := chunk_cursor h.pos_eq hadd (by omega)
    have hpad : padTo wal.fdPos.toNat wal.file = wal.file := by
      apply padTo_of_le
      rw [h.file.length_eq, h.fd_eq]
      omega
    have hfile := h.file.splice (p.take thislen.toNat) (by rw [htake, ← h.pos_eq]; omega)
    rw [← h.pos_eq] at hfile
    have hback : thislen.toNat.toUInt64 = thislen := UInt64.ofNat_toNat
    rw [hpad, h.fd_eq, hback]
    have hrep₁ : CursorRep { wal with
        file := Circular.splice wal.file wal.logMeta.logFilePos.toNat (p.take thislen.toNat)
        fdPos := if wal.logMeta.logFilePos + thislen = wal.options.maxFileSize then 0
          else wal.logMeta.logFilePos + thislen
        logMeta := { wal.logMeta with
          logFilePos := if wal.logMeta.logFilePos + thislen = wal.options.maxFileSize then 0
            else wal.logMeta.logFilePos + thislen } } (s ++ p.take thislen.toNat) :=
      ⟨h.size_lt, by rw [List.length_append, htake]; exact hcursor, rfl, hfile⟩
    obtain ⟨wal', hrun, hrep, hframe⟩ := ih hrep₁ hpos (p := p.drop thislen.toNat)
      (by rw [List.length_drop]; omega) (by rw [List.length_drop]; omega)
    refine ⟨wal', hrun, ?_, hframe⟩
    rwa [List.append_assoc, List.take_append_drop] at hrep

/-- **The chunk loop over the ring.** -/
theorem ringLoop_spec {size idx : UInt64} {ring t : List UInt8} (hpos : 0 < size.toNat)
    (hlt : size.toNat < 2 ^ 63) (hidx : idx.toNat = t.length % size.toNat)
    (h : Circular.Holds size.toNat ring t) {p : List UInt8} (hp : p.length < 2 ^ 63)
    (fuel : ℕ) (hfuel : p.length < fuel) :
    ∃ ring' idx', ringLoop size fuel ring idx p = some (ring', idx') ∧
      idx'.toNat = (t ++ p).length % size.toNat ∧ Circular.Holds size.toNat ring' (t ++ p) := by
  induction fuel generalizing ring idx t p with
  | zero => omega
  | succ fuel ih =>
    by_cases hne : p = []
    · subst hne
      exact ⟨ring, idx, by simp [ringLoop], by simpa using hidx, by simpa using h⟩
    have hmod : idx.toNat < size.toNat := by rw [hidx]; exact Nat.mod_lt _ hpos
    obtain ⟨hthis, hthis0, hadd⟩ := chunk_spec hlt hp hmod hne
    rw [ringLoop, if_neg (by simpa using hne)]
    simp only
    generalize (if p.length.toUInt64 < size - idx then p.length.toUInt64 else size - idx) = thislen
      at hthis hthis0 hadd ⊢
    have htake : (p.take thislen.toNat).length = thislen.toNat := by
      rw [List.length_take]; omega
    have hring := h.splice (p.take thislen.toNat) (by rw [htake, ← hidx]; omega)
    rw [← hidx] at hring
    obtain ⟨ring', idx', hrun, hidx', hring'⟩ := ih
      (t := t ++ p.take thislen.toNat) (p := p.drop thislen.toNat)
      (by rw [List.length_append, htake]; exact chunk_cursor hidx hadd (by omega)) hring
      (by rw [List.length_drop]; omega) (by rw [List.length_drop]; omega)
    rw [List.append_assoc, List.take_append_drop] at hidx' hring'
    exact ⟨ring', idx', hrun, hidx', hring'⟩

/-! ### The operations -/

theorem FileRep.cursor {wal : Swal} {l : Log} (h : FileRep wal l) : CursorRep wal l.bytes :=
  ⟨h.size_lt, h.pos_eq, h.fd_eq, h.file⟩

/-- The window start of the ring after an append. -/
def Swal.ringStartAfter (wal : Swal) (end_ : UInt64) : UInt64 :=
  if wal.ringCache.isSome then clampStart wal.ringCacheStartOffset end_ wal.options.ringCacheSize
  else wal.ringCacheStartOffset

/-- The ring side after an append. -/
def Swal.withRing (wal : Swal) (cache : Option (List UInt8)) (idx : UInt64) : Swal :=
  { wal with
    ringCache := cache
    ringCacheIdx := idx
    ringCacheStartOffset := wal.ringStartAfter wal.logMeta.logEndOffset }

/-- **Feeding the ring.** The ring side represents the longer stream; the file side is as it was. -/
theorem appendRing_spec {wal : Swal} {t : List UInt8} (hr : RingRep wal t) (log : Obj) :
    ∃ cache idx, appendRing wal log.bytes = some (wal.withRing cache idx) ∧
      RingRep (wal.withRing cache idx) (t ++ log.bytes) ∧
      cache.isSome = wal.ringCache.isSome := by
  unfold appendRing
  cases hc : wal.ringCache with
  | none =>
    refine ⟨none, wal.ringCacheIdx, ?_, ⟨?_, hr.size_lt, ?_, ?_⟩, rfl⟩
    · cases wal
      subst hc
      rfl
    · show none.isSome ↔ 0 < wal.options.ringCacheSize.toNat
      rw [← hr.some_iff, hc]
    · intro r h; cases h
    · intro r h; cases h
  | some r =>
    have hsize : 0 < wal.options.ringCacheSize.toNat := hr.some_iff.mp (by simp [hc])
    obtain ⟨r', idx', hring, hidx', hholds⟩ := ringLoop_spec hsize hr.size_lt (hr.idx_eq r hc)
      (hr.ring r hc) log.small (log.bytes.length + 1) (by omega)
    refine ⟨some r', idx', ?_, ⟨?_, hr.size_lt, ?_, ?_⟩, rfl⟩
    · simp only [hring]
      simp [Swal.withRing, Swal.ringStartAfter, hc]
    · exact ⟨fun _ => hsize, fun _ => rfl⟩
    · intro r'' _
      exact hidx'
    · intro r'' h
      obtain rfl : r' = r'' := Option.some.inj h
      exact hholds

/-- The file side does not read the ring. -/
theorem FileRep.withRing {wal : Swal} {l : Log} (h : FileRep wal l) (cache : Option (List UInt8))
    (idx : UInt64) : FileRep (wal.withRing cache idx) l :=
  ⟨h.size_pos, h.size_lt, h.end_eq, h.window, h.pos_eq, h.fd_eq, h.file⟩

/-- The meta page after the file was written: the window slides over the longer log. -/
theorem CursorRep.appendMeta {wal wal₁ : Swal} {l : Log} (hf : FileRep wal l) (log : Obj)
    (hrep : CursorRep wal₁ (l.bytes ++ log.bytes))
    (hframe : wal₁ = { wal with
      file := wal₁.file, fdPos := wal₁.fdPos
      logMeta := { wal.logMeta with logFilePos := wal₁.logMeta.logFilePos } }) :
    FileRep { wal₁ with logMeta := appendMeta wal₁.options wal₁.logMeta log.bytes }
      (l.append log.bytes) := by
  have hopt : wal₁.options = wal.options := by rw [hframe]
  have hend : wal₁.logMeta.logEndOffset = wal.logMeta.logEndOffset := by rw [hframe]
  have hlog : wal₁.logMeta.logStartOffset = wal.logMeta.logStartOffset := by rw [hframe]
  have hlen := log.small
  have hlen64 : log.bytes.length.toUInt64.toNat = log.bytes.length := length_toNat (by omega)
  have hwin := hf.window
  have hsize := hf.size_lt
  refine ⟨by rw [hopt]; exact hf.size_pos, by rw [hopt]; exact hf.size_lt, ?_, ?_, hrep.pos_eq,
    hrep.fd_eq, hrep.file⟩
  · show wal₁.logMeta.logEndOffset + _ = _
    rw [hend, hf.end_eq, Log.append_endOffset]
  · show (wal₁.logMeta.logEndOffset + _ - clampStart wal₁.logMeta.logStartOffset _ _).toNat = _
    rw [hend, hlog, hopt, clampStart_sub (by rw [hwin, hlen64]; omega), hwin, hlen64,
      Log.append_bytes, List.length_append]
    omega

/-- **`swal_append` with complete writes.** It returns `0`, appends the record to the log and to
what the ring was fed, and clamps the window start of the ring at the new end. -/
theorem swalAppend_spec {wal : Swal} {l : Log} {t : List UInt8} (hf : FileRep wal l)
    (hr : RingRep wal t) (log : Obj) :
    ∃ wal', swalAppend wal [] log = some (0, wal') ∧ FileRep wal' (l.append log.bytes) ∧
      RingRep wal' (t ++ log.bytes) ∧ wal'.options = wal.options ∧
      wal'.ringCache.isSome = wal.ringCache.isSome ∧
      wal'.ringCacheStartOffset = wal.ringStartAfter (l.append log.bytes).endOffset := by
  obtain ⟨wal₁, hrun, hrep, hframe⟩ := writeLoop_full hf.cursor hf.size_pos log.small
    (log.bytes.length + 2) (by omega)
  have hopt : wal₁.options = wal.options := by rw [hframe]
  have hcache : wal₁.ringCache = wal.ringCache := by rw [hframe]
  have hstart : wal₁.ringCacheStartOffset = wal.ringCacheStartOffset := by rw [hframe]
  have hfile := CursorRep.appendMeta hf log hrep hframe
  have hring : RingRep { wal₁ with logMeta := appendMeta wal₁.options wal₁.logMeta log.bytes } t := by
    rw [hframe]
    exact ⟨hr.some_iff, hr.size_lt, hr.idx_eq, hr.ring⟩
  obtain ⟨cache, idx, hfeed, hring', hsome⟩ := appendRing_spec hring log
  refine ⟨_, ?_, hfile.withRing cache idx, hring', hopt, hsome.trans (by rw [← hcache]), ?_⟩
  · unfold swalAppend
    rw [hrun]
    simp only [Int.lt_irrefl, if_false, hfeed]
  · rw [← hfile.end_eq]
    show Swal.ringStartAfter _ _ = _
    unfold Swal.ringStartAfter
    simp only [hcache, hstart, hopt]

/-- The loop over the file moves the file position only. -/
theorem writeLoop_frame {fuel : ℕ} {wal wal' : Swal} {p : List UInt8} {err : Int}
    (h : writeLoop fuel [] wal p = some (err, wal')) :
    err = 0 ∧ wal'.options = wal.options ∧
      wal'.logMeta.logStartOffset = wal.logMeta.logStartOffset ∧
      wal'.logMeta.logEndOffset = wal.logMeta.logEndOffset ∧
      wal'.logMeta.cksm = wal.logMeta.cksm := by
  induction fuel generalizing wal p with
  | zero => cases h
  | succ fuel ih =>
    rw [writeLoop] at h
    split at h
    · cases h
      exact ⟨rfl, rfl, rfl, rfl, rfl⟩
    · dsimp only [List.headD_nil, WriteResult.taken, List.tail_nil] at h
      have hrest := ih h
      exact hrest

/-- The loop over the ring moves the ring only. -/
theorem appendRing_frame {wal wal' : Swal} {p : List UInt8} (h : appendRing wal p = some wal') :
    wal'.options = wal.options ∧ wal'.logMeta = wal.logMeta := by
  unfold appendRing at h
  split at h
  · cases h
    exact ⟨rfl, rfl⟩
  · split at h
    · cases h
    · cases h
      exact ⟨rfl, rfl⟩

/-- **The meta page behind an append.** The end moves by what is appended, the start follows it at the
size of the file, and the checksum is continued. -/
theorem swalAppend_meta {wal wal' : Swal} {log : Obj} {err : Int}
    (h : swalAppend wal [] log = some (err, wal')) :
    wal'.options = wal.options ∧
      wal'.logMeta.logEndOffset = wal.logMeta.logEndOffset + log.bytes.length.toUInt64 ∧
      wal'.logMeta.logStartOffset
        = clampStart wal.logMeta.logStartOffset wal'.logMeta.logEndOffset
          wal.options.maxFileSize ∧
      wal'.logMeta.cksm = (appendMeta wal.options wal.logMeta log.bytes).cksm := by
  unfold swalAppend at h
  split at h
  · cases h
  next err₁ wal₁ hloop =>
  obtain ⟨rfl, hopt, hstart, hend, hcksm⟩ := writeLoop_frame hloop
  rw [if_neg (by decide)] at h
  split at h
  · cases h
  next wal₃ hring =>
  obtain ⟨-, rfl⟩ := Prod.mk.inj (Option.some.inj h)
  -- the ring has its own window
  obtain ⟨hopt₃, hmeta⟩ := appendRing_frame hring
  dsimp only at hmeta
  refine ⟨hopt₃.trans hopt, ?_, ?_, ?_⟩
  · rw [hmeta, ← hend]
    rfl
  · rw [hmeta, ← hstart, ← hopt]
    rfl
  · rw [hmeta, ← hopt]
    simp only [appendMeta, hcksm]

/-- **`swal_reset`** empties the log at the new offset, and the ring with it. -/
theorem swalReset_spec {wal : Swal} {l : Log} {t : List UInt8} (hf : FileRep wal l)
    (hr : RingRep wal t) (offset cksm : UInt64) :
    FileRep (swalReset wal offset cksm) (Log.reset offset) ∧
      RingRep (swalReset wal offset cksm) [] := by
  refine ⟨⟨hf.size_pos, hf.size_lt, by simp [swalReset], by simp [swalReset], by simp [swalReset],
    rfl, .nil hf.file.length_eq⟩, ⟨hr.some_iff, hr.size_lt, ?_, ?_⟩⟩
  · intro r h
    have h' : wal.ringCache = some r := h
    simp [swalReset, h']
  · intro r h
    exact .nil (hr.ring r h).length_eq

/-! ### Opening -/

/-- A successful open takes over the options, and the meta page as it is on disk. -/
theorem swalOpen_frame {dir : SwalDir} {options : SwalOptions}
    {malloc : Option (MallocBlock options.ringCacheSize)} {wal : Swal}
    (h : swalOpen dir options malloc = .ok wal) :
    wal.options = options ∧ wal.logMeta = dir.logMeta := by
  unfold swalOpen at h
  split at h
  · cases h
  split at h
  · split at h
    · cases h
    · obtain rfl : _ = wal := by simpa using h
      exact ⟨rfl, rfl⟩
  · obtain rfl : _ = wal := by simpa using h
    exact ⟨rfl, rfl⟩

/-- What the directory of a log represents. -/
structure DirRep (dir : SwalDir) (options : SwalOptions) (l : Log) : Prop where
  size_pos : 0 < options.maxFileSize.toNat
  end_eq : dir.logMeta.logEndOffset = l.endOffset
  window : (dir.logMeta.logEndOffset - dir.logMeta.logStartOffset).toNat
    = min l.bytes.length options.maxFileSize.toNat
  pos_eq : dir.logMeta.logFilePos.toNat = l.bytes.length % options.maxFileSize.toNat
  file : ∀ file, openWalLogfile options.maxFileSize dir.file = .ok file →
    Circular.Holds options.maxFileSize.toNat file l.bytes

/-- `openWalLogfile` succeeds only for a size `ftruncate` accepts, or a file that is there. -/
theorem openWalLogfile_ok {max : UInt64} {file file' : List UInt8}
    (h : openWalLogfile max file = .ok file') :
    (file.length < max.toNat ∧ max.toNat < 2 ^ 63 ∧
        file' = file ++ List.replicate (max.toNat - file.length) 0) ∨
      (max.toNat ≤ file.length ∧ file' = file) := by
  unfold openWalLogfile at h
  split at h
  · next hlt =>
    split at h
    · next h63 =>
      exact .inl ⟨hlt, h63, by simpa using h.symm⟩
    · cases h
  · next hge => exact .inr ⟨by omega, by simpa using h.symm⟩

/-- A fresh directory represents the empty log at offset `0`. -/
theorem DirRep.fresh {options : SwalOptions} (h : 0 < options.maxFileSize.toNat) :
    DirRep SwalDir.fresh options (Log.reset 0) where
  size_pos := h
  end_eq := by simp [SwalDir.fresh]
  window := by simp [SwalDir.fresh]
  pos_eq := by simp [SwalDir.fresh]
  file := by
    intro file hfile
    rcases openWalLogfile_ok hfile with ⟨hlt, -, rfl⟩ | ⟨hle, rfl⟩
    · exact .nil (by simp [SwalDir.fresh])
    · simp [SwalDir.fresh] at hle
      omega

/-- Closing a log leaves a directory that represents it. -/
theorem DirRep.of_close {wal : Swal} {l : Log} (h : FileRep wal l) :
    DirRep (swalClose wal) wal.options l where
  size_pos := h.size_pos
  end_eq := h.end_eq
  window := h.window
  pos_eq := h.pos_eq
  file := by
    intro file hfile
    rcases openWalLogfile_ok hfile with ⟨hlt, -, -⟩ | ⟨-, rfl⟩
    · have : wal.file.length < wal.options.maxFileSize.toNat := hlt
      rw [h.file.length_eq] at this
      omega
    · exact h.file

/-- **`swal_open`** of a directory that represents a log. The file side is back; the ring is
empty, and its window start is the start of the file's window. -/
theorem swalOpen_spec {dir : SwalDir} {options : SwalOptions} {l : Log}
    (hd : DirRep dir options l) (h63 : options.maxFileSize.toNat < 2 ^ 63)
    {malloc : Option (MallocBlock options.ringCacheSize)} {wal : Swal}
    (h : swalOpen dir options malloc = .ok wal) :
    FileRep wal l ∧ RingRep wal [] ∧ wal.options = options ∧ wal.logMeta = dir.logMeta ∧
      (∀ r, wal.ringCache = some r → wal.ringCacheStartOffset = wal.logMeta.logStartOffset ∧
        ∃ block, malloc = some block ∧ r = block.bytes) := by
  unfold swalOpen at h
  cases hfile : openWalLogfile options.maxFileSize dir.file with
  | error err => rw [hfile] at h; cases h
  | ok file =>
    rw [hfile] at h
    have hholds := hd.file file hfile
    simp only at h
    split at h
    · next hsize =>
      have hsize' : 0 < options.ringCacheSize.toNat := by simpa [UInt64.lt_iff_toNat_lt] using hsize
      cases malloc with
      | none => cases h
      | some block =>
        obtain rfl : _ = wal := by simpa using h
        refine ⟨⟨hd.size_pos, h63, hd.end_eq, hd.window, hd.pos_eq, rfl, hholds⟩,
          ⟨by simpa using hsize', block.small, by intro r h; simp, ?_⟩, rfl, rfl, ?_⟩
        · intro r h
          obtain rfl : block.bytes = r := by simpa using h
          exact .nil block.length_eq
        · intro r h
          exact ⟨rfl, block, rfl, by simpa using h.symm⟩
    · next hsize =>
      have hsize' : options.ringCacheSize.toNat = 0 := by
        simpa [UInt64.lt_iff_toNat_lt] using hsize
      obtain rfl : _ = wal := by simpa using h
      exact ⟨⟨hd.size_pos, h63, hd.end_eq, hd.window, hd.pos_eq, rfl, hholds⟩,
        ⟨by simp [hsize'], by rw [hsize']; decide, by intro r h; simp at h, by intro r h; simp at h⟩,
        rfl, rfl, by intro r h; simp at h⟩

end Comms
