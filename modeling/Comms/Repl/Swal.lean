import Comms.Lib.Circular
import Mathlib.Data.UInt

/-!
# The write-ahead log `swal`

The log of `replication/swal.c`: a fixed-size file written circularly, a meta page that records the
window of offsets still in the file, and an optional RAM ring that repeats the newest bytes.

* `swalOpen` / `swalClose` — the directory on disk and the opened log;
* `swalAppend` — the chunk loop over the file, the window clamp, and the chunk loop over the ring;
* `swalReplay` — the byte runs handed to the callback, from the ring or from the file mapping;
* `swalReset` — an empty window at a new offset.

Offsets, sizes and positions are `UInt64` as in the source (`size_t`), so every subtraction wraps
where it wraps there. The two chunk loops are driven by fuel: `none` is a loop that never ends,
which happens exactly when a store has size `0`.
-/

namespace Comms

/-- A byte object in memory: no object is larger than `PTRDIFF_MAX`. -/
structure Obj where
  bytes : List UInt8
  small : bytes.length < 2 ^ 63

/-- `swal_options_t`. The path prefix and the size of the user page are left out. -/
structure SwalOptions where
  maxFileSize : UInt64
  ringCacheSize : UInt64
  cksmFunc : Option (UInt64 → List UInt8 → UInt64)

/-- `swal_meta_t`, the meta page shared with the file on disk. -/
structure SwalMeta where
  logStartOffset : UInt64
  logEndOffset : UInt64
  logFilePos : UInt64
  cksm : UInt64
deriving DecidableEq, Repr

/-- `swal_t`, with the contents of the log file and the position of its descriptor. -/
structure Swal where
  options : SwalOptions
  logMeta : SwalMeta
  file : List UInt8
  fdPos : UInt64
  ringCache : Option (List UInt8)
  ringCacheStartOffset : UInt64
  ringCacheIdx : UInt64

/-- What a log directory keeps while no process has it open. -/
structure SwalDir where
  logMeta : SwalMeta
  file : List UInt8

/-- A directory without log files: the meta page is created as zeros, the log file is empty. -/
def SwalDir.fresh : SwalDir where
  logMeta := { logStartOffset := 0, logEndOffset := 0, logFilePos := 0, cksm := 0 }
  file := []

/-! ### Opening and closing -/

/-- The error codes of `swal.h` that opening can return here. -/
inductive SwalErr
  | mallocFail
  | logOpenFail
deriving DecidableEq, Repr

/-- The block a successful `malloc(n)` returns; its contents are unspecified. -/
structure MallocBlock (n : UInt64) where
  bytes : List UInt8
  length_eq : bytes.length = n.toNat
  small : n.toNat < 2 ^ 63

/-- `open_wal_logfile`: a log file shorter than `max_file_size` is extended with zeros.
`ftruncate` refuses a size that is negative as an `off_t`. -/
def openWalLogfile (max : UInt64) (file : List UInt8) : Except SwalErr (List UInt8) :=
  if file.length < max.toNat then
    if max.toNat < 2 ^ 63 then .ok (file ++ List.replicate (max.toNat - file.length) 0)
    else .error .logOpenFail
  else .ok file

/-- `swal_open`, given what `malloc` answers for the ring cache. -/
def swalOpen (dir : SwalDir) (options : SwalOptions)
    (malloc : Option (MallocBlock options.ringCacheSize)) : Except SwalErr Swal :=
  match openWalLogfile options.maxFileSize dir.file with
  | .error err => .error err
  | .ok file =>
    if 0 < options.ringCacheSize then
      match malloc with
      | none => .error .mallocFail
      | some block =>
        .ok { options := options, logMeta := dir.logMeta, file := file
              fdPos := dir.logMeta.logFilePos, ringCache := some block.bytes
              ringCacheStartOffset := dir.logMeta.logStartOffset, ringCacheIdx := 0 }
    else
      .ok { options := options, logMeta := dir.logMeta, file := file
            fdPos := dir.logMeta.logFilePos, ringCache := none
            ringCacheStartOffset := 0, ringCacheIdx := 0 }

/-- `swal_close`: the meta page and the file stay, the ring is freed. -/
def swalClose (wal : Swal) : SwalDir :=
  { logMeta := wal.logMeta, file := wal.file }

/-! ### Appending -/

/-- The outcome of one `write` call: everything, `k` bytes only, or `-1`. -/
inductive WriteResult
  | full
  | short (k : ℕ)
  | fail
deriving DecidableEq, Repr

/-- How many of `n` bytes a `write` call takes; `none` is the error return. -/
def WriteResult.taken (n : ℕ) : WriteResult → Option ℕ
  | .full => some n
  | .short k => some (min k n)
  | .fail => none

/-- The part of the file before the descriptor's position exists: a write past the end leaves a
hole of zeros. -/
def padTo (pos : ℕ) (file : List UInt8) : List UInt8 :=
  file ++ List.replicate (pos - file.length) 0

/-- The `while (write_len)` loop over the log file; `p` is what is left of the record. The loop
advances by `thislen` whatever count `write` returned. -/
def writeLoop : ℕ → List WriteResult → Swal → List UInt8 → Option (Int × Swal)
  | 0, _, _, _ => none
  | fuel + 1, results, wal, p =>
    if p.isEmpty then some (0, wal)
    else
      let writeLen := p.length.toUInt64
      let room := wal.options.maxFileSize - wal.logMeta.logFilePos
      let thislen := if writeLen < room then writeLen else room
      match (results.headD .full).taken thislen.toNat with
      | none => some (-1, wal)
      | some n =>
        let file := Circular.splice (padTo wal.fdPos.toNat wal.file) wal.fdPos.toNat (p.take n)
        let pos := wal.logMeta.logFilePos + thislen
        let wrap := pos = wal.options.maxFileSize
        let wal' : Swal := { wal with
          file := file
          fdPos := if wrap then 0 else wal.fdPos + n.toUInt64
          logMeta := { wal.logMeta with logFilePos := if wrap then 0 else pos } }
        writeLoop fuel results.tail wal' (p.drop thislen.toNat)

/-- The `while (len)` loop over the ring cache. -/
def ringLoop (ringCacheSize : UInt64) :
    ℕ → List UInt8 → UInt64 → List UInt8 → Option (List UInt8 × UInt64)
  | 0, _, _, _ => none
  | fuel + 1, ring, idx, p =>
    if p.isEmpty then some (ring, idx)
    else
      let len := p.length.toUInt64
      let room := ringCacheSize - idx
      let thislen := if len < room then len else room
      let ring := Circular.splice ring idx.toNat (p.take thislen.toNat)
      let idx := idx + thislen
      ringLoop ringCacheSize fuel ring (if idx = ringCacheSize then 0 else idx)
        (p.drop thislen.toNat)

/-- `if (end - start >= size) start = end - size`, the clamp both windows use. -/
def clampStart (start end_ size : UInt64) : UInt64 :=
  if size ≤ end_ - start then end_ - size else start

/-- What `swal_append` does to the meta page after the file was written. -/
def appendMeta (options : SwalOptions) (m : SwalMeta) (log : List UInt8) : SwalMeta :=
  let end_ := m.logEndOffset + log.length.toUInt64
  { m with
    logEndOffset := end_
    logStartOffset := clampStart m.logStartOffset end_ options.maxFileSize
    cksm := match options.cksmFunc with
      | none => m.cksm
      | some f => f m.cksm log }

/-- What `swal_append` does to the ring cache, at the new end offset. -/
def appendRing (wal : Swal) (log : List UInt8) : Option Swal :=
  match wal.ringCache with
  | none => some wal
  | some ring =>
    match ringLoop wal.options.ringCacheSize (log.length + 1) ring wal.ringCacheIdx log with
    | none => none
    | some (ring, idx) => some { wal with
        ringCache := some ring
        ringCacheIdx := idx
        ringCacheStartOffset := clampStart wal.ringCacheStartOffset wal.logMeta.logEndOffset
          wal.options.ringCacheSize }

/-- `swal_append`, given the outcomes of its `write` calls (the calls after the list are full).
The result is the return code and the log; `none` when a chunk loop never ends. -/
def swalAppend (wal : Swal) (results : List WriteResult) (log : Obj) : Option (Int × Swal) :=
  match writeLoop (log.bytes.length + 2) results wal log.bytes with
  | none => none
  | some (err, wal) =>
    if err < 0 then some (err, wal)
    else
      match appendRing { wal with logMeta := appendMeta wal.options wal.logMeta log.bytes }
          log.bytes with
      | none => none
      | some wal => some (0, wal)

/-! ### Replaying and resetting -/

/-- The memory a replay callback is pointed into. -/
inductive Region
  | ring
  | file
deriving DecidableEq, Repr

/-- One call `func(base + start, len, data)` of a replay. -/
structure Run where
  region : Region
  start : UInt64
  len : UInt64
deriving DecidableEq, Repr

/-- The number of bytes a replay hands out. -/
def replayTotal (wal : Swal) (offset : UInt64) (limitLen : Int64) : UInt64 :=
  let total := wal.logMeta.logEndOffset - offset
  if 0 < limitLen ∧ limitLen.toUInt64 < total then limitLen.toUInt64 else total

/-- One run, or two when the block passes the end of a store of `size` bytes. -/
def wrapRuns (region : Region) (size startPos total : UInt64) : List Run :=
  if total ≤ size - startPos then [⟨region, startPos, total⟩]
  else [⟨region, startPos, size - startPos⟩, ⟨region, 0, startPos + total - size⟩]

/-- The part of `swal_replay` that reads the ring cache. -/
def replayRing (wal : Swal) (offset total : UInt64) : List Run :=
  let cacheLen := wal.logMeta.logEndOffset - offset
  if cacheLen ≤ wal.ringCacheIdx then [⟨.ring, wal.ringCacheIdx - cacheLen, total⟩]
  else
    let startPos := wal.options.ringCacheSize - cacheLen + wal.ringCacheIdx
    wrapRuns .ring wal.options.ringCacheSize startPos total

/-- The part of `swal_replay` that reads the file mapping. The wrapped case counts the start
position back by `total`, where the ring counts back by the length of the rest. -/
def replayFile (wal : Swal) (offset total : UInt64) : List Run :=
  if wal.logMeta.logStartOffset ≤ offset then
    let dataLen := wal.logMeta.logEndOffset - offset
    if dataLen ≤ wal.logMeta.logFilePos then [⟨.file, wal.logMeta.logFilePos - dataLen, total⟩]
    else
      let startPos := wal.options.maxFileSize - total + wal.logMeta.logFilePos
      wrapRuns .file wal.options.maxFileSize startPos total
  else []

/-- `swal_replay` reads the ring cache when there is one that reaches back to `offset`. -/
def servedByRing (wal : Swal) (offset : UInt64) : Prop :=
  wal.ringCache.isSome ∧ wal.ringCacheStartOffset ≤ offset

instance (wal : Swal) (offset : UInt64) : Decidable (servedByRing wal offset) :=
  inferInstanceAs (Decidable (_ ∧ _))

/-- `swal_replay`: the calls of the callback, in order. -/
def swalReplay (wal : Swal) (offset : UInt64) (limitLen : Int64) : List Run :=
  let total := replayTotal wal offset limitLen
  if servedByRing wal offset then replayRing wal offset total
  else replayFile wal offset total

/-- The bytes of the region a run points into: the ring, or the mapping of the first
`max_file_size` bytes of the file. -/
def Swal.region (wal : Swal) : Region → List UInt8
  | .ring => wal.ringCache.getD []
  | .file => wal.file.take wal.options.maxFileSize.toNat

/-- The run lies inside its region. -/
def Run.Inside (wal : Swal) (r : Run) : Prop :=
  r.start.toNat + r.len.toNat ≤ (wal.region r.region).length

instance (wal : Swal) (r : Run) : Decidable (r.Inside wal) :=
  inferInstanceAs (Decidable (_ ≤ _))

/-- The bytes the callback sees in a run. -/
def Run.bytes (wal : Swal) (r : Run) : List UInt8 :=
  Circular.slice (wal.region r.region) r.start.toNat r.len.toNat

/-- The bytes a replay hands out, in call order. -/
def replayBytes (wal : Swal) (offset : UInt64) (limitLen : Int64) : List UInt8 :=
  (swalReplay wal offset limitLen).flatMap (Run.bytes wal)

/-- `swal_reset`. -/
def swalReset (wal : Swal) (offset cksm : UInt64) : Swal :=
  { wal with
    logMeta := { logStartOffset := offset, logEndOffset := offset, logFilePos := 0, cksm := cksm }
    fdPos := 0
    ringCacheStartOffset := if wal.ringCache.isSome then offset else wal.ringCacheStartOffset
    ringCacheIdx := if wal.ringCache.isSome then 0 else wal.ringCacheIdx }

end Comms
