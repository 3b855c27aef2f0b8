import Comms.Codec.Buffer
import Comms.Lib.Run
import Comms.Repl.MasterStream
import Comms.Repl.SwalReplay
import Mathlib.Logic.Function.Basic

/-!
# Full resynchronisation

A slave that cannot go on from its offset gets a snapshot. It may be a save that somebody else has
started, a save of its own, or the file that is there already, and the same instance may be a slave
itself whose master sends it a snapshot that takes the place of that file. This module is the state
the two roles share, and the steps in which they change it.

* `Instance` — the snapshot files, what `g_snapshot_state` says about them, the saves under way and
  the slaves;
* `Instance.saveStart` — how a call of `Snapshot::Save` begins;
* `Instance.sendSnapshot` / `Instance.fullResyncSlaves` / `Instance.closeWaiting` — what is done to
  the slaves at its end;
* `Instance.step` — the steps.

`Snapshot::Save` is cut where something else can run: its routine callback runs the event loop,
`BGSAVE` runs it in a thread of its own. `spoilt` is a history variable: a save or a full resync of
this type has failed, or none has been completed, since the last one that was.
-/

namespace Comms
namespace Resync

open Streaming (SyncState)

/-- `SnapshotType`. -/
inductive SnapshotType
  | redis
  | mmkv
deriving DecidableEq, Repr

/-- What `SnapshotCacheState` keeps for a type. -/
structure CacheState where
  saving : Bool
  offset : UInt64
  cksm : UInt64
deriving DecidableEq, Repr

/-- A snapshot file, as far as it matters here: the offset and the checksum of the log it was produced
at. -/
structure SnapshotFile where
  offset : UInt64
  cksm : UInt64
deriving DecidableEq, Repr

/-- Who has called `Snapshot::Save`. -/
inductive Owner
  | createSnapshot
  /-- `SAVE` or `BGSAVE`. -/
  | user
deriving DecidableEq, Repr

/-- How far a call of `Snapshot::Save` is, and `CreateSnapshot` behind it. -/
inductive SavePhase
  /-- The file is being written. -/
  | writing
  /-- The file is written and `g_snapshot_state` tells of it. -/
  | recorded
  /-- `Rename` has returned. -/
  | renamed
  /-- `Save` has returned to `CreateSnapshot`; `ok` tells whether with `0`. -/
  | returned (ok : Bool)
deriving DecidableEq, Repr

/-- A call of `Snapshot::Save` that is under way. -/
structure Saver where
  type : SnapshotType
  owner : Owner
  phase : SavePhase
  cacheOffset : UInt64
  cacheCksm : UInt64
deriving DecidableEq, Repr

/-- A snapshot that was received from the master and is being loaded; `renamed` tells whether
`RenameDefault` worked. -/
structure Loading where
  type : SnapshotType
  file : SnapshotFile
  renamed : Bool
deriving DecidableEq, Repr

/-- The part of `SlaveConn` that a full resync deals with, whether a file is being sent, and
`m_close_after_write` of its channel. -/
structure SlaveConn where
  serverKey : Bytes
  isRedisSlave : Bool
  syncOffset : UInt64
  syncCksm : UInt64
  state : SyncState
  sendFile : Bool
  closing : Bool
deriving DecidableEq, Repr

/-- The type of snapshot a slave is sent. -/
def SlaveConn.type (slave : SlaveConn) : SnapshotType := if slave.isRedisSlave then .redis else .mmkv

/-- An instance. The calls of `Save` are numbered, and so are the channels of the slaves. -/
structure Instance where
  wal : Swal
  serverKey : Bytes
  /-- `master_host` is not empty. -/
  hasMaster : Bool
  /-- `GetSlave().IsSynced()`. -/
  slaveSynced : Bool
  cache : SnapshotType → CacheState
  /-- What is at `DefaultPath`. -/
  files : SnapshotType → Option SnapshotFile
  /-- There is a file at `repl_data_dir/snapshot_filename`. -/
  plainFile : Bool
  savers : ℕ → Option Saver
  loading : Option Loading
  slaves : ℕ → Option SlaveConn
  spoilt : SnapshotType → Bool

/-- How a call of `Snapshot::Save` begins. -/
inductive SaveStart
  /-- `ERR_SNAPSHOT_SAVING`. -/
  | saving
  /-- The last snapshot is used instead, and `0` returned. -/
  | useLast
  /-- The file could not be opened. -/
  | notOpened
  | started
deriving DecidableEq, Repr

/-- What happens to an instance. The functions tell of each slave whether the file could be opened
for it, and whether its `Close()` is left to the next writable event. -/
inductive Act
  /-- The log is written or reset. -/
  | log (op : SwalOp)
  /-- `SetServerKey`. -/
  | setServerKey (key : Bytes)
  /-- `SLAVEOF`, and the ups and downs of the link to the master. -/
  | role (hasMaster slaveSynced : Bool)
  /-- Somebody puts a file at `repl_data_dir/snapshot_filename`, or takes it away. -/
  | setPlainFile (present : Bool)
  /-- `SyncSlave` of a new slave; `frame` is the number of the call of `Save`. -/
  | request (id : ℕ) (slave : SlaveConn) (frame : ℕ) (opened deferred : Bool)
  /-- `SAVE` or `BGSAVE`. -/
  | save (frame : ℕ) (type : SnapshotType) (opened : Bool)
  /-- The file is written, or not, and `g_snapshot_state` tells of it. -/
  | record (frame : ℕ) (ok : Bool)
  /-- `Rename`. -/
  | rename (frame : ℕ) (ok : Bool)
  /-- `FullResyncSlaves` in `Save`, which then returns. -/
  | resync (frame : ℕ) (opened deferred : ℕ → Bool)
  /-- What `CreateSnapshot` does behind `Save`. -/
  | created (frame : ℕ) (opened deferred : ℕ → Bool)
  /-- A file was sent. -/
  | sent (id : ℕ)
  /-- A channel is closed. -/
  | lost (id : ℕ)
  /-- `RenameDefault` of a snapshot that the master sent, and loading begins. -/
  | dumpReceived (type : SnapshotType) (file : SnapshotFile) (renamed : Bool)
  /-- Loading is over. -/
  | dumpLoaded (ok : Bool) (deferred : ℕ → Bool)
  /-- The process is started again. -/
  | restart

section

variable (crc64 : UInt64 → Bytes → UInt64)

/-- `IsValidOffsetCksm`. The offset is an `int64` that is compared with unsigned ones; the callback
of the replay continues the checksum. -/
def isValidOffsetCksm (wal : Swal) (offset cksm : UInt64) : Bool :=
  if 0 < offset.toInt64 ∧ offset ≤ wal.logMeta.logEndOffset ∧ wal.logMeta.logStartOffset ≤ offset then
    if cksm = 0 then true
    else
      (swalReplay wal offset (wal.logMeta.logEndOffset - offset).toInt64).foldl
        (fun c r => crc64 c (r.bytes wal)) cksm = wal.logMeta.cksm
  else false

namespace Instance

/-! ### Saving -/

/-- What `g_snapshot_state` says about a type, as a file. -/
def recordedFile (s : Instance) (type : SnapshotType) : SnapshotFile :=
  ⟨(s.cache type).offset, (s.cache type).cksm⟩

/-- The conditions under which `Save(false)` uses the last snapshot. -/
def UsesLast (replWalSize : UInt64) (s : Instance) (type : SnapshotType) : Prop :=
  isValidOffsetCksm crc64 s.wal (s.cache type).offset 0 = true ∧
  s.wal.logMeta.logEndOffset - (s.cache type).offset ≤ replWalSize / 2 ∧
  isValidOffsetCksm crc64 s.wal (s.cache type).offset (s.cache type).cksm = true ∧
  s.plainFile = true

instance (replWalSize : UInt64) (s : Instance) (type : SnapshotType) :
    Decidable (s.UsesLast crc64 replWalSize type) := inferInstanceAs (Decidable (_ ∧ _))

/-- `Save`, up to the file being opened. -/
def saveStart (replWalSize : UInt64) (s : Instance) (force : Bool) (type : SnapshotType)
    (opened : Bool) : SaveStart :=
  if (s.cache type).saving then .saving
  else if force = false ∧ s.UsesLast crc64 replWalSize type then .useLast
  else if opened then .started
  else .notOpened

def setSaver (s : Instance) (frame : ℕ) (saver : Option Saver) : Instance :=
  { s with savers := Function.update s.savers frame saver }

def setCache (s : Instance) (type : SnapshotType) (cache : CacheState) : Instance :=
  { s with cache := Function.update s.cache type cache }

def setSpoilt (s : Instance) (type : SnapshotType) (spoilt : Bool) : Instance :=
  { s with spoilt := Function.update s.spoilt type spoilt }

def setFile (s : Instance) (type : SnapshotType) (file : SnapshotFile) : Instance :=
  { s with files := Function.update s.files type (some file) }

/-- A call of `Save` with the offset and the checksum it caches. -/
def saver (s : Instance) (type : SnapshotType) (owner : Owner) (phase : SavePhase) : Saver :=
  { type := type, owner := owner, phase := phase
    cacheOffset := s.wal.logMeta.logEndOffset, cacheCksm := s.wal.logMeta.cksm }

/-- The save begins. -/
def beginSave (s : Instance) (frame : ℕ) (type : SnapshotType) (owner : Owner) : Instance :=
  (s.setCache type { s.cache type with saving := true }).setSaver frame
    (some (s.saver type owner .writing))

/-- `CreateSnapshot`, up to where `Save` runs on its own. -/
def createSnapshot (replWalSize : UInt64) (s : Instance) (frame : ℕ) (type : SnapshotType)
    (opened : Bool) : Instance :=
  match s.saveStart crc64 replWalSize false type opened with
  | .saving => s
  | .useLast => s.setSaver frame (some (s.saver type .createSnapshot (.returned true)))
  | .notOpened => s.setSaver frame (some (s.saver type .createSnapshot (.returned false)))
  | .started => s.beginSave frame type .createSnapshot

/-- A save that does not go on: `CreateSnapshot` hears of it, `SAVE` and `BGSAVE` just end. -/
def returnSave (s : Instance) (frame : ℕ) (saver : Saver) (ok : Bool) : Instance :=
  s.setSaver frame (match saver.owner with
    | .createSnapshot => some { saver with phase := .returned ok }
    | .user => none)

/-- The file is written, or not; `g_snapshot_state` gets the offset and the checksum either way. -/
def record (s : Instance) (frame : ℕ) (saver : Saver) (ok : Bool) : Instance :=
  let s := s.setCache saver.type ⟨false, saver.cacheOffset, saver.cacheCksm⟩
  if ok then s.setSaver frame (some { saver with phase := .recorded })
  else (s.setSpoilt saver.type true).returnSave frame saver false

/-- `Rename`. -/
def rename (s : Instance) (frame : ℕ) (saver : Saver) (ok : Bool) : Instance :=
  let s := s.setSaver frame (some { saver with phase := .renamed })
  if ok then (s.setFile saver.type ⟨saver.cacheOffset, saver.cacheCksm⟩).setSpoilt saver.type false
  else s.setSpoilt saver.type true

/-! ### The slaves -/

/-- `Close()` of a slave's channel. -/
def closeConn (deferred : Bool) (slave : SlaveConn) : Option SlaveConn :=
  if deferred then some { slave with closing := true } else none

/-- `SendSnapshotToSlave`. -/
def sendSnapshot (s : Instance) (opened deferred : Bool) (slave : SlaveConn) : Option SlaveConn :=
  let slave := { slave with
    state := .syncingSnapshot
    syncOffset := (s.cache slave.type).offset, syncCksm := (s.cache slave.type).cksm }
  if opened ∧ (s.files slave.type).isSome then some { slave with sendFile := true }
  else closeConn deferred slave

/-- `FullResyncSlaves`. -/
def fullResyncSlaves (s : Instance) (type : SnapshotType) (opened deferred : ℕ → Bool) : Instance :=
  { s with slaves := fun id => (s.slaves id).bind fun slave =>
      if slave.state = .waitingSnapshot ∧ slave.type = type then
        s.sendSnapshot (opened id) (deferred id) slave
      else some slave }

/-- What `CreateSnapshot` does to the slaves that wait when `Save` has failed. -/
def closeWaiting (s : Instance) (deferred : ℕ → Bool) : Instance :=
  { s with slaves := fun id => (s.slaves id).bind fun slave =>
      if slave.state = .waitingSnapshot then closeConn (deferred id) slave else some slave }

/-- `DisconnectAllSlaves`. -/
def disconnectAllSlaves (s : Instance) (deferred : ℕ → Bool) : Instance :=
  { s with slaves := fun id => (s.slaves id).bind (closeConn (deferred id)) }

def setSlave (s : Instance) (id : ℕ) (slave : Option SlaveConn) : Instance :=
  { s with slaves := Function.update s.slaves id slave }

/-- A slave as `AddSlave` puts it into the table. -/
def addedSlave (slave : SlaveConn) : SlaveConn :=
  { slave with state := .start, sendFile := false, closing := false }

/-- `SyncSlave`. -/
def syncSlave (replWalSize : UInt64) (s : Instance) (id : ℕ) (slave : SlaveConn) (frame : ℕ)
    (opened deferred : Bool) : Instance :=
  if s.hasMaster ∧ s.slaveSynced = false then s.setSlave id (closeConn deferred (addedSlave slave))
  else if slave.serverKey = [] then
    s.setSlave id (some { addedSlave slave with state := .syncingSnapshot })
  else if slave.serverKey = s.serverKey ∧
      isValidOffsetCksm crc64 s.wal slave.syncOffset slave.syncCksm = true then
    s.setSlave id (some { addedSlave slave with state := .synced })
  else
    (s.setSlave id (some { addedSlave slave with state := .waitingSnapshot })).createSnapshot
      crc64 replWalSize frame slave.type opened

/-! ### The slave role -/

/-- `RenameDefault` of a snapshot that was received. -/
def dumpReceived (s : Instance) (l : Loading) : Instance :=
  { (if l.renamed then s.setFile l.type l.file else s) with loading := some l }

/-- Loading is over: `UpdateSnapshotOffsetCksm` if it went well. -/
def dumpLoaded (s : Instance) (l : Loading) (ok : Bool) (deferred : ℕ → Bool) : Instance :=
  let s := { s with loading := none }
  if ok then
    ((s.setCache l.type ⟨(s.cache l.type).saving, l.file.offset, l.file.cksm⟩).setSpoilt l.type
      (!l.renamed)).disconnectAllSlaves deferred
  else s.setSpoilt l.type true

/-- `SnapshotCacheState()`; the files stay. -/
def restart (s : Instance) : Instance :=
  { s with
    cache := fun _ => ⟨false, 0, 0⟩, savers := fun _ => none, loading := none
    slaves := fun _ => none, slaveSynced := false, spoilt := fun _ => true }

/-! ### The steps -/

/-- One step; `none` when it is not possible. -/
def step (replWalSize : UInt64) (s : Instance) : Act → Option Instance
  | .log op => (swalStep s.wal op).map fun wal => { s with wal := wal }
  | .setServerKey key => some { s with serverKey := key }
  | .role hasMaster slaveSynced => some { s with hasMaster := hasMaster, slaveSynced := slaveSynced }
  | .setPlainFile present => some { s with plainFile := present }
  | .request id slave frame opened deferred =>
    if s.slaves id = none ∧ s.savers frame = none then
      some (s.syncSlave crc64 replWalSize id slave frame opened deferred)
    else none
  | .save frame type opened =>
    if s.savers frame = none then
      match s.saveStart crc64 replWalSize true type opened with
      | .started => some (s.beginSave frame type .user)
      | _ => some s
    else none
  | .record frame ok => (s.savers frame).bind fun saver =>
      if saver.phase = .writing then some (s.record frame saver ok) else none
  | .rename frame ok => (s.savers frame).bind fun saver =>
      if saver.phase = .recorded then some (s.rename frame saver ok) else none
  | .resync frame opened deferred => (s.savers frame).bind fun saver =>
      if saver.phase = .renamed then
        some ((s.fullResyncSlaves saver.type opened deferred).returnSave frame saver true)
      else none
  | .created frame opened deferred => (s.savers frame).bind fun saver =>
      match saver.phase with
      | .returned true =>
        some ((s.fullResyncSlaves saver.type opened deferred).setSaver frame none)
      | .returned false => some ((s.closeWaiting deferred).setSaver frame none)
      | _ => none
  | .sent id => (s.slaves id).bind fun slave =>
      if slave.sendFile then some (s.setSlave id (some { slave with state := .synced, sendFile := false }))
      else none
  | .lost id => some (s.setSlave id none)
  | .dumpReceived type file renamed =>
    if s.loading = none then some (s.dumpReceived ⟨type, file, renamed⟩) else none
  | .dumpLoaded ok deferred => s.loading.map fun l => s.dumpLoaded l ok deferred
  | .restart => some s.restart

end Instance

end

/-- An instance that has just been started, with what is on disk. -/
def Instance.init (wal : Swal) (serverKey : Bytes) (hasMaster plainFile : Bool)
    (files : SnapshotType → Option SnapshotFile) : Instance :=
  { wal := wal, serverKey := serverKey, hasMaster := hasMaster, slaveSynced := false
    cache := fun _ => ⟨false, 0, 0⟩, files := files, plainFile := plainFile
    savers := fun _ => none, loading := none, slaves := fun _ => none, spoilt := fun _ => true }

end Resync
end Comms
