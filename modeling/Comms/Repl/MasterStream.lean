import Comms.Lib.Run
import Comms.Repl.SwalReplay
import Mathlib.Logic.Function.Basic

/-!
# Streaming the log to the slaves

A master streams its log to every slave that is synced: `Master::SyncWAL()` goes over the slaves,
`Master::ChannelWritable` looks at one, and both call `Master::SyncWAL(slave)`, which hands at most
8192 bytes of the log to `send_wal_toslave`.

* `sendRuns_of_inside` — what the callbacks of one replay write, and how far they move the offset;
* `passStreams_iff` — a pass of `SyncWAL()` streams the next bytes to a lagging slave exactly when
  the slave is not at the start of the window and the limited replay is `ReplaySafe`;
* `StreamOk.step` — what was written so far is the log from the first offset on, kept by every
  step that is `StreamSafe`;
* `wal_streamed` — the run.

The pass skips a slave whose offset is the start of the window, however far behind it is: the test
in front of `SyncWAL(slave)` compares with the wrong end. `log` keeps what has been logged, as a
history variable.
-/

namespace Comms
namespace Streaming

/-- `SyncState` of `master.cpp`. -/
inductive SyncState
  | invalid
  | start
  | waitingSnapshot
  | syncingSnapshot
  | synced
deriving DecidableEq, Repr

/-- The part of `SlaveConn` that the log is streamed with, the options of its channel that the
callback sets, and the bytes of the log that were written to the connection. The offset is signed
in the source and compared with unsigned ones. -/
structure SlaveConn where
  syncOffset : UInt64
  state : SyncState
  autoDisableWriting : Bool
  writing : Bool
  written : List UInt8
deriving DecidableEq, Repr

/-- A master with its slaves, by the id of the channel. A `NULL` entry is `none`. -/
structure Master where
  wal : Swal
  log : Log
  slaves : ℕ → Option SlaveConn

/-- `MAX_SEND_CACHE_SIZE`. -/
def maxSendCacheSize : Int64 := 8192

/-- `send_wal_toslave`, the callback of a replay. The channel accepts what is written to it. -/
def sendWalToSlave (wal : Swal) (slave : SlaveConn) (r : Run) : SlaveConn :=
  { slave with
    written := slave.written ++ r.bytes wal
    syncOffset := slave.syncOffset + r.len
    autoDisableWriting := decide (slave.syncOffset + r.len = wal.logMeta.logEndOffset)
    writing := true }

/-- `Master::SyncWAL(slave)`. A slave outside the window is closed. -/
def syncSlave (wal : Swal) (slave : SlaveConn) : Option SlaveConn :=
  if slave.syncOffset < wal.logMeta.logStartOffset ∨ wal.logMeta.logEndOffset < slave.syncOffset then
    none
  else if slave.syncOffset < wal.logMeta.logEndOffset then
    some ((swalReplay wal slave.syncOffset maxSendCacheSize).foldl (sendWalToSlave wal) slave)
  else some slave

/-- What a pass of `Master::SyncWAL()` does to one slave. -/
def syncPass (wal : Swal) (slave : SlaveConn) : Option SlaveConn :=
  if slave.state = .synced ∧ slave.syncOffset ≠ wal.logMeta.logStartOffset then syncSlave wal slave
  else some slave

/-- What `Master::ChannelWritable` does to its slave. -/
def syncWritable (wal : Swal) (slave : SlaveConn) : Option SlaveConn :=
  if slave.state = .synced then syncSlave wal slave else some slave

/-- The steps of a master. -/
inductive MasterAct
  /-- A record is logged. -/
  | append (log : Obj)
  /-- `Master::SyncWAL()`. -/
  | syncWAL
  /-- `Master::ChannelWritable` of this channel. -/
  | channelWritable (id : ℕ)
  /-- The connection is accepted, closed, or comes to another state. -/
  | connection (id : ℕ) (slave : Option SlaveConn)

namespace Master

/-- `Master::SyncWAL()`. Unmapping the log file when nobody lags has no effect on what is read. -/
def syncWAL (m : Master) : Master :=
  { m with slaves := fun id => (m.slaves id).bind (syncPass m.wal) }

/-- One step; `none` when it is not possible. -/
def step (m : Master) : MasterAct → Option Master
  | .append log => (swalStep m.wal (.append log)).map fun wal =>
      { m with wal := wal, log := m.log.append log.bytes }
  | .syncWAL => some m.syncWAL
  | .channelWritable id => some { m with
      slaves := Function.update m.slaves id ((m.slaves id).bind (syncWritable m.wal)) }
  | .connection id slave => some { m with slaves := Function.update m.slaves id slave }

end Master

/-! ### One replay -/

/-- The callbacks of a replay. -/
def sendRuns (wal : Swal) (slave : SlaveConn) (runs : List Run) : SlaveConn :=
  runs.foldl (sendWalToSlave wal) slave

@[simp] theorem sendRuns_cons (wal : Swal) (slave : SlaveConn) (r : Run) (runs : List Run) :
    sendRuns wal slave (r :: runs) = sendRuns wal (sendWalToSlave wal slave r) runs := rfl

theorem sendRuns_state (wal : Swal) (slave : SlaveConn) (runs : List Run) :
    (sendRuns wal slave runs).state = slave.state := by
  induction runs generalizing slave with
  | nil => rfl
  | cons r runs ih =>
    rw [sendRuns_cons, ih]
    rfl

theorem sendRuns_written (wal : Swal) (slave : SlaveConn) (runs : List Run) :
    (sendRuns wal slave runs).written = slave.written ++ runs.flatMap (Run.bytes wal) := by
  induction runs generalizing slave with
  | nil => exact (List.append_nil _).symm
  | cons r runs ih =>
    rw [sendRuns_cons, ih, List.flatMap_cons, ← List.append_assoc]
    rfl

/-- Runs that lie in their regions move the offset by what they carry. -/
theorem sendRuns_of_inside {wal : Swal} {runs : List Run} (h : ∀ r ∈ runs, r.Inside wal)
    (slave : SlaveConn) :
    (sendRuns wal slave runs).syncOffset
      = slave.syncOffset + (runs.flatMap (Run.bytes wal)).length.toUInt64 := by
  induction runs generalizing slave with
  | nil => exact (UInt64.add_zero _).symm
  | cons r runs ih =>
    have hr : (r.bytes wal).length = r.len.toNat := Circular.slice_length (h r List.mem_cons_self)
    rw [sendRuns_cons, ih fun r' hr' => h r' (List.mem_cons_of_mem r hr'), List.flatMap_cons,
      List.length_append, toUInt64_add, hr, ← UInt64.add_assoc]
    simp [sendWalToSlave, Nat.toUInt64]

/-! ### One slave -/

section Slave

variable {m : Master} {slave : SlaveConn}

/-- How many bytes the next message of a slave should have. -/
def nextLength (wal : Swal) (slave : SlaveConn) : ℕ :=
  min 8192 (wal.logMeta.logEndOffset - slave.syncOffset).toNat

/-- The slave is given the next bytes of the log. -/
def StreamsNext (m : Master) (slave slave' : SlaveConn) : Prop :=
  slave'.written = slave.written ++ (m.log.since slave.syncOffset).take (nextLength m.wal slave) ∧
    slave'.syncOffset = slave.syncOffset + (nextLength m.wal slave).toUInt64 ∧
    slave'.state = slave.state

/-- The limit asks for the next message. -/
theorem asked_nextLength (h : Faithful m.wal m.log) (slave : SlaveConn) :
    m.log.asked slave.syncOffset maxSendCacheSize = nextLength m.wal slave := by
  have hlim : (0 : Int64) < maxSendCacheSize := by decide
  have hint : maxSendCacheSize.toInt.toNat = 8192 := by decide
  unfold Log.asked nextLength
  rw [h.file.end_eq]
  dsimp only
  rw [if_pos hlim, hint]

/-- **One call of `SyncWAL(slave)`** for a slave that lags inside the window: it streams the next
bytes if and only if the limited replay comes out right. -/
theorem syncSlave_streams_iff (h : Faithful m.wal m.log) (hin : InWindow m.wal slave.syncOffset)
    (hlag : slave.syncOffset < m.wal.logMeta.logEndOffset) :
    (∃ slave', syncSlave m.wal slave = some slave' ∧ StreamsNext m slave slave') ↔
      ReplaySafe m.wal m.log slave.syncOffset maxSendCacheSize := by
  have hcall : syncSlave m.wal slave
      = some (sendRuns m.wal slave (swalReplay m.wal slave.syncOffset maxSendCacheSize)) := by
    unfold syncSlave
    rw [if_neg (not_or.mpr ⟨UInt64.not_lt.mpr hin.1, UInt64.not_lt.mpr hin.2⟩), if_pos hlag]
    rfl
  rw [hcall, ← h.replayCorrect_iff hin.1 hin.2]
  have hasked := asked_nextLength h slave
  obtain ⟨hlen, -⟩ := window_sub h.file hin.1 hin.2
  rw [← h.file.end_eq] at hlen
  have hnext : ((m.log.since slave.syncOffset).take (nextLength m.wal slave)).length
      = nextLength m.wal slave := by
    rw [List.length_take, Log.since, List.length_drop, ← h.file.end_eq]
    unfold nextLength
    omega
  constructor
  · rintro ⟨slave', heq, hwritten, -⟩
    obtain rfl := Option.some.inj heq
    rw [sendRuns_written, List.append_cancel_left_eq, ← hasked] at hwritten
    exact h.replayCorrect_of_bytes hin.1 hin.2 hwritten
  · rintro ⟨hinside, hbytes⟩
    rw [hasked] at hbytes
    refine ⟨_, rfl, ?_, ?_, sendRuns_state _ _ _⟩
    · rw [sendRuns_written, hbytes]
    · rw [sendRuns_of_inside hinside, hbytes, hnext]

/-- A slave that has everything is left alone. -/
theorem syncSlave_idle (hin : InWindow m.wal slave.syncOffset)
    (hlag : ¬ slave.syncOffset < m.wal.logMeta.logEndOffset) :
    syncSlave m.wal slave = some slave := by
  unfold syncSlave
  rw [if_neg (not_or.mpr ⟨UInt64.not_lt.mpr hin.1, UInt64.not_lt.mpr hin.2⟩), if_neg hlag]

/-- The pass of `SyncWAL()` streams the next bytes to this slave. -/
def PassStreams (m : Master) (id : ℕ) (slave : SlaveConn) : Prop :=
  ∃ slave', m.syncWAL.slaves id = some slave' ∧ StreamsNext m slave slave'

/-- A pass reaches a lagging slave that is not at the start of the window, and the replay it makes
comes out right. -/
def PassSafe (m : Master) (slave : SlaveConn) : Prop :=
  slave.syncOffset ≠ m.wal.logMeta.logStartOffset ∧
    ReplaySafe m.wal m.log slave.syncOffset maxSendCacheSize

/-- **One pass of `SyncWAL()`**, for a slave that lags inside the window. -/
theorem passStreams_iff (h : Faithful m.wal m.log) {id : ℕ} (hslave : m.slaves id = some slave)
    (hsynced : slave.state = .synced) (hin : InWindow m.wal slave.syncOffset)
    (hlag : slave.syncOffset < m.wal.logMeta.logEndOffset) :
    PassStreams m id slave ↔ PassSafe m slave := by
  have hpass : m.syncWAL.slaves id = syncPass m.wal slave := by
    change (m.slaves id).bind _ = _
    rw [hslave]
    rfl
  unfold PassStreams PassSafe
  rw [hpass]
  unfold syncPass
  by_cases hstart : slave.syncOffset = m.wal.logMeta.logStartOffset
  · -- the slave is skipped, although there are bytes for it
    rw [if_neg (fun hc => hc.2 hstart)]
    refine ⟨?_, fun hc => absurd hstart hc.1⟩
    rintro ⟨slave', heq, -, hoff, -⟩
    obtain rfl := Option.some.inj heq
    have hle := hin.2
    rw [UInt64.lt_iff_toNat_lt] at hlag
    have hpos : 0 < nextLength m.wal slave := by
      unfold nextLength
      rw [toNat_sub_of_le (UInt64.le_iff_toNat_le.mp hle)]
      omega
    have hsmall : nextLength m.wal slave ≤ 8192 := Nat.min_le_left _ _
    have hzero : (nextLength m.wal slave).toUInt64 = 0 := by
      have hcancel : slave.syncOffset + 0 = slave.syncOffset + (nextLength m.wal slave).toUInt64 := by
        rw [UInt64.add_zero]
        exact hoff
      exact ((UInt64.add_right_inj _).mp hcancel).symm
    have hnat := congrArg UInt64.toNat hzero
    simp only [Nat.toUInt64, UInt64.toNat_ofNat'] at hnat
    rw [Nat.mod_eq_of_lt (by omega)] at hnat
    change nextLength m.wal slave = 0 at hnat
    omega
  · rw [if_pos ⟨hsynced, hstart⟩, syncSlave_streams_iff h hin hlag]
    exact ⟨fun hsafe => ⟨hstart, hsafe⟩, fun hc => hc.2⟩

end Slave

/-! ### A run -/

/-- The connection was written the bytes of the log from the `i`-th one up to its offset. -/
structure Streamed (l : Log) (i : ℕ) (slave : SlaveConn) : Prop where
  le : i + slave.written.length ≤ l.bytes.length
  offset : slave.syncOffset = l.offsetAt (i + slave.written.length)
  bytes : slave.written = Circular.slice l.bytes i slave.written.length

/-- The steps on which the streaming of this connection comes out right: an append leaves the slave
in the window; a pass reaches it when it lags, with a right replay; the connection is not replaced
by another one. -/
def StreamSafe (id : ℕ) (m : Master) : MasterAct → Prop
  | .append log => ∀ slave wal, m.slaves id = some slave →
      swalStep m.wal (.append log) = some wal → InWindow wal slave.syncOffset
  | .syncWAL => ∀ slave, m.slaves id = some slave →
      slave.syncOffset < m.wal.logMeta.logEndOffset → PassSafe m slave
  | .channelWritable id' => id' = id → ∀ slave, m.slaves id = some slave →
      slave.syncOffset < m.wal.logMeta.logEndOffset →
      ReplaySafe m.wal m.log slave.syncOffset maxSendCacheSize
  | .connection id' _ => id' ≠ id

/-- The invariant of a synced connection. -/
structure StreamOk (id i : ℕ) (m : Master) : Prop where
  faithful : Faithful m.wal m.log
  slave : ∃ slave, m.slaves id = some slave ∧ slave.state = .synced ∧
    InWindow m.wal slave.syncOffset ∧ Streamed m.log i slave ∧
    m.log.bytes.length - (i + slave.written.length) ≤ m.wal.options.maxFileSize.toNat

section Run

variable {id i : ℕ} {m m' : Master} {slave slave' : SlaveConn}

/-- The next bytes of the log continue what was written. -/
theorem Streamed.next (h : Streamed m.log i slave) (hf : Faithful m.wal m.log)
    (hfar : m.log.bytes.length - (i + slave.written.length) < 2 ^ 64)
    (hnext : StreamsNext m slave slave') :
    Streamed m.log i slave' ∧
      slave'.written.length = slave.written.length + nextLength m.wal slave ∧
      i + slave'.written.length ≤ m.log.bytes.length := by
  obtain ⟨hwritten, hoffset, -⟩ := hnext
  have hdist := m.log.endOffset_sub h.le hfar
  rw [← h.offset] at hdist
  have hn : nextLength m.wal slave ≤ m.log.bytes.length - (i + slave.written.length) := by
    unfold nextLength
    rw [hf.file.end_eq, hdist]
    exact Nat.min_le_right _ _
  have hle := h.le
  have hsince : m.log.since slave.syncOffset = m.log.bytes.drop (i + slave.written.length) := by
    rw [h.offset, m.log.since_offsetAt h.le hfar]
  have hlen : slave'.written.length = slave.written.length + nextLength m.wal slave := by
    rw [hwritten, hsince, List.length_append, List.length_take, List.length_drop]
    omega
  refine ⟨⟨by omega, ?_, ?_⟩, hlen, by omega⟩
  · rw [hoffset, h.offset, hlen, Log.offsetAt, Log.offsetAt, ← Nat.add_assoc, toUInt64_add (i + _),
      UInt64.add_assoc]
  · calc slave'.written
        = Circular.slice m.log.bytes i slave.written.length
          ++ Circular.slice m.log.bytes (i + slave.written.length) (nextLength m.wal slave) := by
          rw [hwritten, hsince, ← h.bytes]
          rfl
      _ = Circular.slice m.log.bytes i slave'.written.length := by
          rw [hlen, ← Circular.slice_append]

/-- A longer log still starts with what was written. -/
theorem Streamed.append (h : Streamed m.log i slave) (p : List UInt8) :
    Streamed (m.log.append p) i slave where
  le := by
    rw [Log.append_bytes, List.length_append]
    exact h.le.trans (Nat.le_add_right _ _)
  offset := h.offset
  bytes := by
    rw [Log.append_bytes, Circular.slice_append_left h.le]
    exact h.bytes

/-- Streaming the next bytes keeps the slave in the window. -/
theorem StreamsNext.inWindow (h : StreamsNext m slave slave') (hin : InWindow m.wal slave.syncOffset) :
    InWindow m.wal slave'.syncOffset := by
  obtain ⟨-, hoffset, -⟩ := h
  obtain ⟨hlo, hhi⟩ := hin
  have hn : nextLength m.wal slave ≤ (m.wal.logMeta.logEndOffset - slave.syncOffset).toNat :=
    Nat.min_le_right _ _
  rw [toNat_sub_of_le (UInt64.le_iff_toNat_le.mp hhi)] at hn
  rw [UInt64.le_iff_toNat_le] at hlo hhi
  have hend := m.wal.logMeta.logEndOffset.toNat_lt
  have hnat : (nextLength m.wal slave).toUInt64.toNat = nextLength m.wal slave := by
    simp only [Nat.toUInt64, UInt64.toNat_ofNat']
    exact Nat.mod_eq_of_lt (by omega)
  have hadd : slave'.syncOffset.toNat = slave.syncOffset.toNat + nextLength m.wal slave := by
    rw [hoffset, toNat_add_of_lt (by omega), hnat]
  exact ⟨UInt64.le_iff_toNat_le.mpr (by omega), UInt64.le_iff_toNat_le.mpr (by omega)⟩

/-- **Serving the slave.** A step that leaves the log as it is, and the connection too or streams it
the next bytes. -/
theorem StreamOk.serve (h : StreamOk id i m) (hwal : m'.wal = m.wal) (hlog : m'.log = m.log)
    (hserve : ∀ slave, m.slaves id = some slave → ∃ slave', m'.slaves id = some slave' ∧
      (slave' = slave ∨ StreamsNext m slave slave')) : StreamOk id i m' := by
  obtain ⟨slave, hslave, hsynced, hin, hstr, hdist⟩ := h.slave
  have h63 := h.faithful.file.size_lt
  obtain ⟨slave', hslave', hnext⟩ := hserve slave hslave
  refine ⟨by rw [hwal, hlog]; exact h.faithful, slave', hslave', ?_⟩
  rw [hwal, hlog]
  rcases hnext with rfl | hnext
  · exact ⟨hsynced, hin, hstr, hdist⟩
  · obtain ⟨hstr', hlen, hle⟩ := hstr.next h.faithful (by omega) hnext
    exact ⟨hnext.2.2.trans hsynced, hnext.inWindow hin, hstr', by omega⟩

/-- **Appending.** The slave stays in the window, so it is not further behind than the file is
long. -/
theorem StreamOk.append (h : StreamOk id i m) {log : Obj} {wal : Swal}
    (hwal : swalStep m.wal (.append log) = some wal)
    (hsafe : ∀ slave, m.slaves id = some slave → InWindow wal slave.syncOffset) :
    StreamOk id i { m with wal := wal, log := m.log.append log.bytes } := by
  obtain ⟨slave, hslave, hsynced, hin, hstr, hdist⟩ := h.slave
  obtain ⟨wal', hwal', hfaith, hopt⟩ := h.faithful.step (.append log)
  obtain rfl : wal' = wal := Option.some.inj (hwal'.symm.trans hwal)
  have hwin := hsafe slave hslave
  have hlog := log.small
  have h63 := h.faithful.file.size_lt
  have hstr' := hstr.append log.bytes
  have hlen : (m.log.append log.bytes).bytes.length = m.log.bytes.length + log.bytes.length :=
    List.length_append
  -- the distance does not wrap, so the window bounds it
  have hsub := (m.log.append log.bytes).endOffset_sub hstr'.le (by omega)
  rw [← hstr'.offset] at hsub
  obtain ⟨-, hmax⟩ := window_sub hfaith.file hwin.1 hwin.2
  change ((m.log.append log.bytes).endOffset - _).toNat ≤ _ at hmax
  refine ⟨hfaith, slave, hslave, hsynced, hwin, hstr', ?_⟩
  change (m.log.append log.bytes).bytes.length - _ ≤ wal'.options.maxFileSize.toNat
  omega

/-- **Step.** -/
theorem StreamOk.step {a : MasterAct} (h : StreamOk id i m) (hsafe : StreamSafe id m a)
    (hstep : m.step a = some m') : StreamOk id i m' := by
  cases a with
  | append log =>
    obtain ⟨wal, hwal, rfl⟩ := Option.map_eq_some_iff.mp hstep
    exact h.append hwal fun slave hslave => hsafe slave wal hslave hwal
  | syncWAL =>
    obtain rfl := Option.some.inj hstep
    refine h.serve rfl rfl fun slave hslave => ?_
    obtain ⟨slave₀, hslave₀, hsynced, hin, -⟩ := h.slave
    obtain rfl := Option.some.inj (hslave.symm.trans hslave₀)
    by_cases hlag : slave.syncOffset < m.wal.logMeta.logEndOffset
    · obtain ⟨slave', hslave', hnext⟩ :=
        (passStreams_iff h.faithful hslave hsynced hin hlag).mpr (hsafe slave hslave hlag)
      exact ⟨slave', hslave', .inr hnext⟩
    · -- the slave has everything: reached by the pass or not, it is left alone
      have hpass : syncPass m.wal slave = some slave := by
        unfold syncPass
        split
        · exact syncSlave_idle hin hlag
        · rfl
      refine ⟨slave, ?_, .inl rfl⟩
      change (m.slaves id).bind _ = _
      rw [hslave]
      exact hpass
  | channelWritable id' =>
    obtain rfl := Option.some.inj hstep
    refine h.serve rfl rfl fun slave hslave => ?_
    obtain ⟨slave₀, hslave₀, hsynced, hin, -⟩ := h.slave
    obtain rfl := Option.some.inj (hslave.symm.trans hslave₀)
    by_cases hid : id' = id
    · subst hid
      have hself : Function.update m.slaves id' ((m.slaves id').bind (syncWritable m.wal)) id'
          = syncSlave m.wal slave := by
        rw [Function.update_self, hslave]
        exact if_pos hsynced
      by_cases hlag : slave.syncOffset < m.wal.logMeta.logEndOffset
      · obtain ⟨slave', hslave', hnext⟩ :=
          (syncSlave_streams_iff h.faithful hin hlag).mpr (hsafe rfl slave hslave hlag)
        exact ⟨slave', hself.trans hslave', .inr hnext⟩
      · exact ⟨slave, hself.trans (syncSlave_idle hin hlag), .inl rfl⟩
    · refine ⟨slave, ?_, .inl rfl⟩
      change Function.update m.slaves id' _ id = _
      rw [Function.update_of_ne (Ne.symm hid), hslave]
  | connection id' slave' =>
    obtain rfl := Option.some.inj hstep
    refine h.serve rfl rfl fun slave hslave => ⟨slave, ?_, .inl rfl⟩
    change Function.update m.slaves id' _ id = _
    rw [Function.update_of_ne (Ne.symm hsafe), hslave]

end Run

/-- Every pass of `SyncWAL()` streams the next bytes to the slave, if it lags. -/
def EachPassStreams (id : ℕ) (m : Master) : MasterAct → Prop
  | .syncWAL => ∀ slave, m.slaves id = some slave →
      m.wal.logMeta.logStartOffset ≤ slave.syncOffset →
      slave.syncOffset < m.wal.logMeta.logEndOffset → PassStreams m id slave
  | _ => True

/-- **Streaming the log.** A master has logged any history since a fresh open, and a connection has
reached `SYNCED` with an offset of the window, that of the `i`-th byte. In every run of appends,
passes and writable events whose steps are `StreamSafe` for it, it is still synced at the end and
was written exactly the log from the `i`-th byte up to its offset; every pass made on the way
streamed it the next bytes, if it lagged; and at the end a pass streams it the next bytes if and
only if it is `PassSafe`. -/
theorem wal_streamed {options : SwalOptions} (h0 : 0 < options.maxFileSize)
    {malloc : Option (MallocBlock options.ringCacheSize)} {wal₀ : Swal}
    (hopen : swalOpen .fresh options malloc = .ok wal₀) (ops : List SwalOp) {m : Master}
    (hwal : swalRun wal₀ ops = some m.wal) (hlog : m.log = (Log.reset 0).run ops) {id i : ℕ}
    {slave : SlaveConn} (hslave : m.slaves id = some slave) (hsynced : slave.state = .synced)
    (hnew : slave.written = []) (hin : InWindow m.wal slave.syncOffset)
    (hi : i = m.log.bytes.length - (m.log.endOffset - slave.syncOffset).toNat)
    {acts : List MasterAct} (hsafe : Run.Along Master.step (StreamSafe id) m acts) {m' : Master}
    (hrun : Run.steps Master.step m acts = some m') :
    Run.Along Master.step (EachPassStreams id) m acts ∧
      ∃ slave', m'.slaves id = some slave' ∧ slave'.state = .synced ∧
        m.log.offsetAt i = slave.syncOffset ∧ Streamed m'.log i slave' ∧
        (m'.wal.logMeta.logStartOffset ≤ slave'.syncOffset →
          slave'.syncOffset < m'.wal.logMeta.logEndOffset →
          (PassStreams m' id slave' ↔ PassSafe m' slave')) := by
  have h0' : 0 < options.maxFileSize.toNat := by simpa [UInt64.lt_iff_toNat_lt] using h0
  obtain ⟨wal, hwal', hfaith, -⟩ := (Faithful.fresh h0' hopen).run ops
  obtain rfl : wal = m.wal := Option.some.inj (hwal'.symm.trans hwal)
  rw [← hlog] at hfaith
  obtain ⟨hlen, hmax⟩ := window_sub hfaith.file hin.1 hin.2
  have h63 := hfaith.file.size_lt
  -- the first byte is that of the offset the connection starts with
  have hoffset : slave.syncOffset = m.log.offsetAt i := by
    have hsub := m.log.endOffset_sub (i := i) (by omega) (by omega)
    have heq : m.log.endOffset - m.log.offsetAt i = m.log.endOffset - slave.syncOffset :=
      UInt64.toNat_inj.mp (by omega)
    grind
  have hstart : StreamOk id i m := by
    refine ⟨hfaith, slave, hslave, hsynced, hin, ⟨?_, ?_, ?_⟩, ?_⟩
    · rw [hnew]
      simp only [List.length_nil]
      omega
    · rw [hnew]
      exact hoffset
    · simp [hnew, Circular.slice]
    · rw [hnew]
      simp only [List.length_nil]
      omega
  have hstep : ∀ s a s', StreamOk id i s → StreamSafe id s a → Master.step s a = some s' →
      StreamOk id i s' := fun s a s' hs ha hs' => hs.step ha hs'
  refine ⟨Run.along_of_invariant hstep (fun s a hs ha => ?_) hstart hsafe, ?_⟩
  · cases a with
    | syncWAL =>
      intro slave hslave hlo hlag
      obtain ⟨slave₀, hslave₀, hsynced, hin, -⟩ := hs.slave
      obtain rfl := Option.some.inj (hslave.symm.trans hslave₀)
      exact (passStreams_iff hs.faithful hslave hsynced hin hlag).mpr (ha slave hslave hlag)
    | _ => trivial
  · have hend := Run.invariant hstep hstart hsafe hrun
    obtain ⟨slave', hslave', hsynced', hin', hstr, -⟩ := hend.slave
    exact ⟨slave', hslave', hsynced', hoffset.symm, hstr, fun _ hlag =>
      passStreams_iff hend.faithful hslave' hsynced' hin' hlag⟩

/-! ### A slave at the start of the window -/

/-- A file of eight bytes, no ring. -/
def streamOptions : SwalOptions :=
  { maxFileSize := 8, ringCacheSize := 0, cksmFunc := none }

/-- The fresh log with these options. -/
def streamWal : Swal :=
  { options := streamOptions, logMeta := SwalDir.fresh.logMeta, file := List.replicate 8 0, fdPos := 0
    ringCache := none, ringCacheStartOffset := 0, ringCacheIdx := 0 }

/-- A slave that is synced at offset `0`. -/
def newSlave : SlaveConn :=
  { syncOffset := 0, state := .synced, autoDisableWriting := false, writing := false, written := [] }

/-- A fresh master with that slave. -/
def streamMaster : Master :=
  { wal := streamWal, log := Log.reset 0, slaves := fun id => if id = 1 then some newSlave else none }

/-- Six bytes are logged and the window is `[0, 6]`. Passes of `SyncWAL()` write nothing to the slave
at offset `0`, which lacks six bytes. -/
theorem syncWAL_skips :
    ∃ m, swalOpen .fresh streamOptions none = .ok streamWal ∧
      Run.steps Master.step streamMaster [.append sixBytes] = some m ∧
      m.slaves 1 = some newSlave ∧ m.wal.logMeta.logStartOffset ≤ newSlave.syncOffset ∧
      newSlave.syncOffset < m.wal.logMeta.logEndOffset ∧ nextLength m.wal newSlave = 6 ∧
      m.syncWAL.slaves 1 = some newSlave ∧ ¬ PassStreams m 1 newSlave := by
  refine ⟨_, rfl, rfl, rfl, by decide, by decide, by decide, by decide, ?_⟩
  rintro ⟨slave', heq, hwritten, -⟩
  obtain rfl := Option.some.inj heq
  revert hwritten
  decide

/-- The slave is served when its channel is writable, and then a pass finds it in the window. -/
def streamActs : List MasterAct :=
  [.append sixBytes, .channelWritable 1, .append ⟨[103], by decide⟩, .syncWAL]

theorem wal_streamed_six :
    ∃ m, Run.steps Master.step streamMaster streamActs = some m ∧
      Run.Along Master.step (EachPassStreams 1) streamMaster streamActs ∧
      ∃ slave', m.slaves 1 = some slave' ∧ slave'.state = .synced ∧
        streamMaster.log.offsetAt 0 = newSlave.syncOffset ∧ Streamed m.log 0 slave' ∧
        (m.wal.logMeta.logStartOffset ≤ slave'.syncOffset →
          slave'.syncOffset < m.wal.logMeta.logEndOffset →
          (PassStreams m 1 slave' ↔ PassSafe m slave')) := by
  refine ⟨_, rfl, @wal_streamed streamOptions (by decide) none streamWal rfl [] streamMaster rfl rfl
    1 0 newSlave rfl rfl rfl (by decide) (by decide) streamActs ?_ _ rfl⟩
  refine ⟨fun slave wal hs hw => ?_, fun m₁ h₁ => ⟨fun _ slave hs _ => ?_, fun m₂ h₂ =>
    ⟨fun slave wal hs hw => ?_, fun m₃ h₃ => ⟨fun slave hs _ => ?_, fun m₄ h₄ => trivial⟩⟩⟩⟩
  · obtain rfl := Option.some.inj hs
    obtain rfl := Option.some.inj hw
    decide
  · obtain rfl := Option.some.inj h₁
    obtain rfl := Option.some.inj hs
    exact .inr (.inl (by decide))
  · obtain rfl := Option.some.inj h₁
    obtain rfl := Option.some.inj h₂
    obtain rfl := Option.some.inj hs
    obtain rfl := Option.some.inj hw
    decide
  · obtain rfl := Option.some.inj h₁
    obtain rfl := Option.some.inj h₂
    obtain rfl := Option.some.inj h₃
    obtain rfl := Option.some.inj hs
    exact ⟨by decide, .inr (.inl (by decide))⟩

end Streaming
end Comms
