import Comms.Lib.Run
import Comms.Repl.SlaveReplay

/-!
# The link to the master and the log

An instance writes its log in both roles: as a slave it appends what arrives from the master, as a
master what its clients have it execute. `ReplayWAL` runs through the log behind the data offset, and
the event loop that it runs after each command goes on appending to the log it is reading.

* `Node` — an instance: its log with the data offset, the link to the master, and the replay that is
  under way;
* `Node.handleRedisCommand` / `Node.replayWAL` / `Node.advance` — what is done with a command, and
  with a replay up to the next run of the event loop;
* `Node.step` — the steps.

The event loop runs only behind a command that was executed, so a replay goes on from there to the
next one in one step. `entries` and `dataIdx` are history: what was logged since the last reset and
whether this instance has executed it, and the entry at the data offset. `again` collects what
`ReplayWAL` has executed a second time.
-/

namespace Comms
namespace Linked

/-- A command of the log; `executed` tells whether this instance has executed it. -/
structure Entry where
  call : Call
  executed : Bool
deriving DecidableEq, Repr

/-- A `swal_replay` that is under way: the runs from the current one on, and how far its bytes are
decoded. -/
structure Replaying where
  runs : List Run
  pos : ℕ
deriving DecidableEq, Repr

/-- The connection to the master: what was read and is not decoded yet. `stale` tells whether
`SLAVEOF` has named another master since. -/
structure Link where
  held : Bytes
  stale : Bool
deriving DecidableEq, Repr

/-- An instance. `master` is what `master_host` and `master_port` say. -/
structure Node where
  repl : Repl
  master : Option (Bytes × UInt32)
  link : Option Link
  cachedOffset : UInt64
  cachedCksm : UInt64
  replaying : Option Replaying
  base : UInt64
  entries : List Entry
  dataIdx : ℕ
  again : List Call

/-- What happens to an instance. -/
inductive Act
  /-- A read of the connection to the master. -/
  | arrive (chunk : Bytes)
  /-- The decoder takes what it holds. -/
  | deliver
  /-- The event loop returns to the replay. -/
  | resume
  /-- The replay in `Routine`. -/
  | routine
  /-- `ConnectMaster` in `Routine`. -/
  | connect
  /-- A reply of the handshake, up to `PSYNC` or the snapshot. -/
  | handshake (state : SlaveState)
  /-- `+CONTINUE`. -/
  | continued
  /-- The last chunk of a snapshot that was announced with this offset and checksum. -/
  | snapshot (offset cksm : UInt64)
  /-- The snapshot is loaded. -/
  | loaded
  /-- `ChannelClosed`. -/
  | drop
  /-- `SLAVEOF`; `none` is `NO ONE`. -/
  | slaveof (master : Option (Bytes × UInt32))
  /-- `WriteWAL` of what this instance has executed for a client, or of a `PING` or `SELECT` of its
  own. -/
  | log (call : Call) (executed : Bool)

namespace Node

/-- What was logged since the last reset. -/
def log (s : Node) : Log := ⟨s.base, s.entries.flatMap fun e => e.call.raw⟩

def state (s : Node) : SlaveState := s.repl.slave.state

def setState (s : Node) (state : SlaveState) : Node :=
  { s with repl := { s.repl with slave := { s.repl.slave with state := state } } }

/-- `WriteWAL`. A command is shorter than 2 GiB. -/
def append (s : Node) (call : Call) (executed : Bool) : Option Node :=
  if h : call.raw.length < 2 ^ 31 then
    (swalStep s.repl.wal (.append ⟨call.raw, h.trans (by decide)⟩)).map fun wal =>
      { s with repl := { s.repl with wal := wal }, entries := s.entries ++ [⟨call, executed⟩] }
  else none

section

variable (crc64 : UInt64 → Bytes → UInt64) (behind : Swal → Run → Bytes)

/-- `Call` and `UpdateDataOffsetCksm`. -/
def execute (s : Node) (call : Call) : Node :=
  { s with
    repl := s.repl.apply crc64 call
    entries := s.entries.modify s.dataIdx fun e => { e with executed := true }
    dataIdx := s.dataIdx + 1 }

/-- The entry at the data offset has been executed. -/
def Behind (s : Node) : Prop := ∃ e, s.entries[s.dataIdx]? = some e ∧ e.executed = true

instance (s : Node) : Decidable s.Behind :=
  match h : s.entries[s.dataIdx]? with
  | none => isFalse fun ⟨e, he, _⟩ => by
    rw [h] at he
    cases he
  | some e => decidable_of_iff (e.executed = true) ⟨fun he => ⟨e, h, he⟩, fun ⟨e', he', hex⟩ => by
    rw [h] at he'
    cases he'
    exact hex⟩

/-- `Call` and `UpdateDataOffsetCksm` in `ReplayWAL`. -/
def replayed (s : Node) (call : Call) : Node :=
  { s.execute crc64 call with again := if s.Behind then s.again ++ [call] else s.again }

def setReplaying (s : Node) (replaying : Option Replaying) : Node :=
  { s with
    repl := { s.repl with slave := { s.repl.slave with replayingWal := replaying.isSome } }
    replaying := replaying }

/-- The memory that the callback for a run decodes. -/
def runBuffer (wal : Swal) (r : Run) (pos : ℕ) : Buffer :=
  (Buffer.wrap (r.bytes wal ++ behind wal r) 0 r.len.toNat).setReadIndex pos

/-- A replay, up to the event loop behind the next command or to its end. -/
def advance (s : Node) : List Run → ℕ → Option Node
  | [], _ => some (s.setReplaying none)
  | r :: rs, pos =>
    if pos < r.len.toNat ∧ s.state = .synced then
      match decode (runBuffer behind s.repl.wal r pos) with
      | .none _ _ => s.advance rs 0
      | .fault => none
      | .frame msg b =>
        some ((s.replayed crc64 ⟨msg.cmd, msg.args, msg.rawMsg.bytes b.mem⟩).setReplaying
          (some ⟨r :: rs, b.readIdx⟩))
    else s.advance rs 0

/-- `ReplayWAL` does not return at once. -/
def Starts (s : Node) : Prop :=
  s.state = .synced ∧ s.repl.replMeta.dataOffset ≠ s.repl.wal.logMeta.logEndOffset ∧
    s.repl.slave.replayingWal = false

instance (s : Node) : Decidable s.Starts := inferInstanceAs (Decidable (_ ∧ _))

/-- `Slave::ReplayWAL()`. -/
def replayWAL (s : Node) : Option Node :=
  if s.Starts then
    s.advance crc64 behind (swalReplay s.repl.wal s.repl.replMeta.dataOffset (-1)) 0
  else some s

/-- `HandleRedisCommand` executes a command of this length that it has appended. -/
def Direct (s : Node) (len : ℕ) : Prop :=
  s.state = .synced ∧
    s.repl.replMeta.dataOffset + len.toUInt64 = s.repl.wal.logMeta.logEndOffset

instance (s : Node) (len : ℕ) : Decidable (s.Direct len) := inferInstanceAs (Decidable (_ ∧ _))

/-- `HandleRedisCommand`. -/
def handleRedisCommand (s : Node) (call : Call) : Option Node :=
  (s.append call false).bind fun s =>
    if s.Direct call.raw.length then some (s.execute crc64 call)
    else s.replayWAL crc64 behind

/-- `Decode` of the command decoder on what is held, and the handler. -/
def deliver (s : Node) (link : Link) : Option Node :=
  match decode (.wrap link.held 0 link.held.length) with
  | .none _ b => some { s with link := some { link with held := b.mem.drop b.readIdx } }
  | .fault => none
  | .frame msg b =>
    { s with link := some { link with held := b.mem.drop b.readIdx } }.handleRedisCommand
      crc64 behind ⟨msg.cmd, msg.args, msg.rawMsg.bytes b.mem⟩

/-- The decoder of the link is the command decoder. -/
def DecodesCommands (s : Node) : Prop := s.state = .synced ∨ s.state = .loadingSnapshot

instance (s : Node) : Decidable s.DecodesCommands := inferInstanceAs (Decidable (_ ∨ _))

/-- `HandleRedisDumpChunk` of the last chunk, up to loading. -/
def snapshot (s : Node) (offset cksm : UInt64) : Node :=
  { s.setState .loadingSnapshot with
    repl := { (s.setState .loadingSnapshot).repl with wal := swalReset s.repl.wal offset cksm }
    cachedOffset := offset, cachedCksm := cksm, base := offset, entries := [], dataIdx := 0 }

/-- What `HandleRedisDumpChunk` does once the snapshot is loaded, up to `ReplayWAL`. -/
def loaded (s : Node) : Node :=
  { s.setState .synced with
    repl := { (s.setState .synced).repl with
      replMeta := { dataCksm := s.cachedCksm, dataOffset := s.cachedOffset } }
    dataIdx := 0 }

/-- `ChannelClosed`. `m_status.Clear()` leaves `replaying_wal`. -/
def drop (s : Node) : Node :=
  { s.setState .invalid with link := none, cachedOffset := 0, cachedCksm := 0 }

/-- `SLAVEOF`. -/
def slaveof (s : Node) (master : Option (Bytes × UInt32)) : Node :=
  { s with
    master := master
    link := s.link.map fun link => { link with stale := link.stale || decide (master ≠ s.master) } }

/-- One step; `none` when it is not possible. While a replay is under way only file events run. -/
def step (s : Node) : Act → Option Node
  | .arrive chunk => s.link.bind fun link =>
      if s.DecodesCommands then some { s with link := some { link with held := link.held ++ chunk } }
      else none
  | .deliver => s.link.bind fun link =>
      if s.DecodesCommands then s.deliver crc64 behind link else none
  | .resume => s.replaying.bind fun r => s.advance crc64 behind r.runs r.pos
  | .routine =>
    if s.master ≠ none ∧ s.replaying = none then s.replayWAL crc64 behind else none
  | .connect =>
    if s.master ≠ none ∧ s.replaying = none ∧ s.link = none then
      some { s.setState .connecting with link := some ⟨[], false⟩ }
    else none
  | .handshake state =>
    if s.link ≠ none ∧ ¬s.DecodesCommands ∧ state ≠ .synced ∧ state ≠ .loadingSnapshot then
      some (s.setState state)
    else none
  | .continued =>
    if s.link ≠ none ∧ s.state = .waitingPsyncReply then some (s.setState .synced) else none
  | .snapshot offset cksm =>
    if s.link ≠ none ∧ s.state = .waitingSnapshot then some (s.snapshot offset cksm) else none
  | .loaded =>
    if s.state = .loadingSnapshot then s.loaded.replayWAL crc64 behind else none
  | .drop => if s.link ≠ none then some s.drop else none
  | .slaveof master => some (s.slaveof master)
  | .log call executed => s.append call executed

end

end Node

end Linked
end Comms
