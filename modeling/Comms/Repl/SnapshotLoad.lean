import Comms.Repl.LinkSteps

/-!
# Loading the snapshot of a full resync

`HandleRedisDumpChunk` of the last chunk, write by write. The server key, the window of the log and
the data offset lie in one page that is shared with a file, and the store in another: a process that
stops between two of the writes is started again with what was written so far.

* `Instance` — an instance: what `Linked.Node` has, the server key, the store and how far
  `HandleRedisDumpChunk` is;
* `resetWrites` — the writes of `swal_reset`; `foldl_resetWrites` puts them together;
* `Instance.write` — the next write of `HandleRedisDumpChunk`;
* `LoadTask` — the thread of `MMKVLoad`, which `~Thread` waits for if it runs;
* `Instance.step` — the steps.

A load is a list of updates of the store. `RedisLoad` works through it without a callback: `Load`
sets `routine_cb` and then calls `Open`, which clears it. `MMKVLoad` has the event loop run while its
thread works.
-/

namespace Comms
namespace Interrupt

variable {Store : Type}

/-- What the instances with one server key serve: a store at some offset, and the commands that are
logged from there on. -/
structure History (Store : Type) where
  base : UInt64
  init : Store
  calls : ℕ → Call

/-- What is around the instance: what `Call` does to the store, the store behind `FlushAll`, and who
has which server key. -/
structure Setting (Store : Type) where
  exec : Store → Call → Store
  empty : Store
  crc64 : UInt64 → Bytes → UInt64
  behind : Swal → Run → Bytes
  masters : Bytes → Option (History Store)
  length_eq : ∀ key h, masters key = some h → key.length = 40

namespace History

variable (h : History Store)

/-- The commands from the `n`-th on. -/
def next (n k : ℕ) : List Call := (List.range k).map fun i => h.calls (n + i)

/-- The offset behind the first `n` commands. -/
def offsetAt (n : ℕ) : UInt64 := h.base + (Linked.callBytes (h.next 0 n)).length.toUInt64

/-- The store behind the first `n` commands. -/
def state (exec : Store → Call → Store) (n : ℕ) : Store := (h.next 0 n).foldl exec h.init

end History

/-- A snapshot file: what kind it is, and the updates that loading it makes. -/
structure Dump (Store : Type) where
  isRedis : Bool
  updates : List (Store → Store)

/-- What is left of a load does this to the store. -/
def applyUpdates (updates : List (Store → Store)) (store : Store) : Store :=
  updates.foldl (fun store update => update store) store

/-- `LoadTask` of `MMKVLoad`. `running` is its `m_state`, `err` what `Restore` has returned: `true` is
`0`. -/
structure LoadTask (Store : Type) where
  rest : List (Store → Store)
  running : Bool
  err : Option Bool

/-- How far `HandleRedisDumpChunk` of the last chunk is. -/
inductive Phase (Store : Type)
  | idle
  /-- The state is set. -/
  | received (dump : Dump Store) (random : Bytes)
  /-- In `ResetWALOffsetCksm`. -/
  | resetting (dump : Dump Store) (rest : List (Swal → Swal))
  /-- In `RedisLoad`. -/
  | redisLoad (rest : List (Store → Store))
  /-- In `MMKVLoad`: in `routine_cb`, or at the test of the loop. -/
  | mmkvLoad (task : LoadTask Store) (polling : Bool)
  /-- `MMKVLoad` returns what the callback has returned; `~Thread` waits. -/
  | joining (task : LoadTask Store)
  /-- `Reload` has returned, with `0` if `ok`. -/
  | returned (ok : Bool)
  /-- `SetServerKey` of the run id is done. -/
  | named
  /-- `data_cksm` is written. -/
  | summed
  /-- `data_offset` is written. -/
  | located

/-- An instance. `called` of its `Linked.Node` are the commands that went to `Call`; `orphan` is a
`LoadTask` that nothing waits for. -/
structure Instance (Store : Type) where
  node : Linked.Node
  serverKey : Bytes
  cachedRunid : Bytes
  clearDb : Bool
  store : Store
  phase : Phase Store
  orphan : Option (LoadTask Store)

/-- What happens to an instance. -/
inductive Act (Store : Type)
  /-- What happens to it apart from a full resync. -/
  | link (a : Linked.Act)
  /-- `ChannelClosed`. -/
  | drop
  /-- What a client does to the store. -/
  | client (update : Store → Store)
  /-- `PSYNC` is sent. -/
  | psync
  /-- `SYNC` is sent to a master that has no `PSYNC`. -/
  | sync
  /-- `+CONTINUE`. -/
  | continued
  /-- `+FULLRESYNC`. -/
  | fullresync (runid : Bytes) (offset cksm : UInt64)
  /-- The last chunk of a snapshot; `random` is what `random_hex_string` is going to return. -/
  | dump (dump : Dump Store) (random : Bytes)
  /-- The next write of `HandleRedisDumpChunk`. -/
  | write
  /-- The next update of the load. -/
  | update
  /-- `RedisLoad` returns. -/
  | loadReturns (ok : Bool)
  /-- The thread of `MMKVLoad` begins to run. -/
  | threadRuns
  /-- `Restore` returns. -/
  | restored (ok : Bool)
  /-- `MMKVLoad` tests `done`. -/
  | poll
  /-- `LoadRDBRoutine` behind its event loop. With `ackFails` the write of the acknowledgement in
  `Routine` closes the connection. -/
  | callback (ackFails : Bool)
  /-- `~Thread` has waited. -/
  | join
  /-- A thread that nothing waits for does something. -/
  | orphaned (update : Store → Store)
  /-- The process stops and is started again. -/
  | restart (malloc : (n : UInt64) → Option (MallocBlock n)) (master : Option (Bytes × UInt32))

/-- `SetServerKey`: at most `SERVER_KEY_SIZE` bytes are copied. -/
def setServerKey (key str : Bytes) : Bytes :=
  str.take 40 ++ key.drop (min str.length 40)

/-- The writes of `swal_reset`. -/
def resetWrites (offset cksm : UInt64) : List (Swal → Swal) :=
  [fun wal => { wal with logMeta := { wal.logMeta with logStartOffset := offset } },
    fun wal => { wal with logMeta := { wal.logMeta with logEndOffset := offset } },
    fun wal => { wal with logMeta := { wal.logMeta with logFilePos := 0 } },
    fun wal => { wal with logMeta := { wal.logMeta with cksm := cksm } },
    fun wal => { wal with
      ringCacheStartOffset := if wal.ringCache.isSome then offset else wal.ringCacheStartOffset },
    fun wal => { wal with
      ringCacheIdx := if wal.ringCache.isSome then 0 else wal.ringCacheIdx },
    fun wal => { wal with fdPos := wal.logMeta.logFilePos }]

theorem foldl_resetWrites (offset cksm : UInt64) (wal : Swal) :
    (resetWrites offset cksm).foldl (fun wal write => write wal) wal = swalReset wal offset cksm :=
  rfl

namespace Instance

def dataOffset (s : Instance Store) : UInt64 := s.node.repl.replMeta.dataOffset

def wal (s : Instance Store) : Swal := s.node.repl.wal

def setState (s : Instance Store) (state : SlaveState) : Instance Store :=
  { s with node := s.node.setState state }

/-- The log after a write of `swal_reset`. What was logged before is history only. -/
def setWal (s : Instance Store) (wal : Swal) : Instance Store :=
  { s with node := { s.node with
      repl := { s.node.repl with wal := wal }
      base := s.node.cachedOffset, entries := [], dataIdx := 0 } }

def setMeta (s : Instance Store) (replMeta : ReplMeta) : Instance Store :=
  { s with node := { s.node with repl := { s.node.repl with replMeta := replMeta } } }

/-- The event loop runs: nothing of `HandleRedisDumpChunk` is under way, or it is in `routine_cb`. -/
def Events (s : Instance Store) : Prop :=
  match s.phase with
  | .idle => True
  | .mmkvLoad _ polling => polling = true
  | _ => False

instance (s : Instance Store) : Decidable s.Events := by
  unfold Events
  split <;> infer_instance

/-- Nothing of `HandleRedisDumpChunk` is under way. -/
def Idle (s : Instance Store) : Prop :=
  match s.phase with
  | .idle => True
  | _ => False

instance (s : Instance Store) : Decidable s.Idle := by
  unfold Idle
  split <;> infer_instance

/-- When this can happen. Timers do not run in `Continue`. -/
def Allows (s : Instance Store) : Linked.Act → Prop
  | .arrive _ | .deliver | .slaveof _ | .log _ _ => s.Events
  | .resume | .routine | .connect => s.Idle
  | .handshake state => s.Idle ∧
      (state = .waitingAuthReply ∨ state = .waitingInfoReply ∨ state = .waitingReplconfReply)
  | .continued | .snapshot _ _ | .loaded | .drop => False

instance (s : Instance Store) (a : Linked.Act) : Decidable (s.Allows a) := by
  cases a <;> unfold Allows <;> infer_instance

/-- The updates of a snapshot begin. -/
def load (dump : Dump Store) : Phase Store :=
  if dump.isRedis then .redisLoad dump.updates else .mmkvLoad ⟨dump.updates, false, none⟩ false

/-- `ChannelClosed`. -/
def drop (s : Instance Store) : Instance Store :=
  { s with node := s.node.drop, cachedRunid := [] }

variable (st : Setting Store)

/-- The commands that the node has passed to `Call` change the store. -/
def follow (s : Instance Store) (node : Linked.Node) : Instance Store :=
  { s with
    node := node
    store := (node.repl.called.drop s.node.repl.called.length).foldl st.exec s.store }

/-- The next write of `HandleRedisDumpChunk`. -/
def write (s : Instance Store) : Option (Instance Store) :=
  match s.phase with
  | .received dump random => some { s with
      serverKey := setServerKey s.serverKey random
      phase := .resetting dump (resetWrites s.node.cachedOffset s.node.cachedCksm) }
  | .resetting dump (write :: rest) =>
      some { s.setWal (write s.wal) with phase := .resetting dump rest }
  | .resetting dump [] => some { s with
      store := if s.clearDb then st.empty else s.store
      phase := load dump }
  | .returned true => some { s with
      serverKey := setServerKey s.serverKey s.cachedRunid
      phase := .named }
  | .returned false => some { s with phase := .idle }
  | .named => some { s.setMeta { s.node.repl.replMeta with dataCksm := s.node.cachedCksm } with
      phase := .summed }
  | .summed => some { s.setMeta { s.node.repl.replMeta with dataOffset := s.node.cachedOffset } with
      phase := .located }
  | .located =>
      ((s.setState .synced).node.replayWAL st.crc64 st.behind).map fun node =>
        { s.follow st node with phase := .idle }
  | _ => none

/-- The next update of the load. -/
def update (s : Instance Store) : Option (Instance Store) :=
  match s.phase with
  | .redisLoad (u :: rest) => some { s with store := u s.store, phase := .redisLoad rest }
  | .mmkvLoad ⟨u :: rest, true, none⟩ polling => some { s with
      store := u s.store, phase := .mmkvLoad ⟨rest, true, none⟩ polling }
  | .joining ⟨u :: rest, true, none⟩ => some { s with
      store := u s.store, phase := .joining ⟨rest, true, none⟩ }
  | _ => none

/-- `MMKVLoad` returns what the callback has returned. -/
def abort (s : Instance Store) (task : LoadTask Store) : Instance Store :=
  if task.running then { s with phase := .joining task }
  else { s with phase := .returned false, orphan := some task }

/-- The process stops and is started again. -/
def restart (s : Instance Store) (malloc : (n : UInt64) → Option (MallocBlock n))
    (master : Option (Bytes × UInt32)) : Option (Instance Store) :=
  match swalOpen (swalClose s.wal) s.wal.options (malloc _) with
  | .error _ => none
  | .ok wal => some { s with
      node := { s.node with
        repl := { s.node.repl with wal := wal, slave := ⟨.invalid, false⟩ }
        master := master, link := none, cachedOffset := 0, cachedCksm := 0, replaying := none }
      cachedRunid := []
      phase := .idle
      orphan := none }

/-- One step; `none` when it is not possible. -/
def step (s : Instance Store) : Act Store → Option (Instance Store)
  | .link a =>
    if s.Allows a then (s.node.step st.crc64 st.behind a).map (s.follow st) else none
  | .drop => if s.Events ∧ s.node.link ≠ none then some s.drop else none
  | .client update => if s.Events then some { s with store := update s.store } else none
  | .psync =>
    if s.Idle ∧ s.node.link ≠ none ∧ s.node.state = .waitingReplconfReply then
      some (s.setState .waitingPsyncReply)
    else none
  | .sync =>
    if s.Idle ∧ s.node.link ≠ none ∧ s.node.state = .waitingReplconfReply then
      some (s.setState .waitingSnapshot)
    else none
  | .continued =>
    if s.Idle ∧ s.node.link ≠ none ∧ s.node.state = .waitingPsyncReply ∧
        (st.masters s.serverKey).isSome then
      some (s.setState .synced)
    else none
  | .fullresync runid offset cksm =>
    if s.Idle ∧ s.node.link ≠ none ∧ s.node.state = .waitingPsyncReply ∧
        (st.masters runid).isSome then
      some { s with
        node := { s.node.setState .waitingSnapshot with cachedOffset := offset, cachedCksm := cksm }
        cachedRunid := runid }
    else none
  | .dump dump random =>
    if s.Idle ∧ s.node.link ≠ none ∧ s.node.state = .waitingSnapshot ∧ random.length = 40 then
      some { s.setState .loadingSnapshot with phase := .received dump random }
    else none
  | .write => s.write st
  | .update => s.update
  | .loadReturns ok =>
    match s.phase with
    | .redisLoad rest =>
      if ok = true → rest.isEmpty then some { s with phase := .returned ok } else none
    | _ => none
  | .threadRuns =>
    match s.phase with
    | .mmkvLoad task polling =>
      some { s with phase := .mmkvLoad { task with running := true } polling }
    | _ => none
  | .restored ok =>
    match s.phase with
    | .mmkvLoad ⟨rest, true, none⟩ polling =>
      if ok = true → rest.isEmpty then
        some { s with phase := .mmkvLoad ⟨rest, true, some ok⟩ polling }
      else none
    | .joining ⟨rest, true, none⟩ => some { s with phase := .joining ⟨rest, true, some ok⟩ }
    | _ => none
  | .poll =>
    match s.phase with
    | .mmkvLoad task false =>
      match task.err with
      | some ok => some { s with phase := .returned ok }
      | none => some { s with phase := .mmkvLoad task true }
    | _ => none
  | .callback ackFails =>
    match s.phase with
    | .mmkvLoad task true =>
      if s.node.state ≠ .loadingSnapshot then some (s.abort task)
      else if ackFails then some { s.drop with phase := .mmkvLoad task false }
      else some { s with phase := .mmkvLoad task false }
    | _ => none
  | .join =>
    match s.phase with
    | .joining task => if task.err.isSome then some { s with phase := .returned false } else none
    | _ => none
  | .orphaned update =>
    if s.orphan.isSome then some { s with store := update s.store } else none
  | .restart malloc master => s.restart malloc master

end Instance

end Interrupt
end Comms
