import Comms.Codec.Encoder
import Comms.Codec.HeapBuffer
import Comms.Command.Reply
import Comms.Lib.Run
import Comms.Repl.SelectDb

/-!
# What a transaction logs

Between `MULTI` and `EXEC` a connection queues copies of the frames it decodes. The words of a
frame are copied; its raw message is a pointer into the buffer the frame was decoded from, and
`EXEC` logs what that pointer shows by then. This module follows one connection of a master over
its socket reads: the buffers, the decode loop, `Call`, the queue, and what `WriteWAL` gets.

* `Conn.step` — one read of the socket, or one round of the decode loop;
* `Conn.call` — `Call`: a command is queued, or its handler runs;
* `Conn.exec` — `Exec`: the queued commands run and are logged;
* `Conn.Spares` — the step leaves the bytes of the queued commands where they are.

What the handlers do to the store is a parameter, `Handlers`.
-/

namespace Comms

/-! ### The server -/

/-- `RedisCommandType`, as far as `Call` looks at it. -/
inductive CommandType
  | multi | exec | discard | quit | auth
  | subscribe | psubscribe | unsubscribe | punsubscribe
  | other
deriving DecidableEq, Repr

/-- `RedisCommandHandlerSetting`, less the handler and the statistics. -/
structure HandlerSetting where
  type : CommandType
  minArity : ℤ
  maxArity : ℤ
deriving DecidableEq, Repr

/-- The arity check of `Call`. -/
def HandlerSetting.validArity (setting : HandlerSetting) (size : ℕ) : Bool :=
  Comms.validArity (setting.minArity, setting.maxArity) size

/-- What a handler leaves behind: the server, `ctx.currentDB`, `ctx.data_change`, and the command
that `*ctx.current_cmd` was replaced by, if it was. -/
structure Handled (σ : Type) where
  server : σ
  currentDB : DBID
  dataChange : Bool
  rewritten : Option Command

/-- The rest of the server and of the connection's context, as seen from `Call` and `Exec`. -/
structure Handlers (σ : Type) where
  /-- `FindRedisCommandHandlerSetting`. -/
  setting : Bytes → Option HandlerSetting
  /-- The handlers but `Multi`, `Discard` and `Exec`; they read the words of a frame only. In `Exec`
  they get a context of their own. -/
  handler : σ → Bool → DBID → Command → Handled σ
  /-- `ctx.authenticated`. -/
  authenticated : σ → Bool
  /-- `ctx.IsSubscribedConn()`. -/
  subscribed : σ → Bool
  /-- `ctx.abort_exec`. -/
  abortExec : σ → Bool
  /-- `UnwatchKeys(ctx)`. -/
  unwatchKeys : σ → σ

/-! ### The connection -/

/-- The two buffers that frames are decoded from: `Channel::m_inputBuffer` and the decoder's
`m_cumulation`. -/
inductive Source
  | input
  | cumulation
deriving DecidableEq, Repr

/-- A frame, with the block of memory its raw message points into. -/
structure QueuedFrame where
  frame : RedisCommandFrame
  source : Source
  generation : ℕ

/-- What `WriteWAL(db, cmd)` hands to the replication thread. Reading memory that has been freed
yields no bytes one could name. -/
structure WalRecord where
  db : DBID
  bytes : Option Bytes
deriving DecidableEq, Repr

/-- Whether the decode loop is running, and on which buffer. -/
inductive Phase
  | idle
  | decoding (source : Source)
deriving DecidableEq, Repr

/-- A connection of a master. `received`, `called` and `changed` are history: the bytes read, the
commands passed to `Call`, and the commands that `WriteWAL` was called for. -/
structure Conn (σ : Type) where
  input : HeapBuffer
  cumulation : HeapBuffer
  phase : Phase
  server : σ
  currentDB : DBID
  /-- `ctx.InTransc()`. -/
  inTransc : Bool
  cachedCmds : List QueuedFrame
  wal : List WalRecord
  received : Bytes
  called : List Command
  changed : List Command

namespace Conn

variable {σ : Type}

/-- A connection that was just accepted. -/
def init (server : σ) : Conn σ :=
  { input := .empty, cumulation := .empty, phase := .idle, server := server, currentDB := 0
    inTransc := false, cachedCmds := [], wal := [], received := [], called := [], changed := [] }

def bufferOf (s : Conn σ) : Source → HeapBuffer
  | .input => s.input
  | .cumulation => s.cumulation

/-- Moving the read index of one of the buffers, which is all that `decode` does to it. -/
def setReadIndex (s : Conn σ) (source : Source) (idx : ℕ) : Conn σ :=
  match source with
  | .input => { s with input := s.input.setReadIndex idx }
  | .cumulation => { s with cumulation := s.cumulation.setReadIndex idx }

/-- The pointer in the raw message of a frame. -/
def viewOf (q : QueuedFrame) : HeapView := ⟨q.generation, q.frame.rawMsg⟩

/-- What the raw message of a frame shows now. -/
def rawBytes (s : Conn σ) (q : QueuedFrame) : Option Bytes :=
  (s.bufferOf q.source).rawBytes (viewOf q)

/-! ### Calling a command -/

/-- The bytes `WriteWAL(db, cmd)` copies: the raw message, or the encoded frame if there is none. -/
def walBytes (s : Conn σ) (q : QueuedFrame) : Option Bytes :=
  if 0 < q.frame.rawMsg.len then s.rawBytes q else some (encode q.frame.command)

/-- `WriteWAL(ctx.currentDB, *ctx.current_cmd)`. -/
def writeWAL (s : Conn σ) (q : QueuedFrame) : Conn σ :=
  { s with
    wal := s.wal ++ [⟨s.currentDB, s.walBytes q⟩]
    changed := s.changed ++ [q.frame.command] }

/-- `*ctx.current_cmd` after the handler: a command that replaces it has no raw message. -/
def currentCmd (q : QueuedFrame) : Option Command → QueuedFrame
  | none => q
  | some c =>
    { q with frame := { RedisCommandFrame.empty with cmd := c.name, args := c.args } }

/-- `DoCall`, and `WriteWAL` if the command changed data; `inExec` tells whose context it is. -/
def doCall (h : Handlers σ) (inExec : Bool) (s : Conn σ) (q : QueuedFrame) : Conn σ :=
  let r := h.handler s.server inExec s.currentDB q.frame.command
  let s := { s with server := r.server, currentDB := r.currentDB }
  if r.dataChange then s.writeWAL (currentCmd q r.rewritten) else s

/-- One round of the loop in `Exec`. -/
def execOne (h : Handlers σ) (s : Conn σ) (q : QueuedFrame) : Conn σ :=
  match h.setting q.frame.cmd with
  | none => s
  | some _ => s.doCall h true q

/-- `UnwatchKeys(ctx); ctx.ClearTransc()`. -/
def clearTransc (h : Handlers σ) (s : Conn σ) : Conn σ :=
  { s with server := h.unwatchKeys s.server, inTransc := false, cachedCmds := [] }

/-- `Exec`. -/
def exec (h : Handlers σ) (s : Conn σ) : Conn σ :=
  if s.inTransc = false then s
  else if h.abortExec s.server then s.clearTransc h
  else (s.cachedCmds.foldl (execOne h) s).clearTransc h

/-- The handler of a command, and `WriteWAL` after it. `Multi`, `Discard` and `Exec` do not set
`data_change` on the context of the connection. -/
def runHandler (h : Handlers σ) (s : Conn σ) (type : CommandType) (q : QueuedFrame) : Conn σ :=
  match type with
  | .multi => if s.inTransc then s else { s with inTransc := true }
  | .discard => if s.inTransc then s.clearTransc h else s
  | .exec => s.exec h
  | _ => s.doCall h false q

/-- The commands a transaction does not queue. -/
def notQueued : CommandType → Bool
  | .multi | .exec | .discard | .quit => true
  | _ => false

/-- The commands a subscribed connection may call. -/
def pubsubOnly : CommandType → Bool
  | .subscribe | .psubscribe | .unsubscribe | .punsubscribe | .quit => true
  | _ => false

/-- `Call`, behind the lookup of the command. -/
def callSetting (h : Handlers σ) (s : Conn σ) (setting : HandlerSetting) (q : QueuedFrame) :
    Conn σ :=
  if h.authenticated s.server = false ∧ setting.type ≠ .auth ∧ setting.type ≠ .quit then s
  else if setting.validArity q.frame.args.length = false then s
  else if s.inTransc then
    if notQueued setting.type then s.runHandler h setting.type q
    else { s with cachedCmds := s.cachedCmds ++ [q] }
  else if h.subscribed s.server ∧ pubsubOnly setting.type = false then s
  else s.runHandler h setting.type q

/-- `Call`. -/
def call (h : Handlers σ) (s : Conn σ) (q : QueuedFrame) : Conn σ :=
  let s := { s with called := s.called ++ [q.frame.command] }
  match h.setting q.frame.cmd with
  | none => s
  | some setting => s.callSetting h setting q

/-! ### Reading and decoding -/

/-- `OnRead` when `readv` delivers `chunk`, and `MessageReceived` of the decoder up to the loop. -/
def receive (s : Conn σ) (chunk : Bytes) : Conn σ :=
  let input := s.input.discardReadedBytes.readFD chunk
  if s.cumulation.Readable then
    { s with
      input := input.drained
      cumulation := s.cumulation.discardReadedBytes.writeFrom input
      phase := .decoding .cumulation
      received := s.received ++ chunk }
  else { s with input := input, phase := .decoding .input, received := s.received ++ chunk }

/-- `MessageReceived` behind the loop: what is left of the input goes to the cumulation buffer. -/
def endDecode (s : Conn σ) : Source → Conn σ
  | .cumulation => { s with phase := .idle }
  | .input =>
    if s.input.Readable then
      { s with
        input := s.input.drained
        cumulation := s.cumulation.writeFrom s.input
        phase := .idle }
    else { s with phase := .idle }

/-- One round of the loop in `CallDecode`. -/
def callDecode (h : Handlers σ) (s : Conn σ) (source : Source) : Option (Conn σ) :=
  if (s.bufferOf source).Readable then
    match decode (s.bufferOf source).buffer with
    | .frame msg b =>
      some ((s.setReadIndex source b.readIdx).call h ⟨msg, source, (s.bufferOf source).generation⟩)
    | .none _ b =>
      -- `oldReadableBytes` is a `uint32`; a protocol error that consumed something: the loop goes on
      if (s.bufferOf source).readableBytes % 2 ^ 32 = b.readableBytes then
        some ((s.setReadIndex source b.readIdx).endDecode source)
      else some (s.setReadIndex source b.readIdx)
    | .fault => none
  else some (s.endDecode source)

end Conn

/-- What happens to a connection: a read of the socket that delivers `chunk`, one round of the
decode loop, or something elsewhere in the server. -/
inductive ConnEvent (σ : Type)
  | read (chunk : Bytes)
  | decode
  | other (change : σ → σ)

namespace Conn

variable {σ : Type}

/-- One step. A read comes when the decode loop is over and delivers no more than `readv` can. -/
def step (h : Handlers σ) (s : Conn σ) : ConnEvent σ → Option (Conn σ)
  | .read chunk =>
    if s.phase = .idle ∧ chunk ≠ [] ∧ chunk.length ≤ s.input.discardReadedBytes.readLimit then
      some (s.receive chunk)
    else none
  | .decode =>
    match s.phase with
    | .idle => none
    | .decoding source => s.callDecode h source
  | .other change => some { s with server := change s.server }

/-! ### When the queue is spared -/

/-- No complete command is left in the input buffer, so that its bytes go to the cumulation
buffer. -/
def LeavesRest (s : Conn σ) : Prop :=
  s.phase = .decoding .input ∧
    match decode s.input.buffer with
    | .none _ _ => True
    | _ => False

instance (s : Conn σ) : Decidable s.LeavesRest := by
  unfold LeavesRest
  have : Decidable (match decode s.input.buffer with | .none _ _ => True | _ => False) := by
    split <;> infer_instance
  infer_instance

/-- The read leaves the bytes of a queued frame where they are. In the input buffer it writes at the
front. The cumulation buffer is written to if a part of a command waits in it; that part is moved
to the front first. -/
def ReadSpares (s : Conn σ) (chunk : Bytes) (q : QueuedFrame) : Prop :=
  match q.source with
  | .input =>
    s.input.DiscardSpares (viewOf q) ∧
      s.input.discardReadedBytes.WriteSpares (viewOf q) chunk.length
  | .cumulation =>
    s.cumulation.Readable →
      s.cumulation.DiscardSpares (viewOf q) ∧
        s.cumulation.discardReadedBytes.WriteSpares (viewOf q) chunk.length

instance (s : Conn σ) (chunk : Bytes) (q : QueuedFrame) : Decidable (s.ReadSpares chunk q) := by
  unfold ReadSpares
  split <;> infer_instance

/-- The rest of the input, if there is one, does not go over the bytes of a queued frame. -/
def RestSpares (s : Conn σ) (q : QueuedFrame) : Prop :=
  q.source = .cumulation → s.LeavesRest →
    s.cumulation.WriteSpares (viewOf q) s.input.readableBytes

instance (s : Conn σ) (q : QueuedFrame) : Decidable (s.RestSpares q) :=
  inferInstanceAs (Decidable (_ → _))

/-- **Sparing the queue.** The step neither overwrites nor frees bytes that a queued command was
decoded from. -/
def Spares (s : Conn σ) : ConnEvent σ → Prop
  | .read chunk => ∀ q ∈ s.cachedCmds, s.ReadSpares chunk q
  | .decode => ∀ q ∈ s.cachedCmds, s.RestSpares q
  | .other _ => True

instance (s : Conn σ) (ev : ConnEvent σ) : Decidable (s.Spares ev) := by
  cases ev <;> unfold Spares <;> infer_instance

/-- With nothing queued every step does. -/
theorem spares_of_empty {s : Conn σ} (h : s.cachedCmds = []) (ev : ConnEvent σ) : s.Spares ev := by
  cases ev <;> simp [Spares, h]

end Conn

end Comms
