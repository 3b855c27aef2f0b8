import Comms.Client.PubSub
import Comms.Lib.Locks

/-!
# Locks

What a thread of the server does with the locks that guard contexts and scripts, as blocks of
`Comms.Lib.Locks`. A thread runs an event loop. Its contexts are its own; what it reads of the others, of
the store and of the interpreter, comes with the command: whether `EXEC` is aborted, which commands have
been queued, what a script turns out to call, whether its function is there.

A reply that finds the socket dead closes the channel at once, and `ChannelClosed` frees the context. The
event loop is entered from the count hook of a script, and from `SAVE` and `IMPORT`.

* `Cmd`, `ScriptStep`, `Event` — commands, what scripts do, what the event loop finds;
* `LoopThread` — contexts, the blocks there have been, and what the thread is in;
* `LoopThread.runCmd`, `LoopThread.runSteps`, `LoopThread.runEvents` — from the source;
* `Incident` — what is noted on the way.

A block that a thread could not enter is there all the same: what would come behind it is, too.
-/

namespace Comms
namespace LockOrder

open Locks (Mode Section)

/-! ### Locks -/

inductive Lock
  /-- `m_pubsub_ctx_lock`. -/
  | pubsubCtx
  /-- `m_scripts_lock`. -/
  | scripts
  /-- `g_lua_mutex`. -/
  | lua
  /-- `g_transc_mutex`. -/
  | transc
  /-- `m_block_ctx_lock`. -/
  | blockCtx
  /-- `m_watched_keys_lock`. -/
  | watchedKeys
  /-- `m_clients_lock`. -/
  | clients
deriving DecidableEq

/-! ### Contexts -/

/-- Where a context is: in the handler of a connection, on the stack of `Exec`, or with the link to the
master. -/
inductive Place (C : Type)
  | conn (c : C)
  | exec
  | slave
deriving DecidableEq

/-- `ctx.client` is not `NULL`. -/
def Place.hasClient {C : Type} : Place C → Bool
  | .conn _ => true
  | _ => false

/-- A context, as far as locks go. -/
structure LockContext where
  /-- The channel, and `ctx.pubsub`. -/
  chan : PubSub.Client
  /-- `ctx.watch_keys` is not `NULL`. -/
  watching : Bool
  /-- `ctx.block` is not `NULL`. -/
  blocked : Bool
  inTransc : Bool

namespace LockContext

/-- `Context()`, with a channel that is open. -/
def init : LockContext := ⟨.init, false, false, false⟩

/-- No channel: what is written goes nowhere. -/
def gone : LockContext := { init with chan := { PubSub.Client.init with closed := true } }

variable (x : LockContext)

/-- The next reply finds the socket dead. -/
def breaks : Bool := !x.chan.closed && x.chan.lost = some 0

/-- The names of one kind. -/
def names (kind : PubSub.Kind) : ListSet Bytes := x.chan.getPubsub kind

/-- `pubsub_channels.size() + pubsub_patterns.size()`. -/
def count : ℕ := (x.names .channel).size + (x.names .pattern).size

end LockContext

/-! ### Commands -/

/-- What a command does about a key. -/
inductive Touch
  /-- `FireKeyChangedEvent`, for a key that is not empty. -/
  | changed
  /-- `WakeBlockingListsByKey`. -/
  | wakes
deriving DecidableEq

/-- What `Eval` finds. -/
inductive Lookup
  /-- A hash that does not have 40 bytes. -/
  | badHash
  /-- The function is there. -/
  | defined
  /-- Neither the function nor the script is there. -/
  | unknown
  /-- The function is not there, and cannot be made. -/
  | broken
  /-- The function is not there, and is made. -/
  | created
deriving DecidableEq

mutual

/-- A command. -/
inductive Cmd (C : Type)
  /-- All that are not listed. -/
  | data (touches : List Touch)
  /-- `BLPOP`, `BRPOP` and `BRPOPLPUSH`, where they come to wait for keys. -/
  | block (touches : List Touch) (keys : ℕ)
  | watch
  | unwatch
  | multi
  | discard
  /-- `EXEC`, with what has been queued. -/
  | exec (aborted : Bool) (queue : List (Cmd C))
  | quit
  | shutdown
  | subscribe (kind : PubSub.Kind) (args : List Bytes)
  /-- `UNSUBSCRIBE` and `PUNSUBSCRIBE`; `found` is whether the table of the server has a name. -/
  | unsubscribe (kind : PubSub.Kind) (args : List Bytes) (found : Bool)
  | publish
  /-- `INFO`, and whether the sections `clients` and `stats` are asked for. -/
  | info (clients stats : Bool)
  /-- `CLIENT LIST` and `CLIENT KILL`. -/
  | client
  /-- `EVAL` and `EVALSHA`; `logged` is whether the text is looked up for the log. -/
  | eval (isSHA1Func : Bool) (lookup : Lookup) (script : List (ScriptStep C)) (logged : Bool)
  | scriptExists (count : ℕ)
  | scriptLoad (created : Bool)
  | scriptFlush
  /-- `SAVE` and `IMPORT`, with what the event loop finds in between. -/
  | save (rounds : List (Event C))

/-- A step of a script. -/
inductive ScriptStep (C : Type)
  | call (cmd : Cmd C)
  /-- The count hook past the time limit, and what the event loop finds. -/
  | hook (rounds : List (Event C))

/-- What the event loop finds. -/
inductive Event (C : Type)
  /-- A connection; one that is not trusted is closed. -/
  | accept (c : C) (trusted : Bool)
  /-- A command, `none` if `Call` refuses it; `closes` is whether the channel is closed behind it. -/
  | request (c : C) (cmd : Option (Cmd C)) (closes : Bool)
  /-- `Channel::Close`, with nothing left to write. -/
  | close (c : C)
  /-- The channel is deleted, and the context with it. -/
  | delete (c : C)
  /-- The peer is gone. The socket takes `n` more replies. -/
  | reset (c : C) (n : ℕ)
  /-- `async_write_message`. -/
  | message (c : C)
  /-- `WakeBlockedListCallback`, and whether there is something to pop. -/
  | wake (c : C) (served : Bool)
  /-- `BlockListTimeout`. -/
  | timeout (c : C)
  /-- `ConnectionTimeout`. -/
  | checkTimeouts
  /-- A command of the master. -/
  | replay (cmd : Cmd C)

end

namespace Cmd

variable {C : Type}

/-- The commands that are queued in a transaction. -/
def queued : Cmd C → Bool
  | .multi | .discard | .exec .. | .quit => false
  | _ => true

/-- `COMMS_CMD_NOSCRIPT`. -/
def noScript : Cmd C → Bool
  | .multi | .watch | .unwatch | .quit | .eval .. | .scriptExists _ | .scriptLoad _ | .scriptFlush
  | .save _ => true
  | _ => false

/-- The commands of a connection that has subscribed. -/
def allowedSubscribed : Cmd C → Bool
  | .subscribe .. | .unsubscribe .. | .quit => true
  | _ => false

/-- There is a reply when the handler returns. `EXEC` has one for each command that was queued. -/
def replies (inTransc : Bool) : Cmd C → Bool
  | .subscribe .. | .unsubscribe .. | .block .. | .quit | .shutdown => false
  | .exec aborted queue => !inTransc || aborted || !queue.isEmpty
  | _ => true

end Cmd

/-! ### Threads -/

/-- What is noted while a thread runs. -/
inductive Incident
  /-- A notice of `UNSUBSCRIBE` finds the socket dead while there are names left. -/
  | noticeFails
  /-- `EVAL`, `EVALSHA` or `SCRIPT FLUSH` comes to `g_lua_mutex` in the middle of a script. -/
  | scriptInScript
  /-- `EXEC` runs a script, or `SCRIPT FLUSH`. -/
  | luaInExec
  /-- `EXEC` in the middle of a script. -/
  | execInScript
  /-- The table of scripts is used in the middle of a script, which `EXEC` runs or not. -/
  | scriptsInScript (inExec : Bool)
  /-- `EXEC` runs a command that uses the table of scripts. -/
  | scriptsInExec
  /-- `SCRIPT FLUSH`, which `EXEC` runs or not. -/
  | flush (inExec : Bool)
deriving DecidableEq

/-- A thread with an event loop. -/
structure LoopThread (C : Type) where
  ctx : Place C → LockContext
  /-- `g_local_ctx`. -/
  localCtx : Place C
  /-- `Exec` is on the stack, and has `g_transc_mutex`. -/
  inExec : Bool
  /-- A script is on the stack, with `g_lua_mutex`. -/
  inScript : Bool
  log : List Incident
  trace : List (Section Lock)

namespace LoopThread

variable {C : Type}

/-- Nobody is connected. -/
def init : LoopThread C :=
  ⟨fun p => if p.hasClient then .gone else .init, .slave, false, false, [], []⟩

/-- A block with a guard. -/
def hold (l : Lock) (mode : Mode) (f : LoopThread C → LoopThread C) (s : LoopThread C) : LoopThread C :=
  let t := f { s with trace := [] }
  { t with trace := s.trace ++ [.hold l mode t.trace] }

/-- Incidents are noted, each of them if its condition holds. -/
def note (incidents : List (Bool × Incident)) (s : LoopThread C) : LoopThread C :=
  { s with log := s.log ++ (incidents.filter Prod.fst).map Prod.snd }

variable [DecidableEq C]

/-- A change of a context. -/
def modify (p : Place C) (f : LockContext → LockContext) (s : LoopThread C) : LoopThread C :=
  { s with ctx := Function.update s.ctx p (f (s.ctx p)) }

/-! ### Contexts -/

/-- `UnwatchKeys`. -/
def unwatchKeys (p : Place C) (s : LoopThread C) : LoopThread C :=
  if (s.ctx p).watching then
    s.hold .watchedKeys .exclusive (modify p fun x => { x with watching := false })
  else s

/-- `ClearBlockKeys`. -/
def clearBlockKeys (p : Place C) (s : LoopThread C) : LoopThread C :=
  if (s.ctx p).blocked then
    s.hold .blockCtx .exclusive (modify p fun x => { x with blocked := false })
  else s

/-- `UnsubscribeChannel(ctx, name, false)`. -/
def unsubscribeQuietly (kind : PubSub.Kind) (p : Place C) (name : Bytes) (s : LoopThread C) :
    LoopThread C :=
  (s.modify p fun x => { x with chan := x.chan.eraseName kind name }).hold .pubsubCtx .exclusive id

/-- `UnsubscribeAll(ctx, false)`. -/
def unsubscribeAllQuietly (kind : PubSub.Kind) (p : Place C) (s : LoopThread C) : LoopThread C :=
  ((s.ctx p).names kind).toList.foldl (fun s name => s.unsubscribeQuietly kind p name) s

/-- `FreeClientContext`. -/
def freeClientContext (p : Place C) (s : LoopThread C) : LoopThread C :=
  let s := s.unwatchKeys p
  let s := (s.unsubscribeAllQuietly .channel p).unsubscribeAllQuietly .pattern p
  (s.clearBlockKeys p).hold .clients .exclusive id

/-- `Channel::DoClose`, and `ChannelClosed` of the handler. -/
def doClose (p : Place C) (s : LoopThread C) : LoopThread C :=
  if (s.ctx p).chan.closed then s
  else (s.modify p fun x => { x with chan := { x.chan with closed := true } }).freeClientContext p

/-- `ctx.client->Write(r)`, where the channel may be `NULL`. -/
def write (p : Place C) (s : LoopThread C) : LoopThread C :=
  if p.hasClient then
    if (s.ctx p).breaks then s.doClose p
    else s.modify p fun x => { x with chan := { x.chan with lost := x.chan.lost.map (· - 1) } }
  else s

/-! ### Subscriptions -/

/-- `SubscribeChannel(ctx, name, true)`. -/
def subscribeChannel (kind : PubSub.Kind) (p : Place C) (name : Bytes) (s : LoopThread C) :
    LoopThread C :=
  let s := s.modify p fun x => { x with chan := x.chan.insertName kind name }
  (s.hold .pubsubCtx .exclusive id).write p

/-- The reply of `UnsubscribeChannel`. -/
def notice (p : Place C) (s : LoopThread C) : LoopThread C :=
  (s.note [(p.hasClient && (s.ctx p).breaks && (s.ctx p).count != 0, .noticeFails)]).write p

/-- `UnsubscribeChannel(ctx, name, true)`. The reply is written before the lock is released. -/
def unsubscribeChannel (kind : PubSub.Kind) (p : Place C) (name : Bytes) (s : LoopThread C) :
    LoopThread C :=
  let s := s.modify p fun x => { x with chan := x.chan.eraseName kind name }
  s.hold .pubsubCtx .exclusive (notice p)

/-- `UnsubscribeAll(ctx, true)`. -/
def unsubscribeAll (kind : PubSub.Kind) (p : Place C) (found : Bool) (s : LoopThread C) :
    LoopThread C :=
  if (s.ctx p).chan.pubsub.isNone then s
  else
    let s := ((s.ctx p).names kind).toList.foldl (fun s name => s.unsubscribeChannel kind p name) s
    if found then s else s.write p

/-- `UnSubscribe` and `PUnSubscribe`. -/
def unSubscribe (kind : PubSub.Kind) (p : Place C) (args : List Bytes) (found : Bool)
    (s : LoopThread C) : LoopThread C :=
  if args = [] then s.unsubscribeAll kind p found
  else args.foldl (fun s name => s.unsubscribeChannel kind p name) s

/-! ### Keys -/

/-- `AbortWatchKey` and `WakeBlockingListsByKey`. -/
def touch (s : LoopThread C) : Touch → LoopThread C
  | .changed => s.hold .watchedKeys .shared id
  | .wakes => s.hold .blockCtx .shared id

def touchAll (touches : List Touch) (s : LoopThread C) : LoopThread C := touches.foldl touch s

/-- `AddBlockKey`. -/
def addBlockKey (p : Place C) (s : LoopThread C) : LoopThread C :=
  s.hold .blockCtx .exclusive (modify p fun x => { x with blocked := true })

/-- `BLPop` and `BRPopLPush`, where there is nothing to pop. -/
def blockOn (p : Place C) (keys : ℕ) (s : LoopThread C) : LoopThread C :=
  let s := if p.hasClient then s.modify p fun x => { x with blocked := true } else s
  (addBlockKey p)^[keys] s

/-- `ClearTransc`. -/
def clearTransc (p : Place C) (s : LoopThread C) : LoopThread C :=
  s.modify p fun x => { x with watching := false, inTransc := false }

/-! ### Scripts -/

/-- `SaveScript` and `GetScript`. -/
def useScripts (s : LoopThread C) : LoopThread C :=
  (s.note [(s.inScript, .scriptsInScript s.inExec), (s.inExec, .scriptsInExec)]).hold
    .scripts .exclusive id

/-- `FlushScripts`. -/
def flushScripts (s : LoopThread C) : LoopThread C :=
  let s := s.note [(s.inScript, .scriptInScript), (true, .flush s.inExec), (s.inExec, .luaInExec),
    (s.inExec, .scriptsInExec)]
  s.hold .scripts .exclusive (hold .lua .exclusive id)

/-- `CreateLuaFunction` and what is in front of it; `run` is `lua_pcall`. -/
def callFunction (isSHA1Func : Bool) (lookup : Lookup) (run : LoopThread C → LoopThread C)
    (s : LoopThread C) : LoopThread C :=
  match lookup with
  | .badHash => s
  | .defined => run s
  | .unknown | .broken => if isSHA1Func then s.useScripts else s
  | .created => run ((if isSHA1Func then s.useScripts else s).useScripts)

/-- `LUAInterpreter::Eval`. -/
def luaEval (p : Place C) (isSHA1Func : Bool) (lookup : Lookup)
    (run : LoopThread C → LoopThread C) (s : LoopThread C) : LoopThread C :=
  let s := { s with localCtx := p }
  if isSHA1Func && lookup = .badHash then s
  else
    let s := if isSHA1Func then s else s.useScripts
    let s := s.note [(s.inScript, .scriptInScript), (s.inExec, .luaInExec)]
    s.hold .lua .exclusive fun s =>
      { callFunction isSHA1Func lookup run { s with inScript := true } with inScript := s.inScript }

/-! ### Transactions -/

/-- `Exec`, where `run` is the loop. -/
def exec (p : Place C) (aborted : Bool) (run : LoopThread C → LoopThread C) (s : LoopThread C) :
    LoopThread C :=
  if (s.ctx p).inTransc then
    if aborted then (s.unwatchKeys p).clearTransc p
    else
      (s.note [(s.inScript, .execInScript)]).hold .transc .exclusive fun s =>
        let t := run { s.modify .exec (fun _ => .init) with inExec := true }
        { (t.unwatchKeys p).clearTransc p with inExec := s.inExec }
  else s

/-! ### The event loop -/

/-- `Call`, where `run` is `DoCall`: what it leaves, and whether there is a reply. -/
def call (p : Place C) (cmd : Cmd C) (run : LoopThread C → LoopThread C) (s : LoopThread C) :
    LoopThread C × Bool :=
  if (s.ctx p).inTransc then
    if cmd.queued then (s, true) else (run s, cmd.replies true)
  else if (s.ctx p).chan.pubsub.isSome && !cmd.allowedSubscribed then (s, true)
  else (run s, cmd.replies false)

mutual

/-- A handler. -/
def runCmd (p : Place C) : Cmd C → LoopThread C → LoopThread C
  | .data touches, s => s.touchAll touches
  | .block touches keys, s => (s.touchAll touches).blockOn p keys
  | .watch, s => s.hold .watchedKeys .exclusive (modify p fun x => { x with watching := true })
  | .unwatch, s => s.unwatchKeys p
  | .multi, s => s.modify p fun x => { x with inTransc := true }
  | .discard, s => if (s.ctx p).inTransc then (s.unwatchKeys p).clearTransc p else s
  | .exec aborted queue, s => s.exec p aborted (runQueue queue)
  | .quit, s => s
  | .shutdown, s => s
  | .subscribe kind args, s => args.foldl (fun s name => s.subscribeChannel kind p name) s
  | .unsubscribe kind args found, s => s.unSubscribe kind p args found
  | .publish, s => s.hold .pubsubCtx .shared id
  | .info clients stats, s =>
    let s := if clients then
      (s.hold .clients .exclusive id).hold .blockCtx .exclusive id else s
    if stats then s.hold .pubsubCtx .exclusive id else s
  | .client, s => s.hold .clients .exclusive id
  | .eval isSHA1Func lookup script logged, s =>
    let s := s.luaEval p isSHA1Func lookup (runSteps script)
    if isSHA1Func && logged then s.useScripts else s
  | .scriptExists count, s => useScripts^[count] s
  | .scriptLoad created, s => if created then s.useScripts else s
  | .scriptFlush, s => s.flushScripts
  -- without a channel there is no service to go on with
  | .save rounds, s => if p.hasClient then runEvents rounds s else s

/-- The loop of `Exec`. -/
def runQueue : List (Cmd C) → LoopThread C → LoopThread C
  | [], s => s
  | cmd :: queue, s => runQueue queue (if cmd.queued then runCmd .exec cmd s else s)

/-- `redis.call`, and the count hook. -/
def runStep : ScriptStep C → LoopThread C → LoopThread C
  | .call cmd, s => if cmd.noScript then s else runCmd s.localCtx cmd s
  | .hook rounds, s => if s.localCtx.hasClient then runEvents rounds s else s

/-- `lua_pcall`. -/
def runSteps : List (ScriptStep C) → LoopThread C → LoopThread C
  | [], s => s
  | x :: xs, s => runSteps xs (runStep x s)

/-- One event. -/
def runEvent : Event C → LoopThread C → LoopThread C
  | .accept c trusted, s =>
    let s := (s.modify (.conn c) fun _ => .init).hold .clients .exclusive id
    if trusted then s else s.doClose (.conn c)
  | .request c cmd closes, s =>
    let (s, replies) := match cmd with
      | none => (s, true)
      | some cmd => s.call (.conn c) cmd (runCmd (.conn c) cmd)
    let s := if replies then s.write (.conn c) else s
    if closes then s.doClose (.conn c) else s
  | .close c, s => s.doClose (.conn c)
  | .delete c, s => s.modify (.conn c) fun _ => .gone
  | .reset c n, s =>
    s.modify (.conn c) fun x => { x with chan := { x.chan with lost := some (x.chan.lost.getD n) } }
  | .message c, s => s.write (.conn c)
  | .wake c served, s =>
    -- `GetBlockContext` makes one if there is none
    let s := s.modify (.conn c) fun x => { x with blocked := true }
    if served then (s.write (.conn c)).clearBlockKeys (.conn c) else s
  | .timeout c, s => (s.clearBlockKeys (.conn c)).write (.conn c)
  | .checkTimeouts, s => s.hold .clients .exclusive id
  | .replay cmd, s => (s.call .slave cmd (runCmd .slave cmd)).1

/-- What an iteration of the event loop finds. -/
def runEvents : List (Event C) → LoopThread C → LoopThread C
  | [], s => s
  | e :: es, s => runEvents es (runEvent e s)

end

end LoopThread

end LockOrder
end Comms
