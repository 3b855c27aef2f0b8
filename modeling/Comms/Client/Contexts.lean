import Comms.Client.PubSub
import Comms.Command.Handlers

/-!
# Contexts and the tables they are in

Handlers are called in contexts of three kinds: that of a connection, the one that `Exec` has on its stack,
and that of the link to the master. Only the first one has a channel. A context is in `m_watched_ctx` and
`m_block_context_table` for the keys that it watches or waits for, and in the tables of `Comms.PubSub` for
what it has subscribed to; it keeps the keys and names as well. What runs here, runs at once.

* `Place`, `Context` — where a context is, and what it keeps;
* `Server.register`, `Server.unregister` — the two tables for keys;
* `Server.runCall` — a command, in any context;
* `Server.exec` — `Exec`, with a context of its own;
* `Server.freeKeys` — what `FreeClientContext` does about keys;
* `Server.step` — requests, callbacks and timers, connections that come and go.

A request is a command that `Call` lets through, and callbacks and timers may come at any time. The event
loop is not entered from a script or from `SAVE`. Behind a reply that finds the socket dead comes `close`.
-/

namespace Comms
namespace Contexts

/-! ### Commands -/

/-- A command, as far as contexts go. -/
inductive Call
  | data (cmd : DataCommand) (args : List Bytes)
  | watch (keys : List Bytes)
  | unwatch
  | pubsub (cmd : PubSub.Command)
  | publish (channel message : Bytes)
  /-- `SAVE`, and whether a file is written. -/
  | save (writes : Bool)
  /-- `IMPORT`, and whether there is a file. -/
  | import_ (reads : Bool) (args : List Bytes)
  /-- `REPLCONF`, and whether `listening-port` is one of the options. -/
  | replconf (listeningPort : Bool)
  /-- `SYNC` and `PSYNC`. -/
  | sync
  | other
deriving DecidableEq

/-- `COMMS_CMD_NOSCRIPT` is not set. -/
def Call.inScript : Call → Bool
  | .data cmd _ => cmd ≠ .import_
  | .pubsub _ | .publish _ _ | .other => true
  | .watch _ | .unwatch | .save _ | .import_ _ _ | .replconf _ | .sync => false

/-- A command that may be queued. A script is given by what it turns out to call. -/
inductive Frame
  | call (call : Call)
  | script (calls : List Call)
deriving DecidableEq

inductive Request
  | multi
  | exec
  | discard
  | quit
  | frame (frame : Frame)
deriving DecidableEq

/-! ### Contexts -/

/-- A context: of a connection, of the `n`-th `EXEC`, or of the link to the master. -/
inductive Place (C : Type)
  | conn (c : C)
  | exec (n : ℕ)
  | slave
deriving DecidableEq

/-- `ctx.client` is not `NULL`. -/
def Place.hasClient {C : Type} : Place C → Bool
  | .conn _ => true
  | _ => false

/-- Why a context is registered for a key: `ctx.watch_keys`, or `ctx.block->keys`. -/
inductive Reason
  | watch
  | block
deriving DecidableEq

/-- A context. A set that is `NULL` is empty. -/
structure Context where
  currentDB : DBID
  keys : Reason → ListSet (DBID × Bytes)
  /-- `ctx.block->push_key`. -/
  pushKey : Bytes
  /-- `ctx.block->lpop`. -/
  lpop : Bool
  abortExec : Bool
  inTransc : Bool
  cachedCmds : List Frame

def Context.init : Context := ⟨0, fun _ => ∅, [], false, false, false, []⟩

/-- `ClearTransc`. -/
def Context.clearTransc (x : Context) : Context :=
  { x with
    keys := Function.update x.keys .watch ∅
    abortExec := false
    inTransc := false
    cachedCmds := [] }

/-! ### The server -/

/-- The contexts there are, the tables, and the channels with what has been subscribed to. -/
structure Server (V C : Type) where
  store : Keyspace V
  ctx : Place C → Option Context
  /-- `m_watched_ctx` and `m_block_context_table`. -/
  table : Reason → Table (DBID × Bytes) (Place C)
  pubsub : PubSub.Server C
  /-- How many `EXEC`s there have been. -/
  execs : ℕ
  /-- A context was used that is not there, or a channel that is `NULL`. -/
  fault : Bool

/-- The configuration: what handlers read, whether there is a master, and `stringmatchlen`. -/
structure Settings where
  cfg : HandlerConfig
  hasMaster : Bool
  stringMatch : Bytes → Bytes → Bool

namespace Server

variable {V Num C : Type} [DecidableEq C]

/-- Nobody is connected. -/
def init (store : Keyspace V) : Server V C :=
  ⟨store, fun q => if q = .slave then some .init else none, fun _ => ∅, .init, 0, false⟩

variable (set : Settings) (kv : Kv V Num) (s : Server V C) (q : Place C) (c : C)

/-- A change of a context. -/
def modify (f : Context → Context) : Server V C :=
  { s with ctx := Function.update s.ctx q ((s.ctx q).map f) }

/-- A context comes or goes. -/
def setCtx (x : Option Context) : Server V C := { s with ctx := Function.update s.ctx q x }

/-- What is done to a channel or a context may go wrong. -/
def needs (ok : Bool) : Server V C := { s with fault := s.fault || !ok }

/-- The keys of a context. -/
def keys (r : Reason) : ListSet (DBID × Bytes) := (s.ctx q).elim ∅ fun x => x.keys r

/-- One round of the loop in `Watch`, or `AddBlockKey`. -/
def register (r : Reason) (p : DBID × Bytes) : Server V C :=
  { s.modify q fun x => { x with keys := Function.update x.keys r ((x.keys r).insert p) } with
    table := Function.update s.table r ((s.table r).add p q) }

/-- The loop of `UnwatchKeys`, or of `ClearBlockKeys`. -/
def unregister (r : Reason) : Server V C :=
  { s.modify q fun x => { x with keys := Function.update x.keys r ∅ } with
    table := Function.update s.table r ((s.table r).removeAll q (s.keys q r).toList) }

/-- `Watch`. -/
def watch (db : DBID) (keys : List Bytes) : Server V C :=
  keys.foldl (fun s key => s.register q .watch (db, key)) s

/-- `UnwatchKeys`. -/
def unwatchKeys : Server V C :=
  if (s.keys q .watch).toList = [] then s
  else (s.unregister q .watch).modify q fun x => { x with abortExec := false }

/-- `ClearBlockKeys`. -/
def clearBlockKeys : Server V C :=
  (s.unregister q .block).modify q fun x => { x with pushKey := [], lpop := false }

/-- `AbortWatchKey`. -/
def abortWatchKey (p : DBID × Bytes) : Server V C :=
  { s with
    ctx := fun d => (s.ctx d).map fun x =>
      if d ∈ (s.table .watch).members p then { x with abortExec := true } else x
    fault := s.fault || ((s.table .watch).members p).toList.any fun d => (s.ctx d).isNone }

def fireKeyChangedEvent (p : DBID × Bytes) : Server V C := if p.2 = [] then s else s.abortWatchKey p

/-- `WakeBlockingListsByKey`, which asks each context for the service of its channel. -/
def wakeBlockingListsByKey (p : DBID × Bytes) : Server V C :=
  s.needs (((s.table .block).members p).toList.all fun d => d.hasClient && (s.ctx d).isSome)

/-! ### Closing -/

/-- What `FreeClientContext` does about keys. -/
def freeKeys : Server V C := (s.unwatchKeys (.conn c)).clearBlockKeys (.conn c)

/-- The channel is open. -/
def connected : Place C → Bool
  | .conn c => (s.pubsub.client c).any fun x => !x.closed
  | _ => false

/-- `FreeClientContext`. -/
def freeClientContext : Server V C := { s with pubsub := s.pubsub.freeClientContext c }.freeKeys c

/-- `Channel::DoClose`, and `ChannelClosed` of the handler. -/
def doClose : Server V C :=
  if s.connected (.conn c) then { s with pubsub := s.pubsub.doClose c }.freeKeys c else s

/-- A command of `Comms.PubSub` is over. It may have closed the channel. -/
def afterPubsub (pubsub : PubSub.Server C) : Server V C :=
  let t := { s with pubsub := pubsub }
  if s.connected (.conn c) && !t.connected (.conn c) then t.freeKeys c else t

/-- The context is deleted. -/
def delete : Server V C :=
  { s with
    ctx := Function.update s.ctx (.conn c) none
    pubsub := { s.pubsub with client := Function.update s.pubsub.client c none } }

/-! ### Commands -/

/-- What a handler does. -/
def outcome (aliased : Bool) (cmd : DataCommand) (args : List Bytes) : Outcome V Num :=
  cmd.handler set.cfg kv s.store
    ⟨(s.ctx q).elim 0 Context.currentDB, set.hasMaster || q = .slave, q.hasClient, aliased⟩ args

/-- The client waits. -/
def blockOn (block : ListBlock) : Server V C :=
  (block.keys.foldl (fun s p => s.register q .block p) s).modify q fun x =>
    { x with pushKey := block.pushKey, lpop := block.lpop }

/-- The handler of a command that works on keys. -/
def runData (aliased : Bool) (cmd : DataCommand) (args : List Bytes) : Server V C :=
  let o := s.outcome set kv q aliased cmd args
  let db := (s.ctx q).elim 0 Context.currentDB
  let s := { s with store := o.store }.modify q fun x => { x with currentDB := o.db }
  let s := o.fired.foldl fireKeyChangedEvent s
  let s := o.wakes.foldl (fun s key => s.wakeBlockingListsByKey (db, key)) s
  match o.blocked with
  | none => s
  | some block => s.blockOn q block

/-- A command. One that waits for good has no end. -/
def runCall (aliased : Bool) : Call → Option (Server V C)
  | .data cmd args => some (s.runData set kv q aliased cmd args)
  | .watch keys => some (s.watch q ((s.ctx q).elim 0 Context.currentDB) keys)
  | .unwatch => some (s.unwatchKeys q)
  | .pubsub cmd =>
    match q, cmd with
    | .conn c, cmd => (s.pubsub.exec c cmd).map fun pubsub => s.afterPubsub c pubsub
    -- `ctx.client->GetWritableOptions()`
    | _, .subscribe _ _ => some (s.needs false)
    | _, .unsubscribe _ _ => some s
  | .publish channel message =>
    some (s.needs ((s.pubsub.publishMessage set.stringMatch channel message).2.all fun m =>
      (s.ctx (.conn m.1)).isSome))
  -- the routine of the snapshot calls `Continue` of a service that is `NULL`
  | .save writes => some (s.needs (!writes || q.hasClient))
  | .import_ reads args => some ((s.runData set kv q aliased .import_ args).needs (!reads || q.hasClient))
  | .replconf listeningPort => some (s.needs (!listeningPort || q.hasClient))
  | .sync =>
    match q with
    | .conn c => some ((s.freeClientContext c).delete c)
    | _ => some (s.needs false)
  | .other => some s

/-- One call of a script. Some commands are refused. -/
def runInScript (call : Call) : Option (Server V C) :=
  if call.inScript then s.runCall set kv q false call else some s

def runFrame : Frame → Option (Server V C)
  | .call call => s.runCall set kv q true call
  | .script calls => Run.steps (fun s call => s.runInScript set kv q call) s calls

/-- `UnwatchKeys(ctx); ctx.ClearTransc()`. -/
def clearTransc : Server V C := (s.unwatchKeys q).modify q Context.clearTransc

/-- `Exec` in front of its loop: `transc_ctx`. -/
def beginExec (x : Context) : Server V C :=
  { s with execs := s.execs + 1 }.setCtx (.exec s.execs) (some { Context.init with currentDB := x.currentDB })

/-- `Exec` behind its loop. `transc_ctx` is gone when it returns. -/
def endExec (n : ℕ) : Server V C :=
  let db := (s.ctx (.exec n)).elim 0 Context.currentDB
  ((s.modify q fun x => { x with currentDB := db }).clearTransc q).setCtx (.exec n) none

/-- `Exec`. -/
def exec (x : Context) : Option (Server V C) :=
  if x.inTransc = false then some s
  else if x.abortExec then some (s.clearTransc q)
  else
    (Run.steps (fun t frame => t.runFrame set kv (.exec s.execs) frame) (s.beginExec x) x.cachedCmds).map
      fun t => t.endExec q s.execs

/-- A request, by `Call`. -/
def request (x : Context) : Request → Option (Server V C)
  | .multi => some (s.modify q fun x => { x with inTransc := true })
  | .exec => s.exec set kv q x
  | .discard => some (if x.inTransc then s.clearTransc q else s)
  | .quit =>
    match q with
    | .conn c => some (s.doClose c)
    | _ => some s
  | .frame frame =>
    if x.inTransc then some (s.modify q fun x => { x with cachedCmds := x.cachedCmds ++ [frame] })
    else s.runFrame set kv q frame

/-- `WakeBlockedList`. -/
def wakeBlockedList (x : Context) (key : Bytes) : Server V C :=
  let block : ListBlock := ⟨(x.keys .block).toList, x.pushKey, x.lpop⟩
  let o := (Comms.wakeBlockedList kv s.store ⟨x.currentDB, set.hasMaster, true, true⟩ block key).1
  let s := { s with store := o.store }
  if o.blocked.isSome then s else s.clearBlockKeys (.conn c)

end Server

/-! ### Runs -/

/-- What happens. Frames that have been received are executed until the context is deleted. -/
inductive Event (C : Type)
  | accept (c : C)
  | request (c : C) (r : Request)
  /-- A command comes from the master. -/
  | master (r : Request)
  /-- The link to the master is closed: `m_slave_ctx.Clear()`. -/
  | masterClosed
  | callback (c : C) (key : Bytes)
  | timeout (c : C)
  /-- The peer is gone. The socket takes `n` more replies. -/
  | reset (c : C) (n : ℕ)
  | close (c : C)
  | delete (c : C)
deriving DecidableEq

namespace Server

variable {V Num C : Type} [DecidableEq C] (set : Settings) (kv : Kv V Num) (s : Server V C)

/-- One step. -/
def step : Event C → Option (Server V C)
  | .accept c =>
    if (s.ctx (.conn c)).isSome || (s.pubsub.client c).isSome then none
    else some ({ s with pubsub := { s.pubsub with client := Function.update s.pubsub.client c (some .init) } }.setCtx
      (.conn c) (some .init))
  | .request c r => (s.ctx (.conn c)).bind fun x => s.request set kv (.conn c) x r
  | .master r => (s.ctx .slave).bind fun x => s.request set kv .slave x r
  | .masterClosed => some (s.modify .slave fun x => { Context.init with currentDB := x.currentDB })
  | .callback c key =>
    some (match s.ctx (.conn c) with
      | none => s.needs false
      | some x => s.wakeBlockedList set kv c x key)
  | .timeout c =>
    some (match s.ctx (.conn c) with
      | none => s.needs false
      | some _ => s.clearBlockKeys (.conn c))
  | .reset c n =>
    if (s.pubsub.client c).any fun x => x.lost.isNone then
      some { s with pubsub := s.pubsub.modify c fun x => { x with lost := some n } }
    else none
  | .close c => if s.connected (.conn c) then some (s.doClose c) else none
  | .delete c => if (s.pubsub.client c).any fun x => x.closed then some (s.delete c) else none

end Server

end Contexts
end Comms
