import Comms.Command.Script
import Comms.Lib.Run

/-!
# The clients of a slave

`Call` on a slave: for a client behind `MessageReceived`, and for a command of the master behind
`HandleRedisCommand` or `ReplayWAL`. Both work on one store, on one table of scripts and on one table
of contexts that wait.

* `Context.take` — `Call` up to the handler: a frame is queued, or handlers run;
* `Frame.run`, `runAll` — `DoCall` of one frame, and the loop of `Exec`;
* `Waits.record` — `AddBlockKey` and `WakeBlockingListsByKey` in the handlers that ran;
* `Slave.call`, `Slave.wake`, `Slave.timeout` — `Call`, `WakeBlockedList`, `BlockListTimeout`;
* `Slave.step` — the steps.

`WATCH` is left out: an `EXEC` that it aborts does here what `DISCARD` does. So are the commands that
have nothing to do with keys, and what `Call` refuses for want of `AUTH` or on a connection that has
subscribed, which changes nothing here. The timer of a wait may end it at any time; a client that
closes its connection while it waits is one whose wait ends so.
-/

namespace Comms
namespace ReadOnly

/-! ### What is sent -/

/-- Whose context: `m_slave_ctx` of the link to the master, or that of a client. -/
inductive Who
  | master
  | client (i : ℕ)
deriving DecidableEq, Repr

/-- `ctx.client`. -/
def Who.channel : Who → Option ℕ
  | .master => none
  | .client i => some i

/-- The commands. -/
inductive FrameCmd
  | data (cmd : DataCommand)
  | eval | evalsha | script
  | multi | exec | discard
deriving DecidableEq, Repr

/-- `min_arity` and `max_arity` of the settings table. -/
def FrameCmd.arity : FrameCmd → ℤ × ℤ
  | .data cmd => cmd.arity
  | .eval | .evalsha => (2, -1)
  | .script => (1, -1)
  | .multi | .exec | .discard => (0, 0)

/-- `RedisCommandFrame`, the command of it looked up. -/
structure Frame where
  cmd : FrameCmd
  args : List Bytes
deriving DecidableEq, Repr

/-- The arity check of `Call`. -/
def Frame.valid (frame : Frame) : Bool := validArity frame.cmd.arity frame.args.length

/-- `Context`: `cached_cmds` is there inside `MULTI`. -/
structure Context where
  currentDB : DBID
  cachedCmds : Option (List Frame)
  block : Option ListBlock
deriving DecidableEq, Repr

/-- `Call` up to the handlers: the frames whose handlers run now, and the queue afterwards. -/
def Context.take (ctx : Context) (frame : Frame) : List Frame × Option (List Frame) :=
  if frame.valid then
    match ctx.cachedCmds, frame.cmd with
    | none, .multi => ([], some [])
    -- `EXEC without MULTI`, `DISCARD without MULTI`
    | none, .exec | none, .discard => ([], none)
    | none, _ => ([frame], none)
    -- `MULTI calls can not be nested`
    | some cmds, .multi => ([], some cmds)
    | some cmds, .exec => (cmds, none)
    | some _, .discard => ([], none)
    | some cmds, _ => ([], some (cmds ++ [frame]))
  else ([], ctx.cachedCmds)

/-! ### Handlers that run -/

/-- What handlers leave behind: the store, `ctx.currentDB`, the scripts, and the calls of the handlers
of the commands that work on keys, those a script makes included. -/
structure Executed (V Num : Type) where
  store : Keyspace V
  db : DBID
  scripts : Scripts
  ran : List (InnerCall V Num)

/-- `Script`, as far as it changes the scripts: `SCRIPT FLUSH` and `SCRIPT LOAD`. -/
def scriptCommand {Num : Type} (lua : Lua Num) (t : Scripts) (args : List Bytes) : Scripts :=
  if eqNoCase (arg args 0) [102, 108, 117, 115, 104] then
    if args.length = 1 then .empty else t
  else if eqNoCase (arg args 0) [108, 111, 97, 100] then
    if args.length = 2 then (scriptLoad lua t (arg args 1)).getD t else t
  else t

section Execute

variable {V Num : Type} (lua : Lua Num) (cfg : HandlerConfig) (kv : Kv V Num)
  (noWal hasClient : Bool)

/-- `DoCall` of a command that may be queued. -/
def Frame.run (t : Scripts) (s : Keyspace V) (db : DBID) (frame : Frame) : Executed V Num :=
  match frame.cmd with
  | .data cmd =>
    let o := cmd.handler cfg kv s ⟨db, noWal, hasClient, true⟩ frame.args
    ⟨o.store, o.db, t, [⟨cmd, frame.args, s, db, o⟩]⟩
  | .eval =>
    let r := evalScript lua cfg kv noWal hasClient t (.start s db ⟨.eval, frame.args⟩) frame.args
      false
    ⟨r.1.store, r.1.currentDB, r.2, r.1.calls⟩
  | .evalsha =>
    let r := evalSHA lua cfg kv noWal hasClient t (.start s db ⟨.evalsha, frame.args⟩) frame.args
    ⟨r.1.store, r.1.currentDB, r.2, r.1.calls⟩
  | .script => ⟨s, db, scriptCommand lua t frame.args, []⟩
  | .multi | .exec | .discard => ⟨s, db, t, []⟩

/-- One frame after the other, as in the loop of `Exec`. -/
def runAll : List Frame → Scripts → Keyspace V → DBID → Executed V Num
  | [], t, s, db => ⟨s, db, t, []⟩
  | frame :: frames, t, s, db =>
    let e := frame.run lua cfg kv noWal hasClient t s db
    let rest := runAll frames e.scripts e.store e.db
    { rest with ran := e.ran ++ rest.ran }

end Execute

/-! ### Contexts that wait -/

/-- `m_block_context_table`, by key; and the calls of `WakeBlockedList` that `AsyncIO` was given, by
client. A context without a client is `m_slave_ctx`, or the `transc_ctx` of an `EXEC`, which is gone
by now. -/
structure Waits where
  table : List ((DBID × Bytes) × Option ℕ)
  tasks : List (ℕ × Bytes)
deriving DecidableEq, Repr

/-- `AddBlockKey`. -/
def Waits.addBlockKey (channel : Option ℕ) (w : Waits) (key : DBID × Bytes) : Waits :=
  if (key, channel) ∈ w.table then w else { w with table := w.table ++ [(key, channel)] }

/-- `WakeBlockingListsByKey`. It goes through `ctx->client` of every context that waits for the key;
one without a client is a fault. -/
def Waits.wakeKey (w : Waits) (key : DBID × Bytes) : Option Waits :=
  let waiting := (w.table.filter fun e => e.1 = key).map (·.2)
  if none ∈ waiting then none
  else some { w with tasks := w.tasks ++ (waiting.filterMap id).map fun i => (i, key.2) }

/-- `ClearBlockKeys`, the part about the table. -/
def Waits.clearBlockKeys (w : Waits) (i : ℕ) (keys : List (DBID × Bytes)) : Waits :=
  { w with table := w.table.filter fun e => ¬(e.2 = some i ∧ e.1 ∈ keys) }

/-- What the handler of a call does to the contexts that wait. -/
def Waits.record {V Num : Type} (channel : Option ℕ) (w : Waits) (call : InnerCall V Num) :
    Option Waits :=
  let blocked := (call.outcome.blocked.elim [] (·.keys)).foldl (addBlockKey channel) w
  Run.steps (fun w key => w.wakeKey (call.db, key)) blocked call.outcome.wakes

def Waits.recordAll {V Num : Type} (channel : Option ℕ) (w : Waits)
    (ran : List (InnerCall V Num)) : Option Waits :=
  Run.steps (record channel) w ran

/-- `ctx.block` behind the handler of a call. A context that waits already has more keys to wait for
then; `BLPOP` does not touch its `push_key`, and without a client it leaves `lpop`. -/
def blockAfter {V Num : Type} (hasClient : Bool) (block : Option ListBlock)
    (call : InnerCall V Num) : Option ListBlock :=
  match call.outcome.blocked, block with
  | none, block => block
  | some new, none => some new
  | some new, some old =>
    if call.cmd = .brpoplpush then some { new with keys := old.keys ++ new.keys }
    else
      some
        { keys := old.keys ++ new.keys, pushKey := old.pushKey
          lpop := if hasClient then new.lpop else old.lpop }

/-! ### The slave -/

/-- The configuration of a slave. `slaveReadonly` is `slave-read-only`: `Parse` sets it, and nothing
reads it. -/
structure SlaveConfig extends HandlerConfig where
  masterHost : Bytes
  isSlave : masterHost ≠ []
  slaveReadonly : Bool

/-- `flags.no_wal`: `MessageReceived` looks at `master_host`. -/
def SlaveConfig.noWal (cfg : SlaveConfig) : Who → Bool
  | .master => true
  | .client _ => !cfg.masterHost.isEmpty

/-- The text of the function that a frame runs, if it runs one. -/
def Frame.text {Num : Type} (lua : Lua Num) (t : Scripts) (frame : Frame) : Option Bytes :=
  match frame.cmd with
  | .eval => (evalArgs frame.args).bind fun _ => (lookupScript lua t (arg frame.args 0) false).1
  | .evalsha => (evalArgs frame.args).bind fun _ => (lookupScript lua t (arg frame.args 0) true).1
  | _ => none

/-- The scripts behind a frame. They do not depend on anything else. -/
def Frame.scripts {Num : Type} (lua : Lua Num) (t : Scripts) (frame : Frame) : Scripts :=
  match frame.cmd with
  | .eval =>
    (evalArgs frame.args).elim t fun _ => (lookupScript lua t (arg frame.args 0) false).2
  | .evalsha =>
    (evalArgs frame.args).elim t fun _ => (lookupScript lua t (arg frame.args 0) true).2
  | .script => scriptCommand lua t frame.args
  | _ => t

/-- A slave. `ownScripts` is history: the scripts that the frames of the master would have made
alone. -/
structure Slave (V : Type) where
  store : Keyspace V
  scripts : Scripts
  contexts : Who → Context
  waits : Waits
  ownScripts : Scripts

/-- A slave that nobody has sent anything to. -/
def Slave.start {V : Type} (s : Keyspace V) (t : Scripts) : Slave V :=
  { store := s, scripts := t, contexts := fun _ => ⟨0, none, none⟩, waits := ⟨[], []⟩
    ownScripts := t }

inductive Act
  /-- A command of the master. -/
  | master (frame : Frame)
  | client (i : ℕ) (frame : Frame)
  /-- A task of `AsyncIO`. -/
  | wake (k : ℕ)
  /-- `BlockListTimeout`. -/
  | timeout (i : ℕ)
deriving DecidableEq, Repr

/-- The commands of the master. -/
def Act.isMaster : Act → Bool
  | .master _ => true
  | _ => false

namespace Slave

variable {V Num : Type} (lua : Lua Num) (cfg : SlaveConfig) (kv : Kv V Num) (n : Slave V)

/-- The channel of the context that handlers run in: `transc_ctx` has none. -/
def channelOf (who : Who) (frame : Frame) : Option ℕ :=
  if frame.cmd = .exec then none else who.channel

/-- The handlers that `Call` runs. -/
def executed (who : Who) (frame : Frame) : Executed V Num :=
  runAll lua cfg.toHandlerConfig kv (cfg.noWal who) (channelOf who frame).isSome
    ((n.contexts who).take frame).1 n.scripts n.store (n.contexts who).currentDB

/-- The slave behind a `Call` that left these contexts waiting. -/
def behind (who : Who) (frame : Frame) (waits : Waits) : Slave V :=
  let ctx := n.contexts who
  let e := n.executed lua cfg kv who frame
  { store := e.store
    scripts := e.scripts
    contexts := Function.update n.contexts who
      { currentDB := e.db
        cachedCmds := (ctx.take frame).2
        -- `transc_ctx` has a block of its own
        block :=
          if frame.cmd = .exec then ctx.block
          else e.ran.foldl (blockAfter (channelOf who frame).isSome) ctx.block }
    waits := waits
    ownScripts :=
      if who = .master then (ctx.take frame).1.foldl (Frame.scripts lua) n.ownScripts
      else n.ownScripts }

section Behind

variable {lua cfg kv n} {frame : Frame} {waits : Waits} {who : Who} {i : ℕ}

@[simp] theorem behind_store :
    (n.behind lua cfg kv who frame waits).store = (n.executed lua cfg kv who frame).store := rfl

@[simp] theorem behind_scripts :
    (n.behind lua cfg kv who frame waits).scripts = (n.executed lua cfg kv who frame).scripts := rfl

@[simp] theorem behind_waits : (n.behind lua cfg kv who frame waits).waits = waits := rfl

@[simp] theorem behind_ownScripts_master :
    (n.behind lua cfg kv .master frame waits).ownScripts =
      ((n.contexts .master).take frame).1.foldl (Frame.scripts lua) n.ownScripts := by
  simp [behind]

@[simp] theorem behind_ownScripts_client :
    (n.behind lua cfg kv (.client i) frame waits).ownScripts = n.ownScripts := by
  simp [behind]

/-- A client has a context of its own. -/
@[simp] theorem behind_contexts_client :
    (n.behind lua cfg kv (.client i) frame waits).contexts .master = n.contexts .master := by
  simp [behind]

end Behind

/-- `Call`. -/
def call (who : Who) (frame : Frame) : Option (Slave V) :=
  (n.waits.recordAll (channelOf who frame) (n.executed lua cfg kv who frame).ran).map
    (n.behind lua cfg kv who frame)

/-- `WakeBlockedList`. `GetBlockContext` makes a new block if the client does not wait any more. -/
def wake (k : ℕ) : Option (Slave V) :=
  n.waits.tasks[k]?.map fun (i, key) =>
    let ctx := n.contexts (.client i)
    let block := ctx.block.getD ⟨[], [], false⟩
    let o := (wakeBlockedList kv n.store ⟨ctx.currentDB, cfg.noWal (.client i), true, false⟩ block
      key).1
    let waits := { n.waits with tasks := n.waits.tasks.eraseIdx k }
    { n with
      store := o.store
      contexts := Function.update n.contexts (.client i) { ctx with block := o.blocked }
      waits := if o.blocked.isSome then waits else waits.clearBlockKeys i block.keys }

/-- `BlockListTimeout`. -/
def timeout (i : ℕ) : Option (Slave V) :=
  (n.contexts (.client i)).block.map fun block =>
    { n with
      contexts :=
        Function.update n.contexts (.client i) { n.contexts (.client i) with block := none }
      waits := n.waits.clearBlockKeys i block.keys }

def step : Act → Option (Slave V)
  | .master frame => n.call lua cfg kv .master frame
  | .client i frame => n.call lua cfg kv (.client i) frame
  | .wake k => n.wake cfg kv k
  | .timeout i => n.timeout i

end Slave

/-- **A store that is a function of the master's stream**: without everything the clients do, the run
ends in the same store. -/
def StoreOfMaster {V Num : Type} (lua : Lua Num) (cfg : SlaveConfig) (kv : Kv V Num) (n : Slave V)
    (acts : List Act) : Prop :=
  ∀ n', Run.steps (Slave.step lua cfg kv) n acts = some n' →
    ∃ m, Run.steps (Slave.step lua cfg kv) n (acts.filter Act.isMaster) = some m ∧
      m.store = n'.store

end ReadOnly
end Comms
