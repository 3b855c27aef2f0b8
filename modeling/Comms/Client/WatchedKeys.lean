import Comms.Client.BlockedClients

/-!
# Transactions side by side

`command/transaction.cpp` for any number of clients on any number of threads. A client that watches keys is
registered in `m_watched_ctx`; whoever changes a key calls `FireKeyChangedEvent` behind the call of the
store, and that sets `abort_exec` of those who are registered. `Exec` looks at `abort_exec`, takes
`g_transc_mutex`, and runs the commands of its queue in a context of its own.

* `KvOp`, `Op` — the parts of a handler: a call of the store, `FireKeyChangedEvent`, `WATCH`, `UNWATCH`;
* `KvOp.effect` — what a call of the store comes to, and what the thread is to do next;
* `Client` — a context, and how far its thread has got;
* `Server.runOp`, `Server.run` — the next step of a client;
* `Server.step` — requests, callbacks of clients that wait for an element, connections that come and go;
* `Server.Move` — what there is to a step.

Each part is a step of its own, and between two of them other clients take theirs. A script is given by the
commands that it turns out to call. A callback that pops an element for a client that waits may come at any
time here; who waits for what is the subject of `Comms.Client.BlockedClients`.
-/

namespace Comms
namespace Watching

open Blocking (BlockCall)

/-! ### The parts of a handler -/

/-- A part of a handler that calls the store once, or not at all. -/
inductive KvOp
  /-- The handler of a command; `aliased` says whether `*ctx.current_cmd` is the frame that runs. -/
  | handler (aliased : Bool) (cmd : DataCommand) (args : List Bytes)
  /-- One round of the loop in `BLPop`. -/
  | pop (lpop : Bool) (keys : List Bytes)
  /-- `WakeBlockedList`, up to the pop. -/
  | wake (block : ListBlock) (key : Bytes)
  /-- The element goes to `push_key`. -/
  | push (block : ListBlock) (key value : Bytes)
  /-- The element goes back to where it was taken from. -/
  | putBack (block : ListBlock) (key value : Bytes)
deriving DecidableEq

inductive Op
  | kv (op : KvOp)
  /-- `FireKeyChangedEvent`. -/
  | fire (p : DBID × Bytes)
  | watch (keys : List Bytes)
  | unwatch
deriving DecidableEq

/-- What a part of a handler leaves behind: the store, `ctx.currentDB`, and the parts that come next. -/
structure Effect (V : Type) where
  store : Keyspace V
  db : DBID
  next : List Op

/-- A part of a handler, in the database `db`. It makes one call, so that nobody comes in between. -/
def KvOp.effect {V Num : Type} (cfg : HandlerConfig) (kv : Kv V Num) (s : Keyspace V) (db : DBID)
    (hasClient : Bool) : KvOp → Effect V
  | .handler aliased cmd args =>
    let o := cmd.handler cfg kv s ⟨db, false, hasClient, aliased⟩ args
    ⟨o.store, o.db, o.fired.map .fire⟩
  | .pop _ [] => ⟨s, db, []⟩
  | .pop lpop (key :: keys) =>
    let r := kv.exec s db (popCall lpop key)
    match r.ret with
    | .ok 0 => ⟨r.store, db, if r.str ≠ [] then [.fire (db, key)] else [.kv (.pop lpop keys)]⟩
    | .err .entryNotExist | .err .dbNotExist => ⟨r.store, db, [.kv (.pop lpop keys)]⟩
    | _ => ⟨r.store, db, []⟩
  -- nothing that `WakeBlockedList` does is announced
  | .wake block key =>
    let r := kv.exec s db (popCall block.lpop key)
    ⟨r.store, db,
      if r.ret = .ok 0 ∧ r.str ≠ [] ∧ block.pushKey ≠ [] then [.kv (.push block key r.str)] else []⟩
  | .push block key value =>
    let r := kv.exec s db (.rpush block.pushKey [value] false)
    match r.ret with
    | .ok _ => ⟨r.store, db, []⟩
    | .err _ => ⟨r.store, db, [.kv (.putBack block key value)]⟩
  | .putBack block key value =>
    ⟨(kv.exec s db (if block.lpop then .lpush key [value] false else .rpush key [value] false)).store, db, []⟩

/-! ### Frames -/

/-- A command, as far as the store and the watched keys go. -/
inductive Frame
  | data (cmd : DataCommand) (args : List Bytes)
  /-- `EVAL` and `EVALSHA`. -/
  | script (calls : List (DataCommand × List Bytes))
  | watch (keys : List Bytes)
  | unwatch
  /-- A command that has to do with neither. -/
  | other
deriving DecidableEq

/-- A call of a handler. -/
def callOp (aliased : Bool) (cmd : DataCommand) (args : List Bytes) : Op :=
  match BlockCall.of cmd args with
  | some (.pop lpop keys, _) => .kv (.pop lpop keys)
  | _ => .kv (.handler aliased cmd args)

/-- The parts of a command, to begin with. -/
def Frame.ops : Frame → List Op
  | .data cmd args => [callOp true cmd args]
  | .script calls => calls.map fun call => callOp false call.1 call.2
  | .watch keys => [.watch keys]
  | .unwatch => [.unwatch]
  | .other => []

/-- What `Call` is given. -/
inductive Request
  | multi
  | exec
  | discard
  | frame (frame : Frame)
deriving DecidableEq

/-! ### Contexts -/

/-- `transc_ctx`, and the queue: what has run, and what is left. `changed` is history: whether somebody else
had changed a watched key when the first command ran. -/
structure TranscRun where
  currentDB : DBID
  watchKeys : ListSet (DBID × Bytes)
  done : List Frame
  rest : List Frame
  changed : Bool
deriving DecidableEq

/-- How far `Exec` has got. -/
inductive Stage
  | out
  /-- `abort_exec` was not set; the thread is about to take `g_transc_mutex`. -/
  | tested
  | running (r : TranscRun)
deriving DecidableEq

/-- An `EXEC` of a transaction: its queue, whether somebody else had changed a watched key before the first
command ran, and what ran. `none` is the answer nil. -/
structure ExecEntry where
  queue : List Frame
  changed : Bool
  ran : Option (List Frame)
deriving DecidableEq

/-- A context. `watchKeys` is empty if `ctx.watch_keys` is `NULL`. `changed` and `execs` are history: whether
somebody else has changed a key since it is watched, and the transactions so far. -/
structure Client where
  currentDB : DBID
  inTransc : Bool
  cachedCmds : List Frame
  watchKeys : ListSet (DBID × Bytes)
  abortExec : Bool
  stage : Stage
  /-- What the handler that runs has still to do. -/
  work : List Op
  changed : Bool
  execs : List ExecEntry
deriving DecidableEq

namespace Client

variable (x : Client)

def init : Client := ⟨0, false, [], ∅, false, .out, [], false, []⟩

/-- The thread is in the event loop. -/
def idle : Bool := x.stage = .out && x.work.isEmpty

/-- `currentDB` of the context in which commands run. -/
def db : DBID :=
  match x.stage with
  | .running r => r.currentDB
  | _ => x.currentDB

def setDb (db : DBID) : Client :=
  match x.stage with
  | .running r => { x with stage := .running { r with currentDB := db } }
  | _ => { x with currentDB := db }

/-- The context in which commands run has a channel. -/
def hasClient : Bool :=
  match x.stage with
  | .running _ => false
  | _ => true

/-- `Exec` goes on to run the queue, whatever happens, and no command has run yet. -/
def committed : Bool :=
  match x.stage with
  | .out => false
  | .tested => true
  | .running r => r.done.isEmpty

/-- `UnwatchKeys` and `ClearTransc`, less the table. -/
def cleared : Client :=
  { x with watchKeys := ∅, abortExec := false, changed := false, inTransc := false, cachedCmds := [] }

/-- One more transaction. -/
def logged (changed : Bool) (ran : Option (List Frame)) : Client :=
  { x with execs := x.execs ++ [⟨x.cachedCmds, changed, ran⟩] }

/-- The first command of a transaction is about to run, or another one. -/
def begun (r : TranscRun) (frame : Frame) (rest : List Frame) : Client :=
  { x with
    stage := .running { r with
      done := r.done ++ [frame], rest := rest, changed := if r.done = [] then x.changed else r.changed } }

end Client

/-! ### The server -/

/-- The store, the contexts and `m_watched_ctx`. -/
structure Server (V C : Type) where
  store : Keyspace V
  client : C → Option Client
  /-- `m_watched_ctx`, as far as contexts of connections go. -/
  watched : Table (DBID × Bytes) C
  /-- The keys that it has the context of an `EXEC` for that has returned. -/
  stack : List (DBID × Bytes)
  /-- Who has `g_transc_mutex`. -/
  transcMutex : Option C
  /-- `abort_exec` of a context was set that is not there. -/
  fault : Bool

namespace Server

variable {V Num C : Type} [DecidableEq C]

/-- Nobody is connected. -/
def init (store : Keyspace V) : Server V C := ⟨store, fun _ => none, ∅, [], none, false⟩

variable (cfg : HandlerConfig) (kv : Kv V Num) (s : Server V C) (c : C) (x : Client)

/-- A change of a context. -/
def put : Server V C := { s with client := Function.update s.client c (some x) }

/-- The store after a step of `c`. Whoever else watches a key that has changed is noted, which is history. -/
def change [DecidableEq V] (st : Keyspace V) : Server V C :=
  { s with
    store := st
    client := fun d => (s.client d).map fun y =>
      if d ≠ c ∧ ∃ p ∈ y.watchKeys.toList, st p.1 p.2 ≠ s.store p.1 p.2 then { y with changed := true } else y }

/-- `AbortWatchKey`. -/
def abortWatchKey (p : DBID × Bytes) : Server V C :=
  { s with
    client := fun d => (s.client d).map fun y =>
      if d ∈ s.watched.members p then { y with abortExec := true } else y
    fault := s.fault || s.stack.contains p }

def fireKeyChangedEvent (p : DBID × Bytes) : Server V C := if p.2 = [] then s else s.abortWatchKey p

/-- `WATCH`. In an `EXEC` it is the context of the `EXEC` that is registered. -/
def watch (keys : List Bytes) : Server V C :=
  match x.stage with
  | .running r =>
    s.put c { x with stage := .running { r with
      watchKeys := keys.foldl (fun set key => set.insert (r.currentDB, key)) r.watchKeys } }
  | _ =>
    { s with watched := keys.foldl (fun table key => table.add (x.currentDB, key) c) s.watched }.put c
      { x with watchKeys := keys.foldl (fun set key => set.insert (x.currentDB, key)) x.watchKeys }

/-- `UnwatchKeys`. -/
def unwatchKeys : Server V C :=
  match x.stage with
  | .running r => s.put c { x with stage := .running { r with watchKeys := ∅ } }
  | _ =>
    if x.watchKeys.toList = [] then s.put c x
    else { s with watched := s.watched.removeAll c x.watchKeys.toList }.put c
      { x with watchKeys := ∅, abortExec := false, changed := false }

/-- `UnwatchKeys(ctx); ctx.ClearTransc()`. -/
def clearTransc : Server V C :=
  { s with watched := s.watched.removeAll c x.watchKeys.toList }.put c x.cleared

/-- A part of a handler. It is off the client's work already. -/
def runOp [DecidableEq V] : Op → Server V C
  | .kv op =>
    let e := op.effect cfg kv s.store x.db x.hasClient
    (s.change c e.store).put c { x.setDb e.db with work := e.next ++ x.work }
  | .fire p => (s.put c x).fireKeyChangedEvent p
  | .watch keys => s.watch c x keys
  | .unwatch => s.unwatchKeys c x

/-- The first of some parts, with the others left to do. -/
def perform [DecidableEq V] : List Op → Server V C
  | [] => s.put c x
  | op :: work => s.runOp cfg kv c { x with work := work } op

/-- `Exec` returns. -/
def finish (r : TranscRun) : Server V C :=
  { s with transcMutex := none, stack := s.stack ++ r.watchKeys.toList }.clearTransc c
    { x.logged (if r.done = [] then x.changed else r.changed) (some r.done) with
      currentDB := r.currentDB, stage := .out }

/-- The thread of a client goes on: with its handler, then with the rest of `Exec`. -/
def run [DecidableEq V] : Option (Server V C) :=
  match x.work, x.stage with
  | op :: work, _ => some (s.runOp cfg kv c { x with work := work } op)
  | [], .out => none
  | [], .tested =>
    if s.transcMutex = none then
      some ({ s with transcMutex := some c }.put c
        { x with stage := .running ⟨x.currentDB, ∅, [], x.cachedCmds, false⟩ })
    else none
  | [], .running r =>
    match r.rest with
    | frame :: rest => some (s.perform cfg kv c (x.begun r frame rest) frame.ops)
    | [] => some (s.finish c x r)

/-- `Exec`, up to `g_transc_mutex`. -/
def exec : Server V C :=
  if x.inTransc = false then s
  else if x.abortExec then s.clearTransc c (x.logged x.changed none)
  else s.put c { x with stage := .tested }

/-- A request of a client, by `Call`: handlers begin to run, or the command is queued. -/
def request : Request → Server V C
  | .multi => s.put c { x with inTransc := true }
  | .exec => s.exec c x
  | .discard => if x.inTransc then s.clearTransc c x else s
  | .frame frame =>
    s.put c (if x.inTransc then { x with cachedCmds := x.cachedCmds ++ [frame] }
      else { x with work := frame.ops })

/-- `FreeClientContext`, and the context is deleted. -/
def free : Server V C :=
  { s with
    watched := s.watched.removeAll c x.watchKeys.toList
    client := Function.update s.client c none }

end Server

/-! ### Runs -/

/-- What happens: a client connects or leaves, `Call` is given a frame, a callback of `WakeBlockingListsByKey`
begins to run in the thread of a client that waits, or the thread of a client takes its next step. -/
inductive Event (C : Type)
  | connect (c : C)
  | disconnect (c : C)
  | request (c : C) (r : Request)
  | callback (c : C) (block : ListBlock) (key : Bytes)
  | run (c : C)
deriving DecidableEq

namespace Server

variable {V Num C : Type} [DecidableEq C] [DecidableEq V] (cfg : HandlerConfig) (kv : Kv V Num)
  (s : Server V C)

/-- What needs a thread to be in the event loop. -/
def inLoop (c : C) (f : Client → Server V C) : Option (Server V C) :=
  (s.client c).bind fun x => if x.idle then some (f x) else none

/-- One step. -/
def step : Event C → Option (Server V C)
  | .connect c => if (s.client c).isSome then none else some (s.put c .init)
  | .disconnect c => s.inLoop c fun x => s.free c x
  | .request c r => s.inLoop c fun x => s.request c x r
  | .callback c block key => s.inLoop c fun x => s.put c { x with work := [.kv (.wake block key)] }
  | .run c => (s.client c).bind fun x => s.run cfg kv c x

/-- **What there is to a step.** -/
inductive Move : Event C → Server V C → Prop
  | connect (c : C) (hc : s.client c = none) : Move (.connect c) (s.put c .init)
  | disconnect (c : C) (x : Client) (hx : s.client c = some x) (hidle : x.idle = true) :
    Move (.disconnect c) (s.free c x)
  | request (c : C) (r : Request) (x : Client) (hx : s.client c = some x) (hidle : x.idle = true) :
    Move (.request c r) (s.request c x r)
  | callback (c : C) (block : ListBlock) (key : Bytes) (x : Client) (hx : s.client c = some x)
    (hidle : x.idle = true) :
    Move (.callback c block key) (s.put c { x with work := [.kv (.wake block key)] })
  | op (c : C) (x : Client) (op : Op) (work : List Op) (hx : s.client c = some x)
    (hwork : x.work = op :: work) : Move (.run c) (s.runOp cfg kv c { x with work := work } op)
  /-- `g_transc_mutex` is taken. -/
  | lock (c : C) (x : Client) (hx : s.client c = some x) (hwork : x.work = []) (hstage : x.stage = .tested)
    (hmutex : s.transcMutex = none) :
    Move (.run c) ({ s with transcMutex := some c }.put c
      { x with stage := .running ⟨x.currentDB, ∅, [], x.cachedCmds, false⟩ })
  /-- The next command of the queue. -/
  | next (c : C) (x : Client) (r : TranscRun) (frame : Frame) (rest : List Frame)
    (hx : s.client c = some x) (hwork : x.work = []) (hstage : x.stage = .running r)
    (hrest : r.rest = frame :: rest) :
    Move (.run c) (s.perform cfg kv c (x.begun r frame rest) frame.ops)
  | finish (c : C) (x : Client) (r : TranscRun) (hx : s.client c = some x) (hwork : x.work = [])
    (hstage : x.stage = .running r) (hrest : r.rest = []) : Move (.run c) (s.finish c x r)

variable {cfg kv s}

omit [DecidableEq C] [DecidableEq V] in
theorem inLoop_cases {c : C} {f : Client → Server V C} {t : Server V C} (h : s.inLoop c f = some t) :
    ∃ x, s.client c = some x ∧ x.idle = true ∧ t = f x := by
  obtain ⟨x, hx, hf⟩ := Option.bind_eq_some_iff.mp h
  by_cases hidle : x.idle = true
  · rw [if_pos hidle] at hf
    exact ⟨x, hx, hidle, (Option.some.inj hf).symm⟩
  · rw [if_neg hidle] at hf
    cases hf

theorem move_of_step {ev : Event C} {t : Server V C} (h : s.step cfg kv ev = some t) :
    s.Move cfg kv ev t := by
  cases ev with
  | connect c =>
    change (if (s.client c).isSome then none else some (s.put c .init)) = some t at h
    split at h
    next => cases h
    next hc =>
      obtain rfl := Option.some.inj h
      exact .connect c (Option.not_isSome_iff_eq_none.mp hc)
  | disconnect c =>
    obtain ⟨x, hx, hidle, rfl⟩ := inLoop_cases h
    exact .disconnect c x hx hidle
  | request c r =>
    obtain ⟨x, hx, hidle, rfl⟩ := inLoop_cases h
    exact .request c r x hx hidle
  | callback c block key =>
    obtain ⟨x, hx, hidle, rfl⟩ := inLoop_cases h
    exact .callback c block key x hx hidle
  | run c =>
    obtain ⟨x, hx, hrun⟩ := Option.bind_eq_some_iff.mp h
    unfold run at hrun
    split at hrun
    next op work hwork =>
      obtain rfl := Option.some.inj hrun
      exact .op c x op work hx hwork
    next => cases hrun
    next hwork hstage =>
      split at hrun
      next hmutex =>
        obtain rfl := Option.some.inj hrun
        exact .lock c x hx hwork hstage hmutex
      next => cases hrun
    next r hwork hstage =>
      split at hrun
      next frame rest hrest =>
        obtain rfl := Option.some.inj hrun
        exact .next c x r frame rest hx hwork hstage hrest
      next hrest =>
        obtain rfl := Option.some.inj hrun
        exact .finish c x r hx hwork hstage hrest

end Server

end Watching
end Comms
