import Comms.Command.Lists
import Comms.Lib.Registry
import Comms.Lib.Run
import Mathlib.Logic.Function.Basic

/-!
# Clients that wait for an element

The blocking commands of `command/t_list.cpp`, for any number of clients on any number of threads. A
client that finds no element is registered in `m_block_context_table` for its keys. A push queues a
callback for everybody who is registered for the key; the callback pops an element in the thread of the
client that waits. Each call of the store, each registration and each `WakeBlockingListsByKey` is a step
of its own, and between two steps of a client the others take theirs.

* `Client` — a context, and how far its thread has got with a command or a callback;
* `Server.run` — the next step of a client;
* `Server.wakeBlockedList` — the first step of a callback, up to the pop;
* `Server.step` — requests, callbacks, timers, connections that come and go;
* `Server.Move` — what there is to a step;
* `Server.NextPop`, `NextMove`, `NextWoken`, `NextPush`, `NextBack` — what the steps do to the lists;
* `wakeBlockedList_uninterrupted` — the steps of a callback make up `WakeBlockedList`.

A script is given by the commands that it turns out to call. A script that runs for so long that the
event loop is entered from it is left out, and so is the slave.
-/

namespace Comms
namespace Blocking

/-! ### Contexts -/

/-- A command that blocks, with its arguments. -/
inductive BlockCall
  /-- `BLPOP` and `BRPOP`. -/
  | pop (lpop : Bool) (keys : List Bytes)
  /-- `BRPOPLPUSH`. -/
  | move (source dest : Bytes)
deriving DecidableEq

/-- The call, and whether there is a timeout. Otherwise the handler answers that the timeout is no
number. -/
def BlockCall.of : DataCommand → List Bytes → Option (BlockCall × Bool)
  | .blpop, args =>
    (stringToUInt32 (args.getLastD [])).map fun timeout => (.pop true args.dropLast, 0 < timeout)
  | .brpop, args =>
    (stringToUInt32 (args.getLastD [])).map fun timeout => (.pop false args.dropLast, 0 < timeout)
  | .brpoplpush, args =>
    (stringToUInt32 (args.getLastD [])).map fun timeout => (.move (arg args 0) (arg args 1), 0 < timeout)
  | _, _ => none

/-- `ListBlockContext`; `none` is `-1`. -/
structure BlockContext where
  keys : ListSet (DBID × Bytes)
  pushKey : Bytes
  timer : Option ℕ
  lpop : Bool
deriving DecidableEq

def BlockContext.init : BlockContext := ⟨∅, [], none, false⟩

/-- An element that was popped for a client. With `dest` it has been pushed there. -/
structure Popped where
  key : Bytes
  value : Bytes
  lpop : Bool
  dest : Option Bytes
deriving DecidableEq

/-- What there is to say about the blocking commands of a client. -/
inductive LogEntry (Num : Type)
  | issued (call : BlockCall)
  | replied (popped : Option Popped) (reply : Reply Num)

/-- What runs a handler: `Call`, `Exec` in a context of its own, or a script, with what it returns. -/
inductive Via (Num : Type)
  | call
  | exec
  | script (reply : Reply Num)

def Via.isExec {Num : Type} : Via Num → Bool
  | .exec => true
  | _ => false

/-- How far the thread of a client has got. -/
inductive Phase
  /-- In the event loop, or about to run the next command. -/
  | ready
  /-- In the loop of `BLPop`. -/
  | popping (lpop timed : Bool) (keys rest : List Bytes)
  /-- About to call `AddBlockKey`. -/
  | registering (rest : List Bytes)
  /-- About to call `WakeBlockingListsByKey`. -/
  | waking (rest : List Bytes)
  /-- In `WakeBlockedList`, about to push the element to `push_key`. -/
  | pushing (key value : Bytes)
  /-- In `WakeBlockedList`, about to push the element back. -/
  | puttingBack (key value : Bytes) (err : KvErr)
deriving DecidableEq

/-- A context. `log` is history. -/
structure Client (Num : Type) where
  currentDB : DBID
  /-- `ctx.block`; `none` is `NULL`. -/
  block : Option BlockContext
  /-- `ctx.reply.elements`. -/
  elements : List (Reply Num)
  /-- `none` between two frames. -/
  via : Option (Via Num)
  /-- The commands of the frame that are still to run. -/
  todo : List (DataCommand × List Bytes)
  phase : Phase
  log : List (LogEntry Num)

/-- `RedisReply::elements`. -/
def elementsOf {Num : Type} : Reply Num → List (Reply Num)
  | .array members => members
  | _ => []

namespace Client

variable {Num : Type} (x : Client Num)

def init : Client Num := ⟨0, none, [], none, [], .ready, []⟩

/-- `GetBlockContext`. -/
def getBlockContext : BlockContext := x.block.getD .init

/-- The keys that the context is registered for. -/
def keys : ListSet (DBID × Bytes) := x.getBlockContext.keys

/-- The thread is in the event loop. -/
def idle : Bool := x.via.isNone && x.phase = .ready

/-- The commands run in the context of an `EXEC`, which has no channel. -/
def inExec : Bool := x.via.any Via.isExec

/-- A handler returns. `EXEC` makes a member of each reply. -/
def returned (reply : Reply Num) : Client Num :=
  { x with
    phase := .ready
    elements := if x.inExec then x.elements ++ [reply] else elementsOf reply }

/-- A blocking command is answered. -/
def replied (popped : Option Popped) (reply : Reply Num) : Client Num :=
  { x with log := x.log ++ [.replied popped reply] }

end Client

/-! ### The server -/

/-- The store, the contexts, and what is queued for the threads. -/
structure Server (V Num C : Type) where
  store : Keyspace V
  client : C → Option (Client Num)
  /-- `m_block_context_table`, as far as contexts of connections go. -/
  table : Table (DBID × Bytes) C
  /-- The keys that it has the context of an `EXEC` for. -/
  execKeys : List (DBID × Bytes)
  /-- The `WakeBlockListData` on the way. -/
  queue : List (C × Bytes)
  /-- The `BlockListTimeout` that are scheduled. -/
  timers : List (ℕ × C)
  nextTimer : ℕ
  /-- A context was used that is not there, or its channel, which is not there. -/
  fault : Bool

namespace Server

variable {V Num C : Type} [DecidableEq C]

/-- Nobody is connected. -/
def init (store : Keyspace V) : Server V Num C :=
  ⟨store, fun _ => none, ∅, [], [], [], 0, false⟩

variable (cfg : HandlerConfig) (kv : Kv V Num) (s : Server V Num C) (c : C) (x : Client Num)

/-- A change of a context. -/
def put : Server V Num C := { s with client := Function.update s.client c (some x) }

/-- `ClearBlockKeys`, and the context is in the state `x` otherwise. -/
def clearBlockKeys : Server V Num C :=
  match x.block with
  | none => s.put c x
  | some b =>
    { s with
      timers := s.timers.filter fun t => b.timer ≠ some t.1
      table := s.table.removeAll c b.keys.toList }.put c { x with block := none }

/-- `ClearBlockKeys` of `FreeClientContext`, and the context goes. -/
def free : Server V Num C :=
  let t := s.clearBlockKeys c x
  { t with client := Function.update t.client c none }

/-- `AddBlockKey`. -/
def addBlockKey (key : Bytes) (rest : List Bytes) : Server V Num C :=
  let x' := { x with phase := .registering rest }
  if x.inExec then { s with execKeys := (x.currentDB, key) :: s.execKeys }.put c x'
  else
    { s with table := s.table.add (x.currentDB, key) c }.put c
      { x' with block := some { x.getBlockContext with
        keys := x.getBlockContext.keys.insert (x.currentDB, key) } }

/-- What `BLPop` and `BRPopLPush` do to block, before they call `AddBlockKey`. The source of `BRPopLPush`
is registered before that; nobody can tell. -/
def blockClient (lpop timed : Bool) (pushKey : Option Bytes) (keys : List Bytes) : Server V Num C :=
  let x' := { x with phase := .registering keys }
  if x.inExec then s.put c x'
  else
    let b := x.getBlockContext
    let b' := { b with
      lpop := lpop
      pushKey := pushKey.getD b.pushKey
      timer := if timed then some s.nextTimer else b.timer }
    { s with
      timers := if timed then (s.nextTimer, c) :: s.timers else s.timers
      nextTimer := s.nextTimer + 1 }.put c { x' with block := some b' }

/-- `WakeBlockingListsByKey`. -/
def wakeBlockingListsByKey (db : DBID) (key : Bytes) : Server V Num C :=
  if (db, key) ∈ s.execKeys then { s with fault := true }
  else { s with queue := s.queue ++ (s.table.members (db, key)).toList.map fun d => (d, key) }

/-! ### The next step of a client -/

/-- One pop of the loop of `BLPop`. -/
def popNext (lpop timed : Bool) (keys : List Bytes) : List Bytes → Server V Num C
  | [] => s.blockClient c x lpop timed none keys
  | key :: rest =>
    let r := kv.exec s.store x.currentDB (popCall lpop key)
    let s := { s with store := r.store }
    match r.ret with
    | .ok 0 =>
      if r.str = [] then s.put c { x with phase := .popping lpop timed keys rest }
      else
        let reply := .array [.str key, .str r.str]
        s.put c ((x.returned reply).replied (some ⟨key, r.str, lpop, none⟩) reply)
    | .ok _ => s.put c ((x.returned .none).replied none .none)
    | .err e =>
      if e = .entryNotExist ∨ e = .dbNotExist then
        s.put c { x with phase := .popping lpop timed keys rest }
      else s.put c ((x.returned (fillErrorReply e)).replied none (fillErrorReply e))

/-- `BRPopLPush`, up to `AddBlockKey`. -/
def popPush (timed : Bool) (source dest : Bytes) : Server V Num C :=
  let r := kv.exec s.store x.currentDB (.rpoplpush source dest)
  let s := { s with store := r.store }
  match r.ret with
  | .ok _ => s.put c ((x.returned (.str r.str)).replied (some ⟨source, r.str, false, some dest⟩) (.str r.str))
  | .err e =>
    if e = .entryNotExist ∨ e = .dbNotExist then s.blockClient c x false timed (some dest) [source]
    else s.put c ((x.returned (fillErrorReply e)).replied none (fillErrorReply e))

/-- The first step of a blocking command. -/
def startBlocking (call : BlockCall) (timed : Bool) : Server V Num C :=
  let x := { x with log := x.log ++ [.issued call] }
  match call with
  | .pop lpop keys => s.put c { x with phase := .popping lpop timed keys keys }
  | .move source dest => s.popPush kv c x timed source dest

/-- Another command: its handler, up to `WakeBlockingListsByKey`. -/
def runHandler (cmd : DataCommand) (args : List Bytes) : Server V Num C :=
  let aliased := match x.via with
    | some (.script _) => false
    | _ => true
  let o := cmd.handler cfg kv s.store ⟨x.currentDB, false, !x.inExec, aliased⟩ args
  { s with store := o.store }.put c
    { x.returned o.reply with currentDB := o.db, phase := .waking o.wakes }

/-- The frame is done. -/
def finish : Server V Num C :=
  s.put c { x with
    via := none
    elements := match x.via with
      | some (.script reply) => elementsOf reply
      | _ => x.elements }

/-- The end of `WakeBlockedList`. -/
def answerBlocked (popped : Option Popped) (reply : Reply Num) : Server V Num C :=
  s.clearBlockKeys c ({ x with phase := .ready }.replied popped reply)

/-- `RPush(ctx.currentDB, push_key, v)` of `WakeBlockedList`. -/
def pushWoken (key value : Bytes) : Server V Num C :=
  let b := x.getBlockContext
  let r := kv.exec s.store x.currentDB (.rpush b.pushKey [value] false)
  let s := { s with store := r.store }
  match r.ret with
  | .ok _ => s.answerBlocked c x (some ⟨key, value, b.lpop, some b.pushKey⟩) (.str value)
  | .err e => s.put c { x with phase := .puttingBack key value e }

/-- The element goes back to where it was taken from. -/
def putBack (key value : Bytes) (err : KvErr) : Server V Num C :=
  let r := kv.exec s.store x.currentDB (pushCall x.getBlockContext.lpop key [value])
  { s with store := r.store }.answerBlocked c x none (fillErrorReply err)

/-- The next step of a client. -/
def run : Server V Num C :=
  match x.phase with
  | .ready =>
    match x.todo with
    | [] => s.finish c x
    | (cmd, args) :: todo =>
      match BlockCall.of cmd args with
      | some (call, timed) => s.startBlocking kv c { x with todo := todo } call timed
      | none => s.runHandler cfg kv c { x with todo := todo } cmd args
  | .popping lpop timed keys rest => s.popNext kv c x lpop timed keys rest
  | .registering [] => s.put c (x.returned .none)
  | .registering (key :: rest) => s.addBlockKey c x key rest
  | .waking [] => s.put c { x with phase := .ready }
  | .waking (key :: rest) =>
    (s.wakeBlockingListsByKey x.currentDB key).put c { x with phase := .waking rest }
  | .pushing key value => s.pushWoken kv c x key value
  | .puttingBack key value err => s.putBack kv c x key value err

/-- `WakeBlockedList`, up to the pop. -/
def wakeBlockedList (key : Bytes) : Server V Num C :=
  let b := x.getBlockContext
  let x := { x with block := some b }
  let r := kv.exec s.store x.currentDB (popCall b.lpop key)
  let s := { s with store := r.store }
  if r.ret = .ok 0 ∧ r.str ≠ [] then
    if b.pushKey = [] then
      let elements := x.elements ++ [.str key, .str r.str]
      s.answerBlocked c { x with elements := elements } (some ⟨key, r.str, b.lpop, none⟩) (.array elements)
    else s.put c { x with phase := .pushing key r.str }
  else s.put c x

/-! ### Runs -/

/-- A frame: a command, an `EXEC` with the commands that are queued, or a script. -/
inductive Request (Num : Type)
  | command (cmd : DataCommand) (args : List Bytes)
  | exec (cmds : List (DataCommand × List Bytes))
  | script (calls : List (DataCommand × List Bytes)) (reply : Reply Num)

def Request.via {Num : Type} : Request Num → Via Num
  | .command .. => .call
  | .exec _ => .exec
  | .script _ reply => .script reply

def Request.todo {Num : Type} : Request Num → List (DataCommand × List Bytes)
  | .command cmd args => [(cmd, args)]
  | .exec cmds => cmds
  | .script calls _ => calls

inductive Event (Num C : Type)
  | connect (c : C)
  /-- The channel is closed. -/
  | disconnect (c : C)
  /-- `Call` of a frame, up to the first command. -/
  | request (c : C) (r : Request Num)
  /-- The thread of the client goes on. -/
  | run (c : C)
  /-- A `WakeBlockedListCallback` runs. -/
  | callback (c : C) (key : Bytes)
  /-- A `BlockListTimeout` runs. -/
  | timeout (id : ℕ) (c : C)

/-- Whose context an event is about. -/
def Event.client : Event Num C → C
  | .connect c | .disconnect c | .request c _ | .run c | .callback c _ | .timeout _ c => c

/-- A callback or a timer uses the context `c`, and runs when the thread is in the event loop. -/
def inLoop (f : Client Num → Server V Num C) : Option (Server V Num C) :=
  match s.client c with
  | none => some { s with fault := true }
  | some x => if x.idle then some (f x) else none

/-- A step, if it is possible. -/
def step (s : Server V Num C) : Event Num C → Option (Server V Num C)
  | ev =>
    if s.fault then none
    else match ev with
      | .connect c => if (s.client c).isNone then some (s.put c .init) else none
      | .disconnect c => (s.client c).bind fun x => if x.idle then some (s.free c x) else none
      | .request c r => (s.client c).bind fun x =>
        if x.idle then some (s.put c { x with elements := [], via := some r.via, todo := r.todo })
        else none
      | .run c => (s.client c).bind fun x => if x.idle then none else some (s.run cfg kv c x)
      | .callback c key =>
        if (c, key) ∈ s.queue then
          let s := { s with queue := s.queue.erase (c, key) }
          s.inLoop c fun x => s.wakeBlockedList kv c x key
        else none
      | .timeout id c =>
        if (id, c) ∈ s.timers then
          let s := { s with timers := s.timers.erase (id, c) }
          s.inLoop c fun x => s.clearBlockKeys c (x.replied none .nil)
        else none

/-! ### What a step leaves alone -/

section Frame

variable {cfg kv s c x}

@[simp] theorem client_put : (s.put c x).client c = some x := Function.update_self ..

theorem client_put_ne {d : C} (h : d ≠ c) : (s.put c x).client d = s.client d :=
  Function.update_of_ne h ..

@[simp] theorem store_put : (s.put c x).store = s.store := rfl

@[simp] theorem fault_put : (s.put c x).fault = s.fault := rfl

@[simp] theorem store_clearBlockKeys : (s.clearBlockKeys c x).store = s.store := by
  unfold clearBlockKeys
  split <;> rfl

@[simp] theorem fault_clearBlockKeys : (s.clearBlockKeys c x).fault = s.fault := by
  unfold clearBlockKeys
  split <;> rfl

@[simp] theorem queue_clearBlockKeys : (s.clearBlockKeys c x).queue = s.queue := by
  unfold clearBlockKeys
  split <;> rfl

@[simp] theorem execKeys_clearBlockKeys : (s.clearBlockKeys c x).execKeys = s.execKeys := by
  unfold clearBlockKeys
  split <;> rfl

/-- The context has no `ListBlockContext` any more. -/
@[simp] theorem client_clearBlockKeys : (s.clearBlockKeys c x).client c = some { x with block := none } := by
  unfold clearBlockKeys
  split
  next h =>
    obtain ⟨db, block, elements, via, todo, phase, log⟩ := x
    obtain rfl : block = none := h
    exact client_put
  next => exact client_put

theorem client_clearBlockKeys_ne {d : C} (h : d ≠ c) : (s.clearBlockKeys c x).client d = s.client d := by
  unfold clearBlockKeys
  split
  · exact client_put_ne h
  · exact client_put_ne h

/-- The contexts of the others. -/
def OnlyClient (s t : Server V Num C) (c : C) : Prop := ∀ d, d ≠ c → t.client d = s.client d

theorem onlyClient_put {t : Server V Num C} (h : t.client = s.client) : OnlyClient s (t.put c x) c :=
  fun d hd => (client_put_ne hd).trans (congrFun h d)

theorem onlyClient_clear {t : Server V Num C} (h : t.client = s.client) :
    OnlyClient s (t.clearBlockKeys c x) c :=
  fun d hd => (client_clearBlockKeys_ne hd).trans (congrFun h d)

theorem onlyClient_block (lpop timed : Bool) (pushKey : Option Bytes) (keys : List Bytes)
    {t : Server V Num C} (h : t.client = s.client) :
    OnlyClient s (t.blockClient c x lpop timed pushKey keys) c := by
  unfold blockClient
  dsimp only
  split
  · exact onlyClient_put h
  · exact onlyClient_put h

theorem onlyClient_popNext (lpop timed : Bool) (keys rest : List Bytes) :
    OnlyClient s (s.popNext kv c x lpop timed keys rest) c := by
  cases rest with
  | nil => exact onlyClient_block lpop timed none keys rfl
  | cons key rest =>
    unfold popNext
    dsimp only
    split
    · split
      · exact onlyClient_put rfl
      · exact onlyClient_put rfl
    · exact onlyClient_put rfl
    · split
      · exact onlyClient_put rfl
      · exact onlyClient_put rfl

theorem onlyClient_popPush (timed : Bool) (source dest : Bytes) :
    OnlyClient s (s.popPush kv c x timed source dest) c := by
  unfold popPush
  dsimp only
  split
  · exact onlyClient_put rfl
  · split
    · exact onlyClient_block false timed (some dest) [source] rfl
    · exact onlyClient_put rfl

theorem onlyClient_run : OnlyClient s (s.run cfg kv c x) c := by
  unfold run
  split
  · split
    · exact onlyClient_put rfl
    · split
      next call timed heq =>
        cases call with
        | pop lpop keys => exact onlyClient_put rfl
        | move source dest => exact onlyClient_popPush timed source dest
      next => exact onlyClient_put rfl
  · exact onlyClient_popNext _ _ _ _
  · exact onlyClient_put rfl
  · unfold addBlockKey
    dsimp only
    split
    · exact onlyClient_put rfl
    · exact onlyClient_put rfl
  · exact onlyClient_put rfl
  · refine onlyClient_put ?_
    unfold wakeBlockingListsByKey
    split
    · rfl
    · rfl
  · unfold pushWoken
    dsimp only
    split
    · exact onlyClient_clear rfl
    · exact onlyClient_put rfl
  · exact onlyClient_clear rfl

theorem onlyClient_wakeBlockedList (key : Bytes) : OnlyClient s (s.wakeBlockedList kv c x key) c := by
  unfold wakeBlockedList
  dsimp only
  split
  · split
    · exact onlyClient_clear rfl
    · exact onlyClient_put rfl
  · exact onlyClient_put rfl

theorem onlyClient_free : OnlyClient s (s.free c x) c :=
  fun _ hd => (Function.update_of_ne hd ..).trans (client_clearBlockKeys_ne hd)

omit [DecidableEq C] in
/-- A callback or a timer that runs. -/
theorem inLoop_cases {f : Client Num → Server V Num C} {t : Server V Num C}
    (h : s.inLoop c f = some t) :
    s.client c = none ∧ t = { s with fault := true } ∨
      ∃ x, s.client c = some x ∧ x.idle = true ∧ t = f x := by
  unfold inLoop at h
  split at h
  next hnone => exact .inl ⟨hnone, (Option.some.inj h).symm⟩
  next x hx =>
    split at h
    next hidle => exact .inr ⟨x, hx, hidle, (Option.some.inj h).symm⟩
    next => cases h

/-- **What an event does.** -/
inductive Move (cfg : HandlerConfig) (kv : Kv V Num) (s t : Server V Num C) : Event Num C → Prop
  | connect (c : C) (hc : s.client c = none) (ht : t = s.put c .init) : Move cfg kv s t (.connect c)
  | disconnect (c : C) (x : Client Num) (hx : s.client c = some x) (hidle : x.idle = true)
    (ht : t = s.free c x) : Move cfg kv s t (.disconnect c)
  | request (c : C) (r : Request Num) (x : Client Num) (hx : s.client c = some x) (hidle : x.idle = true)
    (ht : t = s.put c { x with elements := [], via := some r.via, todo := r.todo }) :
    Move cfg kv s t (.request c r)
  | run (c : C) (x : Client Num) (hx : s.client c = some x) (hbusy : x.idle = false)
    (ht : t = s.run cfg kv c x) : Move cfg kv s t (.run c)
  | callback (c : C) (key : Bytes) (x : Client Num) (hqueue : (c, key) ∈ s.queue)
    (hx : s.client c = some x) (hidle : x.idle = true)
    (ht : t = { s with queue := s.queue.erase (c, key) }.wakeBlockedList kv c x key) :
    Move cfg kv s t (.callback c key)
  | timeout (id : ℕ) (c : C) (x : Client Num) (htimer : (id, c) ∈ s.timers) (hx : s.client c = some x)
    (hidle : x.idle = true)
    (ht : t = { s with timers := s.timers.erase (id, c) }.clearBlockKeys c (x.replied none .nil)) :
    Move cfg kv s t (.timeout id c)
  /-- The context of a callback is gone. -/
  | lateCallback (c : C) (key : Bytes) (hqueue : (c, key) ∈ s.queue) (hc : s.client c = none)
    (ht : t = { s with queue := s.queue.erase (c, key), fault := true }) :
    Move cfg kv s t (.callback c key)
  | lateTimeout (id : ℕ) (c : C) (htimer : (id, c) ∈ s.timers) (hc : s.client c = none)
    (ht : t = { s with timers := s.timers.erase (id, c), fault := true }) :
    Move cfg kv s t (.timeout id c)

theorem move_of_step {t : Server V Num C} {ev : Event Num C} (h : s.step cfg kv ev = some t) :
    s.fault = false ∧ Move cfg kv s t ev := by
  unfold step at h
  split at h
  · cases h
  next hfault =>
    refine ⟨Bool.eq_false_iff.mpr hfault, ?_⟩
    cases ev with
    | connect c =>
      dsimp only at h
      split at h
      next hc => exact .connect c (Option.isNone_iff_eq_none.mp hc) (Option.some.inj h).symm
      next => cases h
    | disconnect c =>
      obtain ⟨x, hx, h⟩ := Option.bind_eq_some_iff.mp h
      split at h
      next hidle => exact .disconnect c x hx hidle (Option.some.inj h).symm
      next => cases h
    | request c r =>
      obtain ⟨x, hx, h⟩ := Option.bind_eq_some_iff.mp h
      split at h
      next hidle => exact .request c r x hx hidle (Option.some.inj h).symm
      next => cases h
    | run c =>
      obtain ⟨x, hx, h⟩ := Option.bind_eq_some_iff.mp h
      split at h
      · cases h
      next hbusy => exact .run c x hx (Bool.eq_false_iff.mpr hbusy) (Option.some.inj h).symm
    | callback c key =>
      dsimp only at h
      split at h
      next hqueue =>
        obtain ⟨hc, ht⟩ | ⟨x, hx, hidle, ht⟩ := inLoop_cases h
        · exact .lateCallback c key hqueue hc ht
        · exact .callback c key x hqueue hx hidle ht
      next => cases h
    | timeout id c =>
      dsimp only at h
      split at h
      next htimer =>
        obtain ⟨hc, ht⟩ | ⟨x, hx, hidle, ht⟩ := inLoop_cases h
        · exact .lateTimeout id c htimer hc ht
        · exact .timeout id c x htimer hx hidle ht
      next => cases h

/-- Between two steps of a client, the others leave its context alone. -/
theorem onlyClient_of_step {t : Server V Num C} {ev : Event Num C} (h : s.step cfg kv ev = some t) :
    OnlyClient s t ev.client := by
  cases (move_of_step h).2 with
  | connect c hc ht => exact ht ▸ onlyClient_put rfl
  | disconnect c x hx hidle ht => exact ht ▸ onlyClient_free
  | request c r x hx hidle ht => exact ht ▸ onlyClient_put rfl
  | run c x hx hbusy ht => exact ht ▸ onlyClient_run
  | callback c key x hqueue hx hidle ht => exact ht ▸ onlyClient_wakeBlockedList (s := { s with queue := _ }) key
  | timeout id c x htimer hx hidle ht => exact ht ▸ onlyClient_clear rfl
  | lateCallback c key hqueue hc ht => exact ht ▸ fun _ _ => rfl
  | lateTimeout id c htimer hc ht => exact ht ▸ fun _ _ => rfl

end Frame

/-! ### What a step does to the lists -/

/-- The members of the lists there are. -/
def lists (members : Option V → Option (List Bytes)) (s : Server V Num C) :
    DBID × Bytes → Option (List Bytes) :=
  Keyspace.lists members s.store

section Lists

variable {kv s c x} {members : Option V → Option (List Bytes)}

/-- What a pop of `BLPop` comes to. -/
inductive NextPop (members : Option V → Option (List Bytes)) (s : Server V Num C) (c : C) (x : Client Num)
    (lpop timed : Bool) (keys : List Bytes) (key : Bytes) (rest : List Bytes) : Server V Num C → Prop
  | answered (value : Bytes) (l : List Bytes) (st : Keyspace V) (hne : value ≠ [])
    (before : s.lists members (x.currentDB, key) = some (atEnd lpop value l))
    (after : Keyspace.lists members st = Function.update (s.lists members) (x.currentDB, key) (some l)) :
    NextPop members s c x lpop timed keys key rest ({ s with store := st }.put c
      ((x.returned (.array [.str key, .str value])).replied (some ⟨key, value, lpop, none⟩)
        (.array [.str key, .str value])))
  /-- The empty string is dropped. -/
  | dropped (l : List Bytes) (st : Keyspace V)
    (before : s.lists members (x.currentDB, key) = some (atEnd lpop [] l))
    (after : Keyspace.lists members st = Function.update (s.lists members) (x.currentDB, key) (some l)) :
    NextPop members s c x lpop timed keys key rest
      ({ s with store := st }.put c { x with phase := .popping lpop timed keys rest })
  | missing (before : s.lists members (x.currentDB, key) = some []) :
    NextPop members s c x lpop timed keys key rest (s.put c { x with phase := .popping lpop timed keys rest })
  | wrongType (before : s.lists members (x.currentDB, key) = none) :
    NextPop members s c x lpop timed keys key rest (s.put c
      ((x.returned (fillErrorReply .invalidType)).replied none (fillErrorReply .invalidType)))

theorem nextPop (hk : kv.Lawful) (hl : kv.ListLaws members) (lpop timed : Bool) (keys : List Bytes)
    (key : Bytes) (rest : List Bytes) : NextPop members s c x lpop timed keys key rest
      (s.popNext kv c x lpop timed keys (key :: rest)) := by
  unfold popNext
  dsimp only
  cases hl.popResult hk s.store x.currentDB lpop key with
  | element value l before ret str after =>
    rw [ret, str]
    by_cases hne : value = []
    · subst hne
      exact .dropped l _ before after
    · rw [if_neg hne]
      exact .answered value l _ hne before after
  | missing before e he ret store =>
    rw [ret, store]
    dsimp only
    rw [if_pos (show e = .entryNotExist ∨ e = .dbNotExist from he)]
    exact .missing before
  | wrongType before ret store =>
    rw [ret, store]
    exact .wrongType before

/-- What the `RPopLPush` of `BRPopLPush` comes to. -/
inductive NextMove (members : Option V → Option (List Bytes)) (s : Server V Num C) (c : C) (x : Client Num)
    (timed : Bool) (source dest : Bytes) : Server V Num C → Prop
  | moved (value : Bytes) (l m : List Bytes) (st : Keyspace V)
    (before : s.lists members (x.currentDB, source) = some (atEnd false value l))
    (dest_before : Function.update (s.lists members) (x.currentDB, source) (some l) (x.currentDB, dest) = some m)
    (after : Keyspace.lists members st = Function.update
      (Function.update (s.lists members) (x.currentDB, source) (some l)) (x.currentDB, dest)
        (some (atEnd true value m))) :
    NextMove members s c x timed source dest ({ s with store := st }.put c
      ((x.returned (.str value)).replied (some ⟨source, value, false, some dest⟩) (.str value)))
  | missing (before : s.lists members (x.currentDB, source) = some []) :
    NextMove members s c x timed source dest (s.blockClient c x false timed (some dest) [source])
  | wrongType : NextMove members s c x timed source dest (s.put c
      ((x.returned (fillErrorReply .invalidType)).replied none (fillErrorReply .invalidType)))

theorem nextMove (hk : kv.Lawful) (hl : kv.ListLaws members) (timed : Bool) (source dest : Bytes) :
    NextMove members s c x timed source dest (s.popPush kv c x timed source dest) := by
  unfold popPush
  dsimp only
  cases hl.moveResult hk s.store x.currentDB source dest with
  | moved value l m n before dest_before ret str after =>
    rw [ret, str]
    exact .moved value l m _ before dest_before after
  | missing before e he ret store =>
    rw [ret, store]
    dsimp only
    rw [if_pos (show e = .entryNotExist ∨ e = .dbNotExist from he)]
    exact .missing before
  | wrongType ret store =>
    rw [ret, store]
    exact .wrongType

/-- What the pop of `WakeBlockedList` comes to. -/
inductive NextWoken (members : Option V → Option (List Bytes)) (s : Server V Num C) (c : C) (x : Client Num)
    (key : Bytes) : Server V Num C → Prop
  | answered (value : Bytes) (l : List Bytes) (st : Keyspace V) (hne : value ≠ [])
    (hpush : x.getBlockContext.pushKey = [])
    (before : s.lists members (x.currentDB, key) = some (atEnd x.getBlockContext.lpop value l))
    (after : Keyspace.lists members st = Function.update (s.lists members) (x.currentDB, key) (some l)) :
    NextWoken members s c x key ({ s with store := st }.answerBlocked c
      { x with
        block := some x.getBlockContext
        elements := x.elements ++ [Reply.str key, Reply.str value] }
      (some ⟨key, value, x.getBlockContext.lpop, none⟩)
      (.array (x.elements ++ [Reply.str key, Reply.str value])))
  | taken (value : Bytes) (l : List Bytes) (st : Keyspace V) (hne : value ≠ [])
    (hpush : x.getBlockContext.pushKey ≠ [])
    (before : s.lists members (x.currentDB, key) = some (atEnd x.getBlockContext.lpop value l))
    (after : Keyspace.lists members st = Function.update (s.lists members) (x.currentDB, key) (some l)) :
    NextWoken members s c x key ({ s with store := st }.put c
      { x with block := some x.getBlockContext, phase := .pushing key value })
  /-- The empty string is dropped. -/
  | dropped (l : List Bytes) (st : Keyspace V)
    (before : s.lists members (x.currentDB, key) = some (atEnd x.getBlockContext.lpop [] l))
    (after : Keyspace.lists members st = Function.update (s.lists members) (x.currentDB, key) (some l)) :
    NextWoken members s c x key
      ({ s with store := st }.put c { x with block := some x.getBlockContext })
  | nothing (before : s.lists members (x.currentDB, key) = some [] ∨
      s.lists members (x.currentDB, key) = none) :
    NextWoken members s c x key (s.put c { x with block := some x.getBlockContext })

theorem nextWoken (hk : kv.Lawful) (hl : kv.ListLaws members) (key : Bytes) :
    NextWoken members s c x key (s.wakeBlockedList kv c x key) := by
  unfold wakeBlockedList
  dsimp only
  cases hl.popResult hk s.store x.currentDB x.getBlockContext.lpop key with
  | element value l before ret str after =>
    rw [ret, str]
    by_cases hne : value = []
    · subst hne
      rw [if_neg fun h => h.2 rfl]
      exact .dropped l _ before after
    · rw [if_pos ⟨rfl, hne⟩]
      split
      next hpush => exact .answered value l _ hne hpush before after
      next hpush => exact .taken value l _ hne hpush before after
  | missing before e he ret store =>
    rw [ret, store, if_neg fun h => nomatch h.1]
    exact .nothing (.inl before)
  | wrongType before ret store =>
    rw [ret, store, if_neg fun h => nomatch h.1]
    exact .nothing (.inr before)

/-- What the push of `WakeBlockedList` comes to. -/
inductive NextPush (members : Option V → Option (List Bytes)) (s : Server V Num C) (c : C) (x : Client Num)
    (key value : Bytes) : Server V Num C → Prop
  | pushed (m : List Bytes) (st : Keyspace V)
    (before : s.lists members (x.currentDB, x.getBlockContext.pushKey) = some m)
    (after : Keyspace.lists members st = Function.update (s.lists members)
      (x.currentDB, x.getBlockContext.pushKey) (some (atEnd false value m))) :
    NextPush members s c x key value ({ s with store := st }.answerBlocked c x
      (some ⟨key, value, x.getBlockContext.lpop, some x.getBlockContext.pushKey⟩) (.str value))
  | refused (before : s.lists members (x.currentDB, x.getBlockContext.pushKey) = none) :
    NextPush members s c x key value (s.put c { x with phase := .puttingBack key value .invalidType })

theorem nextPush (hk : kv.Lawful) (hl : kv.ListLaws members) (key value : Bytes) :
    NextPush members s c x key value (s.pushWoken kv c x key value) := by
  unfold pushWoken
  dsimp only
  cases hl.pushResult hk s.store x.currentDB false x.getBlockContext.pushKey value with
  | pushed m n before ret after =>
    change (kv.exec _ _ (.rpush _ [value] false)).ret = _ at ret
    rw [ret]
    exact .pushed m _ before after
  | wrongType before ret store =>
    change (kv.exec _ _ (.rpush _ [value] false)).ret = _ at ret
    change (kv.exec _ _ (.rpush _ [value] false)).store = _ at store
    rw [ret, store]
    exact .refused before

/-- What putting an element back comes to. -/
inductive NextBack (members : Option V → Option (List Bytes)) (s : Server V Num C) (c : C) (x : Client Num)
    (key value : Bytes) (err : KvErr) : Server V Num C → Prop
  | back (l : List Bytes) (st : Keyspace V) (before : s.lists members (x.currentDB, key) = some l)
    (after : Keyspace.lists members st = Function.update (s.lists members) (x.currentDB, key)
      (some (atEnd x.getBlockContext.lpop value l))) :
    NextBack members s c x key value err
      ({ s with store := st }.answerBlocked c x none (fillErrorReply err))
  /-- There is no list any more. -/
  | lost (before : s.lists members (x.currentDB, key) = none) :
    NextBack members s c x key value err (s.answerBlocked c x none (fillErrorReply err))

theorem nextBack (hk : kv.Lawful) (hl : kv.ListLaws members) (key value : Bytes) (err : KvErr) :
    NextBack members s c x key value err (s.putBack kv c x key value err) := by
  unfold putBack
  dsimp only
  cases hl.pushResult hk s.store x.currentDB x.getBlockContext.lpop key value with
  | pushed l n before ret after => exact .back l _ before after
  | wrongType before ret store =>
    rw [store]
    exact .lost before

end Lists

/-! ### Without interruption -/

section Uninterrupted

variable {cfg kv s c x}

/-- The client goes on, if it is not in the event loop. -/
def goOn (cfg : HandlerConfig) (kv : Kv V Num) (c : C) (s : Server V Num C) : Server V Num C :=
  match s.client c with
  | none => s
  | some x => if x.idle then s else s.run cfg kv c x

theorem goOn_idle (hx : s.client c = some x) (hidle : x.idle = true) : s.goOn cfg kv c = s := by
  rw [goOn, hx]
  exact if_pos hidle

theorem goOn_clear (hidle : x.idle = true) : (s.clearBlockKeys c x).goOn cfg kv c = s.clearBlockKeys c x :=
  goOn_idle client_clearBlockKeys hidle

theorem goOn_put (hidle : x.idle = true) : (s.put c x).goOn cfg kv c = s.put c x :=
  goOn_idle client_put hidle

theorem goOn_busy (hphase : x.phase ≠ .ready) : (s.put c x).goOn cfg kv c = (s.put c x).run cfg kv c x := by
  rw [goOn, client_put]
  exact if_neg fun hidle => hphase (of_decide_eq_true (Bool.and_eq_true_iff.mp hidle).2)

variable (cfg kv c) in
theorem pushWoken_uninterrupted (hvia : x.via = none) (key value : Bytes) :
    ((s.pushWoken kv c x key value).goOn cfg kv c).store =
      match (kv.exec s.store x.currentDB (.rpush x.getBlockContext.pushKey [value] false)).ret with
      | .err _ => (kv.exec (kv.exec s.store x.currentDB (.rpush x.getBlockContext.pushKey [value] false)).store
          x.currentDB (pushCall x.getBlockContext.lpop key [value])).store
      | .ok _ => (kv.exec s.store x.currentDB (.rpush x.getBlockContext.pushKey [value] false)).store := by
  unfold pushWoken
  dsimp only
  cases (kv.exec s.store x.currentDB (.rpush x.getBlockContext.pushKey [value] false)).ret with
  | ok n =>
    dsimp only
    have hidle : (({ x with phase := .ready } : Client Num).replied
        (some ⟨key, value, x.getBlockContext.lpop, some x.getBlockContext.pushKey⟩) (.str value)).idle = true :=
      Bool.and_eq_true_iff.mpr ⟨Option.isNone_iff_eq_none.mpr hvia, rfl⟩
    rw [answerBlocked, goOn_clear hidle]
    exact store_clearBlockKeys
  | err e =>
    dsimp only
    rw [goOn_busy (by exact nofun)]
    exact store_clearBlockKeys

/-- **`WakeBlockedList`.** A callback that no other thread comes in between leaves the store as the function
does, which `blockedPath` is about. -/
theorem wakeBlockedList_uninterrupted (hidle : x.idle = true) (env : CallEnv) (hdb : env.db = x.currentDB)
    (key : Bytes) : (((s.wakeBlockedList kv c x key).goOn cfg kv c).goOn cfg kv c).store =
      (Comms.wakeBlockedList kv s.store env
        ⟨x.keys.toList, x.getBlockContext.pushKey, x.getBlockContext.lpop⟩ key).1.store := by
  have hvia : x.via = none := Option.isNone_iff_eq_none.mp (Bool.and_eq_true_iff.mp hidle).1
  unfold wakeBlockedList Comms.wakeBlockedList
  dsimp only
  rw [hdb]
  generalize kv.exec s.store x.currentDB (popCall x.getBlockContext.lpop key) = r
  obtain ⟨ret, int, num, str, strs, store⟩ := r
  have hwaits : ((({ s with store := store }.put c { x with block := some x.getBlockContext }).goOn cfg kv
      c).goOn cfg kv c).store = store := by
    have hidle' : ({ x with block := some x.getBlockContext } : Client Num).idle = true := hidle
    rw [goOn_put hidle', goOn_put hidle']
    rfl
  by_cases hpop : ret = .ok 0 ∧ str ≠ []
  · obtain ⟨rfl, hstr⟩ := hpop
    dsimp only
    rw [if_pos ⟨rfl, hstr⟩, if_neg hstr]
    by_cases hpush : x.getBlockContext.pushKey = []
    · rw [if_pos hpush, if_pos hpush]
      have hidle' : (({ x with
          block := some x.getBlockContext
          elements := x.elements ++ [Reply.str key, Reply.str str]
          phase := .ready } : Client Num).replied (some ⟨key, str, x.getBlockContext.lpop, none⟩)
            (.array (x.elements ++ [Reply.str key, Reply.str str]))).idle = true :=
        Bool.and_eq_true_iff.mpr ⟨(Bool.and_eq_true_iff.mp hidle).1, rfl⟩
      rw [answerBlocked, goOn_clear hidle', goOn_clear hidle']
      exact store_clearBlockKeys
    · rw [if_neg hpush, if_neg hpush, goOn_busy (by exact nofun)]
      have hpushed := pushWoken_uninterrupted cfg kv c
        (s := { s with store := store }.put c
          { x with block := some x.getBlockContext, phase := .pushing key str })
        (x := { x with block := some x.getBlockContext, phase := .pushing key str }) hvia key str
      refine hpushed.trans ?_
      change (match (kv.exec store x.currentDB (.rpush x.getBlockContext.pushKey [str] false)).ret with
        | .err _ => (kv.exec (kv.exec store x.currentDB (.rpush x.getBlockContext.pushKey [str] false)).store
            x.currentDB (pushCall x.getBlockContext.lpop key [str])).store
        | .ok _ => (kv.exec store x.currentDB (.rpush x.getBlockContext.pushKey [str] false)).store) = _
      cases (kv.exec store x.currentDB (.rpush x.getBlockContext.pushKey [str] false)).ret with
      | ok n => rfl
      | err e => rfl
  · dsimp only
    rw [if_neg hpop, hwaits]
    cases ret with
    | err e => rfl
    | ok n =>
      cases n with
      | zero =>
        rw [if_pos (by_contra fun hstr => hpop ⟨rfl, hstr⟩)]
        rfl
      | succ n => rfl

end Uninterrupted

end Server
end Blocking
end Comms
