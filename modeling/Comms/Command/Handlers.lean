import Comms.Command.Kv

/-!
# The command handlers

The handlers of the commands that work on keys, `command/*.cpp`. A handler is a function of the
store, the context it is called in and the arguments; its `Outcome` says what it did: the store and
the reply, the calls it made, the keys it passed to `FireKeyChangedEvent`, and what it did to
`*ctx.current_cmd`.

Most handlers make one call and differ in when they announce a change and what they answer; they are
`runCall` applied to their own values. The others have a body of their own.

* `runCall` — one call of the store, announced or not by the count it returns;
* `DataCommand.handler` — the handler of each command;
* `wakeBlockedList` — the end of a blocked list command, run by the event loop of its client.

An argument past the end reads as the empty string here; the source does not check the index.
-/

namespace Comms

/-- The context a handler is called in: `ctx.currentDB`, `ctx.flags.no_wal`, whether `ctx.client` is
set, and whether `ctx.current_cmd` is the frame that is being executed, as in `Call` and `Exec`, or
that of a script around it. -/
structure CallEnv where
  db : DBID
  noWal : Bool
  hasClient : Bool
  aliased : Bool
deriving DecidableEq, Repr

/-- What a handler did to `*ctx.current_cmd`. -/
inductive Rewrite
  | keep
  /-- `RewriteClientCommand(ctx, frame)`. -/
  | replace (frame : DataFrame)
  /-- `ctx.current_cmd->SetCommand(name)`. -/
  | setCommand (name : DataCommand)
deriving DecidableEq, Repr

/-- `ListBlockContext` of a client that waits, less the timer. -/
structure ListBlock where
  keys : List (DBID × Bytes)
  pushKey : Bytes
  lpop : Bool
deriving DecidableEq, Repr

/-- What a handler did. -/
structure Outcome (V Num : Type) where
  store : Keyspace V
  reply : Reply Num
  /-- `ctx.currentDB` afterwards. -/
  db : DBID
  /-- The calls that may change the store, all of them in the database of the context. -/
  calls : List (KvCall Num)
  /-- The arguments of `FireKeyChangedEvent`. -/
  fired : List (DBID × Bytes)
  rewrite : Rewrite
  /-- The client waits now. -/
  blocked : Option ListBlock
  /-- The arguments of `WakeBlockingListsByKey`. -/
  wakes : List Bytes

/-- `ctx.data_change`, which only `FireKeyChangedEvent` sets. -/
def Outcome.dataChange {V Num : Type} (o : Outcome V Num) : Bool := !o.fired.isEmpty

section Handlers

variable {V Num : Type} (kv : Kv V Num) (s : Keyspace V) (env : CallEnv) (args : List Bytes)

/-- `cmd.GetArguments()[i]`. -/
def arg (args : List Bytes) (i : ℕ) : Bytes := args.getD i []

/-- Nothing but a reply. -/
def Outcome.answer (reply : Reply Num) : Outcome V Num :=
  { store := s, reply := reply, db := env.db, calls := [], fired := [], rewrite := .keep
    blocked := none, wakes := [] }

/-- `FillErrorReply`: the errors it has no text for leave the reply alone. -/
def fillErrorReply : KvErr → Reply Num
  | .invalidArgs | .invalidMinMax | .invalidCoordType => .fillError "Invalid arguments."
  | .invalidType => .fillError "Operation against a key holding the wrong kind of value."
  | .corruptedHllValue | .notHyperloglogStr =>
    .fillError "INVALIDOBJ Corrupted HLL object detected."
  | .syntaxError => .fillError "Syntax error"
  | .entryNotExist | .dbNotExist => .fillError "Entry not exist"
  | .permissionDenied => .fillError "Permission denied"
  | .entryExisted => .fillError "Entry already exist"
  | .notInteger | .notNumber | .invalidNumber | .bitOutrange | .argsExceedLimit
  | .invalidCoordValue => .fillError "value is not a valid number or out of range"
  | .notImplemented => .fillError "command not implemented"
  | .offsetOutrange => .fillError "index out of range"
  | .minusOne => .none

/-- `if (err == ERR_ENTRY_NOT_EXIST || err == ERR_DB_NOT_EXIST) reply.type = REDIS_REPLY_NIL`. -/
def nilIfMissing : KvErr → Reply Num
  | .entryNotExist | .dbNotExist => .nil
  | e => fillErrorReply e

/-- `GetInt64Value`. -/
def withInt64 (str : Bytes) (k : ℤ → Outcome V Num) : Outcome V Num :=
  match stringToInt64 str with
  | none => .answer s env (.fillError "value is not a integer or out of range")
  | some v => k v

/-- `GetDoubleValue`. -/
def withDouble (str : Bytes) (k : Num → Outcome V Num) : Outcome V Num :=
  match kv.stringToDouble str with
  | none => .answer s env (.fillError "value is not a float or out of range")
  | some v => k v

/-- `check_uint64_arg`. -/
def withUInt64 (str : Bytes) (k : ℕ → Outcome V Num) : Outcome V Num :=
  match stringToUInt64 str with
  | none => .answer s env (.fillError "value is not an integer or out of range.")
  | some v => k v

/-! ### One call -/

/-- When a handler announces a change, by the count its call returned: `err >= 0`, `err > 0`, or
`err == 0`. -/
inductive Fires
  | always
  | positive
  | zero
deriving DecidableEq, Repr

def Fires.on : Fires → ℕ → Bool
  | .always, _ => true
  | .positive, n => 0 < n
  | .zero, n => n = 0

/-- What is answered when the call does not fail: `fill_int_reply(err)`, `fill_ok_reply`, or what
the output parameters hold. -/
def intReply (n : ℕ) (_ : KvResult V Num) : Reply Num := .int n

def okReply (_ : ℕ) (_ : KvResult V Num) : Reply Num := .fillOk

def strReply (_ : ℕ) (r : KvResult V Num) : Reply Num := .str r.str

/-- A reply for `err == 0`; a positive `err` has no text in `FillErrorReply`. -/
def onZero (reply : KvResult V Num → Reply Num) (n : ℕ) (r : KvResult V Num) : Reply Num :=
  if n = 0 then reply r else .none

/-- One call of the store. When it does not fail it is announced for `keys`, or not, by the count it
returned. -/
def runCall (call : KvCall Num) (fires : Fires) (keys : List (DBID × Bytes))
    (reply : ℕ → KvResult V Num → Reply Num) (errReply : KvErr → Reply Num) : Outcome V Num :=
  let r := kv.exec s env.db call
  match r.ret with
  | .ok n =>
    { store := r.store, reply := reply n r, db := env.db, calls := [call]
      fired := if fires.on n then keys else [], rewrite := .keep, blocked := none, wakes := [] }
  | .err e =>
    { store := r.store, reply := errReply e, db := env.db, calls := [call], fired := []
      rewrite := .keep, blocked := none, wakes := [] }

section RunCall

variable {kv s env}

theorem runCall_store (call : KvCall Num) (fires : Fires) (keys : List (DBID × Bytes))
    (reply : ℕ → KvResult V Num → Reply Num) (errReply : KvErr → Reply Num) :
    (runCall kv s env call fires keys reply errReply).store = (kv.exec s env.db call).store := by
  unfold runCall
  dsimp only
  split <;> rfl

theorem runCall_calls (call : KvCall Num) (fires : Fires) (keys : List (DBID × Bytes))
    (reply : ℕ → KvResult V Num → Reply Num) (errReply : KvErr → Reply Num) :
    (runCall kv s env call fires keys reply errReply).calls = [call] := by
  unfold runCall
  dsimp only
  split <;> rfl

theorem runCall_fired_ok {call : KvCall Num} {n : ℕ} (h : (kv.exec s env.db call).ret = .ok n)
    (fires : Fires) (keys : List (DBID × Bytes)) (reply : ℕ → KvResult V Num → Reply Num)
    (errReply : KvErr → Reply Num) :
    (runCall kv s env call fires keys reply errReply).fired = if fires.on n then keys else [] := by
  simp [runCall, h]

theorem runCall_fired (call : KvCall Num) (fires : Fires) (keys : List (DBID × Bytes))
    (reply : ℕ → KvResult V Num → Reply Num) (errReply : KvErr → Reply Num) :
    (runCall kv s env call fires keys reply errReply).fired = [] ∨
      (runCall kv s env call fires keys reply errReply).fired = keys := by
  unfold runCall
  dsimp only
  split
  · dsimp only
    split <;> simp
  · exact .inl rfl

theorem runCall_rewrite (call : KvCall Num) (fires : Fires) (keys : List (DBID × Bytes))
    (reply : ℕ → KvResult V Num → Reply Num) (errReply : KvErr → Reply Num) :
    (runCall kv s env call fires keys reply errReply).rewrite = .keep := by
  unfold runCall
  dsimp only
  split <;> rfl

end RunCall

/-- `WakeBlockingListsByKey(ctx, key)` behind `FireKeyChangedEvent(ctx, key)`. -/
def thenWake (o : Outcome V Num) (key : Bytes) : Outcome V Num :=
  if o.dataChange then { o with wakes := [key] } else o

/-! ### Strings -/

def append : Outcome V Num :=
  runCall kv s env (.append (arg args 0) (arg args 1)) .always [(env.db, arg args 0)] intReply
    fillErrorReply

def psetEX : Outcome V Num :=
  match stringToUInt32 (arg args 1) with
  | none => .answer s env (.fillError "value is not an integer or out of range")
  | some mills =>
    runCall kv s env (.set (arg args 0) (arg args 2) (-1) mills (-1)) .zero [(env.db, arg args 0)]
      (onZero fun _ => .fillOk) fillErrorReply

/-- `MSet`; `msetnx` is its type. The value returned by the store's `MSet` is not looked at. -/
def mset (msetnx : Bool) : Outcome V Num :=
  if args.length % 2 ≠ 0 then .answer s env (.fillError "wrong number of arguments for MSET")
  else
    let kvs := pairUp args
    let keys := kvs.map fun p => (env.db, p.1)
    if msetnx then
      runCall kv s env (.msetNX kvs) .zero keys (fun n _ => .int (if n = 0 then 1 else 0))
        fun _ => .int 0
    else
      let r := kv.exec s env.db (.mset kvs)
      { store := r.store, reply := .fillOk, db := env.db, calls := [.mset kvs], fired := keys
        rewrite := .keep, blocked := none, wakes := [] }

/-- `IncrbyFloat`. `key` is a reference into the arguments of the frame. `RewriteClientCommand`
assigns the new arguments to `*ctx.current_cmd`; if that is the frame itself, `key` is the first of
the new arguments when `FireKeyChangedEvent` reads it. -/
def incrbyFloat : Outcome V Num :=
  withDouble kv s env (arg args 1) fun increment =>
    let call := .incrByFloat (arg args 0) increment
    let r := kv.exec s env.db call
    match r.ret with
    | .ok 0 =>
      let key := if !env.noWal && env.aliased then arg args 1 else arg args 0
      { store := r.store, reply := .double r.num, db := env.db, calls := [call]
        fired := [(env.db, key)]
        rewrite := if env.noWal then .keep else .replace ⟨.set, [arg args 1, kv.fastDtoa r.num]⟩
        blocked := none, wakes := [] }
    | .ok _ => { Outcome.answer r.store env .none with calls := [call] }
    | .err e => { Outcome.answer r.store env (fillErrorReply e) with calls := [call] }

/-- `IncrDecrCommand`. -/
def incrDecrCommand (key : Bytes) (incr : ℤ) : Outcome V Num :=
  runCall kv s env (.incrBy key incr) .zero [(env.db, key)] (onZero fun r => .int r.int)
    fillErrorReply

def incrby : Outcome V Num :=
  withInt64 s env (arg args 1) fun increment => incrDecrCommand kv s env (arg args 0) increment

def incr : Outcome V Num := incrDecrCommand kv s env (arg args 0) 1

/-- `Decrby`; the negation of an `int64` wraps. -/
def decrby : Outcome V Num :=
  withInt64 s env (arg args 1) fun increment =>
    incrDecrCommand kv s env (arg args 0) ((-increment).bmod (2 ^ 64))

def decr : Outcome V Num := incrDecrCommand kv s env (arg args 0) (-1)

def getSet : Outcome V Num :=
  runCall kv s env (.getSet (arg args 0) (arg args 1)) .always [(env.db, arg args 0)]
    (fun n r => if n = 1 then .nil else .str r.str) fillErrorReply

/-- The options of `SET`: `EX`, `PX`, and `1` for `XX`, `0` for `NX`. -/
structure SetOptions where
  ex : ℤ
  px : ℤ
  nxXx : ℤ
deriving DecidableEq, Repr

/-- The loop over the options of `SET`; the error is the text of the reply. -/
def setOptions : List Bytes → SetOptions → Except String SetOptions
  | [], o => .ok o
  | opt :: rest, o =>
    if eqNoCase opt [112, 120] || eqNoCase opt [101, 120] then
      match rest with
      | [] => .error "value is not an integer or out of range"
      | n :: rest =>
        match rawToInt64 n with
        | none => .error "value is not an integer or out of range"
        | some iv =>
          if iv < 0 then .error "value is not an integer or out of range"
          else if eqNoCase opt [112, 120] then setOptions rest { o with px := iv }
          -- `int32_t ex`
          else setOptions rest { o with ex := iv.bmod (2 ^ 32) }
    else if eqNoCase opt [120, 120] then setOptions rest { o with nxXx := 1 }
    else if eqNoCase opt [110, 120] then setOptions rest { o with nxXx := 0 }
    else .error "syntax error"

def set : Outcome V Num :=
  match setOptions (args.drop 2) ⟨-1, -1, -1⟩ with
  | .error text => .answer s env (.fillError text)
  | .ok o =>
    runCall kv s env (.set (arg args 0) (arg args 1) o.ex o.px o.nxXx) .zero
      [(env.db, arg args 0)] (onZero fun _ => .fillOk)
      fun e => if e = .entryExisted ∨ e = .entryNotExist then .nil else fillErrorReply e

def setEX : Outcome V Num :=
  withInt64 s env (arg args 1) fun secs =>
    runCall kv s env (.setEX (arg args 0) secs (arg args 2)) .zero [(env.db, arg args 0)]
      (onZero fun _ => .fillOk) fillErrorReply

def setNX : Outcome V Num :=
  runCall kv s env (.setNX (arg args 0) (arg args 1)) .zero [(env.db, arg args 0)]
    (onZero fun _ => .int 1) fun e => if e = .entryExisted then .int 0 else fillErrorReply e

def setRange : Outcome V Num :=
  withInt64 s env (arg args 1) fun offset =>
    runCall kv s env (.setRange (arg args 0) offset (arg args 2)) .positive
      [(env.db, arg args 0)] intReply
      fun e => if e = .entryNotExist ∨ e = .dbNotExist then .int 0 else fillErrorReply e

/-- `Bitop`. The event is fired for the first argument, which is the name of the operation. -/
def bitop : Outcome V Num :=
  runCall kv s env (.bitOP (arg args 0) (arg args 1) (args.drop 2)) .always
    [(env.db, arg args 0)] intReply fillErrorReply

def setBit : Outcome V Num :=
  match stringToUInt64 (arg args 1) with
  | none => .answer s env (.fillError "value is not an integer or out of range")
  | some offset =>
    if arg args 2 ≠ [49] ∧ arg args 2 ≠ [48] then
      .answer s env (.fillError "bit is not an integer or out of range")
    else
      runCall kv s env (.setBit (arg args 0) offset (arg args 2 ≠ [48])) .always
        [(env.db, arg args 0)] (fun n _ => .int (if n ≠ 0 then 1 else 0)) fillErrorReply

/-! ### Hashes -/

def hdel : Outcome V Num :=
  runCall kv s env (.hdel (arg args 0) (args.drop 1)) .positive [(env.db, arg args 0)] intReply
    fillErrorReply

def hincrby : Outcome V Num :=
  withInt64 s env (arg args 2) fun increment =>
    runCall kv s env (.hincrBy (arg args 0) (arg args 1) increment) .zero [(env.db, arg args 0)]
      (onZero fun r => .int r.int) fillErrorReply

/-- `HIncrbyFloat`. -/
def hincrbyFloat : Outcome V Num :=
  withDouble kv s env (arg args 2) fun increment =>
    let call := .hincrByFloat (arg args 0) (arg args 1) increment
    let r := kv.exec s env.db call
    match r.ret with
    | .ok 0 =>
      { store := r.store, reply := .double r.num, db := env.db, calls := [call]
        fired := [(env.db, arg args 0)]
        rewrite := if env.noWal then .keep else .replace ⟨.hset, [arg args 0, kv.fastDtoa r.num]⟩
        blocked := none, wakes := [] }
    | .ok _ => { Outcome.answer r.store env .none with calls := [call] }
    | .err e => { Outcome.answer r.store env (fillErrorReply e) with calls := [call] }

/-- `HMSet`. `size() - 1` is a `size_t`: without arguments it is odd. -/
def hmset : Outcome V Num :=
  if (args.length + 1) % 2 ≠ 0 then .answer s env (fillErrorReply .invalidArgs)
  else
    runCall kv s env (.hmset (arg args 0) (pairUp (args.drop 1))) .always [(env.db, arg args 0)]
      okReply fillErrorReply

def hset : Outcome V Num :=
  runCall kv s env (.hset (arg args 0) (arg args 1) (arg args 2) false) .always
    [(env.db, arg args 0)] intReply fillErrorReply

def hsetNX : Outcome V Num :=
  runCall kv s env (.hset (arg args 0) (arg args 1) (arg args 2) true) .positive
    [(env.db, arg args 0)] intReply fillErrorReply

/-! ### Sets -/

def sadd : Outcome V Num :=
  runCall kv s env (.sadd (arg args 0) (args.drop 1)) .positive [(env.db, arg args 0)] intReply
    fillErrorReply

def sdiffStore : Outcome V Num :=
  runCall kv s env (.sdiffStore (arg args 0) (args.drop 1)) .positive [(env.db, arg args 0)]
    intReply fillErrorReply

def sinterStore : Outcome V Num :=
  runCall kv s env (.sinterStore (arg args 0) (args.drop 1)) .positive [(env.db, arg args 0)]
    intReply fillErrorReply

def sunionStore : Outcome V Num :=
  runCall kv s env (.sunionStore (arg args 0) (args.drop 1)) .positive [(env.db, arg args 0)]
    intReply fillErrorReply

def smove : Outcome V Num :=
  runCall kv s env (.smove (arg args 0) (arg args 1) (arg args 2)) .positive
    [(env.db, arg args 0), (env.db, arg args 1)] intReply fillErrorReply

/-- The part of `SPop` behind the argument check. -/
def spopCount (count : ℤ) : Outcome V Num :=
  let call := .spop (arg args 0) count
  let r := kv.exec s env.db call
  let reply := if args.length = 1 then .str (r.strs.headD []) else .strArray r.strs
  match r.ret with
  | .ok 0 => { Outcome.answer r.store env reply with calls := [call] }
  | .ok _ =>
    { store := r.store, reply := reply, db := env.db, calls := [call]
      fired := [(env.db, arg args 0)]
      rewrite := if env.noWal then .keep else .replace ⟨.srem, arg args 0 :: r.strs⟩
      blocked := none, wakes := [] }
  | .err e => { Outcome.answer r.store env (fillErrorReply e) with calls := [call] }

/-- `SPop`. -/
def spop : Outcome V Num :=
  if 1 < args.length then withInt64 s env (arg args 1) (spopCount kv s env args)
  else spopCount kv s env args 1

def srem : Outcome V Num :=
  runCall kv s env (.srem (arg args 0) (args.drop 1)) .positive [(env.db, arg args 0)] intReply
    fillErrorReply

/-! ### Lists -/

/-- `LInsert`; `-1` is a count as far as the reply goes. -/
def linsert : Outcome V Num :=
  if eqNoCase (arg args 1) [98, 101, 102, 111, 114, 101] ||
      eqNoCase (arg args 1) [97, 102, 116, 101, 114] then
    runCall kv s env (.linsert (arg args 0) (eqNoCase (arg args 1) [98, 101, 102, 111, 114, 101])
        (arg args 2) (arg args 3)) .positive [(env.db, arg args 0)] intReply
      fun e => if e = .minusOne then .int (-1) else fillErrorReply e
  else .answer s env (.fillError "Syntax error")

def lpop : Outcome V Num :=
  runCall kv s env (.lpop (arg args 0)) .always [(env.db, arg args 0)] strReply nilIfMissing

def rpop : Outcome V Num :=
  runCall kv s env (.rpop (arg args 0)) .always [(env.db, arg args 0)] strReply nilIfMissing

def lpush : Outcome V Num :=
  thenWake (runCall kv s env (.lpush (arg args 0) (args.drop 1) false) .always
    [(env.db, arg args 0)] intReply fillErrorReply) (arg args 0)

def lpushx : Outcome V Num :=
  thenWake (runCall kv s env (.lpush (arg args 0) (args.drop 1) true) .positive
    [(env.db, arg args 0)] intReply fillErrorReply) (arg args 0)

def rpush : Outcome V Num :=
  thenWake (runCall kv s env (.rpush (arg args 0) (args.drop 1) false) .always
    [(env.db, arg args 0)] intReply fillErrorReply) (arg args 0)

def rpushx : Outcome V Num :=
  thenWake (runCall kv s env (.rpush (arg args 0) (args.drop 1) true) .positive
    [(env.db, arg args 0)] intReply fillErrorReply) (arg args 0)

def lrem : Outcome V Num :=
  withInt64 s env (arg args 1) fun count =>
    runCall kv s env (.lrem (arg args 0) count (arg args 2)) .positive [(env.db, arg args 0)]
      intReply fillErrorReply

def lset : Outcome V Num :=
  withInt64 s env (arg args 1) fun index =>
    runCall kv s env (.lset (arg args 0) index (arg args 2)) .always [(env.db, arg args 0)] okReply
      fillErrorReply

def ltrim : Outcome V Num :=
  withInt64 s env (arg args 1) fun start =>
    withInt64 s env (arg args 2) fun end_ =>
      runCall kv s env (.ltrim (arg args 0) start end_) .always [(env.db, arg args 0)] okReply
        fillErrorReply

/-- `RPopLPush`; `brpoplpush` is its type. -/
def rpopLPush (brpoplpush : Bool) : Outcome V Num :=
  let o := runCall kv s env (.rpoplpush (arg args 0) (arg args 1)) .always
    [(env.db, arg args 0), (env.db, arg args 1)] strReply nilIfMissing
  if o.dataChange ∧ brpoplpush then { o with rewrite := .setCommand .rpoplpush } else o

/-- `LPop` or `RPop` of the store. -/
def popCall (lpop : Bool) (key : Bytes) : KvCall Num := if lpop then .lpop key else .rpop key

/-- How the loop over the keys of `BLPOP` ends. -/
inductive PopScan
  | popped (key value : Bytes)
  /-- `FillErrorReply(ctx, err)`; a positive `err` has no text. -/
  | failed (e : Option KvErr)
  | nothing
deriving DecidableEq, Repr

/-- The loop over the keys of `BLPOP`: the first element that is not the empty string is taken. -/
def popScan (db : DBID) (lpop : Bool) : List Bytes → Keyspace V → List (KvCall Num) →
    PopScan × Keyspace V × List (KvCall Num)
  | [], s, calls => (.nothing, s, calls)
  | key :: keys, s, calls =>
    let r := kv.exec s db (popCall lpop key)
    let calls := calls ++ [popCall lpop key]
    match r.ret with
    | .ok 0 =>
      if r.str ≠ [] then (.popped key r.str, r.store, calls)
      else popScan db lpop keys r.store calls
    | .ok _ => (.failed none, r.store, calls)
    | .err .entryNotExist | .err .dbNotExist => popScan db lpop keys r.store calls
    | .err e => (.failed (some e), r.store, calls)

/-- `BLPop` and `BRPop`. -/
def blpop (lpop : Bool) : Outcome V Num :=
  match stringToUInt32 (args.getLastD []) with
  | none => .answer s env (.fillError "timeout is not an integer or out of range")
  | some _ =>
    let (scan, store, calls) := popScan kv env.db lpop args.dropLast s []
    match scan with
    | .popped key value =>
      { store := store, reply := .array [.str key, .str value], db := env.db, calls := calls
        fired := [(env.db, key)], rewrite := .replace ⟨if lpop then .lpop else .rpop, [key]⟩
        blocked := none, wakes := [] }
    | .failed e => { Outcome.answer store env (e.elim .none fillErrorReply) with calls := calls }
    | .nothing =>
      -- without a client `lpop` keeps its default
      { Outcome.answer store env .none with
        calls := calls
        blocked := some ⟨args.dropLast.map fun key => (env.db, key), [], env.hasClient && lpop⟩ }

/-- `BRPopLPush`. -/
def brpopLPush : Outcome V Num :=
  match stringToUInt32 (args.getLastD []) with
  | none => .answer s env (.fillError "timeout is not an integer or out of range")
  | some _ =>
    let o := rpopLPush kv s env args true
    if o.reply.isNil then
      { o with reply := .none, blocked := some ⟨[(env.db, arg args 0)], arg args 1, false⟩ }
    else o

/-- `WakeBlockedList`: an element is popped for the client that waits, and with `pushKey` it is pushed
there. The second component is what is passed to `WriteWAL`; nothing is announced. -/
def wakeBlockedList (block : ListBlock) (key : Bytes) : Outcome V Num × Option DataFrame :=
  let pop := popCall block.lpop key
  let r := kv.exec s env.db pop
  let waits := { Outcome.answer r.store env .none with calls := [pop], blocked := some block }
  match r.ret with
  | .ok 0 =>
    if r.str = [] then (waits, none)
    else if block.pushKey = [] then
      ({ Outcome.answer r.store env (.array [.str key, .str r.str]) with calls := [pop] },
        if env.noWal then none else some ⟨if block.lpop then .lpop else .rpop, [key]⟩)
    else
      let push := .rpush block.pushKey [r.str] false
      let pushed := kv.exec r.store env.db push
      match pushed.ret with
      | .err e =>
        -- the element goes back to where it was taken from
        let back := if block.lpop then .lpush key [r.str] false else .rpush key [r.str] false
        ({ Outcome.answer (kv.exec pushed.store env.db back).store env (fillErrorReply e) with
            calls := [pop, push, back] }, none)
      | .ok _ =>
        ({ Outcome.answer pushed.store env (.str r.str) with calls := [pop, push] },
          if env.noWal then none else some ⟨.rpoplpush, [key]⟩)
  | _ => (waits, none)

/-! ### Sorted sets -/

/-- The score and value arguments of `ZADD`, until one is not a number. -/
def scorePairs : List (Bytes × Bytes) → Option (List (Num × Bytes))
  | [] => some []
  | (score, value) :: rest =>
    (kv.stringToDouble score).bind fun x => (scorePairs rest).map ((x, value) :: ·)

def zadd : Outcome V Num :=
  match scorePairs kv (pairUp (args.drop 1)) with
  | none => .answer s env (.fillError "value is not a float or out of range")
  | some values =>
    runCall kv s env (.zadd (arg args 0) values) .always [(env.db, arg args 0)] intReply
      fillErrorReply

def zincrby : Outcome V Num :=
  withDouble kv s env (arg args 1) fun incr =>
    runCall kv s env (.zincrBy (arg args 0) incr (arg args 2)) .always [(env.db, arg args 0)]
      (fun _ r => .double r.num) fillErrorReply

def zrem : Outcome V Num :=
  runCall kv s env (.zrem (arg args 0) (args.drop 1)) .positive [(env.db, arg args 0)] intReply
    fillErrorReply

def zremRangeByRank : Outcome V Num :=
  withInt64 s env (arg args 1) fun start =>
    withInt64 s env (arg args 2) fun stop =>
      runCall kv s env (.zremRangeByRank (arg args 0) start stop) .positive
        [(env.db, arg args 0)] intReply fillErrorReply

def zremRangeByScore : Outcome V Num :=
  runCall kv s env (.zremRangeByScore (arg args 0) (arg args 1) (arg args 2)) .positive
    [(env.db, arg args 0)] intReply fillErrorReply

def zremRangeByLex : Outcome V Num :=
  runCall kv s env (.zremRangeByLex (arg args 0) (arg args 1) (arg args 2)) .positive
    [(env.db, arg args 0)] intReply fillErrorReply

/-- `string_touint32` of every weight. -/
def weightArgs : List Bytes → Option (List ℕ)
  | [] => some []
  | w :: ws => (stringToUInt32 w).bind fun n => (weightArgs ws).map (n :: ·)

/-- The loop over the options of `ZINTERSTORE`; `weights` go on from the earlier ones. After
`WEIGHTS` the loop goes on behind as many arguments as there are weights by then. -/
def zstoreOptions (numkeys : ℕ) : ℕ → List Bytes → List ℕ → Bytes → Option (List ℕ × Bytes)
  | 0, _, weights, aggregate => some (weights, aggregate)
  | _, [], weights, aggregate => some (weights, aggregate)
  | fuel + 1, opt :: rest, weights, aggregate =>
    if eqNoCase opt [119, 101, 105, 103, 104, 116, 115] then
      -- `args.size() < i + keys.size()`
      if rest.length + 1 < numkeys then none
      else
        match weightArgs ((List.range numkeys).map (arg rest)) with
        | none => none
        | some ws =>
          zstoreOptions numkeys fuel (rest.drop (weights ++ ws).length) (weights ++ ws) aggregate
    else if eqNoCase opt [97, 103, 103, 114, 101, 103, 97, 116, 101] then
      zstoreOptions numkeys fuel (rest.drop 1) weights (arg rest 0)
    else none

/-- `ZInterStore` and `ZUnionStore`; nothing is announced. -/
def zinterStore (inter : Bool) : Outcome V Num :=
  match stringToInt32 (arg args 1) with
  | none => .answer s env (fillErrorReply .invalidArgs)
  | some numkeys =>
    if numkeys ≤ 0 ∨ (args.length : ℤ) < numkeys + 1 then
      .answer s env (fillErrorReply .invalidArgs)
    else
      let n := numkeys.toNat
      let keys := (List.range n).map fun i => arg args (i + 2)
      match zstoreOptions n args.length (args.drop (n + 2)) [] [] with
      | none => .answer s env (fillErrorReply .invalidArgs)
      | some (weights, aggregate) =>
        let call := if inter then .zinterStore (arg args 0) keys weights aggregate
          else .zunionStore (arg args 0) keys weights aggregate
        runCall kv s env call .always [] intReply fillErrorReply

/-! ### Keys -/

def rename : Outcome V Num :=
  runCall kv s env (.rename (arg args 0) (arg args 1)) .always
    [(env.db, arg args 0), (env.db, arg args 1)] okReply fillErrorReply

def renameNX : Outcome V Num :=
  runCall kv s env (.renameNX (arg args 0) (arg args 1)) .positive
    [(env.db, arg args 0), (env.db, arg args 1)] intReply fillErrorReply

def move : Outcome V Num :=
  match stringToUInt32 (arg args 1) with
  | none => .answer s env (.fillError "value is not an integer or out of range")
  | some dst =>
    runCall kv s env (.move (arg args 0) dst) .positive [(env.db, arg args 0), (dst, arg args 0)]
      intReply fillErrorReply

def persist : Outcome V Num :=
  runCall kv s env (.persist (arg args 0)) .positive [(env.db, arg args 0)] intReply
    fillErrorReply

def pexpire : Outcome V Num :=
  withUInt64 s env (arg args 1) fun v =>
    runCall kv s env (.pexpire (arg args 0) v) .positive [(env.db, arg args 0)] intReply
      fillErrorReply

def pexpireat : Outcome V Num :=
  withUInt64 s env (arg args 1) fun v =>
    runCall kv s env (.pexpireat (arg args 0) v) .positive [(env.db, arg args 0)] intReply
      fillErrorReply

def expire : Outcome V Num :=
  withUInt64 s env (arg args 1) fun v =>
    runCall kv s env (.expire (arg args 0) v) .positive [(env.db, arg args 0)] intReply
      fillErrorReply

/-- `Expireat`; the product is taken in `uint64`. -/
def expireat : Outcome V Num :=
  withUInt64 s env (arg args 1) fun v =>
    runCall kv s env (.pexpireat (arg args 0) (v * 1000 % 2 ^ 64)) .positive
      [(env.db, arg args 0)] intReply fillErrorReply

def del : Outcome V Num :=
  runCall kv s env (.del args) .positive (args.map fun key => (env.db, key)) intReply
    fillErrorReply

/-- The options of `SORT`. -/
structure SortOptions where
  desc : Bool
  alpha : Bool
  offset : ℤ
  count : ℤ
  by_ : Bytes
  gets : List Bytes
  store : Bytes
deriving DecidableEq, Repr

/-- The loop over the options of `SORT`; an option that is not valid ends it without a reply. -/
def sortOptions : ℕ → List Bytes → SortOptions → Option SortOptions
  | 0, _, o => some o
  | _, [], o => some o
  | fuel + 1, opt :: rest, o =>
    if eqNoCase opt [97, 115, 99] then sortOptions fuel rest { o with desc := false }
    else if eqNoCase opt [100, 101, 115, 99] then sortOptions fuel rest { o with desc := true }
    else if eqNoCase opt [97, 108, 112, 104, 97] then sortOptions fuel rest { o with alpha := true }
    else if eqNoCase opt [108, 105, 109, 105, 116] && 2 ≤ rest.length then
      match stringToInt32 (arg rest 0), stringToInt32 (arg rest 1) with
      | some offset, some count =>
        sortOptions fuel (rest.drop 2) { o with offset := offset, count := count }
      | _, _ => none
    else if eqNoCase opt [115, 116, 111, 114, 101] && 1 ≤ rest.length then
      sortOptions fuel (rest.drop 1) { o with store := arg rest 0 }
    else if eqNoCase opt [98, 121] && 1 ≤ rest.length then
      sortOptions fuel (rest.drop 1) { o with by_ := arg rest 0 }
    else if eqNoCase opt [103, 101, 116] && 1 ≤ rest.length then
      -- `args[i + 1].c_str()`
      sortOptions fuel (rest.drop 1) { o with gets := o.gets ++ [cStr (arg rest 0)] }
    else none

/-- `Sort`. -/
def sort : Outcome V Num :=
  match sortOptions args.length (args.drop 1) ⟨false, false, 0, -1, [], [], []⟩ with
  | none => .answer s env .none
  | some o =>
    let call := .sort (arg args 0) o.by_ o.offset o.count o.gets o.desc o.alpha o.store
    if o.store = [] then
      runCall kv s env call .always [] (fun _ r => .strArray r.strs) fillErrorReply
    else runCall kv s env call .positive [(env.db, o.store)] intReply fillErrorReply

/-! ### Geo and HyperLogLog -/

/-- The points of `GEOADD`, three arguments each, until a coordinate is not a number. -/
def geoPoints : ℕ → List Bytes → Option (List (Num × Num × Bytes))
  | 0, _ => some []
  | _, [] => some []
  | fuel + 1, x :: rest =>
    (kv.stringToDouble x).bind fun px =>
      (kv.stringToDouble (arg rest 0)).bind fun py =>
        (geoPoints fuel (rest.drop 2)).map ((px, py, arg rest 1) :: ·)

/-- `GeoAdd`. The loop fills a `point` of its own in every round and never adds it to `points`. -/
def geoAdd : Outcome V Num :=
  match geoPoints kv args.length (args.drop 2) with
  | none => .answer s env (.fillError "value is not a float or out of range")
  | some _ =>
    runCall kv s env (.geoAdd (arg args 0) (arg args 1) []) .positive [(env.db, arg args 0)]
      intReply fillErrorReply

def pfadd : Outcome V Num :=
  runCall kv s env (.pfadd (arg args 0) (args.drop 1)) .always [(env.db, arg args 0)] intReply
    fillErrorReply

def pfmerge : Outcome V Num :=
  runCall kv s env (.pfmerge (arg args 0) (args.drop 1)) .zero [(env.db, arg args 0)]
    (onZero fun _ => .fillOk) fillErrorReply

/-! ### Databases -/

/-- `Select`. -/
def selectDb (maxdb : ℕ) : Outcome V Num :=
  match stringToUInt32 (arg args 0) with
  | none => .answer s env (.fillError "invalid DB index")
  | some newdb =>
    if newdb < maxdb then { Outcome.answer s env .fillOk with db := newdb }
    else .answer s env (.fillError "invalid DB index")

/-- `FlushDB`; nothing is announced. -/
def flushDB : Outcome V Num := runCall kv s env .flushDB .always [] okReply fillErrorReply

/-- `FlushAll`; nothing is announced. -/
def flushAll : Outcome V Num := runCall kv s env .flushAll .always [] okReply fillErrorReply

/-- `Import`, when the file can be read; nothing is announced. -/
def importSnapshot (file : Bytes) : Outcome V Num :=
  .answer (kv.load s (if args.length = 1 then arg args 0 else file)) env .fillOk

end Handlers

/-- The configuration that handlers read: `maxdb`, and the snapshot file in the backup directory. -/
structure HandlerConfig where
  maxdb : ℕ
  snapshotFile : Bytes

/-- The handler of a command. -/
def DataCommand.handler {V Num : Type} (cfg : HandlerConfig) (kv : Kv V Num) (s : Keyspace V)
    (env : CallEnv) (args : List Bytes) : DataCommand → Outcome V Num
  | .read query => .answer s env (kv.read s env.db query args)
  | .select => selectDb s env args cfg.maxdb
  | .import_ => importSnapshot kv s env args cfg.snapshotFile
  | .flushdb => flushDB kv s env
  | .flushall => flushAll kv s env
  | .append => Comms.append kv s env args
  | .set => Comms.set kv s env args
  | .del => Comms.del kv s env args
  | .expire => Comms.expire kv s env args
  | .pexpire => Comms.pexpire kv s env args
  | .expireat => Comms.expireat kv s env args
  | .pexpireat => Comms.pexpireat kv s env args
  | .persist => Comms.persist kv s env args
  | .bitop => Comms.bitop kv s env args
  | .decr => Comms.decr kv s env args
  | .decrby => Comms.decrby kv s env args
  | .getset => getSet kv s env args
  | .incr => Comms.incr kv s env args
  | .incrby => Comms.incrby kv s env args
  | .incrbyfloat => incrbyFloat kv s env args
  | .mset => Comms.mset kv s env args false
  | .msetnx => Comms.mset kv s env args true
  | .psetex => psetEX kv s env args
  | .setbit => setBit kv s env args
  | .setex => setEX kv s env args
  | .setnx => setNX kv s env args
  | .setrange => setRange kv s env args
  | .hdel => Comms.hdel kv s env args
  | .hincrby => Comms.hincrby kv s env args
  | .hincrbyfloat => hincrbyFloat kv s env args
  | .hset => Comms.hset kv s env args
  | .hsetnx => hsetNX kv s env args
  | .hmset => Comms.hmset kv s env args
  | .sadd => Comms.sadd kv s env args
  | .sdiffstore => sdiffStore kv s env args
  | .sinterstore => sinterStore kv s env args
  | .smove => Comms.smove kv s env args
  | .spop => Comms.spop kv s env args
  | .srem => Comms.srem kv s env args
  | .sunionstore => sunionStore kv s env args
  | .zadd => Comms.zadd kv s env args
  | .zincrby => Comms.zincrby kv s env args
  | .zrem => Comms.zrem kv s env args
  | .zremrangebyrank => zremRangeByRank kv s env args
  | .zremrangebyscore => zremRangeByScore kv s env args
  | .zremrangebylex => zremRangeByLex kv s env args
  | .zinterstore => zinterStore kv s env args true
  | .zunionstore => zinterStore kv s env args false
  | .linsert => Comms.linsert kv s env args
  | .lpop => Comms.lpop kv s env args
  | .lpush => Comms.lpush kv s env args
  | .lpushx => Comms.lpushx kv s env args
  | .lrem => Comms.lrem kv s env args
  | .lset => Comms.lset kv s env args
  | .ltrim => Comms.ltrim kv s env args
  | .rpop => Comms.rpop kv s env args
  | .rpush => Comms.rpush kv s env args
  | .rpushx => Comms.rpushx kv s env args
  | .rpoplpush => rpopLPush kv s env args false
  | .blpop => Comms.blpop kv s env args true
  | .brpop => Comms.blpop kv s env args false
  | .brpoplpush => brpopLPush kv s env args
  | .move => Comms.move kv s env args
  | .rename => Comms.rename kv s env args
  | .renamenx => renameNX kv s env args
  | .sort => Comms.sort kv s env args
  | .geoadd => geoAdd kv s env args
  | .pfadd => Comms.pfadd kv s env args
  | .pfmerge => Comms.pfmerge kv s env args

/-- A handler that runs: that of a command, through `Call`, `Exec` or a script, which differ in the
context only, or `WakeBlockedList`. -/
inductive Invocation
  | command (cmd : DataCommand) (args : List Bytes)
  | wakeBlockedList (block : ListBlock) (key : Bytes)
deriving DecidableEq, Repr

def Invocation.run {V Num : Type} (cfg : HandlerConfig) (kv : Kv V Num) (s : Keyspace V)
    (env : CallEnv) : Invocation → Outcome V Num
  | .command cmd args => cmd.handler cfg kv s env args
  | .wakeBlockedList block key => (Comms.wakeBlockedList kv s env block key).1

end Comms
