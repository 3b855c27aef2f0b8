import Comms.Command.Handlers

/-!
# Handlers that make one call

Most handlers check their arguments and then make one call of the store, or none. `OneCall` describes
them, as functions of the context; what holds of all of them is proved of it once.

* `OneCall` — the handlers that answer, or make one call;
* `handler_oneCall` — all commands but those that loop, pop or rewrite;
* `OneCall.keep` — they leave `*ctx.current_cmd` alone;
* `OneCall.visible` — what they do to the store depends on the database of the context only;
* `handler_visible` — and so it is with every handler.
-/

namespace Comms

variable {V Num : Type}

/-- What the caller of a handler can see: the store, the reply and `ctx.currentDB`. -/
def Outcome.visible (o : Outcome V Num) : Keyspace V × Reply Num × DBID := (o.store, o.reply, o.db)

theorem Outcome.visible_eq_iff {o o' : Outcome V Num} :
    o.visible = o'.visible ↔ o.store = o'.store ∧ o.reply = o'.reply ∧ o.db = o'.db := by
  simp [Outcome.visible]

theorem answer_visible {s : Keyspace V} {env env' : CallEnv} (h : env.db = env'.db)
    (reply : Reply Num) :
    (Outcome.answer s env reply).visible = (Outcome.answer s env' reply).visible := by
  simp [Outcome.visible, Outcome.answer, h]

/-- A handler that answers, or makes one call. -/
inductive OneCall (kv : Kv V Num) (s : Keyspace V) : (CallEnv → Outcome V Num) → Prop
  | answer (reply : CallEnv → Reply Num) (h : ∀ env env', env.db = env'.db → reply env = reply env') :
    OneCall kv s fun env => .answer s env (reply env)
  | call (call : KvCall Num) (fires : Fires) (keys : CallEnv → List (DBID × Bytes))
    (reply : ℕ → KvResult V Num → Reply Num) (errReply : KvErr → Reply Num) :
    OneCall kv s fun env => runCall kv s env call fires (keys env) reply errReply
  | wake {f : CallEnv → Outcome V Num} (h : OneCall kv s f) (key : Bytes) :
    OneCall kv s fun env => thenWake (f env) key

namespace OneCall

variable {kv : Kv V Num} {s : Keyspace V} {f : CallEnv → Outcome V Num}

theorem text (reply : Reply Num) : OneCall kv s fun env => .answer s env reply :=
  .answer (fun _ => reply) fun _ _ _ => rfl

theorem int64 {str : Bytes} {k : CallEnv → ℤ → Outcome V Num}
    (h : ∀ v, OneCall kv s fun env => k env v) :
    OneCall kv s fun env => withInt64 s env str (k env) := by
  unfold withInt64
  split
  · exact text _
  · exact h _

theorem uint64 {str : Bytes} {k : CallEnv → ℕ → Outcome V Num}
    (h : ∀ v, OneCall kv s fun env => k env v) :
    OneCall kv s fun env => withUInt64 s env str (k env) := by
  unfold withUInt64
  split
  · exact text _
  · exact h _

theorem double {str : Bytes} {k : CallEnv → Num → Outcome V Num}
    (h : ∀ v, OneCall kv s fun env => k env v) :
    OneCall kv s fun env => withDouble kv s env str (k env) := by
  unfold withDouble
  split
  · exact text _
  · exact h _

/-- The frame is left alone. -/
theorem keep (h : OneCall kv s f) (env : CallEnv) : (f env).rewrite = .keep := by
  induction h with
  | answer reply hreply => rfl
  | call call fires keys reply errReply => exact runCall_rewrite ..
  | wake h key ih =>
    dsimp only [thenWake]
    split
    · exact ih
    · exact ih

/-- What can be seen depends on the database only. -/
theorem visible (h : OneCall kv s f) {env env' : CallEnv} (hdb : env.db = env'.db) :
    (f env).visible = (f env').visible := by
  induction h with
  | answer reply hreply =>
    dsimp only
    rw [hreply env env' hdb]
    exact answer_visible hdb _
  | call call fires keys reply errReply =>
    dsimp only [runCall]
    rw [hdb]
    split <;> rfl
  | wake h key ih =>
    have hwake : ∀ o : Outcome V Num, (thenWake o key).visible = o.visible := by
      intro o
      unfold thenWake
      split <;> rfl
    rw [hwake, hwake, ih]

end OneCall

/-- The commands whose handlers do more: they select a database, or may rewrite the frame. -/
def DataCommand.Special : DataCommand → Prop
  | .select | .mset | .rpoplpush | .import_
  | .incrbyfloat | .hincrbyfloat | .spop | .blpop | .brpop | .brpoplpush => True
  | _ => False

/-- **The other handlers make one call.** -/
theorem handler_oneCall {kv : Kv V Num} {s : Keyspace V} {args : List Bytes} (cfg : HandlerConfig)
    {cmd : DataCommand} (h : ¬cmd.Special) :
    OneCall kv s fun env => cmd.handler cfg kv s env args := by
  cases cmd <;> dsimp only [DataCommand.handler]
  case select | mset | rpoplpush | import_ | incrbyfloat | hincrbyfloat | spop | blpop | brpop |
      brpoplpush =>
    exact absurd trivial h
  -- the call, straight away
  case append | getset | bitop | hset | hsetnx | hdel | sadd | sdiffstore | sinterstore | sunionstore |
      smove | srem | zrem | zremrangebyscore | zremrangebylex | lpop | rpop | setnx | incr | decr |
      persist | del | rename | renamenx | pfadd | pfmerge | flushdb | flushall =>
    exact .call ..
  case read query => exact .answer _ fun env env' hdb => by rw [hdb]
  -- the call, and then the lists that wait
  case lpush | rpush | lpushx | rpushx => exact .wake (.call ..) _
  -- a number is read first, and answered if it is none
  case incrby | decrby | setex | setrange | hincrby | lrem | lset => exact .int64 fun v => .call ..
  case zremrangebyrank | ltrim => exact .int64 fun v => .int64 fun w => .call ..
  case expire | pexpire | expireat | pexpireat => exact .uint64 fun v => .call ..
  case zincrby => exact .double fun v => .call ..
  -- the others look at their arguments on the way
  case psetex =>
    unfold psetEX
    split
    · exact .text _
    · exact .call ..
  case setbit =>
    unfold setBit
    split
    · exact .text _
    · split
      · exact .text _
      · exact .call ..
  case hmset =>
    unfold hmset
    split
    · exact .text _
    · exact .call ..
  case set =>
    unfold set
    split
    · exact .text _
    · exact .call ..
  case msetnx =>
    unfold mset
    split
    · exact .text _
    · simp only [if_true]
      exact .call ..
  case zadd =>
    unfold zadd
    split
    · exact .text _
    · exact .call ..
  case zinterstore | zunionstore =>
    unfold zinterStore
    split
    · exact .text _
    · dsimp only
      split
      · exact .text _
      · split
        · exact .text _
        · exact .call ..
  case linsert =>
    unfold linsert
    split
    · exact .call ..
    · exact .text _
  case move =>
    unfold move
    split
    · exact .text _
    · exact .call ..
  case sort =>
    unfold sort
    split
    · exact .text _
    · dsimp only
      split
      · exact .call ..
      · exact .call ..
  case geoadd =>
    unfold geoAdd
    split
    · exact .text _
    · exact .call ..

/-! ### Handlers in another context -/

section Visible

variable {V Num : Type} {kv : Kv V Num} {s : Keyspace V} {args : List Bytes} {env env' : CallEnv}

/-! What a caller sees of the handlers that are not plain calls. -/

theorem incrbyFloat_visible (h : env.db = env'.db) :
    (incrbyFloat kv s env args).visible = (incrbyFloat kv s env' args).visible := by
  unfold incrbyFloat withDouble
  split
  · exact answer_visible h _
  · rw [h]
    dsimp only
    split <;> simp [Outcome.visible, Outcome.answer, h]

theorem hincrbyFloat_visible (h : env.db = env'.db) :
    (hincrbyFloat kv s env args).visible = (hincrbyFloat kv s env' args).visible := by
  unfold hincrbyFloat withDouble
  split
  · exact answer_visible h _
  · rw [h]
    dsimp only
    split <;> simp [Outcome.visible, Outcome.answer, h]

theorem spop_visible (h : env.db = env'.db) :
    (Comms.spop kv s env args).visible = (Comms.spop kv s env' args).visible := by
  have hcount : ∀ count, (spopCount kv s env args count).visible =
      (spopCount kv s env' args count).visible := by
    intro count
    unfold spopCount
    rw [h]
    dsimp only
    split <;> simp [Outcome.visible, Outcome.answer, h]
  unfold Comms.spop withInt64
  split
  · split
    · exact answer_visible h _
    · exact hcount _
  · exact hcount 1

theorem blpop_visible (h : env.db = env'.db) (lpop : Bool) :
    (Comms.blpop kv s env args lpop).visible = (Comms.blpop kv s env' args lpop).visible := by
  unfold Comms.blpop
  split
  · exact answer_visible h _
  · rw [h]
    dsimp only
    generalize popScan kv env'.db lpop args.dropLast s [] = scan
    obtain ⟨scan, store, calls⟩ := scan
    cases scan <;> simp [Outcome.visible, Outcome.answer, h]

theorem rpopLPush_visible (h : env.db = env'.db) (brpoplpush : Bool) :
    (rpopLPush kv s env args brpoplpush).visible =
      (rpopLPush kv s env' args brpoplpush).visible := by
  have hset : ∀ env : CallEnv, (rpopLPush kv s env args brpoplpush).visible =
      (runCall kv s env (.rpoplpush (arg args 0) (arg args 1)) .always
        [(env.db, arg args 0), (env.db, arg args 1)] strReply nilIfMissing).visible := by
    intro env
    unfold rpopLPush
    dsimp only
    split <;> rfl
  rw [hset env, hset env']
  exact (OneCall.call _ _ (fun env => [(env.db, arg args 0), (env.db, arg args 1)]) _ _).visible h

theorem brpopLPush_visible (h : env.db = env'.db) :
    (brpopLPush kv s env args).visible = (brpopLPush kv s env' args).visible := by
  unfold brpopLPush
  split
  · exact answer_visible h _
  · have hpush := Outcome.visible_eq_iff.1 (@rpopLPush_visible _ _ kv s args env env' h true)
    dsimp only
    rw [hpush.2.1]
    split
    · simp [Outcome.visible, hpush]
    · simp [Outcome.visible, hpush]

/-- **What a handler does to the store does not depend on whose command it is.** The log, the client
and the frame around it make no difference. -/
theorem handler_visible (cfg : HandlerConfig) (h : env.db = env'.db) (cmd : DataCommand) :
    (cmd.handler cfg kv s env args).visible = (cmd.handler cfg kv s env' args).visible := by
  by_cases hspecial : cmd.Special
  · cases cmd <;> first
      | exact hspecial.elim
      | dsimp only [DataCommand.handler]
    case import_ => exact answer_visible h _
    case incrbyfloat => exact incrbyFloat_visible h
    case hincrbyfloat => exact hincrbyFloat_visible h
    case spop => exact spop_visible h
    case blpop => exact blpop_visible h true
    case brpop => exact blpop_visible h false
    case rpoplpush => exact rpopLPush_visible h false
    case brpoplpush => exact brpopLPush_visible h
    case select =>
      unfold selectDb
      split
      · exact answer_visible h _
      · split
        · rfl
        · exact answer_visible h _
    case mset =>
      unfold Comms.mset
      split
      · exact answer_visible h _
      · simp [Outcome.visible, h]
  · exact (handler_oneCall cfg hspecial).visible h

end Visible

end Comms
