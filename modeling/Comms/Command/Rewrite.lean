import Comms.Command.ListPop
import Comms.Command.OneCall
import Comms.Command.SmallKv

/-!
# Frames that are rewritten before they are logged

Some handlers put a frame of their own in the place of `*ctx.current_cmd`: `INCRBYFLOAT` logs a
`SET`, `SPOP` an `SREM`, `BLPOP` an `LPOP`. `WakeBlockedList` writes to the log by itself. This
module says when executing the frame that was logged, through `Call`, gives the store that the
command gave.

* `Invocation.walFrame` — the frame that is passed to `WriteWAL`;
* `DataFrame.call` — `Call` of a frame, with its arity check;
* `Invocation.RewriteOk` — the condition;
* `rewrite_reproduces_iff` — the frame gives the same store if and only if the condition holds.
-/

namespace Comms

section Logged

variable {V Num : Type} (cfg : HandlerConfig) (kv : Kv V Num) (s : Keyspace V) (env : CallEnv)

/-- The context of a command on a master, in `Call` or `Exec`. -/
def CallEnv.onMaster (db : DBID) (hasClient : Bool) : CallEnv := ⟨db, false, hasClient, true⟩

/-- The context of a command that a slave executes. -/
def CallEnv.onSlave (db : DBID) : CallEnv := ⟨db, true, false, true⟩

/-- `*ctx.current_cmd` behind the handler of `frame`. -/
def Rewrite.apply (r : Rewrite) (frame : DataFrame) : DataFrame :=
  match r with
  | .keep => frame
  | .replace frame' => frame'
  | .setCommand name => { frame with cmd := name }

/-- The frame that is passed to `WriteWAL`, if there is one. -/
def Invocation.walFrame : Invocation → Option DataFrame
  | .command cmd args =>
    let o := cmd.handler cfg kv s env args
    if !env.noWal && o.dataChange then some (o.rewrite.apply ⟨cmd, args⟩) else none
  | .wakeBlockedList block key => (Comms.wakeBlockedList kv s env block key).2

/-- What `Call` of a frame leaves of the store. -/
def DataFrame.call (frame : DataFrame) : Keyspace V :=
  if validArity frame.cmd.arity frame.args.length then
    (frame.cmd.handler cfg kv s env frame.args).store
  else s

/-- The handler succeeds, and the frame that is logged is not the one of the client. -/
def Invocation.Rewrites : Invocation → Prop
  | .command cmd args =>
    validArity cmd.arity args.length = true ∧
      (cmd.handler cfg kv s env args).rewrite ≠ .keep
  | .wakeBlockedList block key => (Comms.wakeBlockedList kv s env block key).2 ≠ none

/-- **A logged frame reproduces the command's effect.** -/
def Invocation.Reproduced (inv : Invocation) : Prop :=
  ∃ frame, inv.walFrame cfg kv s env = some frame ∧
    frame.call cfg kv s (.onSlave env.db) = (inv.run cfg kv s env).store

/-- `SPOP` takes out the members it returns. -/
def Kv.PopsMembers (kv : Kv V Num) : Prop :=
  ∀ s db key count n, (kv.exec s db (.spop key count)).ret = .ok n → n ≠ 0 →
    (kv.exec s db (.spop key count)).strs ≠ [] ∧
      (kv.exec s db (.srem key (kv.exec s db (.spop key count)).strs)).store =
        (kv.exec s db (.spop key count)).store

/-- When the logged frame gives the same store. `INCRBYFLOAT` logs a `SET` of the increment, which is
right if the increment is the key; `HINCRBYFLOAT` logs an `HSET` with one argument too few,
`BRPOPLPUSH` an `RPOPLPUSH` with one too many, or, woken, with one too few. `BLPOP` logs one pop. -/
def Invocation.RewriteOk : Invocation → Prop
  | .command .incrbyfloat args =>
    ∀ increment, kv.stringToDouble (arg args 1) = some increment →
      let r := kv.exec s env.db (.incrByFloat (arg args 0) increment)
      let logged :=
        (kv.exec s env.db (.set (arg args 1) (kv.fastDtoa r.num) (-1) (-1) (-1))).store
      if arg args 1 = arg args 0 then
        logged env.db (arg args 0) = r.store env.db (arg args 0)
      else
        r.store env.db (arg args 0) = s env.db (arg args 0) ∧
          logged env.db (arg args 1) = s env.db (arg args 1)
  | .command .hincrbyfloat args =>
    ∀ increment, kv.stringToDouble (arg args 2) = some increment →
      (kv.exec s env.db (.hincrByFloat (arg args 0) (arg args 1) increment)).store env.db
        (arg args 0) = s env.db (arg args 0)
  | .command .blpop args => (poppedKeys kv env.db true args.dropLast s).length = 1
  | .command .brpop args => (poppedKeys kv env.db false args.dropLast s).length = 1
  | .command .brpoplpush args =>
    (kv.exec s env.db (.rpoplpush (arg args 0) (arg args 1))).store = s
  | .command _ _ => True
  | .wakeBlockedList block key =>
    block.pushKey = [] ∨ (Comms.wakeBlockedList kv s env block key).1.store = s

end Logged

/-! ### The frames -/

section Frames

variable {V Num : Type} {cfg : HandlerConfig} {kv : Kv V Num} {s : Keyspace V} {env : CallEnv}
  {args : List Bytes}

/-- A frame whose arity is wrong changes nothing. -/
theorem call_of_not_validArity {frame : DataFrame}
    (h : validArity frame.cmd.arity frame.args.length = false) :
    frame.call cfg kv s env = s := by
  rw [DataFrame.call, h]
  rfl

theorem call_set (key value : Bytes) :
    DataFrame.call cfg kv s env ⟨.set, [key, value]⟩ =
      (kv.exec s env.db (.set key value (-1) (-1) (-1))).store := by
  calc DataFrame.call cfg kv s env ⟨.set, [key, value]⟩
    _ = (Comms.set kv s env [key, value]).store := rfl
    _ = (kv.exec s env.db (.set key value (-1) (-1) (-1))).store := runCall_store ..

theorem call_pop (lpop : Bool) (key : Bytes) :
    DataFrame.call cfg kv s env ⟨if lpop then .lpop else .rpop, [key]⟩ =
      (kv.exec s env.db (popCall lpop key)).store := by
  cases lpop with
  | true => exact runCall_store ..
  | false => exact runCall_store ..

theorem call_srem {key : Bytes} {members : List Bytes} (h : members ≠ []) :
    DataFrame.call cfg kv s env ⟨.srem, key :: members⟩ =
      (kv.exec s env.db (.srem key members)).store := by
  obtain ⟨m, ms, rfl⟩ := List.exists_cons_of_ne_nil h
  have harity : validArity DataCommand.srem.arity (key :: m :: ms).length = true := by
    simp only [validArity, DataCommand.arity, List.length_cons]
    simp
    omega
  rw [DataFrame.call, if_pos harity]
  exact runCall_store ..

/-! ### The handlers -/

/-- What `INCRBYFLOAT` does when it rewrites the frame. -/
theorem incrbyFloat_rewrites (h : (incrbyFloat kv s env args).rewrite ≠ .keep) :
    ∃ increment, kv.stringToDouble (arg args 1) = some increment ∧
      let r := kv.exec s env.db (.incrByFloat (arg args 0) increment)
      (incrbyFloat kv s env args).store = r.store ∧
        (incrbyFloat kv s env args).dataChange = true ∧
        (incrbyFloat kv s env args).rewrite = .replace ⟨.set, [arg args 1, kv.fastDtoa r.num]⟩ := by
  unfold incrbyFloat withDouble at h ⊢
  cases hinc : kv.stringToDouble (arg args 1) with
  | none =>
    rw [hinc] at h
    exact absurd rfl h
  | some increment =>
    refine ⟨increment, rfl, ?_⟩
    simp only [hinc] at h ⊢
    split at h
    · next hret =>
      dsimp only at h
      split at h
      · exact absurd rfl h
      · next hwal => simp_all [Outcome.dataChange]
    · exact absurd rfl h
    · exact absurd rfl h

theorem hincrbyFloat_rewrites (h : (hincrbyFloat kv s env args).rewrite ≠ .keep) :
    ∃ increment, kv.stringToDouble (arg args 2) = some increment ∧
      let r := kv.exec s env.db (.hincrByFloat (arg args 0) (arg args 1) increment)
      (hincrbyFloat kv s env args).store = r.store ∧
        (hincrbyFloat kv s env args).dataChange = true ∧
        (hincrbyFloat kv s env args).rewrite =
          .replace ⟨.hset, [arg args 0, kv.fastDtoa r.num]⟩ := by
  unfold hincrbyFloat withDouble at h ⊢
  cases hinc : kv.stringToDouble (arg args 2) with
  | none =>
    rw [hinc] at h
    exact absurd rfl h
  | some increment =>
    refine ⟨increment, rfl, ?_⟩
    simp only [hinc] at h ⊢
    split at h
    · next hret =>
      dsimp only at h
      split at h
      · exact absurd rfl h
      · next hwal => simp_all [Outcome.dataChange]
    · exact absurd rfl h
    · exact absurd rfl h

/-- What `SPOP` does when it rewrites the frame: it has removed members. -/
theorem spop_rewrites (h : (Comms.spop kv s env args).rewrite ≠ .keep) :
    ∃ count n, (kv.exec s env.db (.spop (arg args 0) count)).ret = .ok n ∧ n ≠ 0 ∧
      (Comms.spop kv s env args).store = (kv.exec s env.db (.spop (arg args 0) count)).store ∧
      (Comms.spop kv s env args).dataChange = true ∧
      (Comms.spop kv s env args).rewrite =
        .replace ⟨.srem, arg args 0 :: (kv.exec s env.db (.spop (arg args 0) count)).strs⟩ := by
  -- the part behind the argument check
  have hcount : ∀ count, (spopCount kv s env args count).rewrite ≠ .keep →
      ∃ n, (kv.exec s env.db (.spop (arg args 0) count)).ret = .ok n ∧ n ≠ 0 ∧
        (spopCount kv s env args count).store =
          (kv.exec s env.db (.spop (arg args 0) count)).store ∧
        (spopCount kv s env args count).dataChange = true ∧
        (spopCount kv s env args count).rewrite =
          .replace ⟨.srem, arg args 0 :: (kv.exec s env.db (.spop (arg args 0) count)).strs⟩ := by
    intro count h
    unfold spopCount at h ⊢
    dsimp only at h ⊢
    split at h
    · exact absurd rfl h
    · next n hn hret =>
      refine ⟨n, hret, hn, ?_⟩
      dsimp only at h
      split at h
      · exact absurd rfl h
      · next hwal => simp [hwal, Outcome.dataChange]
    · exact absurd rfl h
  unfold Comms.spop at h ⊢
  split at h
  · next hlen =>
    unfold withInt64 at h ⊢
    cases hint : stringToInt64 (arg args 1) with
    | none =>
      rw [hint] at h
      exact absurd rfl h
    | some count =>
      rw [hint] at h
      simp only [hlen, if_true]
      exact ⟨count, hcount count h⟩
  · next hlen =>
    rw [if_neg hlen]
    exact ⟨1, hcount 1 h⟩

/-- What `BLPOP` does when it rewrites the frame: it answers one of its keys. -/
theorem blpop_rewrites {lpop : Bool} (h : (Comms.blpop kv s env args lpop).rewrite ≠ .keep) :
    ∃ key, (popScan kv env.db lpop args.dropLast s []).1.answered = some key ∧
      (Comms.blpop kv s env args lpop).store = (popScan kv env.db lpop args.dropLast s []).2.1 ∧
      (Comms.blpop kv s env args lpop).dataChange = true ∧
      (Comms.blpop kv s env args lpop).rewrite =
        .replace ⟨if lpop then .lpop else .rpop, [key]⟩ := by
  unfold Comms.blpop at h ⊢
  cases htime : stringToUInt32 (args.getLastD []) with
  | none =>
    rw [htime] at h
    exact absurd rfl h
  | some timeout =>
    rw [htime] at h
    dsimp only at h ⊢
    generalize popScan kv env.db lpop args.dropLast s [] = scan at h ⊢
    obtain ⟨scan, store, calls⟩ := scan
    cases scan with
    | popped key value => exact ⟨key, rfl, rfl, rfl, rfl⟩
    | failed e => exact absurd rfl h
    | nothing => exact absurd rfl h

/-- What `BRPOPLPUSH` does when it rewrites the frame. -/
theorem brpopLPush_rewrites (h : (brpopLPush kv s env args).rewrite ≠ .keep) :
    (brpopLPush kv s env args).store =
        (kv.exec s env.db (.rpoplpush (arg args 0) (arg args 1))).store ∧
      (brpopLPush kv s env args).dataChange = true ∧
      (brpopLPush kv s env args).rewrite = .setCommand .rpoplpush := by
  have hrpop : (rpopLPush kv s env args true).rewrite ≠ .keep →
      (rpopLPush kv s env args true).store =
          (kv.exec s env.db (.rpoplpush (arg args 0) (arg args 1))).store ∧
        (rpopLPush kv s env args true).dataChange = true ∧
        (rpopLPush kv s env args true).rewrite = .setCommand .rpoplpush := by
    intro h
    unfold rpopLPush at h ⊢
    dsimp only at h ⊢
    split at h
    · next hchange =>
      rw [if_pos hchange]
      exact ⟨runCall_store .., hchange.1, rfl⟩
    · exact absurd (runCall_rewrite ..) h
  unfold brpopLPush at h ⊢
  split at h
  · exact absurd rfl h
  · dsimp only at h ⊢
    split at h
    · next hnil =>
      rw [if_pos hnil]
      exact hrpop h
    · next hnil =>
      rw [if_neg hnil]
      exact hrpop h

end Frames

/-! ### Executing what was logged -/

section Reproduce

variable {V Num : Type} {cfg : HandlerConfig} {kv : Kv V Num} {s : Keyspace V} {db : DBID}
  {hasClient : Bool} {args : List Bytes}

/-- Of a command that was rewritten, the frame that replaced it is what is executed. -/
theorem reproduced_iff (cmd : DataCommand) {o : Outcome V Num} {r : Rewrite}
    (hchange : o.dataChange = true) (hrewrite : o.rewrite = r)
    (ho : cmd.handler cfg kv s (.onMaster db hasClient) args = o) :
    (Invocation.command cmd args).Reproduced cfg kv s (.onMaster db hasClient) ↔
      (r.apply ⟨cmd, args⟩).call cfg kv s (.onSlave db) = o.store := by
  have hwal : (Invocation.command cmd args).walFrame cfg kv s (.onMaster db hasClient) =
      some (r.apply ⟨cmd, args⟩) := by
    rw [Invocation.walFrame, ho, hchange, hrewrite]
    rfl
  rw [Invocation.Reproduced, Invocation.run, ho, hwal]
  simp only [Option.some.injEq, exists_eq_left']
  rfl

theorem incrbyFloat_reproduced_iff (hk : kv.Lawful)
    (h : (incrbyFloat kv s (.onMaster db hasClient) args).rewrite ≠ .keep) :
    (Invocation.command .incrbyfloat args).Reproduced cfg kv s (.onMaster db hasClient) ↔
      (Invocation.command .incrbyfloat args).RewriteOk kv s (.onMaster db hasClient) := by
  obtain ⟨increment, hinc, hstore, hchange, hrewrite⟩ := incrbyFloat_rewrites h
  rw [reproduced_iff .incrbyfloat hchange hrewrite rfl, Rewrite.apply, call_set, hstore]
  simp only [Invocation.RewriteOk, hinc, Option.some.injEq, forall_eq']
  -- each of the two stores differs from the one before in one key
  set r := kv.exec s db (.incrByFloat (arg args 0) increment)
  have hincr : Keyspace.Frames r.store s (db, arg args 0) := hk.frames fun p => id
  have hset : Keyspace.Frames
      (kv.exec s db (.set (arg args 1) (kv.fastDtoa r.num) (-1) (-1) (-1))).store s
      (db, arg args 1) := hk.frames fun p => id
  split
  · next hkey =>
    rw [hkey] at hset ⊢
    exact hset.eq_iff hincr
  · next hkey =>
    have hne : (db, arg args 0) ≠ (db, arg args 1) := fun heq => hkey (Prod.mk.inj heq).2.symm
    rw [eq_comm]
    exact hincr.eq_iff_of_ne hset hne

theorem hincrbyFloat_reproduced_iff (hk : kv.Lawful)
    (h : (hincrbyFloat kv s (.onMaster db hasClient) args).rewrite ≠ .keep) :
    (Invocation.command .hincrbyfloat args).Reproduced cfg kv s (.onMaster db hasClient) ↔
      (Invocation.command .hincrbyfloat args).RewriteOk kv s (.onMaster db hasClient) := by
  obtain ⟨increment, hinc, hstore, hchange, hrewrite⟩ := hincrbyFloat_rewrites h
  -- two arguments are one too few
  rw [reproduced_iff .hincrbyfloat hchange hrewrite rfl, Rewrite.apply,
    call_of_not_validArity rfl, hstore]
  simp only [Invocation.RewriteOk, hinc, Option.some.injEq, forall_eq']
  have hincr : Keyspace.Frames
      (kv.exec s db (.hincrByFloat (arg args 0) (arg args 1) increment)).store s
      (db, arg args 0) := hk.frames fun p => id
  rw [eq_comm]
  exact hincr.eq_self_iff

theorem spop_reproduced (hpop : kv.PopsMembers)
    (h : (Comms.spop kv s (.onMaster db hasClient) args).rewrite ≠ .keep) :
    (Invocation.command .spop args).Reproduced cfg kv s (.onMaster db hasClient) := by
  obtain ⟨count, n, hret, hn, hstore, hchange, hrewrite⟩ := spop_rewrites h
  obtain ⟨hne, hsrem⟩ := hpop s db (arg args 0) count n hret hn
  refine (reproduced_iff .spop hchange hrewrite rfl).2 ?_
  rw [Rewrite.apply, hstore]
  exact (call_srem hne).trans hsrem

theorem blpop_reproduced_iff (hk : kv.Lawful) {lpop : Bool} {cmd : DataCommand}
    (hcmd : ∀ env, cmd.handler cfg kv s env args = Comms.blpop kv s env args lpop)
    (h : (Comms.blpop kv s (.onMaster db hasClient) args lpop).rewrite ≠ .keep) :
    (Invocation.command cmd args).Reproduced cfg kv s (.onMaster db hasClient) ↔
      (poppedKeys kv db lpop args.dropLast s).length = 1 := by
  obtain ⟨key, hanswer, hstore, hchange, hrewrite⟩ := blpop_rewrites h
  rw [reproduced_iff cmd hchange hrewrite (hcmd _), Rewrite.apply, call_pop, hstore]
  exact popScan_eq_pop_iff hk hanswer

theorem brpopLPush_reproduced_iff
    (harity : validArity DataCommand.brpoplpush.arity args.length = true)
    (h : (brpopLPush kv s (.onMaster db hasClient) args).rewrite ≠ .keep) :
    (Invocation.command .brpoplpush args).Reproduced cfg kv s (.onMaster db hasClient) ↔
      (Invocation.command .brpoplpush args).RewriteOk kv s (.onMaster db hasClient) := by
  obtain ⟨hstore, hchange, hrewrite⟩ := brpopLPush_rewrites h
  -- the timeout is one argument too many
  have hthree : args.length = 3 := by
    simp [validArity, DataCommand.arity] at harity
    omega
  have hrpop : validArity DataCommand.rpoplpush.arity args.length = false := by rw [hthree]; rfl
  rw [reproduced_iff .brpoplpush hchange hrewrite rfl, Rewrite.apply,
    call_of_not_validArity hrpop, hstore, eq_comm]
  rfl

/-- What `WakeBlockedList` logs: a pop, or an `RPOPLPUSH` without a destination. -/
theorem wakeBlockedList_logged {env : CallEnv} {block : ListBlock} {key : Bytes}
    (h : (wakeBlockedList kv s env block key).2 ≠ none) :
    (block.pushKey = [] ∧
        (wakeBlockedList kv s env block key).2 =
          some ⟨if block.lpop then .lpop else .rpop, [key]⟩ ∧
        (wakeBlockedList kv s env block key).1.store =
          (kv.exec s env.db (popCall block.lpop key)).store) ∨
      (block.pushKey ≠ [] ∧
        (wakeBlockedList kv s env block key).2 = some ⟨.rpoplpush, [key]⟩) := by
  unfold wakeBlockedList at h ⊢
  dsimp only at h ⊢
  split at h
  · split at h
    · exact absurd rfl h
    · next hstr =>
      rw [if_neg hstr]
      by_cases hpush : block.pushKey = []
      · simp only [hpush, if_true] at h ⊢
        split at h
        · exact absurd rfl h
        · next hwal => simp [hwal, Outcome.answer]
      · simp only [hpush, if_false] at h ⊢
        refine .inr ⟨hpush, ?_⟩
        split at h
        · exact absurd rfl h
        · dsimp only at h ⊢
          split at h
          · exact absurd rfl h
          · next hwal => simp [hwal]
  · exact absurd rfl h

theorem wakeBlockedList_reproduced_iff {block : ListBlock} {key : Bytes}
    (h : (wakeBlockedList kv s (.onMaster db hasClient) block key).2 ≠ none) :
    (Invocation.wakeBlockedList block key).Reproduced cfg kv s (.onMaster db hasClient) ↔
      (Invocation.wakeBlockedList block key).RewriteOk kv s (.onMaster db hasClient) := by
  rw [Invocation.Reproduced, Invocation.walFrame, Invocation.run, Invocation.RewriteOk]
  obtain ⟨hpush, hlogged, hstore⟩ | ⟨hpush, hlogged⟩ := wakeBlockedList_logged h
  · refine iff_of_true ⟨_, hlogged, ?_⟩ (.inl hpush)
    rw [call_pop, hstore]
    rfl
  · simp only [hlogged, hpush, Option.some.injEq, exists_eq_left', false_or]
    rw [call_of_not_validArity rfl, eq_comm]

end Reproduce

/-! ### The commands that rewrite -/

section Keep

variable {V Num : Type} {kv : Kv V Num} {s : Keyspace V} {env : CallEnv} {args : List Bytes}

/-- The commands whose handlers rewrite the frame. -/
def DataCommand.Rewrites : DataCommand → Prop
  | .incrbyfloat | .hincrbyfloat | .spop | .blpop | .brpop | .brpoplpush => True
  | _ => False

/-- The others leave it alone. -/
theorem handler_keep (cfg : HandlerConfig) {cmd : DataCommand} (h : ¬cmd.Rewrites) :
    (cmd.handler cfg kv s env args).rewrite = .keep := by
  by_cases hspecial : cmd.Special
  · cases cmd <;> first
      | exact absurd trivial h
      | exact hspecial.elim
      | dsimp only [DataCommand.handler]
    case import_ => rfl
    case select =>
      unfold selectDb
      split
      · rfl
      · split
        · rfl
        · rfl
    case mset =>
      unfold Comms.mset
      split
      · rfl
      · rfl
    case rpoplpush =>
      unfold rpopLPush
      dsimp only
      split
      · next hpush => exact absurd hpush.2 (by decide)
      · exact runCall_rewrite ..
  · exact (handler_oneCall cfg hspecial).keep env

end Keep

/-! ### Every rewritten frame -/

/-- **When a rewritten frame reproduces the command.** For every store and every handler that rewrites
what is logged, executing the frame that was passed to `WriteWAL` on a copy of the store gives the
same store if and only if the condition holds. -/
theorem rewrite_reproduces_iff {V Num : Type} {kv : Kv V Num} (hk : kv.Lawful)
    (hpop : kv.PopsMembers) (cfg : HandlerConfig) (s : Keyspace V) (db : DBID) (hasClient : Bool)
    (inv : Invocation) (h : inv.Rewrites cfg kv s (.onMaster db hasClient)) :
    inv.Reproduced cfg kv s (.onMaster db hasClient) ↔
      inv.RewriteOk kv s (.onMaster db hasClient) := by
  cases inv with
  | wakeBlockedList block key => exact wakeBlockedList_reproduced_iff h
  | command cmd args =>
    obtain ⟨harity, hrewrite⟩ := h
    by_cases hcmd : cmd.Rewrites
    · cases cmd <;> try exact hcmd.elim
      case incrbyfloat => exact incrbyFloat_reproduced_iff hk hrewrite
      case hincrbyfloat => exact hincrbyFloat_reproduced_iff hk hrewrite
      case spop => exact iff_of_true (spop_reproduced hpop hrewrite) trivial
      case blpop => exact blpop_reproduced_iff hk (fun _ => rfl) hrewrite
      case brpop => exact blpop_reproduced_iff hk (fun _ => rfl) hrewrite
      case brpoplpush => exact brpopLPush_reproduced_iff harity hrewrite
    · exact absurd (handler_keep cfg hcmd) hrewrite

theorem smallKv_popsMembers : smallKv.PopsMembers := by
  intro s db key count n hret hn
  by_cases hcount : count = 1
  · subst hcount
    change (SmallKv.spop s db key).ret = .ok n at hret
    change (SmallKv.spop s db key).strs ≠ [] ∧
      (SmallKv.srem s db key (SmallKv.spop s db key).strs).store = (SmallKv.spop s db key).store
    unfold SmallKv.spop at hret ⊢
    split at hret
    · next v members heq =>
      refine ⟨List.cons_ne_nil _ _, ?_⟩
      simp [SmallKv.srem, heq, SmallKv.result]
    · exact absurd (KvRet.ok.inj hret).symm hn
    · cases hret
    · cases hret
  · -- the small store knows one member at a time only
    have hexec : smallKv.exec s db (.spop key count) =
        SmallKv.result (.err .notImplemented) s := by
      simp only [smallKv, SmallKv.exec]
      split <;> simp_all
    rw [hexec] at hret
    cases hret

/-- `BRPOPLPUSH` that is answered at once, of a list with one element: what is logged has an argument
too many and does nothing. -/
theorem brpopLPush_not_reproduced :
    (Invocation.command .brpoplpush [[97], [98], [48]]).Rewrites ⟨16, []⟩ smallKv
        (SmallKv.put (fun _ _ => none) 0 [97] (some (.list [[120]]))) (.onMaster 0 true) ∧
      ¬(Invocation.command .brpoplpush [[97], [98], [48]]).Reproduced ⟨16, []⟩ smallKv
        (SmallKv.put (fun _ _ => none) 0 [97] (some (.list [[120]])))
        (.onMaster 0 true) := by
  constructor
  · exact ⟨by decide, by decide⟩
  · rintro ⟨frame, hframe, hcall⟩
    obtain rfl := Option.some.inj hframe
    have hkey := congrFun (congrFun hcall 0) [97]
    revert hkey
    decide

/-- `BLPOP` with an element in its second list: one `LPOP` of that list is logged. -/
theorem rewrite_reproduces_iff_blpop :
    (Invocation.command .blpop [[97], [98], [48]]).Rewrites ⟨16, []⟩ smallKv
        (SmallKv.put (fun _ _ => none) 0 [98] (some (.list [[120]]))) (.onMaster 0 true) ∧
      (Invocation.command .blpop [[97], [98], [48]]).Reproduced ⟨16, []⟩ smallKv
        (SmallKv.put (fun _ _ => none) 0 [98] (some (.list [[120]])))
        (.onMaster 0 true) := by
  have hrewrites : (Invocation.command .blpop [[97], [98], [48]]).Rewrites ⟨16, []⟩ smallKv
      (SmallKv.put (fun _ _ => none) 0 [98] (some (.list [[120]]))) (.onMaster 0 true) :=
    ⟨by decide, by decide⟩
  exact ⟨hrewrites, (rewrite_reproduces_iff smallKv_lawful smallKv_popsMembers _ _ _ _ _
    hrewrites).2 (by rw [Invocation.RewriteOk]; decide)⟩

end Comms
