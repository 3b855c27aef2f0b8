import Comms.Command.Announce
import Comms.Command.Lists
import Comms.Command.Rewrite

/-!
# `BRPOPLPUSH`, at once and later

A `BRPOPLPUSH` that finds an element is one call of the store. One that blocks is ended by
`WakeBlockedList`, which pops and pushes by itself: to the other end of the destination, without an
event, with a log record of its own, and not at all if the element or the destination is the empty
string. This module compares the two for one element that is pushed to the source.

* `blockedPath` — `BRPOPLPUSH` blocks, and `RPUSH` of the element wakes it;
* `immediatePath` — `RPUSH` of the element, and then `BRPOPLPUSH`;
* `PathEffect.Same` — what there is to compare;
* `blockedPath_same_iff` — when they are the same.
-/

namespace Comms

/-- What comes of the two commands: the store, the reply to the client of `BRPOPLPUSH`, the arguments of
`FireKeyChangedEvent`, and the frames passed to `WriteWAL`. -/
structure PathEffect (V Num : Type) where
  store : Keyspace V
  reply : Reply Num
  fired : List (DBID × Bytes)
  wal : List DataFrame

section Paths

variable {V Num : Type} (cfg : HandlerConfig) (kv : Kv V Num) (s : Keyspace V) (env : CallEnv)
  (source dest timeout value : Bytes)

/-- Executing records of the log. -/
def replay (frames : List DataFrame) : Keyspace V :=
  frames.foldl (fun s frame => frame.call cfg kv s (.onSlave env.db)) s

/-- The record of a command, if there is one. -/
def recordOf (cmd : DataCommand) (args : List Bytes) : List DataFrame :=
  ((Invocation.command cmd args).walFrame cfg kv s env).toList

/-- `BRPOPLPUSH source dest timeout` blocks, `RPUSH source value` comes, and the callback that this
queues runs. -/
def blockedPath : Option (PathEffect V Num) :=
  let o := brpopLPush kv s env [source, dest, timeout]
  o.blocked.map fun block =>
    let push := Comms.rpush kv o.store env [source, value]
    let fired := o.fired ++ push.fired
    let wal := recordOf cfg kv s env .brpoplpush [source, dest, timeout] ++
      recordOf cfg kv o.store env .rpush [source, value]
    let woken := if source ∈ push.wakes ∧ (env.db, source) ∈ block.keys
      then wakeBlockedList kv push.store env block source else (.answer push.store env .none, none)
    ⟨woken.1.store, woken.1.reply, fired ++ woken.1.fired, wal ++ woken.2.toList⟩

/-- `RPUSH source value`, and then `BRPOPLPUSH source dest timeout`. -/
def immediatePath : PathEffect V Num :=
  let push := Comms.rpush kv s env [source, value]
  let o := brpopLPush kv push.store env [source, dest, timeout]
  ⟨o.store, o.reply, push.fired ++ o.fired,
    recordOf cfg kv s env .rpush [source, value] ++
      recordOf cfg kv push.store env .brpoplpush [source, dest, timeout]⟩

/-- **The same.** The stores, the replies, whose transactions are aborted, and the stores that the log
gives. -/
structure PathEffect.Same (a b : PathEffect V Num) : Prop where
  store : a.store = b.store
  reply : a.reply = b.reply
  aborted : ∀ (C : Type) [DecidableEq C] (w : Watches C), w.fireAll a.fired = w.fireAll b.fired
  replayed : replay cfg kv s env a.wal = replay cfg kv s env b.wal

end Paths

/-! ### Events -/

namespace Watches

variable {C : Type} [DecidableEq C]

theorem fireAll_watched (w : Watches C) (fired : List (DBID × Bytes)) :
    (w.fireAll fired).watched = w.watched := by
  induction fired generalizing w with
  | nil => rfl
  | cons p fired ih => exact (ih _).trans (fireKeyChangedEvent_watched w p)

/-- The same keys, in any order and any number. -/
theorem fireAll_congr {w : Watches C} {a b : List (DBID × Bytes)} (h : ∀ p, p ∈ a ↔ p ∈ b) :
    w.fireAll a = w.fireAll b := by
  have hwatched : (w.fireAll a).watched = (w.fireAll b).watched := by
    rw [fireAll_watched, fireAll_watched]
  have habort : (w.fireAll a).abortExec = (w.fireAll b).abortExec := by
    funext c
    refine Bool.eq_iff_iff.mpr ?_
    rw [fireAll_abortExec, fireAll_abortExec]
    simp only [h]
  cases ha : w.fireAll a
  cases hb : w.fireAll b
  rw [ha, hb] at hwatched habort
  exact Watches.mk.injEq .. |>.mpr ⟨hwatched, habort⟩

/-- A key that has a name and is in one of the lists only. -/
theorem fireAll_ne {a b : List (DBID × Bytes)} {p : DBID × Bytes} (hname : p.2 ≠ []) (ha : p ∉ a)
    (hb : p ∈ b) : ∃ w : Watches Unit, w.fireAll a ≠ w.fireAll b := by
  refine ⟨⟨fun q => if q = p then [()] else [], fun _ => false⟩, fun heq => ?_⟩
  have habort := congrArg (fun w => w.abortExec ()) heq
  rw [Bool.eq_iff_iff, fireAll_abortExec, fireAll_abortExec] at habort
  obtain hfalse | ⟨q, hq, -, hmem⟩ := habort.mpr (.inr ⟨p, hb, hname, by simp⟩)
  · cases hfalse
  · dsimp only at hmem
    split at hmem
    next hqp =>
      rw [hqp] at hq
      exact ha hq
    next => cases hmem

end Watches

/-! ### The two paths -/

section Compare

variable {V Num : Type} {cfg : HandlerConfig} {kv : Kv V Num} {s : Keyspace V} {env : CallEnv}
  {members : Option V → Option (List Bytes)} {source dest timeout value : Bytes}

theorem nilIfMissing_of_missing {e : KvErr} (h : e.Missing) : (nilIfMissing e : Reply Num) = .nil := by
  obtain rfl | rfl := h <;> rfl

theorem nilIfMissing_of_not_missing {e : KvErr} (h : ¬e.Missing) :
    (nilIfMissing e : Reply Num) = fillErrorReply e := by
  cases e <;> first | rfl | exact absurd (by simp [KvErr.Missing]) h

theorem fillErrorReply_isNil (e : KvErr) : (fillErrorReply e : Reply Num).isNil = false := by
  cases e <;> rfl

theorem runCall_ok {call : KvCall Num} {n : ℕ} (h : (kv.exec s env.db call).ret = .ok n) (fires : Fires)
    (keys : List (DBID × Bytes)) (reply : ℕ → KvResult V Num → Reply Num) (errReply : KvErr → Reply Num) :
    runCall kv s env call fires keys reply errReply =
      { store := (kv.exec s env.db call).store, reply := reply n (kv.exec s env.db call), db := env.db
        calls := [call], fired := if fires.on n then keys else [], rewrite := .keep, blocked := none
        wakes := [] } := by
  unfold runCall
  dsimp only
  rw [h]

theorem runCall_err {call : KvCall Num} {e : KvErr} (h : (kv.exec s env.db call).ret = .err e)
    (fires : Fires) (keys : List (DBID × Bytes)) (reply : ℕ → KvResult V Num → Reply Num)
    (errReply : KvErr → Reply Num) :
    runCall kv s env call fires keys reply errReply =
      { store := (kv.exec s env.db call).store, reply := errReply e, db := env.db, calls := [call]
        fired := [], rewrite := .keep, blocked := none, wakes := [] } := by
  unfold runCall
  dsimp only
  rw [h]

theorem rpopLPush_eq : rpopLPush kv s env [source, dest, timeout] true =
    let o := runCall kv s env (.rpoplpush source dest) .always [(env.db, source), (env.db, dest)] strReply
      nilIfMissing
    if o.dataChange ∧ true = true then { o with rewrite := .setCommand .rpoplpush } else o := rfl

/-- An element is moved at once. -/
theorem brpopLPush_ok {n : ℕ} (htimeout : (stringToUInt32 timeout).isSome = true)
    (hret : (kv.exec s env.db (.rpoplpush source dest)).ret = .ok n) :
    brpopLPush kv s env [source, dest, timeout] =
      { store := (kv.exec s env.db (.rpoplpush source dest)).store
        reply := .str (kv.exec s env.db (.rpoplpush source dest)).str, db := env.db
        calls := [.rpoplpush source dest], fired := [(env.db, source), (env.db, dest)]
        rewrite := .setCommand .rpoplpush, blocked := none, wakes := [] } := by
  obtain ⟨t, ht⟩ := Option.isSome_iff_exists.mp htimeout
  unfold brpopLPush
  rw [show [source, dest, timeout].getLastD [] = timeout from rfl, ht]
  dsimp only
  have hmove : rpopLPush kv s env [source, dest, timeout] true =
      { store := (kv.exec s env.db (.rpoplpush source dest)).store
        reply := .str (kv.exec s env.db (.rpoplpush source dest)).str, db := env.db
        calls := [.rpoplpush source dest], fired := [(env.db, source), (env.db, dest)]
        rewrite := .setCommand .rpoplpush, blocked := none, wakes := [] } := by
    rw [rpopLPush_eq, runCall_ok hret]
    rfl
  rw [hmove]
  rfl

variable (env) in
/-- Nothing is moved: the client waits, or is told why. -/
theorem brpopLPush_err {e : KvErr} (htimeout : (stringToUInt32 timeout).isSome = true)
    (hret : (kv.exec s env.db (.rpoplpush source dest)).ret = .err e) :
    (brpopLPush kv s env [source, dest, timeout]).store =
        (kv.exec s env.db (.rpoplpush source dest)).store ∧
      (brpopLPush kv s env [source, dest, timeout]).fired = [] ∧
      (e.Missing → (brpopLPush kv s env [source, dest, timeout]).blocked =
        some ⟨[(env.db, source)], dest, false⟩) ∧
      (¬e.Missing → (brpopLPush kv s env [source, dest, timeout]).blocked = none ∧
        (brpopLPush kv s env [source, dest, timeout]).reply = fillErrorReply e) := by
  obtain ⟨t, ht⟩ := Option.isSome_iff_exists.mp htimeout
  have hmove : rpopLPush kv s env [source, dest, timeout] true =
      { store := (kv.exec s env.db (.rpoplpush source dest)).store, reply := nilIfMissing e
        db := env.db, calls := [.rpoplpush source dest], fired := [], rewrite := .keep
        blocked := none, wakes := [] } := by
    rw [rpopLPush_eq, runCall_err hret]
    rfl
  unfold brpopLPush
  rw [show [source, dest, timeout].getLastD [] = timeout from rfl, ht]
  dsimp only
  rw [hmove]
  dsimp only
  by_cases hmissing : e.Missing
  · rw [nilIfMissing_of_missing hmissing]
    exact ⟨rfl, rfl, fun _ => rfl, fun hnot => absurd hmissing hnot⟩
  · rw [nilIfMissing_of_not_missing hmissing, fillErrorReply_isNil]
    exact ⟨rfl, rfl, fun h => absurd h hmissing, fun _ => ⟨rfl, rfl⟩⟩

/-- `BRPOPLPUSH` blocks if there is nothing to pop. -/
theorem blocked_inv (hlaw : kv.Lawful) (hlists : kv.Lists members) {block : ListBlock}
    (h : (brpopLPush kv s env [source, dest, timeout]).blocked = some block) :
    members (s env.db source) = some [] ∧ (brpopLPush kv s env [source, dest, timeout]).store = s ∧
      (brpopLPush kv s env [source, dest, timeout]).fired = [] ∧
      block = ⟨[(env.db, source)], dest, false⟩ ∧ (stringToUInt32 timeout).isSome = true := by
  have htimeout : (stringToUInt32 timeout).isSome = true := by
    by_contra hno
    rw [Option.not_isSome_iff_eq_none] at hno
    unfold brpopLPush at h
    rw [show [source, dest, timeout].getLastD [] = timeout from rfl, hno] at h
    cases h
  cases hret : (kv.exec s env.db (.rpoplpush source dest)).ret with
  | ok n =>
    rw [brpopLPush_ok htimeout hret] at h
    cases h
  | err e =>
    obtain ⟨hstore, hfired, hmissing, hother⟩ := brpopLPush_err env htimeout hret
    have he : e.Missing := by
      by_contra hnot
      rw [(hother hnot).1] at h
      cases h
    refine ⟨?_, hstore.trans (hlaw.failed _ _ _ _ hret), hfired,
      Option.some.inj (h.symm.trans (hmissing he)), htimeout⟩
    have hne : e ≠ .invalidType := by
      rintro rfl
      obtain h | h := he <;> cases h
    cases hsource : members (s env.db source) with
    | none =>
      have hwrong := hlists.rpoplpush_sourceWrongType s env.db source dest hsource
      exact absurd (KvRet.err.inj (hret.symm.trans hwrong)) hne
    | some l =>
      obtain rfl | ⟨l, v, rfl⟩ := List.eq_nil_or_concat' l
      · rfl
      · cases hdest : members ((kv.exec s env.db (.rpop source)).store env.db dest) with
        | none =>
          have hwrong := hlists.rpoplpush_wrongType s env.db source dest v l hsource hdest
          exact absurd (KvRet.err.inj (hret.symm.trans hwrong)) hne
        | some m =>
          obtain ⟨⟨n, hok⟩, -, -⟩ := hlists.rpoplpush s env.db source dest v l m hsource hdest
          rw [hret] at hok
          cases hok

variable (env value) in
/-- `RPUSH` of one element to a list wakes those who wait for it. -/
theorem rpush_ok (hlists : kv.Lists members) (hsource : members (s env.db source) = some []) :
    (Comms.rpush kv s env [source, value]).store = (kv.exec s env.db (.rpush source [value] false)).store ∧
      (Comms.rpush kv s env [source, value]).fired = [(env.db, source)] ∧
      (Comms.rpush kv s env [source, value]).wakes = [source] ∧
      members ((kv.exec s env.db (.rpush source [value] false)).store env.db source) = some [value] := by
  obtain ⟨n, hret, hmembers⟩ := hlists.rpush s env.db source [value] [] hsource (List.cons_ne_nil value [])
  have hcall : Comms.rpush kv s env [source, value] =
      { store := (kv.exec s env.db (.rpush source [value] false)).store, reply := .int n, db := env.db
        calls := [.rpush source [value] false], fired := [(env.db, source)], rewrite := .keep
        blocked := none, wakes := [source] } := by
    change thenWake (runCall kv s env (.rpush source [value] false) .always [(env.db, source)] intReply
      fillErrorReply) source = _
    rw [runCall_ok hret]
    rfl
  rw [hcall]
  exact ⟨rfl, rfl, rfl, hmembers⟩

/-! ### What the callback does -/

/-- The block context of `BRPOPLPUSH`. -/
def pushBlock (db : DBID) (source dest : Bytes) : ListBlock := ⟨[(db, source)], dest, false⟩

/-- The empty string is taken off the list, and the client goes on waiting. -/
theorem wake_dropped (hlists : kv.Lists members) (hsource : members (s env.db source) = some [[]]) :
    (wakeBlockedList kv s env (pushBlock env.db source dest) source).1.reply = .none := by
  obtain ⟨hret, hstr, -⟩ := hlists.rpop s env.db source [] [] hsource
  simp [wakeBlockedList, pushBlock, popCall, Outcome.answer, hret, hstr]

/-- Without a destination it is a `BRPOP`. -/
theorem wake_popped (hlists : kv.Lists members) (hsource : members (s env.db source) = some [value])
    (hvalue : value ≠ []) :
    (wakeBlockedList kv s env (pushBlock env.db source []) source).1.reply =
      .array [.str source, .str value] := by
  obtain ⟨hret, hstr, -⟩ := hlists.rpop s env.db source value [] hsource
  simp [wakeBlockedList, pushBlock, popCall, Outcome.answer, hret, hstr, hvalue]

/-- The element is pushed to the end of the destination. -/
theorem wake_pushed (hlists : kv.Lists members) (hsource : members (s env.db source) = some [value])
    (hvalue : value ≠ []) (hdest : dest ≠ []) {l : List Bytes}
    (hmembers : members ((kv.exec s env.db (.rpop source)).store env.db dest) = some l) :
    (wakeBlockedList kv s env (pushBlock env.db source dest) source).1.store =
        (kv.exec (kv.exec s env.db (.rpop source)).store env.db (.rpush dest [value] false)).store ∧
      (wakeBlockedList kv s env (pushBlock env.db source dest) source).1.reply = .str value ∧
      (wakeBlockedList kv s env (pushBlock env.db source dest) source).2 =
        if env.noWal then none else some ⟨.rpoplpush, [source]⟩ := by
  obtain ⟨hret, hstr, -⟩ := hlists.rpop s env.db source value [] hsource
  obtain ⟨n, hpush, -⟩ := hlists.rpush _ env.db dest [value] l hmembers (List.cons_ne_nil value [])
  simp [wakeBlockedList, pushBlock, popCall, Outcome.answer, hret, hstr, hvalue, hdest, hpush]

/-- The element goes back. -/
theorem wake_rolledBack (hlaw : kv.Lawful) (hlists : kv.Lists members)
    (hsource : members (s env.db source) = some [value]) (hvalue : value ≠ []) (hdest : dest ≠ [])
    (hmembers : members ((kv.exec s env.db (.rpop source)).store env.db dest) = none) :
    (wakeBlockedList kv s env (pushBlock env.db source dest) source).1.store =
        (kv.exec (kv.exec s env.db (.rpop source)).store env.db (.rpush source [value] false)).store ∧
      (wakeBlockedList kv s env (pushBlock env.db source dest) source).1.reply =
        fillErrorReply .invalidType ∧
      (wakeBlockedList kv s env (pushBlock env.db source dest) source).2 = none := by
  obtain ⟨hret, hstr, -⟩ := hlists.rpop s env.db source value [] hsource
  have hpush : (kv.exec (kv.exec s env.db (.rpop source)).store env.db (.rpush dest [value] false)).ret =
      .err .invalidType := hlists.push_wrongType _ env.db false dest [value] hmembers
  have hsame := hlaw.failed _ _ _ _ hpush
  simp [wakeBlockedList, pushBlock, popCall, Outcome.answer, hret, hstr, hvalue, hdest, hpush, hsame]

/-! ### The comparison -/

/-- What is known when `BRPOPLPUSH` has blocked and the element has been pushed. -/
structure Blocked (kv : Kv V Num) (members : Option V → Option (List Bytes)) (s : Keyspace V) (db : DBID)
    (source timeout value : Bytes) : Prop where
  empty : members (s db source) = some []
  timeout : (stringToUInt32 timeout).isSome = true
  /-- The store before, and the store after the element has been pushed and popped. -/
  frames : Keyspace.Frames
    (kv.exec (kv.exec s db (.rpush source [value] false)).store db (.rpop source)).store s (db, source)
  pushed : members ((kv.exec s db (.rpush source [value] false)).store db source) = some [value]
  popped : members
    ((kv.exec (kv.exec s db (.rpush source [value] false)).store db (.rpop source)).store db source) =
      some []

theorem blockedPath_eq (hlaw : kv.Lawful) (hlists : kv.Lists members) {e : PathEffect V Num}
    (h : blockedPath cfg kv s env source dest timeout value = some e) :
    Blocked kv members s env.db source timeout value ∧
      let pushed := (kv.exec s env.db (.rpush source [value] false)).store
      let w := wakeBlockedList kv pushed env (pushBlock env.db source dest) source
      e = ⟨w.1.store, w.1.reply, [(env.db, source)],
        recordOf cfg kv s env .rpush [source, value] ++ w.2.toList⟩ := by
  obtain ⟨block, hblock, rfl⟩ := Option.map_eq_some_iff.mp h
  obtain ⟨hempty, hstore, hfired, rfl, htimeout⟩ := blocked_inv hlaw hlists hblock
  obtain ⟨hpush, hpushFired, hwakes, hmembers⟩ := rpush_ok env value hlists hempty
  obtain ⟨-, -, hpopped⟩ := hlists.rpop _ env.db source value [] hmembers
  refine ⟨⟨hempty, htimeout, fun d k hne => ?_, hmembers, hpopped⟩, ?_⟩
  · rw [hlaw.frame _ _ (.rpop source) d k hne, hlaw.frame _ _ (.rpush source [value] false) d k hne]
  · have hrecord : recordOf cfg kv s env .brpoplpush [source, dest, timeout] = [] := by
      have hchange : (brpopLPush kv s env [source, dest, timeout]).dataChange = false := by
        rw [Outcome.dataChange, hfired]
        rfl
      change Option.toList (if !env.noWal && (brpopLPush kv s env [source, dest, timeout]).dataChange
        then _ else none) = []
      rw [hchange, Bool.and_false]
      rfl
    dsimp only
    rw [hstore, hfired, hrecord, hwakes, hpush, hpushFired,
      if_pos ⟨List.mem_singleton_self _, List.mem_singleton_self _⟩, wakeBlockedList_fired]
    rfl

/-- What has no valid arity does nothing. -/
theorem replay_append {frames refused : List DataFrame}
    (h : ∀ frame ∈ refused, validArity frame.cmd.arity frame.args.length = false) :
    replay cfg kv s env (frames ++ refused) = replay cfg kv s env frames := by
  unfold replay
  rw [List.foldl_append]
  generalize frames.foldl (fun s frame => frame.call cfg kv s (.onSlave env.db)) s = t
  induction refused with
  | nil => rfl
  | cons frame refused ih =>
    rw [List.foldl_cons, call_of_not_validArity (h frame List.mem_cons_self)]
    exact ih fun f hf => h f (List.mem_cons_of_mem frame hf)

/-- What `BRPOPLPUSH` passes to `WriteWAL` has three arguments, or it is nothing. -/
theorem recordOf_refused {t : Keyspace V} (htimeout : (stringToUInt32 timeout).isSome = true) :
    ∀ frame ∈ recordOf cfg kv t env .brpoplpush [source, dest, timeout],
      validArity frame.cmd.arity frame.args.length = false := by
  intro frame hframe
  have hwal : (Invocation.command .brpoplpush [source, dest, timeout]).walFrame cfg kv t env = some frame :=
    Option.mem_toList.mp hframe
  change (if !env.noWal && (brpopLPush kv t env [source, dest, timeout]).dataChange
    then some ((brpopLPush kv t env [source, dest, timeout]).rewrite.apply _) else none) = _ at hwal
  cases hret : (kv.exec t env.db (.rpoplpush source dest)).ret with
  | ok n =>
    rw [brpopLPush_ok htimeout hret] at hwal
    split at hwal
    next =>
      obtain rfl := Option.some.inj hwal
      rfl
    next => cases hwal
  | err e =>
    rw [Outcome.dataChange, (brpopLPush_err env htimeout hret).2.1] at hwal
    simp at hwal

variable (cfg) in
/-- The two paths when the destination takes the element. -/
theorem immediate_moved (hlists : kv.Lists members) (hblocked : Blocked kv members s env.db source timeout value)
    {l : List Bytes} (hdest : members ((kv.exec (kv.exec s env.db (.rpush source [value] false)).store env.db
      (.rpop source)).store env.db dest) = some l) :
    let pushed := (kv.exec s env.db (.rpush source [value] false)).store
    let e := immediatePath cfg kv s env source dest timeout value
    e.store = (kv.exec (kv.exec pushed env.db (.rpop source)).store env.db (.lpush dest [value] false)).store ∧
      e.reply = .str value ∧ e.fired = [(env.db, source), (env.db, source), (env.db, dest)] := by
  obtain ⟨hpush, hpushFired, -, hmembers⟩ := rpush_ok env value hlists hblocked.empty
  obtain ⟨⟨n, hret⟩, hstr, hstore⟩ := hlists.rpoplpush _ env.db source dest value [] l hmembers hdest
  intro pushed e
  have hmove := brpopLPush_ok hblocked.timeout hret
  unfold e immediatePath
  dsimp only
  rw [hpush, hpushFired, hmove, hstr, hstore]
  exact ⟨rfl, rfl, rfl⟩

variable (cfg) in
/-- The two paths when it does not. -/
theorem immediate_failed (hlaw : kv.Lawful) (hlists : kv.Lists members)
    (hblocked : Blocked kv members s env.db source timeout value)
    (hdest : members ((kv.exec (kv.exec s env.db (.rpush source [value] false)).store env.db
      (.rpop source)).store env.db dest) = none) :
    let e := immediatePath cfg kv s env source dest timeout value
    e.store = (kv.exec s env.db (.rpush source [value] false)).store ∧
      e.reply = fillErrorReply .invalidType ∧ e.fired = [(env.db, source)] := by
  obtain ⟨hpush, hpushFired, -, hmembers⟩ := rpush_ok env value hlists hblocked.empty
  have hret := hlists.rpoplpush_wrongType _ env.db source dest value [] hmembers hdest
  obtain ⟨hstore, hfired, -, hother⟩ := brpopLPush_err env hblocked.timeout hret
  obtain ⟨-, hreply⟩ := hother (by rintro (h | h) <;> cases h)
  intro e
  unfold e immediatePath
  dsimp only
  rw [hpush, hpushFired, hstore, hfired, hreply]
  exact ⟨hlaw.failed _ _ _ _ hret, rfl, rfl⟩

/-- The first element goes to the source, whichever way. -/
theorem Blocked.push_eq (hlists : kv.Lists members) (h : Blocked kv members s env.db source timeout value)
    (left : Bool) :
    (kv.exec (kv.exec (kv.exec s env.db (.rpush source [value] false)).store env.db (.rpop source)).store
        env.db (pushCall left source [value])).store =
      (kv.exec s env.db (.rpush source [value] false)).store :=
  hlists.push_first s _ env.db left false source value h.frames h.empty h.popped

/-- **`BRPOPLPUSH` that blocks.** It means what it means at once if and only if neither the element nor
the destination is the empty string, and the destination is the source or is not a list. -/
theorem blockedPath_same_iff (hlaw : kv.Lawful) (hlists : kv.Lists members) {e : PathEffect V Num}
    (h : blockedPath cfg kv s env source dest timeout value = some e) :
    e.Same cfg kv s env (immediatePath cfg kv s env source dest timeout value) ↔
      value ≠ [] ∧ dest ≠ [] ∧ (source = dest ∨ members (s env.db dest) = none) := by
  obtain ⟨hblocked, he⟩ := blockedPath_eq hlaw hlists h
  have hdest : members ((kv.exec (kv.exec s env.db (.rpush source [value] false)).store env.db
      (.rpop source)).store env.db dest) =
        if source = dest then some [] else members (s env.db dest) := by
    split
    next heq => rw [← heq, hblocked.popped]
    next hne => rw [hblocked.frames env.db dest fun heq => hne (Prod.mk.inj heq).2.symm]
  have hreply : (immediatePath cfg kv s env source dest timeout value).reply = .str value ∨
      (immediatePath cfg kv s env source dest timeout value).reply = fillErrorReply .invalidType := by
    cases hm : members ((kv.exec (kv.exec s env.db (.rpush source [value] false)).store env.db
        (.rpop source)).store env.db dest) with
    | some l => exact .inl (immediate_moved cfg hlists hblocked hm).2.1
    | none => exact .inr (immediate_failed cfg hlaw hlists hblocked hm).2.1
  by_cases hvalue : value = []
  · -- the client goes on waiting
    subst hvalue
    refine iff_of_false (fun hsame => ?_) fun hall => hall.1 rfl
    have hnone : e.reply = .none := by
      rw [he]
      exact wake_dropped hlists hblocked.pushed
    rw [hsame.reply] at hnone
    obtain hr | hr := hreply <;> rw [hr] at hnone <;> cases hnone
  by_cases hname : dest = []
  · -- the element is answered as to a `BRPOP`
    subst hname
    refine iff_of_false (fun hsame => ?_) fun hall => hall.2.1 rfl
    have hpair : e.reply = .array [.str source, .str value] := by
      rw [he]
      exact wake_popped hlists hblocked.pushed hvalue
    rw [hsame.reply] at hpair
    obtain hr | hr := hreply <;> rw [hr] at hpair <;> cases hpair
  have hreplayed : ∀ record : Option DataFrame, (∀ frame ∈ record, frame = ⟨.rpoplpush, [source]⟩) →
      replay cfg kv s env (recordOf cfg kv s env .rpush [source, value] ++ record.toList) =
        replay cfg kv s env (immediatePath cfg kv s env source dest timeout value).wal := by
    intro record hrecord
    rw [immediatePath]
    dsimp only
    rw [replay_append (recordOf_refused hblocked.timeout), replay_append]
    intro frame hframe
    rw [hrecord frame (Option.mem_toList.mp hframe)]
    rfl
  cases hm : members ((kv.exec (kv.exec s env.db (.rpush source [value] false)).store env.db
      (.rpop source)).store env.db dest) with
  | none =>
    -- the element goes back
    have hright : value ≠ [] ∧ dest ≠ [] ∧ (source = dest ∨ members (s env.db dest) = none) := by
      refine ⟨hvalue, hname, ?_⟩
      rw [hm] at hdest
      split at hdest
      next => cases hdest
      next => exact .inr hdest.symm
    refine iff_of_true ?_ hright
    obtain ⟨hwstore, hwreply, hwwal⟩ := wake_rolledBack hlaw hlists hblocked.pushed hvalue hname hm
    obtain ⟨histore, hireply, hifired⟩ := immediate_failed cfg hlaw hlists hblocked hm
    refine ⟨?_, ?_, fun C _ w => ?_, ?_⟩
    · rw [he, histore]
      exact hwstore.trans (hblocked.push_eq hlists false)
    · rw [he, hireply]
      exact hwreply
    · rw [he, hifired]
    · rw [he]
      refine hreplayed _ fun frame hframe => ?_
      rw [hwwal] at hframe
      cases hframe
  | some l =>
    obtain ⟨hwstore, hwreply, hwwal⟩ := wake_pushed hlists hblocked.pushed hvalue hname hm
    obtain ⟨histore, hireply, hifired⟩ := immediate_moved cfg hlists hblocked hm
    by_cases heq : source = dest
    · subst heq
      refine iff_of_true ?_ ⟨hvalue, hname, .inl rfl⟩
      refine ⟨?_, ?_, fun C _ w => ?_, ?_⟩
      · rw [he, histore]
        exact hwstore.trans ((hblocked.push_eq hlists false).trans (hblocked.push_eq hlists true).symm)
      · rw [he, hireply]
        exact hwreply
      · rw [he, hifired]
        exact Watches.fireAll_congr fun p => by simp
      · rw [he]
        refine hreplayed _ fun frame hframe => ?_
        rw [hwwal] at hframe
        split at hframe
        next => cases hframe
        next => exact (Option.some.inj hframe).symm
    · -- the destination is not announced
      refine iff_of_false (fun hsame => ?_) fun hall => ?_
      · obtain ⟨w, hw⟩ := Watches.fireAll_ne (a := e.fired)
          (b := (immediatePath cfg kv s env source dest timeout value).fired) (p := (env.db, dest)) hname
          (by rw [he]; simpa using Ne.symm heq) (by rw [hifired]; simp)
        exact hw (hsame.aborted Unit w)
      · rw [hm, if_neg heq] at hdest
        obtain h | h := hall.2.2
        · exact heq h
        · rw [h] at hdest
          cases hdest

end Compare

/-- A destination with an element: the one that is moved goes behind it, or in front of it. -/
theorem blockedPath_other_end :
    ¬∀ (s : Keyspace SmallValue) (source dest timeout value : Bytes) (e : PathEffect SmallValue ℤ),
      blockedPath ⟨16, []⟩ smallKv s (.onMaster 0 true) source dest timeout value = some e →
        e.Same ⟨16, []⟩ smallKv s (.onMaster 0 true)
          (immediatePath ⟨16, []⟩ smallKv s (.onMaster 0 true) source dest timeout value) := by
  intro hall
  have hsame := hall (SmallKv.put (fun _ _ => none) 0 [98] (some (.list [[121]]))) [97] [98] [48] [120] _ rfl
  have hdest := congrFun (congrFun hsame.store 0) [98]
  revert hdest
  decide

/-- A list that is rotated: the same key at both ends. -/
theorem blockedPath_rotates :
    ∃ e, blockedPath ⟨16, []⟩ smallKv (fun _ _ => none) (.onMaster 0 true) [97] [97] [48] [120] = some e ∧
      e.Same ⟨16, []⟩ smallKv (fun _ _ => none) (.onMaster 0 true)
        (immediatePath ⟨16, []⟩ smallKv (fun _ _ => none) (.onMaster 0 true) [97] [97] [48] [120]) :=
  ⟨_, rfl, (blockedPath_same_iff smallKv_lawful smallKv_lists rfl).mpr ⟨by decide, by decide, .inl rfl⟩⟩

end Comms
