import Comms.Command.ListPop
import Comms.Command.SmallKv

/-!
# Every store change is announced

A handler that changes the value of a key is to call `FireKeyChangedEvent` for it: the call sets
`ctx.data_change`, which makes `Call` log the command, and aborts the transactions of the clients
that watch the key. This module says for which commands, arguments and stores the handlers do so.

* `Announced` — every change is announced, and nothing is announced that was not touched;
* `runCall_regular` — a handler that makes one call announces it if the count that is returned tells
  whether something changed;
* `DataCommand.KeysOk`, `EmptyKeyOk` — the conditions;
* `handler_covers_iff` — one handler after the other;
* `announced_iff` — when every change is announced.
-/

namespace Comms

/-! ### Watched keys -/

/-- `m_watched_ctx`, and `abort_exec` of the clients in it. -/
structure Watches (C : Type) where
  watched : DBID × Bytes → List C
  abortExec : C → Bool

namespace Watches

variable {C : Type} [DecidableEq C]

/-- `AbortWatchKey`. -/
def abortWatchKey (w : Watches C) (p : DBID × Bytes) : Watches C :=
  { w with abortExec := fun c => w.abortExec c || c ∈ w.watched p }

/-- `FireKeyChangedEvent`, less `ctx.data_change`. -/
def fireKeyChangedEvent (w : Watches C) (p : DBID × Bytes) : Watches C :=
  if p.2 = [] then w else w.abortWatchKey p

/-- One `FireKeyChangedEvent` after the other. -/
def fireAll (w : Watches C) (fired : List (DBID × Bytes)) : Watches C :=
  fired.foldl fireKeyChangedEvent w

theorem fireKeyChangedEvent_watched (w : Watches C) (p : DBID × Bytes) :
    (w.fireKeyChangedEvent p).watched = w.watched := by
  unfold fireKeyChangedEvent
  split <;> rfl

theorem fireKeyChangedEvent_abortExec (w : Watches C) (p : DBID × Bytes) (c : C) :
    (w.fireKeyChangedEvent p).abortExec c = true ↔
      w.abortExec c = true ∨ p.2 ≠ [] ∧ c ∈ w.watched p := by
  unfold fireKeyChangedEvent
  split <;> simp_all [abortWatchKey]

/-- A client is aborted if it was, or if it watches one of the keys that have a name. -/
theorem fireAll_abortExec (w : Watches C) (fired : List (DBID × Bytes)) (c : C) :
    (w.fireAll fired).abortExec c = true ↔
      w.abortExec c = true ∨ ∃ p ∈ fired, p.2 ≠ [] ∧ c ∈ w.watched p := by
  induction fired generalizing w with
  | nil => simp [fireAll]
  | cons p fired ih =>
    have hcons : w.fireAll (p :: fired) = (w.fireKeyChangedEvent p).fireAll fired := rfl
    rw [hcons, ih, fireKeyChangedEvent_abortExec, fireKeyChangedEvent_watched]
    simp only [List.mem_cons, exists_eq_or_imp, or_assoc]

end Watches

/-! ### What is announced -/

section Announce

variable {V Num C : Type}

/-- The value of a key differs from the one before. -/
def Outcome.Changes (o : Outcome V Num) (s : Keyspace V) (p : DBID × Bytes) : Prop :=
  o.store p.1 p.2 ≠ s p.1 p.2

/-- Nothing changes if and only if the store stays what it is. -/
theorem Outcome.not_changes_iff {o : Outcome V Num} {s : Keyspace V} :
    (∀ p, ¬o.Changes s p) ↔ o.store = s := by
  constructor
  · intro h
    ext1 d
    ext1 k
    exact not_not.1 (h (d, k))
  · rintro h p
    simp [Outcome.Changes, h]

/-- The event is fired for the keys whose values change, and for none that no call was about. -/
structure Covers (s : Keyspace V) (env : CallEnv) (o : Outcome V Num) : Prop where
  fired : ∀ p, o.Changes s p → p ∈ o.fired
  touched : ∀ p ∈ o.fired, ∃ call ∈ o.calls, call.Touches env.db p

/-- **Every store change is announced.** `FireKeyChangedEvent` was called for each key whose value
changed, `ctx.data_change` is set and the clients that watch the key are aborted; and it was called
for no key that the command did not touch. -/
structure Announced [DecidableEq C] (s : Keyspace V) (env : CallEnv) (w : Watches C)
    (o : Outcome V Num) : Prop where
  fired : ∀ p, o.Changes s p → p ∈ o.fired
  dataChange : ∀ p, o.Changes s p → o.dataChange = true
  aborted : ∀ p, o.Changes s p → ∀ c ∈ w.watched p, (w.fireAll o.fired).abortExec c = true
  touched : ∀ p ∈ o.fired, ∃ call ∈ o.calls, call.Touches env.db p

/-- With the empty key among the announced ones, `others` are the announced keys that have a
name. -/
def FiredWith (others : List (DBID × Bytes)) (o : Outcome V Num) : Prop :=
  ∀ d, (d, []) ∈ o.fired → ∀ p : DBID × Bytes, p.2 ≠ [] → (p ∈ o.fired ↔ p ∈ others)

/-- `FireKeyChangedEvent` aborts nobody for the empty key: a client that watches it has to be aborted
already, or for another key. -/
def EmptyKeyOk (s : Keyspace V) (w : Watches C) (others : List (DBID × Bytes))
    (o : Outcome V Num) : Prop :=
  ∀ d, o.Changes s (d, []) → ∀ c ∈ w.watched (d, []),
    w.abortExec c = true ∨ ∃ p ∈ others, p.2 ≠ [] ∧ c ∈ w.watched p

theorem announced_iff_covers [DecidableEq C] {s : Keyspace V} {env : CallEnv} {w : Watches C}
    {others : List (DBID × Bytes)} {o : Outcome V Num} (ho : FiredWith others o) :
    Announced s env w o ↔ Covers s env o ∧ EmptyKeyOk s w others o := by
  constructor
  · intro h
    refine ⟨⟨h.fired, h.touched⟩, fun d hd c hc => ?_⟩
    obtain habort | ⟨p, hp, hne, hcp⟩ := (w.fireAll_abortExec _ c).1 (h.aborted _ hd c hc)
    · exact .inl habort
    · exact .inr ⟨p, (ho d (h.fired _ hd) p hne).1 hp, hne, hcp⟩
  · rintro ⟨hcov, hempty⟩
    refine ⟨hcov.fired, fun p hp => ?_, fun p hp c hc => ?_, hcov.touched⟩
    · have hmem := hcov.fired p hp
      simp only [Outcome.dataChange, Bool.not_eq_true']
      exact List.isEmpty_eq_false_iff.2 (List.ne_nil_of_mem hmem)
    · rw [Watches.fireAll_abortExec]
      obtain ⟨d, k⟩ := p
      by_cases hk : k = []
      · subst hk
        -- the empty key: somebody else has to be told
        obtain habort | ⟨q, hq, hne, hcq⟩ := hempty d hp c hc
        · exact .inl habort
        · exact .inr ⟨q, (ho d (hcov.fired _ hp) q hne).2 hq, hne, hcq⟩
      · exact .inr ⟨_, hcov.fired _ hp, hk, hc⟩

/-- At most one key is announced. -/
theorem firedWith_nil {o : Outcome V Num} {q : DBID × Bytes} (h : ∀ p ∈ o.fired, p = q) :
    FiredWith [] o := by
  intro d hd p hp
  have hq : q.2 = [] := by rw [← h _ hd]
  refine ⟨fun hmem => absurd ?_ hp, fun hmem => by simp at hmem⟩
  rw [h p hmem, hq]

/-- All of the keys are announced, or none. -/
theorem firedWith_all {o : Outcome V Num} {keys : List (DBID × Bytes)}
    (h : o.fired = [] ∨ o.fired = keys) : FiredWith keys o := by
  intro d hd p _
  obtain h | h := h
  · simp [h] at hd
  · rw [h]

/-- A handler that announces nothing must not change anything. -/
theorem covers_iff_of_fired_nil {s : Keyspace V} {env : CallEnv} {o : Outcome V Num}
    (h : o.fired = []) : Covers s env o ↔ o.store = s := by
  rw [← Outcome.not_changes_iff]
  constructor
  · intro hc p hp
    simpa [h] using hc.fired p hp
  · intro hc
    exact ⟨fun p hp => absurd hp (hc p), by simp [h]⟩

end Announce

/-! ### Handlers that make one call -/

section Regular

variable {V Num : Type} {kv : Kv V Num} {s : Keyspace V} {env : CallEnv} {args : List Bytes}

/-- A handler that always announces what it changes. -/
def Regular (s : Keyspace V) (env : CallEnv) (others : List (DBID × Bytes)) (o : Outcome V Num) :
    Prop :=
  Covers s env o ∧ FiredWith others o

theorem regular_answer (others : List (DBID × Bytes)) (reply : Reply Num) :
    Regular s env others (.answer s env reply) :=
  ⟨(covers_iff_of_fired_nil rfl).2 rfl, firedWith_all (.inl rfl)⟩

theorem regular_withInt64 {others : List (DBID × Bytes)} {str : Bytes} {k : ℤ → Outcome V Num}
    (h : ∀ v, Regular s env others (k v)) : Regular s env others (withInt64 s env str k) := by
  unfold withInt64
  split
  · exact regular_answer _ _
  · exact h _

theorem regular_withUInt64 {others : List (DBID × Bytes)} {str : Bytes} {k : ℕ → Outcome V Num}
    (h : ∀ v, Regular s env others (k v)) : Regular s env others (withUInt64 s env str k) := by
  unfold withUInt64
  split
  · exact regular_answer _ _
  · exact h _

theorem regular_withDouble {others : List (DBID × Bytes)} {str : Bytes} {k : Num → Outcome V Num}
    (h : ∀ v, Regular s env others (k v)) : Regular s env others (withDouble kv s env str k) := by
  unfold withDouble
  split
  · exact regular_answer _ _
  · exact h _

/-- The count that a call returns tells whether it changed something, as far as `fires` asks. -/
def Fires.Sound (fires : Fires) (call : KvCall Num) : Prop :=
  match fires with
  | .always => True
  | .positive => call.Counts
  | .zero => call.ReturnsZero

/-- A key whose value changed is one the call is about, and the call did not fail. -/
theorem Kv.Lawful.of_changes (hk : kv.Lawful) {call : KvCall Num} {p : DBID × Bytes}
    (h : (kv.exec s env.db call).store p.1 p.2 ≠ s p.1 p.2) :
    call.Touches env.db p ∧ ∃ n, (kv.exec s env.db call).ret = .ok n := by
  constructor
  · by_contra hp
    exact h (hk.frame _ _ _ _ _ hp)
  · cases hret : (kv.exec s env.db call).ret with
    | ok n => exact ⟨n, rfl⟩
    | err e => exact absurd (by rw [hk.failed _ _ _ _ hret]) h

/-- The event is fired for all the keys the call is about; it is left to show that it is fired when
something changed. -/
theorem runCall_covers (hk : kv.Lawful) {call : KvCall Num} {fires : Fires}
    {keys : List (DBID × Bytes)} (hkeys : ∀ p, call.Touches env.db p ↔ p ∈ keys)
    (reply : ℕ → KvResult V Num → Reply Num) (errReply : KvErr → Reply Num)
    (hfires : ∀ n, (kv.exec s env.db call).ret = .ok n → (kv.exec s env.db call).store ≠ s →
      fires.on n = true) :
    Covers s env (runCall kv s env call fires keys reply errReply) := by
  refine ⟨fun p hp => ?_, fun p hp => ⟨call, by simp [runCall_calls], ?_⟩⟩
  · rw [Outcome.Changes, runCall_store] at hp
    obtain ⟨htouch, n, hret⟩ := hk.of_changes hp
    have hon : fires.on n = true := hfires n hret fun hs => hp (by rw [hs])
    rw [runCall_fired_ok hret, if_pos hon]
    exact (hkeys p).1 htouch
  · rw [hkeys]
    obtain h | h := @runCall_fired _ _ kv s env call fires keys reply errReply
    · simp [h] at hp
    · rwa [h] at hp

/-- **One call, announced by its count.** -/
theorem runCall_regular (hk : kv.Lawful) {call : KvCall Num} {fires : Fires}
    {keys : List (DBID × Bytes)} (hkeys : ∀ p, call.Touches env.db p ↔ p ∈ keys)
    (hsound : fires.Sound call) {reply : ℕ → KvResult V Num → Reply Num}
    {errReply : KvErr → Reply Num} :
    Regular s env keys (runCall kv s env call fires keys reply errReply) := by
  refine ⟨runCall_covers hk hkeys _ _ fun n hret hne => ?_, firedWith_all (runCall_fired ..)⟩
  cases fires with
  | always => rfl
  | positive =>
    have hn : n ≠ 0 := by
      rintro rfl
      exact hne (hk.idle _ _ _ hsound hret)
    simpa [Fires.on] using Nat.pos_of_ne_zero hn
  | zero => simpa [Fires.on] using hk.zero _ _ _ _ hsound hret

theorem runCall_firedWith {call : KvCall Num} {fires : Fires} {key : DBID × Bytes}
    {reply : ℕ → KvResult V Num → Reply Num} {errReply : KvErr → Reply Num} :
    FiredWith [] (runCall kv s env call fires [key] reply errReply) := by
  refine firedWith_nil (q := key) fun p hp => ?_
  obtain h | h := @runCall_fired _ _ kv s env call fires [key] reply errReply
  · simp [h] at hp
  · simpa [h] using hp

/-- The same when there is one key only. -/
theorem runCall_regular_one (hk : kv.Lawful) {call : KvCall Num} {fires : Fires}
    {key : DBID × Bytes} (hkey : ∀ p, call.Touches env.db p ↔ p = key) (hsound : fires.Sound call)
    {reply : ℕ → KvResult V Num → Reply Num} {errReply : KvErr → Reply Num} :
    Regular s env [] (runCall kv s env call fires [key] reply errReply) := by
  have hreg : Regular s env [key] (runCall kv s env call fires [key] reply errReply) :=
    runCall_regular hk (by simpa using hkey) hsound
  exact ⟨hreg.1, runCall_firedWith⟩

/-- A call that is not announced at all. -/
theorem runCall_covers_iff_nil {call : KvCall Num} {fires : Fires}
    {reply : ℕ → KvResult V Num → Reply Num} {errReply : KvErr → Reply Num} :
    (Covers s env (runCall kv s env call fires [] reply errReply) ↔
        (kv.exec s env.db call).store = s) ∧
      FiredWith [] (runCall kv s env call fires [] reply errReply) := by
  have hfired := (@runCall_fired _ _ kv s env call fires [] reply errReply).elim id id
  refine ⟨?_, firedWith_all (.inl hfired)⟩
  rw [covers_iff_of_fired_nil hfired, runCall_store]

/-- A call whose count leaves out some changes: the handler must not get `0` from it and change
something. -/
theorem runCall_covers_iff (hk : kv.Lawful) {call : KvCall Num} {key : DBID × Bytes}
    (hkey : ∀ p, call.Touches env.db p ↔ p = key) {reply : ℕ → KvResult V Num → Reply Num}
    {errReply : KvErr → Reply Num} :
    Covers s env (runCall kv s env call .positive [key] reply errReply) ↔
      ((kv.exec s env.db call).ret = .ok 0 → (kv.exec s env.db call).store = s) := by
  constructor
  · intro hcov hret
    have hfired : (runCall kv s env call .positive [key] reply errReply).fired = [] := by
      rw [runCall_fired_ok hret]
      rfl
    rw [← runCall_store call .positive [key] reply errReply]
    exact (covers_iff_of_fired_nil hfired).1 hcov
  · intro h
    refine runCall_covers hk (by simpa using hkey) _ _ fun n hret hne => ?_
    have hn : n ≠ 0 := by
      rintro rfl
      exact hne (h hret)
    simpa [Fires.on] using Nat.pos_of_ne_zero hn

end Regular

/-! ### The conditions -/

section Conditions

variable {V Num : Type} (cfg : HandlerConfig) (kv : Kv V Num) (s : Keyspace V) (env : CallEnv)
  (args : List Bytes)

/-- Every list that the loop of `BLPOP` takes an element from is the one that is answered. -/
def BlpopKeysOk (lpop : Bool) : Prop :=
  ∀ timeout, stringToUInt32 (args.getLastD []) = some timeout →
    ∀ key ∈ poppedKeys kv env.db lpop args.dropLast s,
      (popScan kv env.db lpop args.dropLast s []).1.answered = some key

/-- A call that returns `0` has changed nothing. -/
def IdleAtZero (call : KvCall Num) : Prop :=
  (kv.exec s env.db call).ret = .ok 0 → (kv.exec s env.db call).store = s

/-- When a handler fires the event for the keys it changes and for those it touches only. The flushes,
`IMPORT`, `ZINTERSTORE` and `ZUNIONSTORE` fire none; `BITOP` fires the name of the operation, and
`INCRBYFLOAT` the increment, once the frame has been rewritten. -/
def DataCommand.KeysOk : DataCommand → Prop
  | .flushdb => (kv.exec s env.db .flushDB).store = s
  | .flushall => (kv.exec s env.db .flushAll).store = s
  | .import_ => kv.load s (if args.length = 1 then arg args 0 else cfg.snapshotFile) = s
  | .zinterstore => (zinterStore kv s env args true).store = s
  | .zunionstore => (zinterStore kv s env args false).store = s
  | .bitop =>
    ∀ n, (kv.exec s env.db (.bitOP (arg args 0) (arg args 1) (args.drop 2))).ret = .ok n →
      arg args 0 = arg args 1
  | .incrbyfloat =>
    ∀ increment, kv.stringToDouble (arg args 1) = some increment →
      (kv.exec s env.db (.incrByFloat (arg args 0) increment)).ret = .ok 0 →
        env.noWal = true ∨ env.aliased = false ∨ arg args 1 = arg args 0
  | .sdiffstore => IdleAtZero kv s env (.sdiffStore (arg args 0) (args.drop 1))
  | .sinterstore => IdleAtZero kv s env (.sinterStore (arg args 0) (args.drop 1))
  | .sunionstore => IdleAtZero kv s env (.sunionStore (arg args 0) (args.drop 1))
  | .geoadd =>
    ∀ points, geoPoints kv args.length (args.drop 2) = some points →
      IdleAtZero kv s env (.geoAdd (arg args 0) (arg args 1) [])
  | .sort =>
    ∀ o, sortOptions args.length (args.drop 1) ⟨false, false, 0, -1, [], [], []⟩ = some o →
      o.store ≠ [] →
        IdleAtZero kv s env
          (.sort (arg args 0) o.by_ o.offset o.count o.gets o.desc o.alpha o.store)
  | .blpop => BlpopKeysOk kv s env args true
  | .brpop => BlpopKeysOk kv s env args false
  | _ => True

/-- The keys of the commands that announce more than one. -/
def DataCommand.eventKeys : DataCommand → List (DBID × Bytes)
  | .smove | .rpoplpush | .brpoplpush | .rename | .renamenx =>
    [(env.db, arg args 0), (env.db, arg args 1)]
  | .mset | .msetnx => (pairUp args).map fun p => (env.db, p.1)
  | .move =>
    match stringToUInt32 (arg args 1) with
    | none => []
    | some dst => [(env.db, arg args 0), (dst, arg args 0)]
  | .del => args.map fun key => (env.db, key)
  | _ => []

end Conditions

/-! ### The other handlers -/

section Others

variable {V Num : Type} {kv : Kv V Num} {s : Keyspace V} {env : CallEnv} {args : List Bytes}

/-- Only the store, the calls and the events count. -/
theorem Regular.congr {others : List (DBID × Bytes)} {o o' : Outcome V Num}
    (h : Regular s env others o) (hs : o'.store = o.store) (hc : o'.calls = o.calls)
    (hf : o'.fired = o.fired) : Regular s env others o' := by
  refine ⟨⟨fun p hp => ?_, fun p hp => ?_⟩, ?_⟩
  · rw [hf]
    refine h.1.fired p ?_
    rwa [Outcome.Changes, ← hs]
  · rw [hc]
    rw [hf] at hp
    exact h.1.touched p hp
  · rw [FiredWith, hf]
    exact h.2

theorem regular_thenWake {others : List (DBID × Bytes)} {o : Outcome V Num} {key : Bytes}
    (h : Regular s env others o) : Regular s env others (thenWake o key) := by
  unfold thenWake
  split
  · exact h.congr rfl rfl rfl
  · exact h

/-- A handler that announces the only key its calls are about. -/
theorem regular_of_fired {call : KvCall Num} {o : Outcome V Num} (hk : kv.Lawful)
    {key : DBID × Bytes} (hkey : ∀ p, call.Touches env.db p ↔ p = key)
    (hstore : o.store = (kv.exec s env.db call).store) (hcalls : o.calls = [call])
    (hfired : o.fired = [key]) : Regular s env [] o := by
  refine ⟨⟨fun p hp => ?_, fun p hp => ⟨call, by simp [hcalls], ?_⟩⟩, ?_⟩
  · rw [Outcome.Changes, hstore] at hp
    have htouch := (hk.of_changes hp).1
    simpa [hfired] using (hkey p).1 htouch
  · exact (hkey p).2 (by simpa [hfired] using hp)
  · exact firedWith_nil fun p hp => by simpa [hfired] using hp

/-- A handler that announces nothing, after a call that changed nothing. -/
theorem regular_of_idle {others : List (DBID × Bytes)} {o : Outcome V Num} (hstore : o.store = s)
    (hfired : o.fired = []) : Regular s env others o :=
  ⟨(covers_iff_of_fired_nil hfired).2 hstore, firedWith_all (.inl hfired)⟩

theorem hincrbyFloat_regular (hk : kv.Lawful) : Regular s env [] (hincrbyFloat kv s env args) := by
  refine regular_withDouble fun increment => ?_
  dsimp only
  split
  · next hret => exact regular_of_fired hk (fun p => Iff.rfl) rfl rfl rfl
  · next n hn hret =>
    exact absurd (hk.zero _ _ (.hincrByFloat _ _ _) _ trivial hret) hn
  · next e hret => exact regular_of_idle (hk.failed _ _ _ _ hret) rfl

theorem spop_regular (hk : kv.Lawful) : Regular s env [] (Comms.spop kv s env args) := by
  have hcount : ∀ count, Regular s env [] (spopCount kv s env args count) := by
    intro count
    unfold spopCount
    dsimp only
    split
    · next hret => exact regular_of_idle (hk.idle _ _ _ trivial hret) rfl
    · exact regular_of_fired hk (fun p => Iff.rfl) rfl rfl rfl
    · next e hret => exact regular_of_idle (hk.failed _ _ _ _ hret) rfl
  unfold Comms.spop
  split
  · exact regular_withInt64 hcount
  · exact hcount 1

theorem rpopLPush_regular (hk : kv.Lawful) (brpoplpush : Bool) :
    Regular s env [(env.db, arg args 0), (env.db, arg args 1)]
      (rpopLPush kv s env args brpoplpush) := by
  have hreg : Regular s env [(env.db, arg args 0), (env.db, arg args 1)]
      (runCall kv s env (.rpoplpush (arg args 0) (arg args 1)) .always
        [(env.db, arg args 0), (env.db, arg args 1)] strReply nilIfMissing) :=
    runCall_regular hk (by simp [KvCall.Touches]) (by trivial)
  unfold rpopLPush
  dsimp only
  split
  · exact hreg.congr rfl rfl rfl
  · exact hreg

theorem brpopLPush_regular (hk : kv.Lawful) :
    Regular s env [(env.db, arg args 0), (env.db, arg args 1)] (brpopLPush kv s env args) := by
  unfold brpopLPush
  split
  · exact regular_answer _ _
  · dsimp only
    split
    · exact (rpopLPush_regular hk true).congr rfl rfl rfl
    · exact rpopLPush_regular hk true

/-- `MSET` announces its keys whatever the store returns. -/
theorem mset_regular (hk : kv.Lawful) (msetnx : Bool) :
    Regular s env ((pairUp args).map fun p => (env.db, p.1)) (Comms.mset kv s env args msetnx) := by
  have hkeys : ∀ p : DBID × Bytes, (∃ kv ∈ pairUp args, p = (env.db, kv.1)) ↔
      p ∈ (pairUp args).map fun p => (env.db, p.1) := by
    intro p
    simp [eq_comm]
  unfold Comms.mset
  split
  · exact regular_answer _ _
  · dsimp only
    split
    · refine runCall_regular hk ?_ ?_
      · exact hkeys
      · trivial
    · refine ⟨⟨fun p hp => ?_, fun p hp => ⟨_, List.mem_singleton.2 rfl, (hkeys p).2 hp⟩⟩,
        firedWith_all (.inr rfl)⟩
      exact (hkeys p).1 (hk.of_changes hp).1

theorem set_regular (hk : kv.Lawful) : Regular s env [] (Comms.set kv s env args) := by
  unfold Comms.set
  split
  · exact regular_answer _ _
  · exact runCall_regular_one hk (fun p => Iff.rfl) (by trivial)

theorem move_regular (hk : kv.Lawful) :
    Regular s env (DataCommand.move.eventKeys env args) (Comms.move kv s env args) := by
  cases hdst : stringToUInt32 (arg args 1) with
  | none =>
    simp only [Comms.move, DataCommand.eventKeys, hdst]
    exact regular_answer _ _
  | some dst =>
    simp only [Comms.move, DataCommand.eventKeys, hdst]
    exact runCall_regular hk (by simp [KvCall.Touches]) (by trivial)

/-- The frame that `IncrbyFloat` rewrites is the one it reads the key from. -/
theorem incrbyFloat_covers_iff (hk : kv.Lawful) (cfg : HandlerConfig) :
    (Covers s env (incrbyFloat kv s env args) ↔
        DataCommand.incrbyfloat.KeysOk cfg kv s env args) ∧
      FiredWith [] (incrbyFloat kv s env args) := by
  unfold incrbyFloat withDouble DataCommand.KeysOk
  cases hinc : kv.stringToDouble (arg args 1) with
  | none =>
    exact ⟨iff_of_true (regular_answer [] _).1 (by simp), (regular_answer [] _).2⟩
  | some increment =>
    simp only [Option.some.injEq, forall_eq']
    split
    · next hret =>
      refine ⟨?_, firedWith_nil fun p hp => List.mem_singleton.1 hp⟩
      simp only [hret, forall_const]
      by_cases hswap : (!env.noWal && env.aliased) = true
      · -- the event is fired for the increment
        rw [if_pos hswap]
        have hor : (env.noWal = true ∨ env.aliased = false ∨ arg args 1 = arg args 0) ↔
            arg args 1 = arg args 0 := by
          cases h1 : env.noWal <;> cases h2 : env.aliased <;> simp_all
        rw [hor]
        constructor
        · intro hcov
          obtain ⟨call, hcall, htouch⟩ := hcov.touched _ (List.mem_singleton.2 rfl)
          rw [List.mem_singleton.1 hcall] at htouch
          exact (Prod.mk.inj htouch).2
        · intro hkey
          exact (regular_of_fired hk (fun p => Iff.rfl) rfl rfl (by rw [hkey])).1
      · rw [if_neg hswap]
        refine iff_of_true (regular_of_fired hk (fun p => Iff.rfl) rfl rfl rfl).1 ?_
        cases h1 : env.noWal <;> cases h2 : env.aliased <;> simp_all
    · next n hn hret => exact absurd (hk.zero _ _ (.incrByFloat _ _) _ trivial hret) hn
    · next e hret =>
      refine ⟨iff_of_true ?_ (by simp [hret]), firedWith_all (.inl rfl)⟩
      exact (covers_iff_of_fired_nil rfl).2 (hk.failed _ _ _ _ hret)

theorem zinterStore_fired (inter : Bool) : (zinterStore kv s env args inter).fired = [] := by
  unfold zinterStore
  split
  · rfl
  · dsimp only
    split
    · rfl
    · split
      · rfl
      · exact (runCall_fired ..).elim id id

/-- What `BLPOP` does behind the check of its timeout: the loop, announced for the key it answers. -/
theorem blpop_eq {lpop : Bool} {timeout : ℕ}
    (htime : stringToUInt32 (args.getLastD []) = some timeout) :
    let scan := popScan kv env.db lpop args.dropLast s []
    let o := Comms.blpop kv s env args lpop
    o.store = scan.2.1 ∧ o.calls = scan.2.2 ∧
      o.fired = scan.1.answered.toList.map fun key => (env.db, key) := by
  unfold Comms.blpop
  rw [htime]
  dsimp only
  generalize popScan kv env.db lpop args.dropLast s [] = scan
  obtain ⟨scan, store, calls⟩ := scan
  cases scan <;> exact ⟨rfl, rfl, rfl⟩

theorem blpop_covers_iff (hk : kv.Lawful) (lpop : Bool) :
    (Covers s env (Comms.blpop kv s env args lpop) ↔ BlpopKeysOk kv s env args lpop) ∧
      FiredWith [] (Comms.blpop kv s env args lpop) := by
  cases htime : stringToUInt32 (args.getLastD []) with
  | none =>
    have hreg : Regular s env [] (Comms.blpop kv s env args lpop) := by
      simp only [Comms.blpop, htime]
      exact regular_answer _ _
    refine ⟨iff_of_true hreg.1 fun timeout h => ?_, hreg.2⟩
    rw [htime] at h
    cases h
  | some timeout =>
    obtain ⟨hstore, hcalls, hfired⟩ := @blpop_eq _ _ kv s env args lpop timeout htime
    simp only [BlpopKeysOk, htime, Option.some.injEq, forall_eq']
    constructor
    · constructor
      · -- a list that was popped from has changed, so its key is the one the event is fired for
        intro hcov key hkey
        have hchange : (Comms.blpop kv s env args lpop).Changes s (env.db, key) := by
          rw [Outcome.Changes, hstore]
          exact popScan_changes hk [] hkey
        have hmem := hcov.fired _ hchange
        rw [hfired] at hmem
        simpa [eq_comm] using hmem
      · intro h
        refine ⟨fun p hp => ?_, fun p hp => ?_⟩
        · have hpopped : p.1 = env.db ∧ p.2 ∈ poppedKeys kv env.db lpop args.dropLast s := by
            by_contra hmem
            rw [Outcome.Changes, hstore] at hp
            exact hp (popScan_frame hk _ _ _ hmem)
          rw [hfired, h _ hpopped.2]
          simp [← hpopped.1]
        · rw [hfired] at hp
          obtain ⟨key, hkey, rfl⟩ := List.mem_map.1 hp
          have hlast := popScan_answered hk _ _ _ (Option.mem_toList.1 hkey)
          have hmem := List.mem_of_getLast? hlast
          exact ⟨popCall lpop key, hcalls ▸ popScan_calls hk _ _ _ (.inr ⟨key, hmem, rfl⟩),
            (popCall_touches _).2 rfl⟩
    · -- at most one key is answered
      refine firedWith_nil (q := (env.db,
        (popScan kv env.db lpop args.dropLast s []).1.answered.getD [])) fun p hp => ?_
      rw [hfired] at hp
      obtain ⟨key, hkey, rfl⟩ := List.mem_map.1 hp
      rw [Option.mem_toList.1 hkey]
      rfl

/-- `BITOP` announces the name of the operation. -/
theorem bitop_covers_iff (hk : kv.Lawful) :
    (Covers s env (Comms.bitop kv s env args) ↔
        ∀ n, (kv.exec s env.db (.bitOP (arg args 0) (arg args 1) (args.drop 2))).ret = .ok n →
          arg args 0 = arg args 1) ∧
      FiredWith [] (Comms.bitop kv s env args) := by
  refine ⟨⟨fun hcov n hret => ?_, fun h => ?_⟩, runCall_firedWith⟩
  · -- the key of the event is one that the call is about
    have hfired := runCall_fired_ok hret .always [(env.db, arg args 0)] intReply fillErrorReply
    obtain ⟨call, hcall, htouch⟩ := hcov.touched (env.db, arg args 0) (by
      rw [Comms.bitop, hfired]
      exact List.mem_singleton.2 rfl)
    rw [Comms.bitop, runCall_calls] at hcall
    rw [List.mem_singleton.1 hcall] at htouch
    exact (Prod.mk.inj htouch).2
  · unfold Comms.bitop
    cases hret : (kv.exec s env.db (.bitOP (arg args 0) (arg args 1) (args.drop 2))).ret with
    | ok n =>
      rw [h n hret] at *
      exact (runCall_regular_one hk (fun p => Iff.rfl) (by trivial)).1
    | err e =>
      refine (@regular_of_idle _ _ _ _ [] _ ?_ ?_).1
      · rw [runCall_store, hk.failed _ _ _ _ hret]
      · simp [runCall, hret]

theorem geoAdd_covers_iff (hk : kv.Lawful) :
    (Covers s env (geoAdd kv s env args) ↔
        ∀ points, geoPoints kv args.length (args.drop 2) = some points →
          IdleAtZero kv s env (.geoAdd (arg args 0) (arg args 1) [])) ∧
      FiredWith [] (geoAdd kv s env args) := by
  unfold geoAdd
  cases geoPoints kv args.length (args.drop 2) with
  | none => exact ⟨iff_of_true (regular_answer [] _).1 (by simp), (regular_answer [] _).2⟩
  | some points =>
    simp only [Option.some.injEq, forall_eq']
    exact ⟨runCall_covers_iff hk fun p => Iff.rfl, runCall_firedWith⟩

/-- Only `SORT` with `STORE` changes something. -/
theorem sort_covers_iff (hk : kv.Lawful) :
    (Covers s env (Comms.sort kv s env args) ↔
        ∀ o, sortOptions args.length (args.drop 1) ⟨false, false, 0, -1, [], [], []⟩ = some o →
          o.store ≠ [] →
            IdleAtZero kv s env
              (.sort (arg args 0) o.by_ o.offset o.count o.gets o.desc o.alpha o.store)) ∧
      FiredWith [] (Comms.sort kv s env args) := by
  unfold Comms.sort
  cases sortOptions args.length (args.drop 1) ⟨false, false, 0, -1, [], [], []⟩ with
  | none => exact ⟨iff_of_true (regular_answer [] _).1 (by simp), (regular_answer [] _).2⟩
  | some o =>
    simp only [Option.some.injEq, forall_eq']
    by_cases hstore : o.store = []
    · rw [if_pos hstore]
      refine ⟨iff_of_true (runCall_regular hk ?_ ?_).1 (by simp [hstore]),
        runCall_covers_iff_nil.2⟩
      · simp [KvCall.Touches, hstore]
      · trivial
    · rw [if_neg hstore]
      simp only [hstore, ne_eq, not_false_eq_true, forall_const]
      refine ⟨runCall_covers_iff hk fun p => ?_, runCall_firedWith⟩
      simp [KvCall.Touches, hstore]

/-- **One handler after the other.** The event is fired for the keys that change if and only if the
condition on the command holds. -/
theorem handler_covers_iff (hk : kv.Lawful) (cfg : HandlerConfig) (cmd : DataCommand) :
    (Covers s env (cmd.handler cfg kv s env args) ↔ cmd.KeysOk cfg kv s env args) ∧
      FiredWith (cmd.eventKeys env args) (cmd.handler cfg kv s env args) := by
  -- the commands whose condition is that they are what they are
  have regular : ∀ {others : List (DBID × Bytes)} {o : Outcome V Num},
      Regular s env others o → (Covers s env o ↔ True) ∧ FiredWith others o :=
    fun h => ⟨iff_of_true h.1 trivial, h.2⟩
  have one : ∀ {call : KvCall Num} {fires : Fires} {key : DBID × Bytes}
      {reply : ℕ → KvResult V Num → Reply Num} {errReply : KvErr → Reply Num},
      (∀ p, call.Touches env.db p ↔ p = key) → fires.Sound call →
      Regular s env [] (runCall kv s env call fires [key] reply errReply) :=
    fun hkey hsound => runCall_regular_one hk hkey hsound
  cases cmd <;> dsimp only [DataCommand.handler, DataCommand.KeysOk, DataCommand.eventKeys]
  case append | getset | hset | hsetnx | hdel | sadd | srem | zrem | zremrangebyscore |
      zremrangebylex | lpop | rpop | setnx | incr | decr | persist | pfadd | pfmerge =>
    refine regular (one ?_ ?_)
    · intro p
      rfl
    · simp [Fires.Sound, KvCall.Counts, KvCall.ReturnsZero]
  case lpush | rpush | lpushx | rpushx =>
    refine regular (regular_thenWake (one ?_ ?_))
    · intro p
      rfl
    · simp [Fires.Sound, KvCall.Counts]
  case incrby | decrby | setex | setrange | hincrby | lrem | lset =>
    refine regular (regular_withInt64 fun v => one ?_ ?_)
    · intro p
      rfl
    · simp [Fires.Sound, KvCall.Counts, KvCall.ReturnsZero]
  case zremrangebyrank | ltrim =>
    refine regular (regular_withInt64 fun v => regular_withInt64 fun w => one ?_ ?_)
    · intro p
      rfl
    · simp [Fires.Sound, KvCall.Counts]
  case expire | pexpire | expireat | pexpireat =>
    refine regular (regular_withUInt64 fun v => one ?_ ?_)
    · intro p
      rfl
    · simp [Fires.Sound, KvCall.Counts]
  case zincrby => exact regular (regular_withDouble fun v => one (fun p => Iff.rfl) (by trivial))
  case smove | rename | renamenx | del =>
    refine regular (runCall_regular hk ?_ ?_)
    · simp [KvCall.Touches, eq_comm]
    · simp [Fires.Sound, KvCall.Counts]
  case read => exact regular (regular_answer _ _)
  case select =>
    refine regular ?_
    unfold selectDb
    split
    · exact regular_answer _ _
    · split
      · exact regular_of_idle rfl rfl
      · exact regular_answer _ _
  case psetex =>
    refine regular ?_
    unfold psetEX
    split
    · exact regular_answer _ _
    · exact one (fun p => Iff.rfl) (by trivial)
  case setbit =>
    refine regular ?_
    unfold setBit
    split
    · exact regular_answer _ _
    · split
      · exact regular_answer _ _
      · exact one (fun p => Iff.rfl) (by trivial)
  case hmset =>
    refine regular ?_
    unfold Comms.hmset
    split
    · exact regular_answer _ _
    · exact one (fun p => Iff.rfl) (by trivial)
  case zadd =>
    refine regular ?_
    unfold Comms.zadd
    split
    · exact regular_answer _ _
    · exact one (fun p => Iff.rfl) (by trivial)
  case linsert =>
    refine regular ?_
    unfold Comms.linsert
    split
    · exact one (fun p => Iff.rfl) (by trivial)
    · exact regular_answer _ _
  case set => exact regular (set_regular hk)
  case mset => exact regular (mset_regular hk false)
  case msetnx => exact regular (mset_regular hk true)
  case hincrbyfloat => exact regular (hincrbyFloat_regular hk)
  case spop => exact regular (spop_regular hk)
  case move => exact regular (move_regular hk)
  case rpoplpush => exact regular (rpopLPush_regular hk false)
  case brpoplpush => exact regular (brpopLPush_regular hk)
  -- the others have a condition of their own
  case import_ => exact ⟨covers_iff_of_fired_nil rfl, firedWith_all (.inl rfl)⟩
  case flushdb | flushall => exact runCall_covers_iff_nil
  case zinterstore =>
    exact ⟨covers_iff_of_fired_nil (zinterStore_fired true),
      firedWith_all (.inl (zinterStore_fired true))⟩
  case zunionstore =>
    exact ⟨covers_iff_of_fired_nil (zinterStore_fired false),
      firedWith_all (.inl (zinterStore_fired false))⟩
  case sdiffstore | sinterstore | sunionstore =>
    exact ⟨runCall_covers_iff hk fun p => Iff.rfl, runCall_firedWith⟩
  case incrbyfloat => exact incrbyFloat_covers_iff hk cfg
  case blpop => exact blpop_covers_iff hk true
  case brpop => exact blpop_covers_iff hk false
  case bitop => exact bitop_covers_iff hk
  case geoadd => exact geoAdd_covers_iff hk
  case sort => exact sort_covers_iff hk

end Others

/-! ### Every handler -/

namespace Invocation

variable {V Num C : Type} (cfg : HandlerConfig) (kv : Kv V Num) (s : Keyspace V) (env : CallEnv)

/-- The condition under which a handler announces what it does. `WakeBlockedList` announces
nothing. -/
def AnnounceOk (w : Watches C) : Invocation → Prop
  | .command cmd args =>
    cmd.KeysOk cfg kv s env args ∧
      EmptyKeyOk s w (cmd.eventKeys env args) (cmd.handler cfg kv s env args)
  | .wakeBlockedList block key => (Comms.wakeBlockedList kv s env block key).1.store = s

end Invocation

theorem wakeBlockedList_fired {V Num : Type} (kv : Kv V Num) (s : Keyspace V) (env : CallEnv)
    (block : ListBlock) (key : Bytes) : (wakeBlockedList kv s env block key).1.fired = [] := by
  unfold wakeBlockedList
  dsimp only
  split
  · split
    · rfl
    · split
      · rfl
      · split <;> rfl
  · rfl

/-- **When every store change is announced.** For every handler, every argument list and every store,
the changes are announced, and only keys that were touched, if and only if the condition holds. -/
theorem announced_iff {V Num C : Type} [DecidableEq C] {kv : Kv V Num} (hk : kv.Lawful)
    (cfg : HandlerConfig) (s : Keyspace V) (env : CallEnv) (w : Watches C) (inv : Invocation) :
    Announced s env w (inv.run cfg kv s env) ↔ inv.AnnounceOk cfg kv s env w := by
  cases inv with
  | command cmd args =>
    obtain ⟨hcov, hfired⟩ := @handler_covers_iff _ _ kv s env args hk cfg cmd
    rw [Invocation.run, announced_iff_covers hfired, hcov]
    rfl
  | wakeBlockedList block key =>
    have hfired := wakeBlockedList_fired kv s env block key
    have hidle := @covers_iff_of_fired_nil _ _ s env _ hfired
    have hwith : FiredWith [] (wakeBlockedList kv s env block key).1 := firedWith_all (.inl hfired)
    rw [Invocation.run, announced_iff_covers hwith, hidle]
    refine ⟨And.left, fun hs => ⟨hs, fun d hd => absurd ?_ hd⟩⟩
    rw [hs]

/-- `FLUSHDB` of a database that is not empty: nobody is told. -/
theorem flushDB_not_announced :
    ¬Announced (SmallKv.put (fun _ _ => none) 0 [107] (some (.str [118])))
      ⟨0, false, true, true⟩ (⟨fun _ => [1], fun _ => false⟩ : Watches ℕ)
      ((Invocation.command .flushdb []).run ⟨16, []⟩ smallKv
        (SmallKv.put (fun _ _ => none) 0 [107] (some (.str [118]))) ⟨0, false, true, true⟩) := by
  intro h
  have hchange := h.fired (0, [107]) (by unfold Outcome.Changes; decide)
  cases hchange

/-- `APPEND` announces its key, and who watches it is aborted. -/
theorem announced_iff_append :
    Announced (fun _ _ => none) ⟨0, false, true, true⟩
        (⟨fun _ => [1], fun _ => false⟩ : Watches ℕ)
        ((Invocation.command .append [[107], [118]]).run ⟨16, []⟩ smallKv (fun _ _ => none)
          ⟨0, false, true, true⟩) ∧
      ((Invocation.command .append [[107], [118]]).run ⟨16, []⟩ smallKv (fun _ _ => none)
        ⟨0, false, true, true⟩).store 0 [107] = some (.str [118]) := by
  refine ⟨(announced_iff smallKv_lawful _ _ _ _ _).2 ⟨trivial, fun d hd => absurd ?_ hd⟩, by decide⟩
  -- the empty key stays what it was
  exact if_neg fun heq => absurd heq.2 (List.cons_ne_nil _ _).symm

end Comms
