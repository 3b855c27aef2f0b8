import Comms.Client.BlockedClients
import Mathlib.Data.Fintype.Basic

/-!
# Waking those who wait

A client that waits for a list depends on whoever makes the list non-empty. Only `LPUSH`, `RPUSH`, `LPUSHX`
and `RPUSHX` look for clients that wait; a list gets its first member in other ways as well. And a client
that has found a list empty is registered later, when it need not be empty any more.

* `NoneForgotten` — when nothing is under way, nobody is blocked on a list that has members;
* `Expected` — a callback is queued, or somebody is about to queue it;
* `Attentive` — what a step needs, so that nobody is forgotten;
* `WakeInv` — the table says who waits for what, and whoever could pop an element is about to;
* `noneForgotten_of_attentive` — every run of attentive steps.
-/

namespace Comms
namespace Blocking

variable {V Num C : Type}

/-- The commands that call `WakeBlockingListsByKey`. -/
def pushes : DataCommand → Bool
  | .lpush | .lpushx | .rpush | .rpushx => true
  | _ => false

namespace Client

variable (x : Client Num)

/-- The thread is in `WakeBlockedList`, behind the pop. -/
def delivering : Bool :=
  match x.phase with
  | .pushing _ _ | .puttingBack _ _ _ => true
  | _ => false

/-- The thread is about to call `WakeBlockingListsByKey` for the key. -/
def wakes (p : DBID × Bytes) : Bool :=
  match x.phase with
  | .waking rest => x.currentDB = p.1 && rest.contains p.2
  | _ => false

end Client

namespace Server

variable [DecidableEq C] (cfg : HandlerConfig) (kv : Kv V Num) (members : Option V → Option (List Bytes))
  (s : Server V Num C)

/-- The list has members. -/
def Full (p : DBID × Bytes) : Prop := (s.lists members p).getD [] ≠ []

instance (p : DBID × Bytes) : Decidable (s.Full members p) :=
  inferInstanceAs (Decidable ((s.lists members p).getD [] ≠ []))

/-- **None forgotten.** When every thread is in the event loop and no callback is queued, nobody is blocked
on a list that has members. -/
def NoneForgotten (s : Server V Num C) : Prop :=
  s.fault = false ∧ ((∀ c x, s.client c = some x → x.idle = true) → s.queue = [] →
    ∀ c x, s.client c = some x → ∀ p ∈ x.keys, ¬s.Full members p)

/-- A thread is about to call `WakeBlockingListsByKey` for the key. -/
def AboutToWake (p : DBID × Bytes) : Prop := ∃ d, ∃ y ∈ s.client d, y.wakes p = true

/-- There will be a callback. -/
def Expected (d : C) (p : DBID × Bytes) : Prop := (d, p.2) ∈ s.queue ∨ s.AboutToWake p

/-- Whoever is registered for the key, `c` apart, will be called back. -/
def AllExpected (c : C) (p : DBID × Bytes) : Prop := ∀ d ∈ (s.table.members p).toList, d = c ∨ s.Expected d p

/-- A command is about to run. Unless it is a push, it gives no list its first member that somebody waits
for; and a client that is blocked stays in its database. -/
def AttentiveStart (c : C) (x : Client Num) (cmd : DataCommand) (args : List Bytes) :
    Option (BlockCall × Bool) → Prop
  | some (.pop _ _, _) => True
  | some (.move source dest, _) => s.Full members (x.currentDB, source) →
    ¬s.Full members (x.currentDB, dest) →
      ∀ d ∈ (s.table.members (x.currentDB, dest)).toList, s.Expected d (x.currentDB, dest)
  | none =>
    (pushes cmd = false → ∀ p ∈ s.table.keys, (s.runHandler cfg kv c x cmd args).Full members p →
      ¬s.Full members p → ∀ d ∈ (s.table.members p).toList, s.Expected d p) ∧
    ∀ p ∈ x.keys.toList, ∀ y ∈ (s.runHandler cfg kv c x cmd args).client c, y.currentDB = x.currentDB

/-- A client goes on. -/
def AttentiveRun (c : C) (x : Client Num) : Phase → List (DataCommand × List Bytes) → Prop
  | .ready, (cmd, args) :: _ => s.AttentiveStart cfg kv members c x cmd args (BlockCall.of cmd args)
  /- the list is still empty when the client is registered for it -/
  | .registering (key :: _), _ =>
    x.inExec = false → s.Full members (x.currentDB, key) → s.Expected c (x.currentDB, key)
  | .waking (key :: _), _ => (x.currentDB, key) ∉ s.execKeys
  | .pushing _ _, _ => ¬s.Full members (x.currentDB, x.getBlockContext.pushKey) →
    s.AllExpected c (x.currentDB, x.getBlockContext.pushKey)
  | .puttingBack key _ _, _ => ¬s.Full members (x.currentDB, key) → s.AllExpected c (x.currentDB, key)
  | _, _ => True

/-- **When it works.** Besides, a callback finds its client; when it drops an empty string, the list has no
other member, or there will be one more callback. -/
def Attentive (s : Server V Num C) : Event Num C → Prop
  | .run c => ∀ x ∈ s.client c, s.AttentiveRun cfg kv members c x x.phase x.todo
  | .callback c key => ∃ x ∈ s.client c, (x.currentDB, key) ∈ x.keys →
    ∀ l ∈ s.lists members (x.currentDB, key), 1 < l.length →
      (if x.getBlockContext.lpop then l.head? else l.getLast?) = some [] →
        (c, key) ∈ s.queue.erase (c, key) ∨ s.AboutToWake (x.currentDB, key)
  | .timeout _ c => (s.client c).isSome
  | _ => True

/-! ### The pushes -/

section Pushes

variable {cfg kv} {s : Keyspace V} {env : CallEnv} {args : List Bytes}

/-- A call on one key that is announced wakes whoever waits for the key. -/
theorem thenWake_wakes (hk : kv.Lawful) {call : KvCall Num} {fires : Fires} {key : Bytes}
    {reply : ℕ → KvResult V Num → Reply Num} {errReply : KvErr → Reply Num} {p : DBID × Bytes}
    (hne : (thenWake (runCall kv s env call fires [(env.db, key)] reply errReply) key).store p.1 p.2 ≠
      s p.1 p.2)
    (htouches : ∀ p, call.Touches env.db p → p = (env.db, key))
    (hidle : ∀ n, (kv.exec s env.db call).ret = .ok n → fires.on n = false →
      (kv.exec s env.db call).store = s) :
    env.db = p.1 ∧
      p.2 ∈ (thenWake (runCall kv s env call fires [(env.db, key)] reply errReply) key).wakes := by
  have hstore : (thenWake (runCall kv s env call fires [(env.db, key)] reply errReply) key).store =
      (kv.exec s env.db call).store := by
    unfold thenWake
    split
    · exact runCall_store call fires _ reply errReply
    · exact runCall_store call fires _ reply errReply
  rw [hstore] at hne
  have hp : p = (env.db, key) := by
    by_contra hp
    exact hne (hk.frames htouches p.1 p.2 hp)
  subst hp
  refine ⟨rfl, ?_⟩
  have hfired : (runCall kv s env call fires [(env.db, key)] reply errReply).dataChange = true := by
    cases hret : (kv.exec s env.db call).ret with
    | err e => exact absurd (congrFun (congrFun (hk.failed _ _ _ _ hret) _) _) hne
    | ok n =>
      rw [Outcome.dataChange, runCall_fired_ok hret]
      cases hon : fires.on n with
      | true => rfl
      | false => exact absurd (congrFun (congrFun (hidle n hret hon) _) _) hne
  rw [thenWake, if_pos hfired]
  exact List.mem_singleton.mpr rfl

/-- A push changes one list only. If it does, whoever waits for it is woken. -/
theorem pushes_wakes (hk : kv.Lawful) {cmd : DataCommand} (hcmd : pushes cmd = true) {p : DBID × Bytes}
    (hne : (cmd.handler cfg kv s env args).store p.1 p.2 ≠ s p.1 p.2) :
    env.db = p.1 ∧ p.2 ∈ (cmd.handler cfg kv s env args).wakes := by
  have hzero {call : KvCall Num} (hcounts : call.Counts) (n : ℕ) (hret : (kv.exec s env.db call).ret = .ok n)
      (hon : Fires.on .positive n = false) : (kv.exec s env.db call).store = s := by
    obtain rfl : n = 0 := Nat.eq_zero_of_not_pos (of_decide_eq_false hon)
    exact hk.idle _ _ _ hcounts hret
  cases cmd with
  | lpush | rpush => exact thenWake_wakes hk hne (fun _ h => h) fun _ _ hon => by cases hon
  | lpushx | rpushx => exact thenWake_wakes hk hne (fun _ h => h) (hzero rfl)
  | _ => cases hcmd

theorem runCall_db {call : KvCall Num} {fires : Fires} {keys : List (DBID × Bytes)}
    {reply : ℕ → KvResult V Num → Reply Num} {errReply : KvErr → Reply Num} :
    (runCall kv s env call fires keys reply errReply).db = env.db := by
  unfold runCall
  dsimp only
  split <;> rfl

theorem thenWake_db {o : Outcome V Num} {key : Bytes} : (thenWake o key).db = o.db := by
  unfold thenWake
  split <;> rfl

theorem pushes_db {cmd : DataCommand} (hcmd : pushes cmd = true) :
    (cmd.handler cfg kv s env args).db = env.db := by
  cases cmd with
  | lpush | rpush | lpushx | rpushx => exact thenWake_db.trans runCall_db
  | _ => cases hcmd

end Pushes

/-! ### The invariant -/

/-- The keys that the clients are blocked on. -/
def blockedKeys (s : Server V Num C) (c : C) : Set (DBID × Bytes) := { p | ∃ x, s.client c = some x ∧ p ∈ x.keys }

/-- Somebody is about to deliver an element to the client, or to call it back. -/
def Covered (d : C) (p : DBID × Bytes) : Prop :=
  s.Expected d p ∨ ∃ x, s.client d = some x ∧ x.delivering = true

/-- **The invariant.** -/
structure WakeInv (s : Server V Num C) : Prop where
  fault : s.fault = false
  agrees : s.table.Agrees s.blockedKeys
  db : ∀ c x, s.client c = some x → ∀ p ∈ x.keys, p.1 = x.currentDB
  covered : ∀ c x, s.client c = some x → ∀ p ∈ x.keys, s.Full members p → s.Covered c p

omit [DecidableEq C] in
theorem wakeInv_init (store : Keyspace V) : (Server.init store : Server V Num C).WakeInv members where
  fault := rfl
  agrees n c := by
    refine iff_of_false (ListSet.notMem_empty c) ?_
    rintro ⟨x, hx, -⟩
    cases hx
  db _ _ h := nomatch h
  covered _ _ h := nomatch h

variable {cfg kv members s} {u : Server V Num C} {c : C} {x y : Client Num}

omit [DecidableEq C] in
theorem WakeInv.noneForgotten (h : s.WakeInv members) : s.NoneForgotten members := by
  refine ⟨h.fault, fun hidle hqueue c x hx p hp hfull => ?_⟩
  obtain (hmem | ⟨d, y, hy, hwakes⟩) | ⟨y, hy, hdelivering⟩ := h.covered c x hx p hp hfull
  · rw [hqueue] at hmem
    cases hmem
  · have hphase : y.phase = .ready := of_decide_eq_true (Bool.and_eq_true_iff.mp (hidle d y hy)).2
    unfold Client.wakes at hwakes
    rw [hphase] at hwakes
    cases hwakes
  · have hphase : y.phase = .ready := of_decide_eq_true (Bool.and_eq_true_iff.mp (hidle c y hy)).2
    unfold Client.delivering at hdelivering
    rw [hphase] at hdelivering
    cases hdelivering

omit [DecidableEq C] in
/-- Whoever is blocked on the key is in the table. -/
theorem WakeInv.mem_members (h : s.WakeInv members) {d : C} {z : Client Num} (hz : s.client d = some z)
    {p : DBID × Bytes} (hp : p ∈ z.keys) : d ∈ (s.table.members p).toList :=
  (h.agrees p d).mpr ⟨z, hz, hp⟩

theorem blockedKeys_put_self : (u.put c y).blockedKeys c = { p | p ∈ y.keys } := by
  ext p
  constructor
  · rintro ⟨z, hz, hp⟩
    obtain rfl := Option.some.inj (client_put.symm.trans hz)
    exact hp
  · intro hp
    exact ⟨y, client_put, hp⟩

omit [DecidableEq C] in
theorem blockedKeys_of_onlyClient {t : Server V Num C} (h : OnlyClient s t c) {d : C} (hd : d ≠ c) :
    t.blockedKeys d = s.blockedKeys d := by
  unfold blockedKeys
  rw [h d hd]

omit [DecidableEq C] in
theorem blockedKeys_of_client (hx : s.client c = some x) : s.blockedKeys c = { p | p ∈ x.keys } := by
  ext p
  constructor
  · rintro ⟨z, hz, hp⟩
    obtain rfl := Option.some.inj (hx.symm.trans hz)
    exact hp
  · intro hp
    exact ⟨x, hx, hp⟩

/-- The callback is still to come. -/
theorem covered_put {d : C} {p : DBID × Bytes} (hx : s.client c = some x) (hclient : u.client = s.client)
    (h : s.Covered d p) (hqueue : (d, p.2) ∈ s.queue → (d, p.2) ∈ u.queue)
    (hwakes : x.wakes p = true → (u.put c y).Expected d p)
    (hdelivering : x.delivering = true → y.delivering = true) : (u.put c y).Covered d p := by
  have hother {e : C} (he : e ≠ c) : (u.put c y).client e = s.client e := by
    rw [client_put_ne he, hclient]
  obtain (hmem | ⟨e, z, hz, hp⟩) | ⟨z, hz, hz'⟩ := h
  · exact .inl (.inl (hqueue hmem))
  · by_cases he : e = c
    · subst he
      obtain rfl := Option.some.inj (hx.symm.trans hz)
      exact .inl (hwakes hp)
    · exact .inl (.inr ⟨e, z, (hother he).trans hz, hp⟩)
  · by_cases hd : d = c
    · subst hd
      obtain rfl := Option.some.inj (hx.symm.trans hz)
      exact .inr ⟨y, client_put, hdelivering hz'⟩
    · exact .inr ⟨z, (hother hd).trans hz, hz'⟩

/-- A client that stays blocked on the same keys. -/
theorem WakeInv.put (h : s.WakeInv members) (hx : s.client c = some x) (hclient : u.client = s.client)
    (hfault : u.fault = false) (htable : u.table = s.table) (hkeys : y.keys = x.keys)
    (hdb : ∀ p ∈ x.keys, y.currentDB = x.currentDB)
    (hcovered : ∀ d z p, s.client d = some z → p ∈ z.keys → u.Full members p → (u.put c y).Covered d p) :
    (u.put c y).WakeInv members := by
  -- the keys of the new state are those of the old one
  have hold {d : C} {z : Client Num} {p : DBID × Bytes} (hz : (u.put c y).client d = some z)
      (hp : p ∈ z.keys) : ∃ z', s.client d = some z' ∧ p ∈ z'.keys ∧ z.currentDB = z'.currentDB := by
    by_cases hd : d = c
    · subst hd
      obtain rfl := Option.some.inj (client_put.symm.trans hz)
      rw [hkeys] at hp
      exact ⟨x, hx, hp, hdb p hp⟩
    · rw [client_put_ne hd, hclient] at hz
      exact ⟨z, hz, hp, rfl⟩
  refine ⟨hfault, fun p d => ?_, fun d z hz p hp => ?_, fun d z hz p hp hfull => ?_⟩
  · change d ∈ u.table.members p ↔ _
    rw [htable, h.agrees p d]
    by_cases hd : d = c
    · subst hd
      rw [blockedKeys_of_client hx, blockedKeys_put_self, hkeys]
    · rw [blockedKeys_of_onlyClient (onlyClient_put hclient) hd]
  · obtain ⟨z', hz', hp', hdb'⟩ := hold hz hp
    rw [hdb']
    exact h.db d z' hz' p hp'
  · obtain ⟨z', hz', hp', -⟩ := hold hz hp
    exact hcovered d z' p hz' hp' hfull

/-- A client that is blocked on nothing any more. -/
theorem WakeInv.clear (h : s.WakeInv members) (hx : s.client c = some x) (hclient : u.client = s.client)
    (hfault : u.fault = false) (htable : u.table = s.table) (hkeys : y.keys = x.keys)
    (hqueue : ∀ d k, d ≠ c → (d, k) ∈ s.queue → (d, k) ∈ u.queue) (hwakes : ∀ p, x.wakes p = false)
    (hcovered : ∀ d z p, d ≠ c → s.client d = some z → p ∈ z.keys → u.Full members p → s.Covered d p) :
    (u.clearBlockKeys c y).WakeInv members := by
  have honly : OnlyClient s (u.clearBlockKeys c y) c := onlyClient_clear hclient
  have hnone {d : C} {z : Client Num} {p : DBID × Bytes} (hz : (u.clearBlockKeys c y).client d = some z)
      (hp : p ∈ z.keys) : d ≠ c := by
    rintro rfl
    obtain rfl := Option.some.inj (client_clearBlockKeys.symm.trans hz)
    exact ListSet.notMem_empty p hp
  refine ⟨fault_clearBlockKeys.trans hfault, ?_, fun d z hz p hp => ?_, fun d z hz p hp hfull => ?_⟩
  · have hc (p : DBID × Bytes) : p ∉ (u.clearBlockKeys c y).blockedKeys c := by
      rintro ⟨z, hz, hp⟩
      exact hnone hz hp rfl
    have hagrees := h.agrees
    rw [← htable] at hagrees
    have hother (d : C) (hd : d ≠ c) : (u.clearBlockKeys c y).blockedKeys d = s.blockedKeys d :=
      blockedKeys_of_onlyClient honly hd
    have hmem (p : DBID × Bytes) (hp : p ∈ s.blockedKeys c) : p ∈ y.keys := by
      rw [blockedKeys_of_client hx, ← hkeys] at hp
      exact hp
    have htable' : (u.clearBlockKeys c y).table = u.table.removeAll c y.keys.toList := by
      unfold clearBlockKeys Client.keys Client.getBlockContext
      split
      next hb =>
        rw [hb]
        rfl
      next b hb =>
        rw [hb]
        rfl
    rw [htable']
    exact hagrees.removeAll c hmem hc hother
  · exact h.db d z ((honly d (hnone hz hp)).symm.trans hz) p hp
  · have hd := hnone hz hp
    have hz' := (honly d hd).symm.trans hz
    have hfull' : u.Full members p := by
      unfold Full lists at hfull
      rw [store_clearBlockKeys] at hfull
      exact hfull
    obtain (hmem | ⟨e, w, hw, hwp⟩) | ⟨w, hw, hdelivering⟩ := hcovered d z p hd hz' hp hfull'
    · refine .inl (.inl ?_)
      rw [queue_clearBlockKeys]
      exact hqueue d p.2 hd hmem
    · have he : e ≠ c := by
        rintro rfl
        obtain rfl := Option.some.inj (hx.symm.trans hw)
        rw [hwakes] at hwp
        cases hwp
      exact .inl (.inr ⟨e, w, (honly e he).trans hw, hwp⟩)
    · exact .inr ⟨w, (honly d hd).trans hw, hdelivering⟩

/-- A step of a client that wakes nobody. -/
theorem WakeInv.put_plain (h : s.WakeInv members) (hx : s.client c = some x) (hclient : u.client = s.client)
    (hfault : u.fault = false) (htable : u.table = s.table) (hqueue : u.queue = s.queue)
    (hkeys : y.keys = x.keys) (hdb : y.currentDB = x.currentDB) (hwakes : ∀ p, x.wakes p = false)
    (hdelivering : x.delivering = true → y.delivering = true)
    (hfull : ∀ d z p, s.client d = some z → p ∈ z.keys → u.Full members p →
      s.Full members p ∨ s.Expected d p) : (u.put c y).WakeInv members := by
  refine h.put hx hclient hfault htable hkeys (fun _ _ => hdb) fun d z p hz hp hu => ?_
  refine covered_put hx hclient ?_ (fun hmem => hqueue ▸ hmem) (fun hp => ?_) hdelivering
  · obtain hs | hexpected := hfull d z p hz hp hu
    · exact h.covered d z hz p hp hs
    · exact .inl hexpected
  · rw [hwakes] at hp
    cases hp

/-! ### Lists that get members -/

omit [DecidableEq C] in
/-- A pop gives no list its first member. -/
theorem full_of_pop {st : Keyspace V} {q p : DBID × Bytes} {left : Bool} {value : Bytes} {l : List Bytes}
    (before : s.lists members q = some (atEnd left value l))
    (after : Keyspace.lists members st p = Function.update (s.lists members) q (some l) p)
    (h : (Keyspace.lists members st p).getD [] ≠ []) : s.Full members p := by
  unfold Full
  by_cases hp : p = q
  · subst hp
    rw [before]
    exact atEnd_ne_nil left value l
  · rw [after, Function.update_of_ne hp] at h
    exact h

omit [DecidableEq C] in
/-- A push gives members to one list. -/
theorem full_of_push {st : Keyspace V} {q p : DBID × Bytes} {l : Option (List Bytes)}
    (after : Keyspace.lists members st = Function.update (s.lists members) q l)
    (h : (Keyspace.lists members st p).getD [] ≠ []) : s.Full members p ∨ p = q := by
  by_cases hp : p = q
  · exact .inr hp
  · rw [after, Function.update_of_ne hp] at h
    exact .inl h

theorem wakes_of_phase (h : ∀ rest, x.phase ≠ .waking rest) (p : DBID × Bytes) : x.wakes p = false := by
  unfold Client.wakes
  split
  next rest hphase => exact absurd hphase (h rest)
  next => rfl

theorem wakes_of_idle (h : x.idle = true) (p : DBID × Bytes) : x.wakes p = false := by
  refine wakes_of_phase (fun rest hphase => ?_) p
  have hready : x.phase = .ready := of_decide_eq_true (Bool.and_eq_true_iff.mp h).2
  exact nomatch hready.symm.trans hphase

theorem not_delivering_of_idle (h : x.idle = true) : x.delivering = false := by
  unfold Client.delivering
  rw [show x.phase = .ready from of_decide_eq_true (Bool.and_eq_true_iff.mp h).2]

/-! ### Steps -/

theorem WakeInv.nextPop {t : Server V Num C} {lpop timed : Bool} {keys : List Bytes} {key : Bytes}
    {rest : List Bytes} (h : s.WakeInv members) (hx : s.client c = some x)
    (hphase : x.phase = .popping lpop timed keys (key :: rest))
    (hnext : NextPop members s c x lpop timed keys key rest t) : t.WakeInv members := by
  have hwakes := wakes_of_phase (x := x) fun rest hne => nomatch hphase.symm.trans hne
  have hno : x.delivering = true → False := by
    intro hd
    rw [Client.delivering, hphase] at hd
    cases hd
  cases hnext with
  | answered value l st hne before after =>
    exact h.put_plain hx rfl h.fault rfl rfl rfl rfl hwakes (fun hd => (hno hd).elim)
      fun _ _ _ _ _ hfull => .inl (full_of_pop before (congrFun after _) hfull)
  | dropped l st before after =>
    exact h.put_plain hx rfl h.fault rfl rfl rfl rfl hwakes (fun hd => (hno hd).elim)
      fun _ _ _ _ _ hfull => .inl (full_of_pop before (congrFun after _) hfull)
  | missing before =>
    exact h.put_plain hx rfl h.fault rfl rfl rfl rfl hwakes (fun hd => (hno hd).elim)
      fun _ _ _ _ _ hfull => .inl hfull
  | wrongType before =>
    exact h.put_plain hx rfl h.fault rfl rfl rfl rfl hwakes (fun hd => (hno hd).elim)
      fun _ _ _ _ _ hfull => .inl hfull

theorem WakeInv.blockClient (h : s.WakeInv members) (hx : s.client c = some x)
    (hkeys : y.keys = x.keys) (hdb : y.currentDB = x.currentDB) (hwakes : ∀ p, x.wakes p = false)
    (hno : x.delivering = false) (lpop timed : Bool) (pushKey : Option Bytes) (keys : List Bytes) :
    (s.blockClient c y lpop timed pushKey keys).WakeInv members := by
  have hdel {P : Prop} (hd : x.delivering = true) : P := by
    rw [hno] at hd
    cases hd
  unfold Server.blockClient
  dsimp only
  split
  · exact h.put_plain hx rfl h.fault rfl rfl hkeys hdb hwakes hdel fun _ _ _ _ _ hfull => .inl hfull
  · exact h.put_plain hx rfl h.fault rfl rfl hkeys hdb hwakes hdel fun _ _ _ _ _ hfull => .inl hfull

theorem WakeInv.nextMove {t : Server V Num C} {timed : Bool} {source dest : Bytes} (h : s.WakeInv members)
    (hx : s.client c = some x) (hkeys : y.keys = x.keys) (hdb : y.currentDB = x.currentDB)
    (hwakes : ∀ p, x.wakes p = false) (hno : x.delivering = false)
    (hattentive : s.Full members (y.currentDB, source) → ¬s.Full members (y.currentDB, dest) →
      ∀ d ∈ (s.table.members (y.currentDB, dest)).toList, s.Expected d (y.currentDB, dest))
    (hnext : NextMove members s c y timed source dest t) : t.WakeInv members := by
  have hdel {P : Prop} (hd : x.delivering = true) : P := by
    rw [hno] at hd
    cases hd
  cases hnext with
  | moved value l m st before dest_before after =>
    refine h.put_plain hx rfl h.fault rfl rfl hkeys hdb hwakes hdel fun d z p hz hp hfull => ?_
    by_cases hs : s.Full members p
    · exact .inl hs
    · by_cases hdest : p = (y.currentDB, dest)
      · subst hdest
        have hsource : s.Full members (y.currentDB, source) := by
          unfold Full
          rw [before]
          exact atEnd_ne_nil false value l
        exact .inr (hattentive hsource hs d (h.mem_members hz hp))
      · -- the source has one member less
        exact .inl (full_of_pop before ((congrFun after p).trans (Function.update_of_ne hdest ..)) hfull)
  | missing before => exact h.blockClient hx hkeys hdb hwakes hno ..
  | wrongType =>
    exact h.put_plain hx rfl h.fault rfl rfl hkeys hdb hwakes hdel fun _ _ _ _ _ hfull => .inl hfull

theorem WakeInv.nextPush {t : Server V Num C} {key value : Bytes} (h : s.WakeInv members)
    (hx : s.client c = some x) (hphase : x.phase = .pushing key value)
    (hattentive : ¬s.Full members (x.currentDB, x.getBlockContext.pushKey) →
      s.AllExpected c (x.currentDB, x.getBlockContext.pushKey))
    (hnext : NextPush members s c x key value t) : t.WakeInv members := by
  have hwakes := wakes_of_phase (x := x) fun rest hne => nomatch hphase.symm.trans hne
  cases hnext with
  | pushed m st before after =>
    refine h.clear (u := { s with store := st }) hx rfl h.fault rfl rfl (fun _ _ _ hmem => hmem) hwakes
      fun d z p hd hz hp hfull => ?_
    by_cases hs : s.Full members p
    · exact h.covered d z hz p hp hs
    · obtain hfull | rfl := full_of_push after hfull
      · exact absurd hfull hs
      · exact .inl ((hattentive hs d (h.mem_members hz hp)).resolve_left hd)
  | refused before =>
    exact h.put_plain hx rfl h.fault rfl rfl rfl rfl hwakes (fun _ => rfl) fun _ _ _ _ _ hfull => .inl hfull

theorem WakeInv.nextBack {t : Server V Num C} {key value : Bytes} {err : KvErr} (h : s.WakeInv members)
    (hx : s.client c = some x) (hphase : x.phase = .puttingBack key value err)
    (hattentive : ¬s.Full members (x.currentDB, key) → s.AllExpected c (x.currentDB, key))
    (hnext : NextBack members s c x key value err t) : t.WakeInv members := by
  have hwakes := wakes_of_phase (x := x) fun rest hne => nomatch hphase.symm.trans hne
  cases hnext with
  | back l st before after =>
    refine h.clear (u := { s with store := st }) hx rfl h.fault rfl rfl (fun _ _ _ hmem => hmem) hwakes
      fun d z p hd hz hp hfull => ?_
    by_cases hs : s.Full members p
    · exact h.covered d z hz p hp hs
    · obtain hfull | rfl := full_of_push after hfull
      · exact absurd hfull hs
      · exact .inl ((hattentive hs d (h.mem_members hz hp)).resolve_left hd)
  | lost before =>
    exact h.clear hx rfl h.fault rfl rfl (fun _ _ _ hmem => hmem) hwakes
      fun d z p _ hz hp hfull => h.covered d z hz p hp hfull

/-- A callback that leaves its client blocked. -/
theorem WakeInv.put_callback (h : s.WakeInv members) {key : Bytes} (hx : s.client c = some x)
    (hidle : x.idle = true) (hclient : u.client = s.client) (hfault : u.fault = false)
    (htable : u.table = s.table) (hqueue : u.queue = s.queue.erase (c, key)) (hkeys : y.keys = x.keys)
    (hdb : y.currentDB = x.currentDB) (hfull : ∀ p, u.Full members p → s.Full members p)
    (hkey : (x.currentDB, key) ∈ x.keys → u.Full members (x.currentDB, key) →
      (c, key) ∈ s.queue.erase (c, key) ∨ s.AboutToWake (x.currentDB, key)) :
    (u.put c y).WakeInv members := by
  have hwakes := wakes_of_idle hidle
  have hkeep {d : C} {p : DBID × Bytes} (hcov : s.Covered d p)
      (hmem : (d, p.2) ∈ s.queue → (d, p.2) ∈ u.queue) : (u.put c y).Covered d p := by
    refine covered_put hx hclient hcov hmem (fun hp => ?_) fun hd => ?_
    · rw [hwakes] at hp
      cases hp
    · rw [not_delivering_of_idle hidle] at hd
      cases hd
  refine h.put hx hclient hfault htable hkeys (fun _ _ => hdb) fun d z p hz hp hu => ?_
  by_cases heq : (d, p.2) = (c, key)
  · -- the callback was for this client and this key
    obtain ⟨rfl, rfl⟩ := Prod.mk.inj heq
    obtain rfl := Option.some.inj (hx.symm.trans hz)
    have hpdb : p = (x.currentDB, p.2) := Prod.ext (h.db d x hx p hp) rfl
    rw [hpdb] at hp hu
    rw [hpdb]
    obtain hmem | habout := hkey hp hu
    · exact .inl (.inl (hqueue ▸ hmem))
    · obtain ⟨e, w, hw, hwp⟩ := habout
      have he : e ≠ d := by
        rintro rfl
        obtain rfl := Option.some.inj (hx.symm.trans hw)
        rw [hwakes] at hwp
        cases hwp
      exact .inl (.inr ⟨e, w, (client_put_ne he).trans (hclient ▸ hw), hwp⟩)
  · exact hkeep (h.covered d z hz p hp (hfull p hu)) fun hmem =>
      hqueue ▸ (List.mem_erase_of_ne heq).mpr hmem

theorem WakeInv.nextWoken {t : Server V Num C} {key : Bytes} (h : s.WakeInv members)
    (hx : s.client c = some x) (hidle : x.idle = true)
    (hattentive : (x.currentDB, key) ∈ x.keys → ∀ l ∈ s.lists members (x.currentDB, key), 1 < l.length →
      (if x.getBlockContext.lpop then l.head? else l.getLast?) = some [] →
        (c, key) ∈ s.queue.erase (c, key) ∨ s.AboutToWake (x.currentDB, key))
    (hnext : NextWoken members { s with queue := s.queue.erase (c, key) } c x key t) :
    t.WakeInv members := by
  have hwakes := wakes_of_idle hidle
  have hother {d : C} {k : Bytes} (hd : d ≠ c) (hmem : (d, k) ∈ s.queue) : (d, k) ∈ s.queue.erase (c, key) :=
    (List.mem_erase_of_ne fun heq => hd (Prod.mk.inj heq).1).mpr hmem
  cases hnext with
  | answered value l st hne hpush before after =>
    refine h.clear (u := { s with store := st, queue := _ }) hx rfl h.fault rfl rfl
      (fun d k hd hmem => hother hd hmem) hwakes fun d z p _ hz hp hfull => ?_
    exact h.covered d z hz p hp (full_of_pop before (congrFun after p) hfull)
  | taken value l st hne hpush before after =>
    refine h.put (u := { s with store := st, queue := _ }) hx rfl h.fault rfl rfl (fun _ _ => rfl)
      fun d z p hz hp hfull => ?_
    by_cases hd : d = c
    · subst hd
      exact .inr ⟨_, client_put, rfl⟩
    · refine covered_put hx rfl (h.covered d z hz p hp (full_of_pop before (congrFun after p) hfull))
        (hother hd) (fun hp => ?_) fun _ => rfl
      rw [hwakes] at hp
      cases hp
  | dropped l st before after =>
    refine h.put_callback (u := { s with store := st, queue := _ }) hx hidle rfl h.fault rfl rfl rfl rfl
      (fun p hfull => full_of_pop before (congrFun after p) hfull) fun hmem hfull => ?_
    have hl : l ≠ [] := by
      have hlist := congrFun after (x.currentDB, key)
      rw [Function.update_self] at hlist
      unfold Full lists at hfull
      rw [hlist] at hfull
      exact hfull
    refine hattentive hmem _ before ?_ ?_
    · rw [length_atEnd]
      exact Nat.lt_add_of_pos_left (List.length_pos_iff.mpr hl)
    · cases x.getBlockContext.lpop with
      | true => rfl
      | false => exact List.getLast?_concat ..
  | nothing before =>
    refine h.put_callback (u := { s with queue := _ }) hx hidle rfl h.fault rfl rfl rfl rfl
      (fun p hfull => hfull) fun hmem hfull => absurd ?_ hfull
    change (s.lists members (x.currentDB, key)).getD [] = []
    obtain before | before := before
    · rw [show s.lists members (x.currentDB, key) = some [] from before]
      rfl
    · rw [show s.lists members (x.currentDB, key) = none from before]
      rfl

/-- A command that does not block. -/
theorem WakeInv.runHandler (hk : kv.Lawful) (h : s.WakeInv members) (hx : s.client c = some x)
    (hphase : x.phase = .ready) {cmd : DataCommand} {args : List Bytes} {todo : List (DataCommand × List Bytes)}
    (hattentive : (pushes cmd = false → ∀ p ∈ s.table.keys, (s.runHandler cfg kv c x cmd args).Full members p →
      ¬s.Full members p → ∀ d ∈ (s.table.members p).toList, s.Expected d p) ∧
      ∀ p ∈ x.keys.toList, ∀ y ∈ (s.runHandler cfg kv c x cmd args).client c, y.currentDB = x.currentDB) :
    (s.runHandler cfg kv c { x with todo := todo } cmd args).WakeInv members := by
  have hwakes := wakes_of_phase (x := x) fun rest hne => nomatch hphase.symm.trans hne
  have hdb (p : DBID × Bytes) (hp : p ∈ x.keys) := hattentive.2 p hp _ client_put
  refine h.put (u := { s with store := _ }) hx rfl h.fault rfl rfl (fun p hp => hdb p hp)
    fun d z p hz hp hfull => ?_
  by_cases hpush : pushes cmd = true ∧ ¬s.Full members p
  · -- the list has changed, so that the command is about to wake whoever waits
    obtain ⟨hcmd, hs⟩ := hpush
    have hne : (s.runHandler cfg kv c { x with todo := todo } cmd args).store p.1 p.2 ≠ s.store p.1 p.2 := by
      intro heq
      refine hs ?_
      unfold Full lists Keyspace.lists
      rw [← heq]
      exact hfull
    obtain ⟨hpdb, hmem⟩ := pushes_wakes hk hcmd hne
    refine .inl (.inr ⟨c, _, client_put, ?_⟩)
    rw [Client.wakes]
    refine Bool.and_eq_true_iff.mpr ⟨decide_eq_true ((pushes_db hcmd).trans hpdb), ?_⟩
    exact List.contains_iff_mem.mpr hmem
  · refine covered_put hx rfl ?_ id (fun hw => nomatch (hwakes p).symm.trans hw) fun hd => ?_
    · by_cases hs : s.Full members p
      · exact h.covered d z hz p hp hs
      · have hd := h.mem_members hz hp
        have hkey : p ∈ s.table.keys :=
          AList.mem_keys.mp (AList.lookup_isSome.mp (Table.lookup_isSome_of_mem p hd))
        have hcmd : pushes cmd = false := Bool.eq_false_iff.mpr fun hcmd => hpush ⟨hcmd, hs⟩
        exact .inl (hattentive.1 hcmd p hkey hfull hs d hd)
    · rw [Client.delivering, hphase] at hd
      cases hd

/-- `WakeBlockingListsByKey`. -/
theorem WakeInv.wake (h : s.WakeInv members) (hx : s.client c = some x) {key : Bytes} {rest : List Bytes}
    (hphase : x.phase = .waking (key :: rest)) (hexec : (x.currentDB, key) ∉ s.execKeys) :
    ((s.wakeBlockingListsByKey x.currentDB key).put c { x with phase := .waking rest }).WakeInv members := by
  unfold wakeBlockingListsByKey
  rw [if_neg hexec]
  refine h.put (u := { s with queue := _ }) hx rfl h.fault rfl rfl (fun _ _ => rfl)
    fun d z p hz hp hfull => ?_
  refine covered_put hx rfl (h.covered d z hz p hp hfull) (List.mem_append_left _) (fun hw => ?_) fun hd => ?_
  · rw [Client.wakes, hphase] at hw
    obtain ⟨hdb, hmem⟩ := Bool.and_eq_true_iff.mp hw
    obtain hkey | hrest := List.mem_cons.mp (List.contains_iff_mem.mp hmem)
    · -- the callback is queued now
      have hpeq : (x.currentDB, key) = p := Prod.ext (of_decide_eq_true hdb) hkey.symm
      refine .inl (List.mem_append_right _ (List.mem_map.mpr ⟨d, ?_, by rw [hkey]⟩))
      rw [hpeq]
      exact h.mem_members hz hp
    · refine .inr ⟨c, _, client_put, ?_⟩
      rw [Client.wakes]
      exact Bool.and_eq_true_iff.mpr ⟨hdb, List.contains_iff_mem.mpr hrest⟩
  · rw [Client.delivering, hphase] at hd
    cases hd

/-- `AddBlockKey`. -/
theorem WakeInv.addBlockKey (h : s.WakeInv members) (hx : s.client c = some x) {key : Bytes}
    {rest : List Bytes} (hphase : x.phase = .registering (key :: rest))
    (hattentive : x.inExec = false → s.Full members (x.currentDB, key) → s.Expected c (x.currentDB, key)) :
    (s.addBlockKey c x key rest).WakeInv members := by
  have hwakes := wakes_of_phase (x := x) fun rest hne => nomatch hphase.symm.trans hne
  have hno {P : Prop} (hd : x.delivering = true) : P := by
    rw [Client.delivering, hphase] at hd
    cases hd
  unfold Server.addBlockKey
  dsimp only
  split
  · exact h.put_plain hx rfl h.fault rfl rfl rfl rfl hwakes hno fun _ _ _ _ _ hfull => .inl hfull
  next hexec =>
    generalize hy : ({ x with
        phase := .registering rest
        block := some { x.getBlockContext with
          keys := x.getBlockContext.keys.insert (x.currentDB, key) } } : Client Num) = y
    have hkeys (p : DBID × Bytes) : p ∈ y.keys ↔ p = (x.currentDB, key) ∨ p ∈ x.keys := by
      subst hy
      exact ListSet.mem_insert
    have hydb : y.currentDB = x.currentDB := by
      subst hy
      rfl
    have hold {d : C} {z : Client Num} {p : DBID × Bytes}
        (hz : ({ s with table := s.table.add (x.currentDB, key) c }.put c y).client d = some z)
        (hp : p ∈ z.keys) : (d = c ∧ z = y ∧ p = (x.currentDB, key)) ∨
          ∃ z', s.client d = some z' ∧ p ∈ z'.keys ∧ z.currentDB = z'.currentDB := by
      by_cases hd : d = c
      · subst hd
        obtain rfl := Option.some.inj (client_put.symm.trans hz)
        obtain rfl | hp := (hkeys p).mp hp
        · exact .inl ⟨rfl, rfl, rfl⟩
        · exact .inr ⟨x, hx, hp, hydb⟩
      · rw [client_put_ne hd] at hz
        exact .inr ⟨z, hz, hp, rfl⟩
    refine ⟨h.fault, ?_, fun d z hz p hp => ?_, fun d z hz p hp hfull => ?_⟩
    · refine h.agrees.add (x.currentDB, key) c (fun p => ?_) fun d hd => ?_
      · rw [blockedKeys_put_self, blockedKeys_of_client hx]
        exact hkeys p
      · exact blockedKeys_of_onlyClient (onlyClient_put rfl) hd
    · obtain ⟨-, rfl, rfl⟩ | ⟨z', hz', hp', hdb⟩ := hold hz hp
      · exact hydb.symm
      · rw [hdb]
        exact h.db d z' hz' p hp'
    · refine covered_put (u := { s with table := _ }) hx rfl ?_ id
        (fun hw => nomatch (hwakes p).symm.trans hw) hno
      obtain ⟨rfl, -, rfl⟩ | ⟨z', hz', hp', -⟩ := hold hz hp
      · exact .inl (hattentive (Bool.eq_false_iff.mpr hexec) hfull)
      · exact h.covered d z' hz' p hp' hfull

/-! ### All steps -/

theorem WakeInv.run (hk : kv.Lawful) (hl : kv.ListLaws members) (h : s.WakeInv members)
    (hx : s.client c = some x) (hattentive : s.AttentiveRun cfg kv members c x x.phase x.todo) :
    (s.run cfg kv c x).WakeInv members := by
  have hplain (hwakes : ∀ p, x.wakes p = false) (hno : x.delivering = false) (y : Client Num)
      (hkeys : y.keys = x.keys) (hdb : y.currentDB = x.currentDB) : (s.put c y).WakeInv members :=
    h.put_plain hx rfl h.fault rfl rfl hkeys hdb hwakes (fun hd => nomatch hno.symm.trans hd)
      fun _ _ _ _ _ hfull => .inl hfull
  unfold Server.run
  split
  next hphase =>
    rw [hphase] at hattentive
    have hwakes := wakes_of_phase (x := x) fun rest hne => nomatch hphase.symm.trans hne
    have hno : x.delivering = false := by
      rw [Client.delivering, hphase]
    split
    next => exact hplain hwakes hno _ rfl rfl
    next cmd args todo htodo =>
      rw [htodo] at hattentive
      change s.AttentiveStart cfg kv members c x cmd args (BlockCall.of cmd args) at hattentive
      split
      next call timed hcall =>
        rw [hcall] at hattentive
        cases call with
        | pop lpop keys => exact hplain hwakes hno _ rfl rfl
        | move source dest =>
          change (s.popPush kv c _ timed source dest).WakeInv members
          refine h.nextMove hx ?_ ?_ hwakes hno ?_ (Server.nextMove hk hl timed source dest)
          · rfl
          · rfl
          · exact hattentive
      next hcall =>
        rw [hcall] at hattentive
        exact h.runHandler hk hx hphase hattentive
  next lpop timed keys rest hphase =>
    cases rest with
    | nil =>
      have hwakes := wakes_of_phase (x := x) fun rest hne => nomatch hphase.symm.trans hne
      have hno : x.delivering = false := by
        rw [Client.delivering, hphase]
      exact h.blockClient hx rfl rfl hwakes hno ..
    | cons key rest => exact h.nextPop hx hphase (Server.nextPop hk hl lpop timed keys key rest)
  next hphase =>
    have hwakes := wakes_of_phase (x := x) fun rest hne => nomatch hphase.symm.trans hne
    have hno : x.delivering = false := by
      rw [Client.delivering, hphase]
    exact hplain hwakes hno _ rfl rfl
  next key rest hphase =>
    rw [hphase] at hattentive
    exact h.addBlockKey hx hphase hattentive
  next hphase =>
    have hno : x.delivering = false := by
      rw [Client.delivering, hphase]
    refine hplain (fun p => ?_) hno _ rfl rfl
    rw [Client.wakes, hphase]
    exact Bool.and_false _
  next key rest hphase =>
    rw [hphase] at hattentive
    exact h.wake hx hphase hattentive
  next key value hphase =>
    rw [hphase] at hattentive
    exact h.nextPush hx hphase hattentive (Server.nextPush hk hl key value)
  next key value err hphase =>
    rw [hphase] at hattentive
    exact h.nextBack hx hphase hattentive (Server.nextBack hk hl key value err)

theorem WakeInv.connect (h : s.WakeInv members) (hc : s.client c = none) : (s.put c .init).WakeInv members := by
  have hother {d : C} {z : Client Num} {p : DBID × Bytes} (hz : (s.put c .init).client d = some z)
      (hp : p ∈ z.keys) : d ≠ c := by
    rintro rfl
    obtain rfl := Option.some.inj (client_put.symm.trans hz)
    exact ListSet.notMem_empty p hp
  refine ⟨h.fault, fun p d => ?_, fun d z hz p hp => ?_, fun d z hz p hp hfull => ?_⟩
  · rw [show (s.put c .init).table = s.table from rfl, h.agrees p d]
    by_cases hd : d = c
    · subst hd
      refine iff_of_false ?_ ?_
      · rintro ⟨z, hz, -⟩
        exact nomatch hc.symm.trans hz
      · rintro ⟨z, hz, hp⟩
        exact hother hz hp rfl
    · rw [blockedKeys_of_onlyClient (onlyClient_put rfl) hd]
  · exact h.db d z ((client_put_ne (hother hz hp)).symm.trans hz) p hp
  · have hz' := (client_put_ne (hother hz hp)).symm.trans hz
    obtain (hmem | ⟨e, w, hw, hwp⟩) | ⟨w, hw, hdelivering⟩ := h.covered d z hz' p hp hfull
    · exact .inl (.inl hmem)
    · have he : e ≠ c := by
        rintro rfl
        exact nomatch hc.symm.trans hw
      exact .inl (.inr ⟨e, w, (client_put_ne he).trans hw, hwp⟩)
    · exact .inr ⟨w, (client_put_ne (hother hz hp)).trans hw, hdelivering⟩

/-- Nobody was waiting for the client that leaves. -/
theorem WakeInv.free (h : s.WakeInv members) (hx : s.client c = some x) (hidle : x.idle = true) :
    (s.free c x).WakeInv members := by
  have hwakes := wakes_of_idle hidle
  have hcleared : (s.clearBlockKeys c x).WakeInv members :=
    h.clear hx rfl h.fault rfl rfl (fun _ _ _ hmem => hmem) hwakes
      fun d z p _ hz hp hfull => h.covered d z hz p hp hfull
  have hclient (d : C) (hd : d ≠ c) : (s.free c x).client d = (s.clearBlockKeys c x).client d :=
    Function.update_of_ne hd ..
  have hnone : (s.free c x).client c = none := Function.update_self ..
  have hold {d : C} {z : Client Num} (hz : (s.free c x).client d = some z) :
      d ≠ c ∧ (s.clearBlockKeys c x).client d = some z := by
    have hd : d ≠ c := by
      rintro rfl
      exact nomatch hnone.symm.trans hz
    exact ⟨hd, (hclient d hd).symm.trans hz⟩
  refine ⟨hcleared.fault, fun p d => ?_, fun d z hz => hcleared.db d z (hold hz).2,
    fun d z hz p hp hfull => ?_⟩
  · rw [show (s.free c x).table = (s.clearBlockKeys c x).table from rfl, hcleared.agrees p d]
    by_cases hd : d = c
    · subst hd
      refine iff_of_false ?_ ?_
      · rintro ⟨z, hz, hp⟩
        obtain rfl := Option.some.inj (client_clearBlockKeys.symm.trans hz)
        exact ListSet.notMem_empty p hp
      · rintro ⟨z, hz, -⟩
        exact (hold hz).1 rfl
    · rw [blockedKeys_of_onlyClient hclient hd]
  · obtain (hmem | ⟨e, w, hw, hwp⟩) | ⟨w, hw, hdelivering⟩ := hcleared.covered d z (hold hz).2 p hp hfull
    · exact .inl (.inl hmem)
    · have he : e ≠ c := by
        rintro rfl
        obtain rfl := Option.some.inj (client_clearBlockKeys.symm.trans hw)
        exact nomatch (hwakes p).symm.trans hwp
      exact .inl (.inr ⟨e, w, (hclient e he).trans hw, hwp⟩)
    · exact .inr ⟨w, (hclient d (hold hz).1).trans hw, hdelivering⟩

theorem WakeInv.step (hk : kv.Lawful) (hl : kv.ListLaws members) {t : Server V Num C} {ev : Event Num C}
    (h : s.WakeInv members) (hattentive : Attentive cfg kv members s ev) (hstep : s.step cfg kv ev = some t) :
    t.WakeInv members := by
  cases (move_of_step hstep).2 with
  | connect c hc ht => exact ht ▸ h.connect hc
  | disconnect c x hx hidle ht => exact ht ▸ h.free hx hidle
  | request c r x hx hidle ht =>
    subst ht
    refine h.put_plain hx rfl h.fault rfl rfl rfl rfl (wakes_of_idle hidle) (fun hd => hd)
      fun _ _ _ _ _ hfull => .inl hfull
  | run c x hx hbusy ht =>
    subst ht
    exact h.run hk hl hx (hattentive x hx)
  | callback c key x hqueue hx hidle ht =>
    subst ht
    obtain ⟨y, hy, hattentive⟩ := hattentive
    obtain rfl := Option.some.inj (hx.symm.trans hy)
    exact h.nextWoken hx hidle hattentive (Server.nextWoken hk hl key)
  | timeout id c x htimer hx hidle ht =>
    subst ht
    exact h.clear (u := { s with timers := _ }) hx rfl h.fault rfl rfl (fun _ _ _ hmem => hmem)
      (wakes_of_idle hidle) fun d z p _ hz hp hfull => h.covered d z hz p hp hfull
  | lateCallback c key hqueue hc ht =>
    obtain ⟨x, hx, -⟩ := hattentive
    exact nomatch hc.symm.trans hx
  | lateTimeout id c htimer hc ht => exact absurd hc (Option.isSome_iff_ne_none.mp hattentive)

end Server

/-! ### Runs -/

section Runs

variable [DecidableEq C] {cfg : HandlerConfig} {kv : Kv V Num} {members : Option V → Option (List Bytes)}

/-- **None forgotten.** Along a run of attentive steps, nobody is blocked on a list that has members when
nothing is under way. -/
theorem noneForgotten_of_attentive (hk : kv.Lawful) (hl : kv.ListLaws members) (store : Keyspace V)
    {evs : List (Server.Event Num C)}
    (h : Run.Along (Server.step cfg kv) (Server.Attentive cfg kv members) (Server.init store) evs) :
    Run.Always (Server.step cfg kv) (Server.NoneForgotten members) (Server.init store) evs :=
  Run.always_of_invariant (fun _ _ _ hinv hattentive hstep => hinv.step hk hl hattentive hstep)
    (fun _ hinv => hinv.noneForgotten) (Server.wakeInv_init members store) h

end Runs

/-! ### A push and a move -/

namespace Server

variable [DecidableEq C] [Fintype C] (cfg : HandlerConfig) (kv : Kv V Num)
  (members : Option V → Option (List Bytes)) (s : Server V Num C)

instance decidableAboutToWake (p : DBID × Bytes) : Decidable (s.AboutToWake p) :=
  inferInstanceAs (Decidable (∃ d, ∃ y ∈ s.client d, y.wakes p = true))

instance decidableExpected (d : C) (p : DBID × Bytes) : Decidable (s.Expected d p) :=
  inferInstanceAs (Decidable ((d, p.2) ∈ s.queue ∨ s.AboutToWake p))

instance decidableAllExpected (c : C) (p : DBID × Bytes) : Decidable (s.AllExpected c p) :=
  inferInstanceAs (Decidable (∀ d ∈ (s.table.members p).toList, d = c ∨ s.Expected d p))

instance decidableAttentiveStart (c : C) (x : Client Num) (cmd : DataCommand) (args : List Bytes) :
    ∀ start, Decidable (s.AttentiveStart cfg kv members c x cmd args start)
  | some (.pop _ _, _) => isTrue trivial
  | some (.move source dest, _) => inferInstanceAs (Decidable (s.Full members (x.currentDB, source) →
    ¬s.Full members (x.currentDB, dest) →
      ∀ d ∈ (s.table.members (x.currentDB, dest)).toList, s.Expected d (x.currentDB, dest)))
  | none => inferInstanceAs (Decidable ((pushes cmd = false → ∀ p ∈ s.table.keys,
      (s.runHandler cfg kv c x cmd args).Full members p →
        ¬s.Full members p → ∀ d ∈ (s.table.members p).toList, s.Expected d p) ∧
    ∀ p ∈ x.keys.toList, ∀ y ∈ (s.runHandler cfg kv c x cmd args).client c, y.currentDB = x.currentDB))

instance decidableAttentiveRun (c : C) (x : Client Num) :
    ∀ phase todo, Decidable (s.AttentiveRun cfg kv members c x phase todo)
  | .ready, (cmd, args) :: _ =>
    inferInstanceAs (Decidable (s.AttentiveStart cfg kv members c x cmd args (BlockCall.of cmd args)))
  | .registering (key :: _), _ => inferInstanceAs (Decidable (x.inExec = false →
    s.Full members (x.currentDB, key) → s.Expected c (x.currentDB, key)))
  | .waking (key :: _), _ => inferInstanceAs (Decidable ((x.currentDB, key) ∉ s.execKeys))
  | .pushing _ _, _ => inferInstanceAs (Decidable (
    ¬s.Full members (x.currentDB, x.getBlockContext.pushKey) →
      s.AllExpected c (x.currentDB, x.getBlockContext.pushKey)))
  | .puttingBack key _ _, _ => inferInstanceAs (Decidable (
    ¬s.Full members (x.currentDB, key) → s.AllExpected c (x.currentDB, key)))
  | .ready, [] | .popping _ _ _ _, _ | .registering [], _ | .waking [], _ => isTrue trivial

instance decidableAttentive : ∀ ev, Decidable (s.Attentive cfg kv members ev)
  | .run c => inferInstanceAs (Decidable (∀ x ∈ s.client c,
    s.AttentiveRun cfg kv members c x x.phase x.todo))
  | .callback c key => inferInstanceAs (Decidable (∃ x ∈ s.client c, (x.currentDB, key) ∈ x.keys →
    ∀ l ∈ s.lists members (x.currentDB, key), 1 < l.length →
      (if x.getBlockContext.lpop then l.head? else l.getLast?) = some [] →
        (c, key) ∈ s.queue.erase (c, key) ∨ s.AboutToWake (x.currentDB, key)))
  | .timeout _ c => inferInstanceAs (Decidable ((s.client c).isSome = true))
  | .connect _ | .disconnect _ | .request _ _ => isTrue trivial

end Server

/-- `BLPOP b 0`, which blocks, and `RPUSH key x` by another client. -/
def pushFor (key : Bytes) : List (Server.Event ℤ Bool) :=
  [.connect true, .connect false, .request true (.command .blpop [[98], [48]])] ++
    List.replicate 6 (.run true) ++
    [.request false (.command .rpush [key, [120]])] ++ List.replicate 4 (.run false)

/-- The callback pops the element. -/
theorem noneForgotten_of_attentive_push :
    Run.Always (Server.step ⟨16, []⟩ smallKv) (Server.NoneForgotten SmallKv.members?)
      (Server.init fun _ _ => none) (pushFor [98] ++ [.callback true [98]]) :=
  noneForgotten_of_attentive smallKv_lawful smallKv_listLaws (fun _ _ => none) (by decide +kernel)

/-- `RPUSH a x`, and `RPOPLPUSH a b`. -/
def moveFor : List (Server.Event ℤ Bool) :=
  pushFor [97] ++ [.request false (.command .rpoplpush [[97], [98]])] ++ List.replicate 3 (.run false)

/-- `RPOPLPUSH` wakes nobody: the client stays blocked on `b`, which has a member. -/
theorem forgotten :
    ¬Run.Always (Server.step ⟨16, []⟩ smallKv) (Server.NoneForgotten SmallKv.members?)
      (Server.init fun _ _ => none) moveFor := by
  intro h
  obtain ⟨-, hend⟩ := h.of_steps (Option.some_get (by decide +kernel)).symm
  have hempty := hend (by decide +kernel) (by decide +kernel) true _ (Option.some_get (by decide +kernel)).symm
    (0, [98]) (by decide +kernel)
  exact absurd (by decide +kernel) hempty

end Blocking
end Comms
