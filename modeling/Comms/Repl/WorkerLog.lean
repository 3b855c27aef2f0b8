import Comms.Lib.Footprint
import Comms.Lib.Run
import Mathlib.Data.List.Nodup
import Mathlib.Logic.Function.Basic

/-!
# Worker threads and the log

A worker thread runs `Comms::Call`: the handler's store operations, one after the other, and then
`WriteWAL`, which pushes the frame on the queue of the replication thread. No lock is held across
the two. The replication thread takes frames off the queue in order and logs them.

* `LogOk` — the invariant: the store is the logged and queued commands, executed one after the
  other, and then what the running ones have done so far;
* `LogOk.step` — it is kept by every step that is `OrderSafe`: a frame is pushed while no other
  unpushed command has used one of its keys first;
* `walOrder_agrees` — in a run whose steps are `OrderSafe` the log has conflicting commands in the
  order they took effect in, and executing the log gives the master's store.

A key is a key of any database; what a handler carries from one operation to the next can be kept
under a key of its own.
-/

namespace Comms

open Footprint

/-- A logged command, with the store operations it consists of. -/
structure LogFrame (K V : Type*) where
  id : ℕ
  ops : List (Op K V)

/-- A command on a worker thread and what of it is still to do. -/
structure Running (K V : Type*) where
  id : ℕ
  ops : List (Op K V)
  rest : List (Op K V)

/-- The store, the worker threads, the queue of the replication thread and the log. `history` lists
the store operations in the order they took effect in. -/
structure Workers (K V : Type*) where
  store : K → V
  threads : ℕ → Option (Running K V)
  history : List (ℕ × Op K V)
  queue : List (LogFrame K V)
  wal : List (LogFrame K V)
  nextId : ℕ

/-- The steps of the system. -/
inductive WorkerAct (K V : Type*)
  /-- An idle thread starts a write command. -/
  | call (thread : ℕ) (ops : List (Op K V))
  /-- The handler on this thread executes its next store operation. -/
  | kvOp (thread : ℕ)
  /-- `WriteWAL(db, cmd)` on this thread: `AsyncIO` pushes the frame. -/
  | writeWAL (thread : ℕ)
  /-- `WriteWALCallback`: the replication thread logs the oldest frame. -/
  | writeWALCallback

section System

variable {K V : Type*}

namespace Workers

/-- Idle threads, nothing logged. -/
def init (store : K → V) : Workers K V where
  store := store
  threads := fun _ => none
  history := []
  queue := []
  wal := []
  nextId := 0

/-- One step; `none` when it is not possible. -/
def step (w : Workers K V) : WorkerAct K V → Option (Workers K V)
  | .call thread ops =>
    match w.threads thread with
    | some _ => none
    | none => some { w with
        threads := Function.update w.threads thread (some ⟨w.nextId, ops, ops⟩)
        nextId := w.nextId + 1 }
  | .kvOp thread =>
    match w.threads thread with
    | some ⟨id, ops, op :: rest⟩ => some { w with
        store := op.run w.store
        threads := Function.update w.threads thread (some ⟨id, ops, rest⟩)
        history := w.history ++ [(id, op)] }
    | _ => none
  | .writeWAL thread =>
    match w.threads thread with
    | some ⟨id, ops, []⟩ => some { w with
        threads := Function.update w.threads thread none
        queue := w.queue ++ [⟨id, ops⟩] }
    | _ => none
  | .writeWALCallback =>
    match w.queue with
    | [] => none
    | frame :: queue => some { w with queue := queue, wal := w.wal ++ [frame] }

/-- The frames pushed so far, logged or still queued. -/
def pushed (w : Workers K V) : List (LogFrame K V) := w.wal ++ w.queue

/-- Their commands. -/
def pushedIds (w : Workers K V) : List ℕ := w.pushed.map LogFrame.id

/-- The store operations of commands that were not pushed yet, in order. -/
def pending (w : Workers K V) : List (ℕ × Op K V) :=
  w.history.filter fun x => !decide (x.1 ∈ w.pushedIds)

/-- No thread runs a command and the queue is empty. -/
def Quiescent (w : Workers K V) : Prop := (∀ t, w.threads t = none) ∧ w.queue = []

/-- Of two operations with a common key, from different commands that are both in the log, the
command of the one that took effect first is logged first. -/
def OrderAgrees (w : Workers K V) : Prop :=
  w.history.Pairwise fun x y => x.1 ≠ y.1 → x.2.Conflict y.2 →
    x.1 ∈ w.wal.map LogFrame.id → y.1 ∈ w.wal.map LogFrame.id →
    [x.1, y.1].Sublist (w.wal.map LogFrame.id)

/-- A frame is pushed only when no other command that was not pushed yet has used a key of it
before it did. -/
def OrderSafe (w : Workers K V) : WorkerAct K V → Prop
  | .writeWAL thread => ∀ r, w.threads thread = some r →
    w.history.Pairwise fun x y => x.1 ∉ w.pushedIds → x.1 ≠ r.id → y.1 = r.id →
      ¬ x.2.Conflict y.2
  | _ => True

end Workers

/-! ### The invariant -/

/-- The running commands have ids of their own, their operations in the history are the ones they
have done, and every operation in the history belongs to a pushed or a running command. The store
is the pushed commands, executed in order, and then the pending operations. Conflicting operations
of a pushed command and another one were pushed in the order they took effect in. -/
structure LogOk (s₀ : K → V) (w : Workers K V) : Prop where
  running_lt : ∀ t r, w.threads t = some r → r.id < w.nextId
  pushed_lt : ∀ i ∈ w.pushedIds, i < w.nextId
  running_inj : ∀ t t' r r', w.threads t = some r → w.threads t' = some r' → r.id = r'.id → t = t'
  running_not_pushed : ∀ t r, w.threads t = some r → r.id ∉ w.pushedIds
  pushed_nodup : w.pushedIds.Nodup
  done : ∀ t r, w.threads t = some r →
    r.ops = (w.history.filter fun x => decide (x.1 = r.id)).map Prod.snd ++ r.rest
  owner : ∀ x ∈ w.history, x.1 ∈ w.pushedIds ∨ ∃ t r, w.threads t = some r ∧ r.id = x.1
  store : w.store = exec (exec s₀ (w.pushed.flatMap LogFrame.ops)) (w.pending.map Prod.snd)
  order : w.history.Pairwise fun x y => x.1 ≠ y.1 → x.2.Conflict y.2 → y.1 ∈ w.pushedIds →
    [x.1, y.1].Sublist w.pushedIds

theorem LogOk.init (s₀ : K → V) : LogOk s₀ (.init s₀) where
  running_lt := by simp [Workers.init]
  pushed_lt := by simp [Workers.init, Workers.pushedIds, Workers.pushed]
  running_inj := by simp [Workers.init]
  running_not_pushed := by simp [Workers.init]
  pushed_nodup := by simp [Workers.init, Workers.pushedIds, Workers.pushed]
  done := by simp [Workers.init]
  owner := by simp [Workers.init]
  store := by simp [Workers.init, Workers.pending, Workers.pushed]
  order := by simp [Workers.init]

/-- Only the slot of `thread` changes. -/
theorem update_eq_some {threads : ℕ → Option (Running K V)} {thread t : ℕ}
    {slot : Option (Running K V)} {r : Running K V}
    (h : Function.update threads thread slot t = some r) :
    t = thread ∧ slot = some r ∨ t ≠ thread ∧ threads t = some r := by
  by_cases ht : t = thread
  · subst ht
    rw [Function.update_self] at h
    exact .inl ⟨rfl, h⟩
  · rw [Function.update_of_ne ht] at h
    exact .inr ⟨ht, h⟩

/-- Every id in the history has been given out. -/
theorem LogOk.history_lt {s₀ : K → V} {w : Workers K V} (h : LogOk s₀ w) :
    ∀ x ∈ w.history, x.1 < w.nextId := by
  intro x hx
  rcases h.owner x hx with hp | ⟨t, r, hr, hid⟩
  · exact h.pushed_lt _ hp
  · exact hid ▸ h.running_lt t r hr

/-- A thread starts a command under a new id. -/
theorem LogOk.call {s₀ : K → V} {w : Workers K V} (h : LogOk s₀ w) {thread : ℕ}
    (hidle : w.threads thread = none) (ops : List (Op K V)) :
    LogOk s₀ { w with
      threads := Function.update w.threads thread (some ⟨w.nextId, ops, ops⟩)
      nextId := w.nextId + 1 } := by
  have hcases : ∀ t r, Function.update w.threads thread (some ⟨w.nextId, ops, ops⟩) t = some r →
      t = thread ∧ r = ⟨w.nextId, ops, ops⟩ ∨ t ≠ thread ∧ w.threads t = some r :=
    fun t r hr => (update_eq_some hr).imp_left fun ⟨ht, hslot⟩ => ⟨ht, (Option.some.inj hslot).symm⟩
  constructor
  case running_lt =>
    intro t r hr
    show r.id < w.nextId + 1
    rcases hcases t r hr with ⟨-, rfl⟩ | ⟨-, hr⟩
    · exact Nat.lt_succ_self _
    · exact Nat.lt_succ_of_lt (h.running_lt t r hr)
  case pushed_lt =>
    exact fun i hi => Nat.lt_succ_of_lt (h.pushed_lt i hi)
  case running_inj =>
    intro t t' r r' hr hr' hid
    -- the new id is behind all others
    rcases hcases t r hr with ⟨ht, rfl⟩ | ⟨ht, hr⟩ <;>
      rcases hcases t' r' hr' with ⟨ht', rfl⟩ | ⟨ht', hr'⟩
    · exact ht.trans ht'.symm
    · exact absurd (h.running_lt t' r' hr') (by rw [← hid]; exact lt_irrefl _)
    · exact absurd (h.running_lt t r hr) (by rw [hid]; exact lt_irrefl _)
    · exact h.running_inj t t' r r' hr hr' hid
  case running_not_pushed =>
    intro t r hr
    rcases hcases t r hr with ⟨-, rfl⟩ | ⟨-, hr⟩
    · exact fun hp => absurd (h.pushed_lt _ hp) (lt_irrefl _)
    · exact h.running_not_pushed t r hr
  case pushed_nodup =>
    exact h.pushed_nodup
  case done =>
    intro t r hr
    rcases hcases t r hr with ⟨-, rfl⟩ | ⟨-, hr⟩
    · -- the new id occurs nowhere yet
      have hnil : (w.history.filter fun x => decide (x.1 = w.nextId)) = [] :=
        List.filter_eq_nil_iff.mpr fun x hx => by simpa using (h.history_lt x hx).ne
      show ops = _ ++ ops
      rw [hnil]
      rfl
    · exact h.done t r hr
  case owner =>
    intro x hx
    rcases h.owner x hx with hp | ⟨t, r, hr, hid⟩
    · exact .inl hp
    · have ht : t ≠ thread := by
        rintro rfl
        rw [hidle] at hr
        cases hr
      exact .inr ⟨t, r, (Function.update_of_ne ht _ _).trans hr, hid⟩
  case store =>
    exact h.store
  case order =>
    exact h.order

/-- A running command executes its next operation. -/
theorem LogOk.kvOp {s₀ : K → V} {w : Workers K V} (h : LogOk s₀ w) {thread id : ℕ}
    {ops rest : List (Op K V)} {op : Op K V}
    (hrun : w.threads thread = some ⟨id, ops, op :: rest⟩) :
    LogOk s₀ { w with
      store := op.run w.store
      threads := Function.update w.threads thread (some ⟨id, ops, rest⟩)
      history := w.history ++ [(id, op)] } := by
  have hcases : ∀ t r, Function.update w.threads thread (some ⟨id, ops, rest⟩) t = some r →
      t = thread ∧ r = ⟨id, ops, rest⟩ ∨ t ≠ thread ∧ w.threads t = some r :=
    fun t r hr => (update_eq_some hr).imp_left fun ⟨ht, hslot⟩ => ⟨ht, (Option.some.inj hslot).symm⟩
  -- a command keeps its id while it executes
  have hold : ∀ t r, Function.update w.threads thread (some ⟨id, ops, rest⟩) t = some r →
      ∃ r', w.threads t = some r' ∧ r'.id = r.id := by
    intro t r hr
    rcases hcases t r hr with ⟨rfl, rfl⟩ | ⟨-, hr⟩
    · exact ⟨_, hrun, rfl⟩
    · exact ⟨r, hr, rfl⟩
  have hid : id ∉ w.pushedIds := h.running_not_pushed thread _ hrun
  constructor
  case running_lt =>
    intro t r hr
    obtain ⟨r', hr', he⟩ := hold t r hr
    exact he ▸ h.running_lt t r' hr'
  case pushed_lt =>
    exact h.pushed_lt
  case running_inj =>
    intro t t' r r' hr hr' he
    obtain ⟨r₁, hr₁, he₁⟩ := hold t r hr
    obtain ⟨r₂, hr₂, he₂⟩ := hold t' r' hr'
    exact h.running_inj t t' r₁ r₂ hr₁ hr₂ (he₁.trans (he.trans he₂.symm))
  case running_not_pushed =>
    intro t r hr
    obtain ⟨r', hr', he⟩ := hold t r hr
    exact he ▸ h.running_not_pushed t r' hr'
  case pushed_nodup =>
    exact h.pushed_nodup
  case done =>
    intro t r hr
    -- what is done of a command grows at the end of the history
    show r.ops = ((w.history ++ [(id, op)]).filter fun x => decide (x.1 = r.id)).map Prod.snd ++ _
    rw [List.filter_append, List.map_append]
    rcases hcases t r hr with ⟨-, rfl⟩ | ⟨ht, hr⟩
    · have hdone := h.done thread _ hrun
      dsimp only at hdone ⊢
      rw [hdone]
      simp
    · have hne : id ≠ r.id := fun he => ht (h.running_inj t thread r _ hr hrun he.symm)
      rw [List.filter_singleton]
      simpa [hne] using h.done t r hr
  case owner =>
    intro x hx
    -- the operation belongs to the command that runs
    rcases List.mem_append.mp hx with hx | hx
    · rcases h.owner x hx with hp | ⟨t, r, hr, he⟩
      · exact .inl hp
      · by_cases ht : t = thread
        · subst ht
          obtain rfl := Option.some.inj (hrun.symm.trans hr)
          exact .inr ⟨t, _, Function.update_self .., he⟩
        · exact .inr ⟨t, r, (Function.update_of_ne ht _ _).trans hr, he⟩
    · obtain rfl := List.mem_singleton.mp hx
      exact .inr ⟨thread, _, Function.update_self .., rfl⟩
  case store =>
    -- nothing of this command is pushed yet, so its operation is pending
    show op.run w.store = exec (exec s₀ (w.pushed.flatMap LogFrame.ops))
      (((w.history ++ [(id, op)]).filter fun x => !decide (x.1 ∈ w.pushedIds)).map Prod.snd)
    have hpend : (!decide (id ∈ w.pushedIds)) = true := by simpa using hid
    rw [List.filter_append, List.map_append, exec_append, List.filter_singleton, hpend, h.store]
    rfl
  case order =>
    -- the command that took effect last was not pushed
    refine List.pairwise_append.mpr ⟨h.order, List.pairwise_singleton _ _, ?_⟩
    intro x _ y hy _ _ hp
    obtain rfl := List.mem_singleton.mp hy
    exact absurd hp hid

/-- The state after a frame was pushed and its thread is idle. -/
def Workers.push (w : Workers K V) (thread : ℕ) (frame : LogFrame K V) : Workers K V :=
  { w with
    threads := Function.update w.threads thread none
    queue := w.queue ++ [frame] }

theorem Workers.push_pushed (w : Workers K V) (thread : ℕ) (frame : LogFrame K V) :
    (w.push thread frame).pushed = w.pushed ++ [frame] :=
  (List.append_assoc _ _ _).symm

theorem Workers.push_pushedIds (w : Workers K V) (thread : ℕ) (frame : LogFrame K V) :
    (w.push thread frame).pushedIds = w.pushedIds ++ [frame.id] := by
  rw [pushedIds, push_pushed, List.map_append]
  rfl

/-- The operations of the pushed command are not pending any more. -/
theorem Workers.push_pending (w : Workers K V) (thread : ℕ) (frame : LogFrame K V) :
    (w.push thread frame).pending = w.pending.filter fun x => !decide (x.1 = frame.id) := by
  unfold pending
  rw [push_pushedIds, List.filter_filter]
  refine List.filter_congr fun x _ => ?_
  simp only [List.mem_append, List.mem_singleton, Bool.decide_or, Bool.not_or]
  exact Bool.and_comm _ _

/-- A command that has executed everything has all its operations pending. -/
theorem LogOk.pending_own {s₀ : K → V} {w : Workers K V} (h : LogOk s₀ w) {thread id : ℕ}
    {ops : List (Op K V)} (hrun : w.threads thread = some ⟨id, ops, []⟩) :
    (w.pending.filter fun x => decide (x.1 = id)).map Prod.snd = ops := by
  have hid : id ∉ w.pushedIds := h.running_not_pushed thread _ hrun
  have hdone := h.done thread _ hrun
  dsimp only at hdone
  rw [List.append_nil] at hdone
  rw [hdone, Workers.pending, List.filter_filter]
  congr 1
  refine List.filter_congr fun x _ => ?_
  by_cases hx : x.1 = id
  · simp [hx, hid]
  · simp [hx]

/-- The operations of the command move in front of the other pending ones: none of those was in
conflict with one of its operations and executed before it. -/
theorem LogOk.store_push {s₀ : K → V} {w : Workers K V} (h : LogOk s₀ w) {thread id : ℕ}
    {ops : List (Op K V)} (hrun : w.threads thread = some ⟨id, ops, []⟩)
    (hsafe : w.OrderSafe (.writeWAL thread)) :
    w.store = exec (exec s₀ ((w.push thread ⟨id, ops⟩).pushed.flatMap LogFrame.ops))
      ((w.push thread ⟨id, ops⟩).pending.map Prod.snd) := by
  have hclear : w.pending.Pairwise fun x y => x.1 ≠ id → y.1 = id → ¬ x.2.Conflict y.2 :=
    List.Pairwise.filter _ (hsafe _ hrun) |>.imp_of_mem fun {x y} hx _ hxy =>
      hxy (by simpa using (List.mem_filter.mp hx).2)
  have hfront := exec_filter_front Prod.snd (fun x : ℕ × Op K V => decide (x.1 = id))
    (hclear.imp fun {x y} hxy hpx hpy => hxy (by simpa using hpx) (by simpa using hpy))
    (exec s₀ (w.pushed.flatMap LogFrame.ops))
  rw [h.store, hfront, Workers.push_pushed, Workers.push_pending]
  simp only [List.map_append, h.pending_own hrun, exec_append, List.flatMap_append,
    List.flatMap_cons, List.flatMap_nil, List.append_nil]

/-- No conflicting command is overtaken. -/
theorem LogOk.order_push {s₀ : K → V} {w : Workers K V} (h : LogOk s₀ w) {thread id : ℕ}
    {ops : List (Op K V)} (hrun : w.threads thread = some ⟨id, ops, []⟩)
    (hsafe : w.OrderSafe (.writeWAL thread)) :
    w.history.Pairwise fun x y => x.1 ≠ y.1 → x.2.Conflict y.2 → y.1 ∈ w.pushedIds ++ [id] →
      [x.1, y.1].Sublist (w.pushedIds ++ [id]) := by
  refine (h.order.and (hsafe _ hrun)).imp fun {x y} hxy hne hc hy => ?_
  obtain ⟨hord, hpush⟩ := hxy
  rcases List.mem_append.mp hy with hy | hy
  · exact (hord hne hc hy).trans (List.sublist_append_left _ _)
  · -- the earlier command was pushed before, or this one may not be pushed
    have hy := List.mem_singleton.mp hy
    have hx : x.1 ∈ w.pushedIds := by
      by_contra hx
      exact hpush hx (by rw [← hy]; exact hne) hy hc
    rw [hy]
    exact (List.singleton_sublist.mpr hx).append (List.Sublist.refl [id])

/-- **Pushing a frame.** -/
theorem LogOk.writeWAL {s₀ : K → V} {w : Workers K V} (h : LogOk s₀ w) {thread id : ℕ}
    {ops : List (Op K V)} (hrun : w.threads thread = some ⟨id, ops, []⟩)
    (hsafe : w.OrderSafe (.writeWAL thread)) : LogOk s₀ (w.push thread ⟨id, ops⟩) := by
  have hids := w.push_pushedIds thread ⟨id, ops⟩
  have hid : id ∉ w.pushedIds := h.running_not_pushed thread _ hrun
  have hold : ∀ t r, (w.push thread ⟨id, ops⟩).threads t = some r →
      t ≠ thread ∧ w.threads t = some r :=
    fun t r hr => (update_eq_some hr).resolve_left fun ⟨_, hslot⟩ => nomatch hslot
  constructor
  case running_lt =>
    exact fun t r hr => h.running_lt t r (hold t r hr).2
  case pushed_lt =>
    intro i hi
    rw [hids] at hi
    rcases List.mem_append.mp hi with hi | hi
    · exact h.pushed_lt i hi
    · obtain rfl := List.mem_singleton.mp hi
      exact h.running_lt thread _ hrun
  case running_inj =>
    intro t t' r r' hr hr' he
    exact h.running_inj t t' r r' (hold t r hr).2 (hold t' r' hr').2 he
  case running_not_pushed =>
    intro t r hr hp
    obtain ⟨ht, hr⟩ := hold t r hr
    rw [hids] at hp
    rcases List.mem_append.mp hp with hp | hp
    · exact h.running_not_pushed t r hr hp
    · exact ht (h.running_inj t thread r _ hr hrun (List.mem_singleton.mp hp))
  case pushed_nodup =>
    rw [hids]
    exact List.Nodup.append h.pushed_nodup (List.nodup_singleton _)
      (List.disjoint_singleton.mpr hid)
  case done =>
    exact fun t r hr => h.done t r (hold t r hr).2
  case owner =>
    intro x hx
    rw [hids]
    rcases h.owner x hx with hp | ⟨t, r, hr, he⟩
    · exact .inl (List.mem_append_left _ hp)
    · by_cases ht : t = thread
      · -- the command of this operation is the one that is pushed
        subst ht
        obtain rfl := Option.some.inj (hrun.symm.trans hr)
        exact .inl (by simp [← he])
      · exact .inr ⟨t, r, (Function.update_of_ne ht _ _).trans hr, he⟩
  case store =>
    exact h.store_push hrun hsafe
  case order =>
    rw [hids]
    exact h.order_push hrun hsafe

/-- Logging the oldest frame. -/
theorem LogOk.writeWALCallback {s₀ : K → V} {w : Workers K V} (h : LogOk s₀ w) {frame : LogFrame K V}
    {queue : List (LogFrame K V)} (hq : w.queue = frame :: queue) :
    LogOk s₀ { w with queue := queue, wal := w.wal ++ [frame] } := by
  generalize hw' : ({ w with queue := queue, wal := w.wal ++ [frame] } : Workers K V) = w'
  have hpushed : w'.pushed = w.pushed := by
    rw [← hw', Workers.pushed, Workers.pushed, hq, List.append_assoc]
    rfl
  have hids : w'.pushedIds = w.pushedIds := by rw [Workers.pushedIds, hpushed]; rfl
  have hpending : w'.pending = w.pending := by
    rw [Workers.pending, hids, ← hw']
    rfl
  have hsame : w'.threads = w.threads ∧ w'.history = w.history ∧ w'.store = w.store ∧
      w'.nextId = w.nextId := by
    rw [← hw']
    exact ⟨rfl, rfl, rfl, rfl⟩
  obtain ⟨hthreads, hhistory, hstore, hnext⟩ := hsame
  constructor
  case running_lt =>
    rw [hthreads, hnext]; exact h.running_lt
  case pushed_lt =>
    rw [hids, hnext]; exact h.pushed_lt
  case running_inj =>
    rw [hthreads]; exact h.running_inj
  case running_not_pushed =>
    rw [hthreads, hids]; exact h.running_not_pushed
  case pushed_nodup =>
    rw [hids]; exact h.pushed_nodup
  case done =>
    rw [hthreads, hhistory]; exact h.done
  case owner =>
    rw [hthreads, hhistory, hids]; exact h.owner
  case store =>
    rw [hstore, hpushed, hpending]; exact h.store
  case order =>
    rw [hhistory, hids]; exact h.order

/-- What a step needs and what it does. -/
theorem Workers.step_cases {w w' : Workers K V} {a : WorkerAct K V} (h : w.step a = some w') :
    (∃ thread ops, a = .call thread ops ∧ w.threads thread = none ∧
      w' = { w with
        threads := Function.update w.threads thread (some ⟨w.nextId, ops, ops⟩)
        nextId := w.nextId + 1 }) ∨
    (∃ thread id ops op rest, a = .kvOp thread ∧ w.threads thread = some ⟨id, ops, op :: rest⟩ ∧
      w' = { w with
        store := op.run w.store
        threads := Function.update w.threads thread (some ⟨id, ops, rest⟩)
        history := w.history ++ [(id, op)] }) ∨
    (∃ thread id ops, a = .writeWAL thread ∧ w.threads thread = some ⟨id, ops, []⟩ ∧
      w' = w.push thread ⟨id, ops⟩) ∨
    (∃ frame queue, a = .writeWALCallback ∧ w.queue = frame :: queue ∧
      w' = { w with queue := queue, wal := w.wal ++ [frame] }) := by
  cases a with
  | call thread ops =>
    simp only [Workers.step] at h
    split at h
    · cases h
    next hidle =>
    exact .inl ⟨thread, ops, rfl, hidle, (Option.some.inj h).symm⟩
  | kvOp thread =>
    simp only [Workers.step] at h
    split at h
    · next id ops op rest hrun =>
      exact .inr (.inl ⟨thread, id, ops, op, rest, rfl, hrun, (Option.some.inj h).symm⟩)
    · cases h
  | writeWAL thread =>
    simp only [Workers.step] at h
    split at h
    · next id ops hrun =>
      exact .inr (.inr (.inl ⟨thread, id, ops, rfl, hrun, (Option.some.inj h).symm⟩))
    · cases h
  | writeWALCallback =>
    simp only [Workers.step] at h
    split at h
    · cases h
    next frame queue hq =>
    exact .inr (.inr (.inr ⟨frame, queue, rfl, hq, (Option.some.inj h).symm⟩))

/-- One step that is `OrderSafe`. -/
theorem LogOk.step {s₀ : K → V} {w w' : Workers K V} {a : WorkerAct K V} (h : LogOk s₀ w)
    (hsafe : w.OrderSafe a) (hstep : w.step a = some w') : LogOk s₀ w' := by
  obtain ⟨_, _, rfl, hidle, rfl⟩ | ⟨_, _, _, _, _, rfl, hrun, rfl⟩ | ⟨_, _, _, rfl, hrun, rfl⟩ |
    ⟨_, _, rfl, hq, rfl⟩ := Workers.step_cases hstep
  · exact h.call hidle _
  · exact h.kvOp hrun
  · exact h.writeWAL hrun hsafe
  · exact h.writeWALCallback hq

/-- Two elements of a front of a list stand in it as they stand in the list. -/
theorem sublist_of_append {l l' : List ℕ} {a b : ℕ} (h : [a, b].Sublist (l ++ l')) (hb : b ∈ l)
    (hnodup : (l ++ l').Nodup) : [a, b].Sublist l := by
  obtain ⟨l₁, l₂, heq, h₁, h₂⟩ := List.sublist_append_iff.mp h
  rcases List.eq_nil_or_concat l₂ with rfl | ⟨l₃, c, rfl⟩
  · rw [List.append_nil] at heq
    rwa [heq]
  · -- the last of the two would be in the other part too
    have hcb : c = b := by
      have := congrArg List.getLast? heq
      simpa using this.symm
    have hmem : b ∈ l' := h₂.subset (by simp [hcb])
    exact absurd hmem (List.disjoint_of_nodup_append hnodup hb)

theorem LogOk.orderAgrees {s₀ : K → V} {w : Workers K V} (h : LogOk s₀ w) : w.OrderAgrees := by
  have hids : w.pushedIds = w.wal.map LogFrame.id ++ w.queue.map LogFrame.id := List.map_append
  refine h.order.imp fun {x y} hxy hne hc _ hy => ?_
  have hnodup := h.pushed_nodup
  have hsub := hxy hne hc (by rw [hids]; exact List.mem_append_left _ hy)
  rw [hids] at hsub hnodup
  exact sublist_of_append hsub hy hnodup

theorem LogOk.store_eq {s₀ : K → V} {w : Workers K V} (h : LogOk s₀ w) (hq : w.Quiescent) :
    w.store = exec s₀ (w.wal.flatMap LogFrame.ops) := by
  have hpushed : w.pushed = w.wal := by rw [Workers.pushed, hq.2, List.append_nil]
  have hpending : w.pending = [] := by
    refine List.filter_eq_nil_iff.mpr fun x hx => ?_
    rcases h.owner x hx with hp | ⟨t, r, hr, -⟩
    · simpa using hp
    · rw [hq.1 t] at hr
      cases hr
  rw [h.store, hpending, hpushed]
  rfl

/-- **The order of the log.** For any number of worker threads, in every run whose steps are
`OrderSafe`: the log has conflicting commands in the order they took effect in, and when every
executed command has been logged, executing the log on the initial store gives the store. -/
theorem walOrder_agrees {s₀ : K → V} {acts : List (WorkerAct K V)} {w : Workers K V}
    (hsafe : Run.Along Workers.step Workers.OrderSafe (.init s₀) acts)
    (hrun : Run.steps Workers.step (.init s₀) acts = some w) :
    w.OrderAgrees ∧ (w.Quiescent → exec s₀ (w.wal.flatMap LogFrame.ops) = w.store) := by
  have h : LogOk s₀ w :=
    Run.invariant (fun _ _ _ h hs hstep => h.step hs hstep) (.init s₀) hsafe hrun
  exact ⟨h.orderAgrees, fun hq => (h.store_eq hq).symm⟩

end System

/-! ### A frame that overtakes another -/

/-- `SET` of a key, as an operation on a store of numbers. -/
def setOp (key value : ℕ) : Op ℕ ℕ where
  keys := {key}
  run s := Function.update s key value
  frame s k hk := Function.update_of_ne hk _ _
  congr s s' _ k hk := by
    obtain rfl : k = key := hk
    rw [Function.update_self, Function.update_self]

/-- Two threads set the same key; the second is faster to push its frame. -/
def overtakeActs : List (WorkerAct ℕ ℕ) :=
  [.call 0 [setOp 7 1], .call 1 [setOp 7 2], .kvOp 0, .kvOp 1, .writeWAL 1, .writeWAL 0,
    .writeWALCallback, .writeWALCallback]

/-- The store has the second value, the log ends with the first. -/
theorem walOrder_overtaken :
    ∃ w, Run.steps Workers.step (.init fun _ => 0) overtakeActs = some w ∧
      w.history.map Prod.fst = [0, 1] ∧ w.wal.map LogFrame.id = [1, 0] ∧ w.store 7 = 2 ∧
      exec (fun _ => 0) (w.wal.flatMap LogFrame.ops) 7 = 1 ∧ ¬ w.OrderAgrees := by
  refine ⟨_, rfl, by decide, by decide, by decide, by decide, fun hord => ?_⟩
  have hpair := (List.pairwise_cons.mp hord).1 (1, setOp 7 2) (.head _)
  have hsub : [0, 1].Sublist [1, 0] := hpair (by decide) ⟨7, rfl, rfl⟩ (by decide) (by decide)
  revert hsub
  decide

/-- The same commands, each pushed before the next one takes effect. -/
def queuedActs : List (WorkerAct ℕ ℕ) :=
  [.call 0 [setOp 7 1], .kvOp 0, .writeWAL 0, .call 1 [setOp 7 2], .kvOp 1, .writeWAL 1,
    .writeWALCallback, .writeWALCallback]

theorem walOrder_agrees_queued :
    ∃ w, Run.steps Workers.step (.init fun _ => 0) queuedActs = some w ∧
      w.OrderAgrees ∧ (w.Quiescent → exec (fun _ => 0) (w.wal.flatMap LogFrame.ops) = w.store) := by
  obtain ⟨w, hw⟩ : ∃ w, Run.steps Workers.step (.init fun _ => 0) queuedActs = some w := ⟨_, rfl⟩
  refine ⟨w, hw, walOrder_agrees ?_ hw⟩
  simp [queuedActs, Run.Along, Workers.step, Workers.OrderSafe, Workers.init, Workers.pushedIds,
    Workers.pushed]

end Comms
