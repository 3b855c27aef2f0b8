import Comms.Lib.Run
import Comms.Client.TimerQueue
import Mathlib.Algebra.Group.Int.Defs
import Mathlib.Algebra.Group.Nat.Defs

/-!
# Timers

A `Timer` has a queue of tasks and a table of them by their ids. `Routine` runs the tasks that are
due, one after the other: a periodic task is put back into the queue before it runs, any other is
taken out of it before, and out of the table when it has run. While a task runs it may schedule,
cancel and adjust tasks, itself among them.

* `Timer.schedule`, `cancel`, `adjustNextTriggerTime`, `doTerminated`, `turn` — the functions,
  `none` being an assertion that fails or an access to a task that is not there;
* `schedule_spec`, `cancel_spec`, .. — what they do to the tasks, the queue and the table.

The destructors of the runners are left out.
-/

namespace Comms

/-! ### Time -/

namespace Timer

/-- An `int64` as a `uint64`. -/
def uint64 (v : ℤ) : ℕ := (v % 2 ^ 64).toNat

/-- `millistime`. -/
def millistime (time : ℕ) : TimeUnit → ℕ
  | .nanos => if 500000 ≤ time % 1000000 then time / 1000000 + 1 else time / 1000000
  | .micros => if 500 ≤ time % 1000 then time / 1000 + 1 else time / 1000
  | .millis => time
  | .seconds => time * 1000 % 2 ^ 64
  | .minutes => time * 1000 * 60 % 2 ^ 64
  | .hours => time * 1000 * 60 * 60 % 2 ^ 64
  | .days => time * 1000 * 60 * 60 * 24 % 2 ^ 64

/-- A time in milliseconds, rounded. -/
def millis (time : ℤ) : TimeUnit → ℤ
  | .nanos => (time + 500000) / 1000000
  | .micros => (time + 500) / 1000
  | .millis => time
  | .seconds => time * 1000
  | .minutes => time * 60000
  | .hours => time * 3600000
  | .days => time * 86400000

/-- `now + millistime(delay, unit)`. -/
def after (now : ℕ) (delay : ℤ) (unit : TimeUnit) : ℕ :=
  (now + millistime (uint64 delay) unit) % 2 ^ 64

end Timer

/-! ### The functions -/

/-- `Timer`, with `base_id`. -/
structure Timer where
  queue : TimerTaskQueue
  table : ℕ → Option ℕ
  baseId : ℕ

namespace Timer

/-- A new timer. -/
def empty : Timer := ⟨.empty, fun _ => none, 1⟩

/-- `GenerateTimerTaskID`. -/
def generateTimerTaskID (tm : Timer) : ℕ × Timer :=
  let baseId := if 0x7FFFFFFF ≤ tm.baseId then 1 else tm.baseId
  (baseId, { tm with baseId := baseId + 1 })

/-- `DoSchedule`, which allocates its task at `t`. The result is the id, and `none` is `-1`. -/
def schedule (tm : Timer) (t now : ℕ) (runner : Option ℕ) (delay period : ℤ) (unit : TimeUnit) :
    Option (Option ℕ × Timer) :=
  let (id, tm) := tm.generateTimerTaskID
  if tm.table id ≠ none then some (none, tm)
  else
    let task : TimerTask := ⟨id, .scheduled, period, unit, after now delay unit, runner, 0⟩
    ((tm.queue.setTask t task).add t).map fun queue =>
      (some id, { tm with queue, table := Function.update tm.table id (some t) })

/-- `Cancel`. -/
def cancel (tm : Timer) (id : ℕ) : Option (Bool × Timer) :=
  match tm.table id with
  | none => some (false, tm)
  | some t =>
    (tm.queue.memory t).map fun task =>
      (true, { tm with queue := tm.queue.setTask t { task with state := .cancelled } })

/-- The time that `AdjustNextTriggerTime` moves a task to. -/
def adjusted (nextTriggerTime : ℕ) (value : ℤ) (unit : TimeUnit) : ℕ :=
  if 0 < value then (nextTriggerTime + millistime value.natAbs unit) % 2 ^ 64
  else (nextTriggerTime + 2 ^ 64 - millistime value.natAbs unit) % 2 ^ 64

/-- `AdjustNextTriggerTime`. -/
def adjustNextTriggerTime (tm : Timer) (id : ℕ) (value : ℤ) (unit : TimeUnit) :
    Option (Bool × Timer) :=
  match tm.table id with
  | none => some (false, tm)
  | some t =>
    (tm.queue.memory t).bind fun task =>
      (tm.queue.rescheduleTask t (adjusted task.nextTriggerTime value unit)).bind fun r =>
        -- `ASSERT(ret)`
        if r.1 then some (true, { tm with queue := r.2 }) else none

/-- `DoTerminated`. -/
def doTerminated (tm : Timer) (t : ℕ) : Option Timer :=
  (tm.queue.memory t).map fun task =>
    { tm with
      table := Function.update tm.table task.id none
      queue := { tm.queue with memory := Function.update tm.queue.memory t none } }

/-- How an iteration of `Routine` ends. -/
inductive Turn
  | again
  | returns (ret : ℤ)
  | runs (t : ℕ) (periodic : Bool)

/-- An `int64`. -/
def int64 (v : ℕ) : ℤ := if v < 2 ^ 63 then v else v - 2 ^ 64

/-- The loop of `Routine`, up to the call of a runner. The clock is read first, and again for a task
that is periodic. Where the loop ends because nothing is left `ret` is `-1`. -/
def turn (tm : Timer) (now now' : ℕ) : Option (Turn × Timer) :=
  if tm.queue.isEmpty then some (.returns (-1), tm)
  else
    tm.queue.getMin.bind fun t => (tm.queue.memory t).bind fun task =>
      if now < task.nextTriggerTime then some (.returns (int64 (task.nextTriggerTime - now)), tm)
      else if task.runner = none then
        tm.queue.removeMin.map fun queue => (.again, { tm with queue })
      else if task.state = .scheduled then
        if 0 < task.period then
          (tm.queue.rescheduleMin (after now' task.period task.unit)).map fun queue =>
            (.runs t true, { tm with queue })
        else
          tm.queue.removeMin.bind fun queue => (queue.memory t).map fun task =>
            (.runs t false, { tm with queue := queue.setTask t { task with state := .executed } })
      else
        tm.queue.removeMin.bind fun queue =>
          (doTerminated { tm with queue } t).map fun tm => (.again, tm)

end Timer

/-! ### What they do -/

namespace Timer

/-- A task, wherever it is in the queue. -/
def task (tm : Timer) (t : ℕ) : Option TimerTask := (tm.queue.memory t).map TimerTask.unplaced

/-- The task is in the queue. -/
def Queued (tm : Timer) (t : ℕ) : Prop := tm.queue.Queued t

variable {tm : Timer} {t id now now' : ℕ} {k : TimerTask}

theorem exists_of_task (hk : tm.task t = some k) :
    ∃ task, tm.queue.memory t = some task ∧ task.unplaced = k :=
  Option.map_eq_some_iff.mp hk

/-- The tasks of a queue in which one task has been replaced. -/
theorem task_setTask (q : TimerTaskQueue) (task : TimerTask) :
    (fun u => ((q.setTask t task).memory u).map TimerTask.unplaced) =
      Function.update (fun u => (q.memory u).map TimerTask.unplaced) t (some task.unplaced) := by
  funext u
  by_cases hu : u = t
  · subst hu
    simp [TimerTaskQueue.setTask]
  · simp [TimerTaskQueue.setTask, Function.update_of_ne hu]

/-- Contents that the queue does not look at. -/
theorem valid_setTask {q : TimerTaskQueue} (hv : q.Valid) {task task' : TimerTask}
    (ht : q.memory t = some task) (hindex : task'.queueIndex = task.queueIndex)
    (htime : task'.nextTriggerTime = task.nextTriggerTime) : (q.setTask t task').Valid := by
  refine hv.of_slots rfl rfl fun i u task'' hu htask'' => ?_
  by_cases heq : u = t
  · subst heq
    obtain rfl := Option.some.inj (ht.symm.trans htask'')
    exact ⟨task', Function.update_self _ _ _, hindex, htime⟩
  · exact ⟨task'', (Function.update_of_ne heq _ _).trans htask'', rfl, rfl⟩

/-- Memory that no task in the queue has. -/
theorem valid_update {q : TimerTaskQueue} (hv : q.Valid) (hq : ¬ q.Queued t)
    (o : Option TimerTask) : { q with memory := Function.update q.memory t o }.Valid := by
  refine hv.of_slots rfl rfl fun i u task hu htask => ⟨task, ?_, rfl, rfl⟩
  have hne : u ≠ t := fun heq => hq ⟨i, heq ▸ hu⟩
  exact (Function.update_of_ne hne _ _).trans htask

theorem not_queued_of_task {q : TimerTaskQueue} (hv : q.Valid) (hfree : q.memory t = none) :
    ¬ q.Queued t := by
  rintro ⟨i, hi⟩
  have hpos := hv.placed.pos hi
  obtain ⟨u, task, hu, htask, -⟩ := hv.placed.slot i hpos.1 hpos.2
  obtain rfl := Option.some.inj (hu.symm.trans hi)
  cases hfree.symm.trans htask

theorem schedule_spec (hv : tm.queue.Valid) (hfree : tm.task t = none) (runner : Option ℕ)
    (delay period : ℤ) (unit : TimeUnit) :
    tm.schedule t now runner delay period unit = some (none, tm.generateTimerTaskID.2) ∨
    ∃ tm', tm.schedule t now runner delay period unit = some (some tm.generateTimerTaskID.1, tm') ∧
      tm'.queue.Valid ∧ tm.table tm.generateTimerTaskID.1 = none ∧
      tm'.table = Function.update tm.table tm.generateTimerTaskID.1 (some t) ∧
      (∀ u, tm'.Queued u ↔ tm.Queued u ∨ u = t) ∧
      tm'.task = Function.update tm.task t (some ⟨tm.generateTimerTaskID.1, .scheduled, period,
        unit, after now delay unit, runner, 0⟩) := by
  have hmem : tm.queue.memory t = none := Option.map_eq_none_iff.mp hfree
  have hnot := not_queued_of_task hv hmem
  by_cases hid : tm.table tm.generateTimerTaskID.1 = none
  · right
    set task : TimerTask := ⟨tm.generateTimerTaskID.1, .scheduled, period, unit,
      after now delay unit, runner, 0⟩ with htask
    obtain ⟨q', hadd, hv', -, hqueued, hmem'⟩ := (valid_update hv hnot (some task)).add
      (Function.update_self t (some task) tm.queue.memory) hnot
    refine ⟨{ tm.generateTimerTaskID.2 with
      queue := q'
      table := Function.update tm.table tm.generateTimerTaskID.1 (some t) }, ?_, hv', hid, rfl,
      hqueued, (funext hmem').trans (task_setTask tm.queue task)⟩
    unfold schedule
    refine (if_neg (not_not_intro hid)).trans ?_
    exact congrArg (Option.map _) hadd
  · left
    unfold schedule
    exact if_pos hid

theorem cancel_spec (hv : tm.queue.Valid) (ht : tm.table id = some t) (hk : tm.task t = some k) :
    ∃ tm', tm.cancel id = some (true, tm') ∧ tm'.queue.Valid ∧ tm'.table = tm.table ∧
      (∀ u, tm'.Queued u ↔ tm.Queued u) ∧
      tm'.task = Function.update tm.task t (some { k with state := .cancelled }) := by
  obtain ⟨task, htask, rfl⟩ := exists_of_task hk
  refine ⟨{ tm with queue := tm.queue.setTask t { task with state := .cancelled } }, ?_,
    valid_setTask hv htask rfl rfl, rfl, fun _ => Iff.rfl, task_setTask tm.queue _⟩
  rw [cancel, ht]
  dsimp only
  rw [htask, Option.map_some]

theorem adjust_spec (hv : tm.queue.Valid) (ht : tm.table id = some t) (hk : tm.task t = some k)
    (hq : tm.Queued t) (value : ℤ) (unit : TimeUnit) :
    ∃ tm', tm.adjustNextTriggerTime id value unit = some (true, tm') ∧ tm'.queue.Valid ∧
      tm'.table = tm.table ∧ (∀ u, tm'.Queued u ↔ tm.Queued u) ∧
      tm'.task = Function.update tm.task t
        (some { k with nextTriggerTime := adjusted k.nextTriggerTime value unit }) := by
  obtain ⟨task, htask, rfl⟩ := exists_of_task hk
  obtain ⟨q', hrun, hv', hsifted⟩ :=
    hv.rescheduleTask hq htask (adjusted task.nextTriggerTime value unit)
  refine ⟨{ tm with queue := q' }, ?_, hv', rfl, hsifted.queued,
    (funext hsifted.memory).trans (task_setTask _ _)⟩
  rw [adjustNextTriggerTime, ht]
  dsimp only
  rw [htask, Option.bind_some, hrun, Option.bind_some, if_pos rfl]

theorem doTerminated_spec (hv : tm.queue.Valid) (hk : tm.task t = some k) (hq : ¬ tm.Queued t) :
    ∃ tm', tm.doTerminated t = some tm' ∧ tm'.queue.Valid ∧
      tm'.table = Function.update tm.table k.id none ∧ (∀ u, tm'.Queued u ↔ tm.Queued u) ∧
      tm'.task = Function.update tm.task t none := by
  obtain ⟨task, htask, rfl⟩ := exists_of_task hk
  refine ⟨{ tm with
    table := Function.update tm.table task.id none
    queue := { tm.queue with memory := Function.update tm.queue.memory t none } }, ?_,
    valid_update hv hq none, rfl, fun _ => Iff.rfl, ?_⟩
  · rw [doTerminated, htask, Option.map_some]
  · funext u
    by_cases hu : u = t
    · subst hu
      simp [Timer.task]
    · simp [Timer.task, Function.update_of_ne hu]

/-! The iterations of `Routine`, for the task that is first. -/

section Turn

variable (hv : tm.queue.Valid) (hmin : tm.queue.getMin = some t) (hk : tm.task t = some k)

include hv hmin

theorem not_isEmpty : tm.queue.isEmpty = false := by
  have hpos := hv.placed.pos hmin
  rw [TimerTaskQueue.isEmpty, decide_eq_false_iff_not]
  omega

include hk

theorem turn_returns (hdue : now < k.nextTriggerTime) :
    tm.turn now now' = some (.returns (int64 (k.nextTriggerTime - now)), tm) := by
  obtain ⟨task, htask, rfl⟩ := exists_of_task hk
  have hdue' : now < task.nextTriggerTime := hdue
  rw [turn, not_isEmpty hv hmin, if_neg Bool.false_ne_true, hmin, Option.bind_some, htask,
    Option.bind_some, if_pos hdue']
  rfl

variable (hdue : k.nextTriggerTime ≤ now) (hrunner : k.runner ≠ none)

include hdue hrunner

/-- A periodic task that is due is put back. -/
theorem turn_periodic (hstate : k.state = .scheduled) (hperiod : 0 < k.period) :
    ∃ tm', tm.turn now now' = some (.runs t true, tm') ∧ tm'.queue.Valid ∧ tm'.table = tm.table ∧
      (∀ u, tm'.Queued u ↔ tm.Queued u) ∧ tm'.task = Function.update tm.task t
        (some { k with nextTriggerTime := after now' k.period k.unit }) := by
  obtain ⟨task, htask, rfl⟩ := exists_of_task hk
  have hdue' : ¬ now < task.nextTriggerTime := not_lt.mpr hdue
  have hrunner' : task.runner ≠ none := hrunner
  have hstate' : task.state = .scheduled := hstate
  have hperiod' : 0 < task.period := hperiod
  obtain ⟨q', hrun, hv', hsifted⟩ :=
    hv.rescheduleMin hmin htask (after now' task.period task.unit)
  refine ⟨{ tm with queue := q' }, ?_, hv', rfl, hsifted.queued,
    (funext hsifted.memory).trans (task_setTask _ _)⟩
  rw [turn, not_isEmpty hv hmin, if_neg Bool.false_ne_true, hmin, Option.bind_some, htask,
    Option.bind_some, if_neg hdue', if_neg hrunner', if_pos hstate', if_pos hperiod', hrun]
  rfl

/-- Any other task that is due is taken out of the queue. -/
theorem turn_oneShot (hstate : k.state = .scheduled) (hperiod : k.period ≤ 0) :
    ∃ tm', tm.turn now now' = some (.runs t false, tm') ∧ tm'.queue.Valid ∧ tm'.table = tm.table ∧
      (∀ u, tm'.Queued u ↔ tm.Queued u ∧ u ≠ t) ∧
      tm'.task = Function.update tm.task t (some { k with state := .executed }) := by
  obtain ⟨task, htask, rfl⟩ := exists_of_task hk
  have hdue' : ¬ now < task.nextTriggerTime := not_lt.mpr hdue
  have hrunner' : task.runner ≠ none := hrunner
  have hstate' : task.state = .scheduled := hstate
  have hperiod' : ¬ 0 < task.period := Int.not_lt.mpr hperiod
  obtain ⟨q', hrun, hv', -, hqueued, hmem⟩ := hv.removeMin hmin
  have htask' : (q'.memory t).map TimerTask.unplaced = some task.unplaced := by
    rw [hmem, htask, Option.map_some]
  obtain ⟨task', hmem', hsame⟩ := Option.map_eq_some_iff.mp htask'
  refine ⟨{ tm with queue := q'.setTask t { task' with state := .executed } }, ?_,
    valid_setTask hv' hmem' rfl rfl, rfl, hqueued, ?_⟩
  · rw [turn, not_isEmpty hv hmin, if_neg Bool.false_ne_true, hmin, Option.bind_some, htask,
      Option.bind_some, if_neg hdue', if_neg hrunner', if_pos hstate', if_neg hperiod', hrun,
      Option.bind_some, hmem']
    rfl
  · refine (task_setTask q' _).trans ?_
    rw [funext hmem]
    have hexecuted : TimerTask.unplaced { task' with state := .executed } =
        { task'.unplaced with state := .executed } := rfl
    rw [hexecuted, hsame]
    rfl

/-- One that has been cancelled is terminated. -/
theorem turn_cancelled (hstate : k.state ≠ .scheduled) :
    ∃ tm', tm.turn now now' = some (.again, tm') ∧ tm'.queue.Valid ∧
      tm'.table = Function.update tm.table k.id none ∧
      (∀ u, tm'.Queued u ↔ tm.Queued u ∧ u ≠ t) ∧ tm'.task = Function.update tm.task t none := by
  obtain ⟨task, htask, rfl⟩ := exists_of_task hk
  have hdue' : ¬ now < task.nextTriggerTime := not_lt.mpr hdue
  have hrunner' : task.runner ≠ none := hrunner
  have hstate' : task.state ≠ .scheduled := hstate
  obtain ⟨q', hrun, hv', -, hqueued, hmem⟩ := hv.removeMin hmin
  have htask' : Timer.task { tm with queue := q' } t = some task.unplaced := by
    rw [Timer.task, hmem, htask, Option.map_some]
  obtain ⟨tm', hterm, hv'', htable, hqueued', htask''⟩ :=
    doTerminated_spec hv' htask' fun hq => ((hqueued t).mp hq).2 rfl
  refine ⟨tm', ?_, hv'', htable, fun u => (hqueued' u).trans (hqueued u), ?_⟩
  · rw [turn, not_isEmpty hv hmin, if_neg Bool.false_ne_true, hmin, Option.bind_some, htask,
      Option.bind_some, if_neg hdue', if_neg hrunner', if_neg hstate', hrun,
      Option.bind_some, hterm]
    rfl
  · rw [htask'']
    exact congrArg (Function.update · t none) (funext hmem)

end Turn

end Timer

end Comms
