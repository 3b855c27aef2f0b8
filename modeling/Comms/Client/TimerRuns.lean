import Comms.Lib.Run
import Comms.Client.Timer

/-!
# Timers in use

* `timerStep` — the calls, one at a time, with an iteration of `Routine` and the end of a task's run
  as steps of their own;
* `FiresAsScheduled` — what a timer is for;
* `TimerInv`, `timerInv_step` — the invariant behind it;
* `firesAsScheduled_of_steps` — the runs it holds in.

A task that is not periodic and that adjusts its own time while it runs is in the table and not in
the queue, and `ASSERT(ret)` fails.
-/

namespace Comms

open Timer

/-! ### Runs -/

/-- A run of a task: when it was due, what the clock said, the time at which it was in the queue
when it began, and whether it had been cancelled. -/
structure TaskRun where
  due : ℤ
  clock : ℕ
  requeued : Option ℕ
  cancelled : Bool

/-- What has become of a task. `due` is when it should run, without any overflow. -/
structure TaskHistory where
  period : ℤ
  unit : TimeUnit
  due : ℤ
  cancelled : Bool
  runs : List TaskRun

/-- Where the thread is. -/
inductive TimerControl
  | idle
  /-- `Routine` has just returned. -/
  | returned (ret : ℤ)
  /-- In front of an iteration of `Routine`. -/
  | loop
  /-- A task runs; `none` is one that is periodic. -/
  | running (oneShot : Option ℕ)
  /-- An assertion has failed, or a task has been accessed that is not there. -/
  | crashed

/-- A timer in use. `clock` is the last value that was read, `next` an address from which on nothing
has been allocated; `history` is by address. -/
structure TimerState where
  timer : Timer
  control : TimerControl
  clock : ℕ
  next : ℕ
  history : ℕ → Option TaskHistory

/-- What can happen. A task that runs makes the calls that the thread makes otherwise. -/
inductive TimerEvent
  | schedule (now : ℕ) (runner : Option ℕ) (delay period : ℤ) (unit : TimeUnit)
  | cancel (id : ℕ)
  | adjust (id : ℕ) (value : ℤ) (unit : TimeUnit)
  /-- Another timer takes an id. -/
  | otherTimer
  | routine
  | turn (now now' : ℕ)
  /-- The runner returns. -/
  | finish

namespace TimerState

/-- A call is made outside of `Routine` or by the task that runs. -/
def afterCall : TimerControl → Option TimerControl
  | .idle | .returned _ => some .idle
  | .running oneShot => some (.running oneShot)
  | .loop | .crashed => none

/-- The new timer, or a crash. -/
def orCrash (s : TimerState) (o : Option TimerState) : TimerState :=
  o.getD { s with control := .crashed }

def updateHistory (s : TimerState) (t : ℕ) (f : TaskHistory → TaskHistory) :
    ℕ → Option TaskHistory :=
  Function.update s.history t ((s.history t).map f)

def start : TimerState := ⟨.empty, .idle, 0, 0, fun _ => none⟩

/-- `Schedule`. -/
def schedule (s : TimerState) (control : TimerControl) (now : ℕ) (runner : Option ℕ)
    (delay period : ℤ) (unit : TimeUnit) : TimerState :=
  s.orCrash <| (s.timer.schedule s.next now runner delay period unit).map fun r =>
    match r.1 with
    | none => { s with timer := r.2, control, clock := now }
    | some _ =>
      { timer := r.2, control, clock := now, next := s.next + 1
        history := Function.update s.history s.next
          (some ⟨period, unit, now + millis delay unit, false, []⟩) }

/-- `Cancel`. -/
def cancel (s : TimerState) (control : TimerControl) (id : ℕ) : TimerState :=
  s.orCrash <| (s.timer.cancel id).map fun r =>
    { s with
      timer := r.2, control
      history := match s.timer.table id with
        | none => s.history
        | some t => s.updateHistory t fun h => { h with cancelled := true } }

/-- `AdjustNextTriggerTime`. -/
def adjust (s : TimerState) (control : TimerControl) (id : ℕ) (value : ℤ) (unit : TimeUnit) :
    TimerState :=
  s.orCrash <| (s.timer.adjustNextTriggerTime id value unit).map fun r =>
    { s with
      timer := r.2, control
      history := match s.timer.table id with
        | none => s.history
        | some t => s.updateHistory t fun h => { h with
            due := if 0 < value then h.due + millis value.natAbs unit
              else h.due - millis value.natAbs unit } }

/-- An iteration of `Routine`. -/
def turn (s : TimerState) (now now' : ℕ) : TimerState :=
  s.orCrash <| (s.timer.turn now now').map fun r =>
    match r.1 with
    | .again => { s with timer := r.2, clock := now }
    | .returns ret =>
      { s with
        timer := r.2, control := .returned ret
        clock := if s.timer.queue.isEmpty then s.clock else now }
    | .runs t periodic =>
      { s with
        timer := r.2
        control := .running (if periodic then none else some t)
        clock := if periodic then now' else now
        history := s.updateHistory t fun h => { h with
          due := if periodic then now' + millis h.period h.unit else h.due
          runs := h.runs ++ [{
            due := h.due
            clock := if periodic then now' else now
            requeued := if r.2.queue.queue (((r.2.queue.memory t).map
              TimerTask.queueIndex).getD 0) = some t then
                (r.2.queue.memory t).map TimerTask.nextTriggerTime else none
            cancelled := h.cancelled }] } }

/-- The end of a task's run. -/
def finish (s : TimerState) (oneShot : Option ℕ) : TimerState :=
  match oneShot with
  | none => { s with control := .loop }
  | some t =>
    s.orCrash <| (s.timer.doTerminated t).map fun timer => { s with timer, control := .loop }

end TimerState

/-- One step; the clock does not go back. -/
def timerStep (s : TimerState) : TimerEvent → Option TimerState
  | .schedule now runner delay period unit =>
    if s.clock ≤ now then
      (TimerState.afterCall s.control).map fun control =>
        s.schedule control now runner delay period unit
    else none
  | .cancel id => (TimerState.afterCall s.control).map fun control => s.cancel control id
  | .adjust id value unit =>
    (TimerState.afterCall s.control).map fun control => s.adjust control id value unit
  | .otherTimer => some { s with timer := s.timer.generateTimerTaskID.2 }
  | .routine =>
    match s.control with
    | .idle | .returned _ => some { s with control := .loop }
    | _ => none
  | .turn now now' =>
    match s.control with
    | .loop => if s.clock ≤ now ∧ now ≤ now' then some (s.turn now now') else none
    | _ => none
  | .finish =>
    match s.control with
    | .running oneShot => some (s.finish oneShot)
    | _ => none

/-! ### What a timer is for -/

/-- A run of a task is not early, and not one of a task that has been cancelled; a periodic task is
in the queue again, for one period later. -/
def TaskHistory.RunOk (h : TaskHistory) (r : TaskRun) : Prop :=
  r.due ≤ r.clock ∧ r.cancelled = false ∧
    (0 < h.period → ∃ time, r.requeued = some time ∧ (time : ℤ) = r.clock + millis h.period h.unit)

namespace TimerState

def task (s : TimerState) (t : ℕ) : Option TimerTask := s.timer.task t

def Queued (s : TimerState) (t : ℕ) : Prop := s.timer.Queued t

/-- `ret` is the time to the first of the tasks, or `-1`. -/
def Earliest (s : TimerState) (ret : ℤ) : Prop :=
  ((∀ t, ¬ s.Queued t) ∧ ret = -1) ∨
    ∃ t k, s.Queued t ∧ s.task t = some k ∧
      (∀ u k', s.Queued u → s.task u = some k' → k.nextTriggerTime ≤ k'.nextTriggerTime) ∧
      ret = k.nextTriggerTime - s.clock

end TimerState

/-- **What a timer is for.** -/
structure FiresAsScheduled (s : TimerState) : Prop where
  /-- No task is accessed that has been terminated, and no assertion fails. -/
  alive : s.control ≠ .crashed
  runs : ∀ t h, s.history t = some h → ∀ r ∈ h.runs, h.RunOk r
  once : ∀ t h, s.history t = some h → h.period ≤ 0 → h.runs.length ≤ 1
  /-- When `Routine` returns, the table has the tasks in the queue. -/
  table : ∀ ret, s.control = .returned ret →
    ∀ t, s.Queued t ↔ ∃ k, s.task t = some k ∧ s.timer.table k.id = some t
  unique : ∀ id t, s.timer.table id = some t → ∃ k, s.task t = some k ∧ k.id = id
  /-- Then a task that is not periodic has run, or will, at the time it is due. -/
  oneShot : ∀ ret, s.control = .returned ret → ∀ t h, s.history t = some h → h.period ≤ 0 →
    h.cancelled = false → (h.runs.length = 1 ∧ ¬ s.Queued t) ∨
      (h.runs = [] ∧ s.Queued t ∧ ∃ k, s.task t = some k ∧ (k.nextTriggerTime : ℤ) = h.due ∧
        s.clock < k.nextTriggerTime)
  earliest : ∀ ret, s.control = .returned ret → s.Earliest ret

/-! ### When it does that -/

/-- The sum in 64 bits is the sum. -/
def TimeFits (now : ℕ) (delay : ℤ) (unit : TimeUnit) : Prop :=
  (after now delay unit : ℤ) = now + millis delay unit

/-- The same for an adjustment. -/
def AdjustFits (time : ℕ) (value : ℤ) (unit : TimeUnit) : Prop :=
  (adjusted time value unit : ℤ) =
    if 0 < value then time + millis value.natAbs unit else time - millis value.natAbs unit

/-- The condition on a step: a runner that is not `NULL`, times that fit, no adjustment of a task
that is not periodic by itself while it runs, and a time to wait that fits an `int64`. -/
def TimerStepOk (s : TimerState) : TimerEvent → Prop
  | .schedule now runner delay _ unit => runner ≠ none ∧ TimeFits now delay unit
  | .adjust id value unit => ∀ t k, s.timer.table id = some t → s.task t = some k →
      s.control ≠ .running (some t) ∧ AdjustFits k.nextTriggerTime value unit
  | .turn now now' => ∀ t k, s.timer.queue.getMin = some t → s.task t = some k →
      (now < k.nextTriggerTime → k.nextTriggerTime - now < 2 ^ 63) ∧
      (k.nextTriggerTime ≤ now → k.state = .scheduled → 0 < k.period →
        TimeFits now' k.period k.unit)
  | .cancel _ | .otherTimer | .routine | .finish => True

/-! ### The invariant -/

/-- What is recorded of a task that there is. -/
structure Tracked (s : TimerState) (t : ℕ) (k : TimerTask) (h : TaskHistory) : Prop where
  period : k.period = h.period
  unit : k.unit = h.unit
  due : (k.nextTriggerTime : ℤ) = h.due
  cancelled : k.state = .cancelled ↔ h.cancelled = true
  table : s.timer.table k.id = some t
  runner : k.runner ≠ none
  placed : (s.Queued t ∧ (k.state = .scheduled ∨ k.state = .cancelled)) ∨
    (¬ s.Queued t ∧ s.control = .running (some t) ∧ k.state ≠ .scheduled)

/-- **The invariant.** A task that there is is in the table, and in the queue unless it is the one
that runs and is not periodic. -/
structure TimerInv (s : TimerState) : Prop where
  alive : s.control ≠ .crashed
  valid : s.timer.queue.Valid
  fresh : ∀ t, s.next ≤ t → s.task t = none ∧ s.history t = none
  tracked : ∀ t k, s.task t = some k → ∃ h, s.history t = some h ∧ Tracked s t k h
  table : ∀ id t, s.timer.table id = some t → ∃ k, s.task t = some k ∧ k.id = id
  running : ∀ t, s.control = .running (some t) → ¬ s.Queued t ∧ ∃ k, s.task t = some k
  runs : ∀ t h, s.history t = some h → ∀ r ∈ h.runs, h.RunOk r
  oneShot : ∀ t h, s.history t = some h → h.period ≤ 0 →
    (s.Queued t → h.runs = []) ∧
      (¬ s.Queued t → h.runs.length ≤ 1 ∧ (h.cancelled = true ∨ h.runs ≠ []))
  returned : ∀ ret, s.control = .returned ret →
    (∀ t k, s.Queued t → s.task t = some k → s.clock < k.nextTriggerTime) ∧ s.Earliest ret

section Invariant

variable {s s' : TimerState} {t : ℕ} {k : TimerTask}

theorem TimerInv.task_of_queued (h : TimerInv s) (hq : s.Queued t) : ∃ k, s.task t = some k := by
  obtain ⟨i, hi⟩ := hq
  have hpos := h.valid.placed.pos hi
  obtain ⟨u, task, hu, htask, -⟩ := h.valid.placed.slot i hpos.1 hpos.2
  obtain rfl := Option.some.inj (hu.symm.trans hi)
  exact ⟨_, (congrArg (Option.map TimerTask.unplaced) htask)⟩

/-- The first task. -/
theorem TimerInv.getMin (h : TimerInv s) (hne : s.timer.queue.isEmpty = false) :
    ∃ t k, s.timer.queue.getMin = some t ∧ s.Queued t ∧ s.task t = some k ∧
      ∀ u k', s.Queued u → s.task u = some k' → k.nextTriggerTime ≤ k'.nextTriggerTime := by
  have hsize : s.timer.queue.size ≠ 0 := of_decide_eq_false hne
  obtain ⟨t, task, ht, htask, -⟩ := h.valid.placed.slot 1 le_rfl (by omega)
  refine ⟨t, task.unplaced, ht, ⟨1, ht⟩, congrArg (Option.map TimerTask.unplaced) htask,
    fun u k' hu hk' => ?_⟩
  obtain ⟨task', htask', rfl⟩ := exists_of_task hk'
  have hle : task.nextTriggerTime ≤ task'.nextTriggerTime :=
    h.valid.getMin_le ht htask hu htask'
  exact hle

theorem TimerInv.firesAsScheduled (h : TimerInv s) : FiresAsScheduled s := by
  have hqueued : ∀ ret, s.control = .returned ret → ∀ t k, s.task t = some k → s.Queued t := by
    intro ret hret t k hk
    obtain ⟨r, -, htr⟩ := h.tracked t k hk
    rcases htr.placed with ⟨hq, -⟩ | ⟨-, hrun, -⟩
    · exact hq
    · cases hret.symm.trans hrun
  constructor
  · exact h.alive
  · exact h.runs
  · intro t r hr hperiod
    obtain ⟨hin, hout⟩ := h.oneShot t r hr hperiod
    by_cases hq : s.Queued t
    · rw [hin hq]
      exact Nat.zero_le 1
    · exact (hout hq).1
  · intro ret hret t
    constructor
    · intro hq
      obtain ⟨k, hk⟩ := h.task_of_queued hq
      obtain ⟨r, -, htr⟩ := h.tracked t k hk
      exact ⟨k, hk, htr.table⟩
    · rintro ⟨k, hk, -⟩
      exact hqueued ret hret t k hk
  · exact h.table
  · intro ret hret t r hr hperiod hcancelled
    obtain ⟨hin, hout⟩ := h.oneShot t r hr hperiod
    by_cases hq : s.Queued t
    · right
      obtain ⟨k, hk⟩ := h.task_of_queued hq
      obtain ⟨r', hr', htr⟩ := h.tracked t k hk
      obtain rfl := Option.some.inj (hr.symm.trans hr')
      exact ⟨hin hq, hq, k, hk, htr.due, (h.returned ret hret).1 t k hq hk⟩
    · left
      obtain ⟨hlen, hran⟩ := hout hq
      have hne : r.runs ≠ [] := hran.resolve_left (by simp [hcancelled])
      have hpos := List.length_pos_iff.mpr hne
      exact ⟨by omega, hq⟩
  · exact fun ret hret => (h.returned ret hret).2

theorem timerInv_start : TimerInv TimerState.start := by
  refine ⟨nofun, .empty, fun _ _ => ⟨rfl, rfl⟩, fun t k hk => ?_, nofun, nofun, nofun, nofun, nofun⟩
  cases hk

/-! ### What changes an invariant -/

theorem Tracked.congr {r : TaskHistory} (h : Tracked s t k r)
    (htable : s'.timer.table k.id = some t) (hqueued : s'.Queued t ↔ s.Queued t)
    (hrunning : s'.control = .running (some t) ↔ s.control = .running (some t)) :
    Tracked s' t k r := by
  refine ⟨h.period, h.unit, h.due, h.cancelled, htable, h.runner, ?_⟩
  rw [hqueued, hrunning]
  exact h.placed

/-- A step that does nothing to the tasks. -/
theorem TimerInv.congr (h : TimerInv s) (hqueue : s'.timer.queue = s.timer.queue)
    (htable : s'.timer.table = s.timer.table) (hnext : s'.next = s.next)
    (hhistory : s'.history = s.history) (halive : s'.control ≠ .crashed)
    (hrunning : ∀ t, s'.control = .running (some t) ↔ s.control = .running (some t))
    (hreturned : ∀ ret, s'.control = .returned ret →
      (∀ t k, s'.Queued t → s'.task t = some k → s'.clock < k.nextTriggerTime) ∧ s'.Earliest ret) :
    TimerInv s' := by
  have htask : s'.task = s.task := by
    unfold TimerState.task Timer.task
    rw [hqueue]
  have hqueued : ∀ t, s'.Queued t ↔ s.Queued t := by
    intro t
    unfold TimerState.Queued Timer.Queued
    rw [hqueue]
  constructor
  · exact halive
  · rw [hqueue]
    exact h.valid
  · rw [hnext, htask, hhistory]
    exact h.fresh
  · intro t k hk
    rw [htask] at hk
    obtain ⟨r, hr, htr⟩ := h.tracked t k hk
    rw [hhistory]
    exact ⟨r, hr, htr.congr (htable ▸ htr.table) (hqueued t) (hrunning t)⟩
  · rw [htable, htask]
    exact h.table
  · intro t hrun
    rw [hqueued, htask]
    exact h.running t ((hrunning t).mp hrun)
  · rw [hhistory]
    exact h.runs
  · intro t r hr
    rw [hhistory] at hr
    rw [hqueued]
    exact h.oneShot t r hr
  · exact hreturned

/-- A step that changes one task. -/
theorem TimerInv.update {k' : TimerTask} {r' : TaskHistory} (h : TimerInv s)
    (hk : s.task t = some k) (hid : k'.id = k.id) (hvalid : s'.timer.queue.Valid)
    (htable : s'.timer.table = s.timer.table) (hnext : s'.next = s.next)
    (htask : s'.task = Function.update s.task t (some k'))
    (hhistory : s'.history = Function.update s.history t (some r'))
    (hqueued : ∀ u, u ≠ t → (s'.Queued u ↔ s.Queued u)) (halive : s'.control ≠ .crashed)
    (hrunning : ∀ u, u ≠ t → (s'.control = .running (some u) ↔ s.control = .running (some u)))
    (htracked : Tracked s' t k' r') (hrun : s'.control = .running (some t) → ¬ s'.Queued t)
    (hruns : ∀ x ∈ r'.runs, r'.RunOk x)
    (honeShot : r'.period ≤ 0 → (s'.Queued t → r'.runs = []) ∧
      (¬ s'.Queued t → r'.runs.length ≤ 1 ∧ (r'.cancelled = true ∨ r'.runs ≠ [])))
    (hreturned : ∀ ret, s'.control ≠ .returned ret) : TimerInv s' := by
  have htaskt : s'.task t = some k' := by rw [htask, Function.update_self]
  have htasku : ∀ u, u ≠ t → s'.task u = s.task u := fun u hu => by
    rw [htask, Function.update_of_ne hu]
  have hhistt : s'.history t = some r' := by rw [hhistory, Function.update_self]
  have hhistu : ∀ u, u ≠ t → s'.history u = s.history u := fun u hu => by
    rw [hhistory, Function.update_of_ne hu]
  constructor
  · exact halive
  · exact hvalid
  · intro u hu
    have hut : u ≠ t := by
      rintro rfl
      cases hk.symm.trans (h.fresh u (hnext ▸ hu)).1
    rw [htasku u hut, hhistu u hut]
    exact h.fresh u (hnext ▸ hu)
  · intro u k'' hk''
    by_cases hut : u = t
    · subst hut
      obtain rfl := Option.some.inj (htaskt.symm.trans hk'')
      exact ⟨r', hhistt, htracked⟩
    · rw [htasku u hut] at hk''
      obtain ⟨x, hx, htr⟩ := h.tracked u k'' hk''
      rw [hhistu u hut]
      exact ⟨x, hx, htr.congr (htable ▸ htr.table) (hqueued u hut) (hrunning u hut)⟩
  · intro id u hu
    rw [htable] at hu
    obtain ⟨k'', hk'', rfl⟩ := h.table id u hu
    by_cases hut : u = t
    · subst hut
      obtain rfl := Option.some.inj (hk.symm.trans hk'')
      exact ⟨k', htaskt, hid⟩
    · exact ⟨k'', (htasku u hut).trans hk'', rfl⟩
  · intro u hu
    by_cases hut : u = t
    · subst hut
      exact ⟨hrun hu, k', htaskt⟩
    · rw [hqueued u hut, htasku u hut]
      exact h.running u ((hrunning u hut).mp hu)
  · intro u x hx
    by_cases hut : u = t
    · subst hut
      obtain rfl := Option.some.inj (hhistt.symm.trans hx)
      exact hruns
    · rw [hhistu u hut] at hx
      exact h.runs u x hx
  · intro u x hx
    by_cases hut : u = t
    · subst hut
      obtain rfl := Option.some.inj (hhistt.symm.trans hx)
      exact honeShot
    · rw [hhistu u hut] at hx
      rw [hqueued u hut]
      exact h.oneShot u x hx
  · exact fun ret hret => absurd hret (hreturned ret)

/-- A step that terminates a task. -/
theorem TimerInv.terminate (h : TimerInv s) (hk : s.task t = some k)
    (hvalid : s'.timer.queue.Valid)
    (htable : s'.timer.table = Function.update s.timer.table k.id none) (hnext : s'.next = s.next)
    (htask : s'.task = Function.update s.task t none) (hhistory : s'.history = s.history)
    (hqueued : ∀ u, s'.Queued u ↔ s.Queued u ∧ u ≠ t) (hcontrol : s'.control = .loop)
    (hrunning : ∀ u, u ≠ t → s.control ≠ .running (some u))
    (honeShot : ∀ r, s.history t = some r → r.period ≤ 0 →
      r.runs.length ≤ 1 ∧ (r.cancelled = true ∨ r.runs ≠ [])) : TimerInv s' := by
  have htasku : ∀ u, u ≠ t → s'.task u = s.task u := fun u hu => by
    rw [htask, Function.update_of_ne hu]
  have hqueuedu : ∀ u, u ≠ t → (s'.Queued u ↔ s.Queued u) := fun u hu =>
    (hqueued u).trans (and_iff_left hu)
  obtain ⟨r, hr, htr⟩ := h.tracked t k hk
  have hne : ∀ u k', u ≠ t → s.task u = some k' → k'.id ≠ k.id := by
    intro u k' hut hk' hid
    obtain ⟨_, _, htr'⟩ := h.tracked u k' hk'
    exact hut (Option.some.inj (htr'.table.symm.trans (hid ▸ htr.table)))
  constructor
  · rw [hcontrol]
    exact nofun
  · exact hvalid
  · intro u hu
    have hut : u ≠ t := by
      rintro rfl
      cases hk.symm.trans (h.fresh u (hnext ▸ hu)).1
    rw [htasku u hut, hhistory]
    exact h.fresh u (hnext ▸ hu)
  · intro u k' hk'
    have hut : u ≠ t := by
      rintro rfl
      rw [htask, Function.update_self] at hk'
      cases hk'
    rw [htasku u hut] at hk'
    obtain ⟨x, hx, htr'⟩ := h.tracked u k' hk'
    refine ⟨x, hhistory ▸ hx, htr'.congr ?_ (hqueuedu u hut) ?_⟩
    · rw [htable, Function.update_of_ne (hne u k' hut hk')]
      exact htr'.table
    · rw [hcontrol]
      exact iff_of_false nofun (hrunning u hut)
  · intro id u hu
    rw [htable] at hu
    have hid : id ≠ k.id := by
      rintro rfl
      rw [Function.update_self] at hu
      cases hu
    rw [Function.update_of_ne hid] at hu
    obtain ⟨k', hk', rfl⟩ := h.table id u hu
    have hut : u ≠ t := by
      rintro rfl
      obtain rfl := Option.some.inj (hk.symm.trans hk')
      exact hid rfl
    exact ⟨k', (htasku u hut).trans hk', rfl⟩
  · rw [hcontrol]
    exact nofun
  · rw [hhistory]
    exact h.runs
  · intro u x hx hperiod
    rw [hhistory] at hx
    by_cases hut : u = t
    · subst hut
      refine ⟨fun hq => absurd rfl ((hqueued u).mp hq).2, fun _ => honeShot x hx hperiod⟩
    · rw [hqueuedu u hut]
      exact h.oneShot u x hx hperiod
  · rw [hcontrol]
    exact nofun

/-- A step that allocates a task. -/
theorem TimerInv.allocate {k : TimerTask} {r : TaskHistory} (h : TimerInv s)
    (hvalid : s'.timer.queue.Valid) (hid : s.timer.table k.id = none)
    (htable : s'.timer.table = Function.update s.timer.table k.id (some s.next))
    (hnext : s'.next = s.next + 1) (htask : s'.task = Function.update s.task s.next (some k))
    (hhistory : s'.history = Function.update s.history s.next (some r))
    (hqueued : ∀ u, s'.Queued u ↔ s.Queued u ∨ u = s.next) (halive : s'.control ≠ .crashed)
    (hrunning : ∀ u, s'.control = .running (some u) ↔ s.control = .running (some u))
    (htracked : Tracked s' s.next k r) (hruns : r.runs = [])
    (hreturned : ∀ ret, s'.control ≠ .returned ret) : TimerInv s' := by
  have htaskt : s'.task s.next = some k := by rw [htask, Function.update_self]
  have hhistt : s'.history s.next = some r := by rw [hhistory, Function.update_self]
  have htasku : ∀ u, u ≠ s.next → s'.task u = s.task u := fun u hu => by
    rw [htask, Function.update_of_ne hu]
  have hhistu : ∀ u, u ≠ s.next → s'.history u = s.history u := fun u hu => by
    rw [hhistory, Function.update_of_ne hu]
  have hqueuedu : ∀ u, u ≠ s.next → (s'.Queued u ↔ s.Queued u) := fun u hu =>
    (hqueued u).trans (or_iff_left hu)
  have hfree : ∀ u, s.task u ≠ none → u ≠ s.next := by
    rintro u hu rfl
    exact hu (h.fresh s.next le_rfl).1
  constructor
  · exact halive
  · exact hvalid
  · intro u hu
    have hun : u ≠ s.next := by omega
    rw [htasku u hun, hhistu u hun]
    exact h.fresh u (by omega)
  · intro u k' hk'
    by_cases hun : u = s.next
    · subst hun
      obtain rfl := Option.some.inj (htaskt.symm.trans hk')
      exact ⟨r, hhistt, htracked⟩
    · rw [htasku u hun] at hk'
      obtain ⟨x, hx, htr⟩ := h.tracked u k' hk'
      refine ⟨x, (hhistu u hun).trans hx, htr.congr ?_ (hqueuedu u hun) (hrunning u)⟩
      have hne : k'.id ≠ k.id := by
        intro hid'
        rw [← hid', htr.table] at hid
        cases hid
      rw [htable, Function.update_of_ne hne]
      exact htr.table
  · intro id u hu
    rw [htable] at hu
    by_cases hidk : id = k.id
    · subst hidk
      rw [Function.update_self] at hu
      obtain rfl := Option.some.inj hu
      exact ⟨k, htaskt, rfl⟩
    · rw [Function.update_of_ne hidk] at hu
      obtain ⟨k', hk', rfl⟩ := h.table id u hu
      exact ⟨k', (htasku u (hfree u (by simp [hk']))).trans hk', rfl⟩
  · intro u hu
    obtain ⟨hnot, k', hk'⟩ := h.running u ((hrunning u).mp hu)
    have hun := hfree u (by simp [hk'])
    rw [hqueuedu u hun, htasku u hun]
    exact ⟨hnot, k', hk'⟩
  · intro u x hx
    by_cases hun : u = s.next
    · subst hun
      obtain rfl := Option.some.inj (hhistt.symm.trans hx)
      rw [hruns]
      exact nofun
    · rw [hhistu u hun] at hx
      exact h.runs u x hx
  · intro u x hx hperiod
    by_cases hun : u = s.next
    · subst hun
      obtain rfl := Option.some.inj (hhistt.symm.trans hx)
      exact ⟨fun _ => hruns, fun hnot => absurd ((hqueued _).mpr (.inr rfl)) hnot⟩
    · rw [hhistu u hun] at hx
      rw [hqueuedu u hun]
      exact h.oneShot u x hx hperiod
  · exact fun ret hret => absurd hret (hreturned ret)

/-! ### Calls -/

theorem updateHistory_eq {r : TaskHistory} (hr : s.history t = some r)
    (f : TaskHistory → TaskHistory) :
    s.updateHistory t f = Function.update s.history t (some (f r)) := by
  rw [TimerState.updateHistory, hr, Option.map_some]

variable {control : TimerControl}

/-- A call leaves the thread where it was, outside of the loop of `Routine`. -/
theorem afterCall_spec (h : TimerState.afterCall s.control = some control) :
    control ≠ .crashed ∧ (∀ ret, control ≠ .returned ret) ∧
      ∀ t, control = .running (some t) ↔ s.control = .running (some t) := by
  cases hc : s.control with
  | idle | returned =>
    rw [hc] at h
    obtain rfl := Option.some.inj h
    exact ⟨nofun, nofun, fun t => iff_of_false nofun nofun⟩
  | running oneShot =>
    rw [hc] at h
    obtain rfl := Option.some.inj h
    exact ⟨nofun, nofun, fun t => Iff.rfl⟩
  | loop | crashed =>
    rw [hc] at h
    cases h

theorem schedule_inv (h : TimerInv s) (hcontrol : TimerState.afterCall s.control = some control)
    {now : ℕ} {runner : Option ℕ} {delay : ℤ} (period : ℤ) {unit : TimeUnit}
    (hrunner : runner ≠ none) (hfits : TimeFits now delay unit) :
    TimerInv (s.schedule control now runner delay period unit) := by
  obtain ⟨halive, hreturned, hrunning⟩ := afterCall_spec hcontrol
  have hfree := (h.fresh s.next le_rfl).1
  rcases @schedule_spec _ _ now h.valid hfree runner delay period unit with
    hrun | ⟨tm', hrun, hvalid, hid, htable, hqueued, htask⟩
  · have hs' : s.schedule control now runner delay period unit =
        { s with timer := s.timer.generateTimerTaskID.2, control, clock := now } := by
      rw [TimerState.schedule, hrun]
      rfl
    rw [hs']
    exact h.congr rfl rfl rfl rfl halive hrunning fun ret hret => absurd hret (hreturned ret)
  · have hs' : s.schedule control now runner delay period unit =
        { timer := tm', control, clock := now, next := s.next + 1
          history := Function.update s.history s.next
            (some ⟨period, unit, now + millis delay unit, false, []⟩) } := by
      rw [TimerState.schedule, hrun]
      rfl
    rw [hs']
    refine h.allocate hvalid hid htable rfl htask rfl hqueued halive hrunning ?_ rfl hreturned
    refine ⟨rfl, rfl, hfits, iff_of_false nofun nofun, ?_, hrunner, .inl ⟨?_, .inl rfl⟩⟩
    · rw [htable]
      exact Function.update_self _ _ _
    · exact (hqueued _).mpr (.inr rfl)

theorem cancel_inv (h : TimerInv s) (hcontrol : TimerState.afterCall s.control = some control)
    (id : ℕ) : TimerInv (s.cancel control id) := by
  obtain ⟨halive, hreturned, hrunning⟩ := afterCall_spec hcontrol
  cases hid : s.timer.table id with
  | none =>
    have hs' : s.cancel control id = { s with control } := by
      unfold TimerState.cancel Timer.cancel
      rw [hid]
      rfl
    rw [hs']
    exact h.congr rfl rfl rfl rfl halive hrunning fun ret hret => absurd hret (hreturned ret)
  | some t =>
    obtain ⟨k, hk, rfl⟩ := h.table id t hid
    obtain ⟨r, hr, htr⟩ := h.tracked t k hk
    obtain ⟨tm', hrun, hvalid, htable, hqueued, htask⟩ := cancel_spec h.valid hid hk
    have hs' : s.cancel control k.id = { s with
        timer := tm', control
        history := Function.update s.history t (some { r with cancelled := true }) } := by
      rw [TimerState.cancel, hrun, hid]
      exact congrArg (fun history => { s with timer := tm', control, history })
        (updateHistory_eq hr _)
    rw [hs']
    refine h.update hk ?_ hvalid htable rfl htask rfl (fun u _ => hqueued u) halive
      (fun u _ => hrunning u) ?_ (fun hrun => ?_) (h.runs t r hr) ?_ hreturned
    · rfl
    · refine ⟨htr.period, htr.unit, htr.due, iff_of_true rfl rfl, ?_, htr.runner, ?_⟩
      · rw [htable]
        exact htr.table
      · rcases htr.placed with ⟨hq, -⟩ | ⟨hq, hrun, -⟩
        · exact .inl ⟨(hqueued t).mpr hq, .inr rfl⟩
        · exact .inr ⟨fun hq' => hq ((hqueued t).mp hq'), (hrunning t).mpr hrun, nofun⟩
    · exact fun hq => (h.running t ((hrunning t).mp hrun)).1 ((hqueued t).mp hq)
    · intro hperiod
      obtain ⟨hin, hout⟩ := h.oneShot t r hr hperiod
      exact ⟨fun hq => hin ((hqueued t).mp hq),
        fun hq => ⟨(hout fun hq' => hq ((hqueued t).mpr hq')).1, .inl rfl⟩⟩

theorem adjust_inv (h : TimerInv s) (hcontrol : TimerState.afterCall s.control = some control)
    {id : ℕ} {value : ℤ} {unit : TimeUnit} (hok : TimerStepOk s (.adjust id value unit)) :
    TimerInv (s.adjust control id value unit) := by
  obtain ⟨halive, hreturned, hrunning⟩ := afterCall_spec hcontrol
  cases hid : s.timer.table id with
  | none =>
    have hs' : s.adjust control id value unit = { s with control } := by
      unfold TimerState.adjust Timer.adjustNextTriggerTime
      rw [hid]
      rfl
    rw [hs']
    exact h.congr rfl rfl rfl rfl halive hrunning fun ret hret => absurd hret (hreturned ret)
  | some t =>
    obtain ⟨k, hk, rfl⟩ := h.table id t hid
    obtain ⟨r, hr, htr⟩ := h.tracked t k hk
    obtain ⟨hnot, hfits⟩ := hok t k hid hk
    -- the task that runs and is not periodic is the only one out of the queue
    have hq : s.Queued t ∧ (k.state = .scheduled ∨ k.state = .cancelled) :=
      htr.placed.resolve_right fun hout => hnot hout.2.1
    obtain ⟨tm', hrun, hvalid, htable, hqueued, htask⟩ :=
      adjust_spec h.valid hid hk hq.1 value unit
    have hs' : s.adjust control k.id value unit = { s with
        timer := tm', control
        history := Function.update s.history t (some { r with
          due := if 0 < value then r.due + millis value.natAbs unit
            else r.due - millis value.natAbs unit }) } := by
      rw [TimerState.adjust, hrun, hid]
      exact congrArg (fun history => { s with timer := tm', control, history })
        (updateHistory_eq hr _)
    rw [hs']
    refine h.update hk ?_ hvalid htable rfl htask rfl (fun u _ => hqueued u) halive
      (fun u _ => hrunning u) ?_ (fun hrun => ?_) (h.runs t r hr) ?_ hreturned
    · rfl
    · refine ⟨htr.period, htr.unit, ?_, htr.cancelled, ?_, htr.runner, ?_⟩
      · rw [← htr.due]
        exact hfits
      · rw [htable]
        exact htr.table
      · exact .inl ⟨(hqueued t).mpr hq.1, hq.2⟩
    · exact absurd ((hrunning t).mp hrun) hnot
    · intro hperiod
      obtain ⟨hin, hout⟩ := h.oneShot t r hr hperiod
      exact ⟨fun hq => hin ((hqueued t).mp hq), fun hq => hout fun hq' => hq ((hqueued t).mpr hq')⟩

/-! ### Iterations of `Routine` -/

variable {now now' : ℕ}

/-- What the history says of a task that is in the queue. -/
theorem requeued_of_queued {tm : Timer} (hv : tm.queue.Valid) (hq : tm.Queued t)
    (hk : tm.task t = some k) :
    (if tm.queue.queue (((tm.queue.memory t).map TimerTask.queueIndex).getD 0) = some t then
      (tm.queue.memory t).map TimerTask.nextTriggerTime else none) = some k.nextTriggerTime := by
  obtain ⟨task, htask, rfl⟩ := exists_of_task hk
  obtain ⟨i, hi⟩ := hq
  have hpos := hv.placed.pos hi
  obtain ⟨u, task', hu, htask', rfl⟩ := hv.placed.slot i hpos.1 hpos.2
  obtain rfl := Option.some.inj (hu.symm.trans hi)
  obtain rfl := Option.some.inj (htask.symm.trans htask')
  rw [htask, Option.map_some, Option.getD_some, if_pos hi]
  rfl

theorem not_running_of_loop (hloop : s.control = .loop) (u : ℕ) :
    s.control ≠ .running (some u) := by
  rw [hloop]
  exact nofun

/-- Nothing is left. -/
theorem turn_empty_inv (h : TimerInv s) (hloop : s.control = .loop)
    (hempty : s.timer.queue.isEmpty = true) : TimerInv (s.turn now now') := by
  have hturn : s.timer.turn now now' = some (.returns (-1), s.timer) := by
    rw [Timer.turn, if_pos hempty]
  have hs' : s.turn now now' = { s with control := .returned (-1) } := by
    rw [TimerState.turn, hturn]
    exact congrArg (fun clock => { s with control := .returned (-1), clock }) (if_pos hempty)
  have hnone : ∀ t, ¬ s.Queued t := by
    rintro t ⟨i, hi⟩
    have hpos := h.valid.placed.pos hi
    have hsize : s.timer.queue.size = 0 := of_decide_eq_true hempty
    omega
  rw [hs']
  refine h.congr rfl rfl rfl rfl (fun h => by cases h)
    (fun t => iff_of_false (fun h => by cases h) (not_running_of_loop hloop t)) fun ret hret => ⟨?_, ?_⟩
  · exact fun t k hq _ => absurd hq (hnone t)
  · cases hret
    exact .inl ⟨hnone, rfl⟩

/-- The first task is not due. -/
theorem turn_returns_inv (h : TimerInv s) (hloop : s.control = .loop)
    (hmin : s.timer.queue.getMin = some t) (hq : s.Queued t) (hk : s.task t = some k)
    (hfirst : ∀ u k', s.Queued u → s.task u = some k' → k.nextTriggerTime ≤ k'.nextTriggerTime)
    (hdue : now < k.nextTriggerTime) (hfits : k.nextTriggerTime - now < 2 ^ 63) :
    TimerInv (s.turn now now') := by
  have hret : int64 (k.nextTriggerTime - now) = k.nextTriggerTime - now := by
    rw [int64, if_pos hfits]
    omega
  have hs' : s.turn now now' = { s with
      control := .returned (k.nextTriggerTime - now), clock := now } := by
    rw [TimerState.turn, turn_returns h.valid hmin hk hdue, ← hret]
    have hne : ¬ s.timer.queue.isEmpty = true := by
      rw [not_isEmpty h.valid hmin]
      exact Bool.false_ne_true
    exact congrArg (fun clock => { s with
      control := .returned (int64 (k.nextTriggerTime - now)), clock }) (if_neg hne)
  rw [hs']
  refine h.congr rfl rfl rfl rfl nofun
    (fun t => iff_of_false nofun (not_running_of_loop hloop t)) fun ret hret => ⟨?_, ?_⟩
  · exact fun u k' hu hk' => hdue.trans_le (hfirst u k' hu hk')
  · cases hret
    exact .inr ⟨t, k, hq, hk, hfirst, rfl⟩

/-- A periodic task is in the queue for its next run before it runs. -/
theorem turn_periodic_inv (h : TimerInv s) (hloop : s.control = .loop) (hclock : now ≤ now')
    (hmin : s.timer.queue.getMin = some t) (hq : s.Queued t) (hk : s.task t = some k)
    (hdue : k.nextTriggerTime ≤ now) (hstate : k.state = .scheduled) (hperiod : 0 < k.period)
    (hfits : TimeFits now' k.period k.unit) : TimerInv (s.turn now now') := by
  obtain ⟨r, hr, htr⟩ := h.tracked t k hk
  obtain ⟨tm', hrun, hvalid, htable, hqueued, htask⟩ :=
    @turn_periodic _ _ _ now' _ h.valid hmin hk hdue htr.runner hstate hperiod
  have hq' : tm'.Queued t := (hqueued t).mpr hq
  have hk' : tm'.task t = some { k with nextTriggerTime := after now' k.period k.unit } := by
    rw [htask, Function.update_self]
  have hfits' : (after now' k.period k.unit : ℤ) = now' + millis r.period r.unit := by
    rw [← htr.period, ← htr.unit]
    exact hfits
  have hnot : r.cancelled = false := by
    rw [← Bool.not_eq_true, ← htr.cancelled, hstate]
    exact nofun
  set r' : TaskHistory := { r with
    due := now' + millis r.period r.unit
    runs := r.runs ++ [⟨r.due, now', some (after now' k.period k.unit), r.cancelled⟩] } with hr'
  have hs' : s.turn now now' = { s with
      timer := tm', control := .running none, clock := now'
      history := Function.update s.history t (some r') } := by
    rw [TimerState.turn, hrun]
    refine congrArg (fun history => { s with
      timer := tm', control := .running none, clock := now', history }) ?_
    refine (updateHistory_eq hr _).trans ?_
    rw [hr']
    exact congrArg (fun requeued => Function.update s.history t (some { r with
      due := now' + millis r.period r.unit
      runs := r.runs ++ [⟨r.due, now', requeued, r.cancelled⟩] }))
      (requeued_of_queued hvalid hq' hk')
  rw [hs']
  refine h.update hk ?_ hvalid htable rfl htask rfl (fun u _ => hqueued u) nofun
    (fun u _ => iff_of_false nofun (not_running_of_loop hloop u)) ?_ nofun ?_ ?_ nofun
  · rfl
  · refine ⟨htr.period, htr.unit, hfits', htr.cancelled, ?_, htr.runner, .inl ⟨hq', .inl hstate⟩⟩
    rw [htable]
    exact htr.table
  · intro x hx
    rcases List.mem_append.mp hx with hx | hx
    · exact h.runs t r hr x hx
    · obtain rfl := List.mem_singleton.mp hx
      have hle : r.due ≤ now' := by
        rw [← htr.due]
        exact_mod_cast hdue.trans hclock
      exact ⟨hle, hnot, fun _ => ⟨_, rfl, hfits'⟩⟩
  · intro hneg
    have hpos : 0 < r.period := htr.period ▸ hperiod
    exact absurd hneg (Int.not_le.mpr hpos)

/-- Any other task is out of the queue while it runs. -/
theorem turn_oneShot_inv (h : TimerInv s) (hloop : s.control = .loop)
    (hmin : s.timer.queue.getMin = some t) (hq : s.Queued t) (hk : s.task t = some k)
    (hdue : k.nextTriggerTime ≤ now) (hstate : k.state = .scheduled) (hperiod : k.period ≤ 0) :
    TimerInv (s.turn now now') := by
  obtain ⟨r, hr, htr⟩ := h.tracked t k hk
  obtain ⟨tm', hrun, hvalid, htable, hqueued, htask⟩ :=
    @turn_oneShot _ _ _ now' _ h.valid hmin hk hdue htr.runner hstate hperiod
  have hq' : ¬ tm'.Queued t := fun hq' => ((hqueued t).mp hq').2 rfl
  have hnot : r.cancelled = false := by
    rw [← Bool.not_eq_true, ← htr.cancelled, hstate]
    exact nofun
  have hperiod' : r.period ≤ 0 := htr.period ▸ hperiod
  have hnil : r.runs = [] := (h.oneShot t r hr hperiod').1 hq
  obtain ⟨requeued, hs'⟩ : ∃ requeued, s.turn now now' = { s with
      timer := tm', control := .running (some t), clock := now
      history := Function.update s.history t
        (some { r with runs := r.runs ++ [⟨r.due, now, requeued, r.cancelled⟩] }) } := by
    refine ⟨if tm'.queue.queue (((tm'.queue.memory t).map TimerTask.queueIndex).getD 0) = some t
      then (tm'.queue.memory t).map TimerTask.nextTriggerTime else none, ?_⟩
    rw [TimerState.turn, hrun]
    exact congrArg (fun history => { s with
      timer := tm', control := .running (some t), clock := now, history }) (updateHistory_eq hr _)
  rw [hs', hnil]
  refine h.update hk ?_ hvalid htable rfl htask rfl
    (fun u hu => (hqueued u).trans (and_iff_left hu)) nofun
    (fun u hu => iff_of_false ?_ (not_running_of_loop hloop u)) ?_ (fun _ => hq') ?_ ?_ nofun
  · rfl
  · intro hrun
    cases hrun
    exact hu rfl
  · refine ⟨htr.period, htr.unit, htr.due, iff_of_false nofun ?_, ?_, htr.runner,
      .inr ⟨hq', rfl, nofun⟩⟩
    · simp [hnot]
    · rw [htable]
      exact htr.table
  · intro x hx
    obtain rfl := List.mem_singleton.mp hx
    have hle : r.due ≤ now := by
      rw [← htr.due]
      exact_mod_cast hdue
    exact ⟨hle, hnot, fun hpos => absurd hperiod' (Int.not_le.mpr hpos)⟩
  · exact fun _ => ⟨fun hq => absurd hq hq', fun _ => ⟨le_rfl, .inr (List.cons_ne_nil _ _)⟩⟩

/-- A task that has been cancelled is terminated when it is due. -/
theorem turn_cancelled_inv (h : TimerInv s) (hloop : s.control = .loop)
    (hmin : s.timer.queue.getMin = some t) (hq : s.Queued t) (hk : s.task t = some k)
    (hdue : k.nextTriggerTime ≤ now) (hstate : k.state = .cancelled) :
    TimerInv (s.turn now now') := by
  obtain ⟨r, hr, htr⟩ := h.tracked t k hk
  obtain ⟨tm', hrun, hvalid, htable, hqueued, htask⟩ :=
    @turn_cancelled _ _ _ now' _ h.valid hmin hk hdue htr.runner (by rw [hstate]; exact nofun)
  have hs' : s.turn now now' = { s with timer := tm', clock := now } := by
    rw [TimerState.turn, hrun]
    rfl
  rw [hs']
  refine h.terminate hk hvalid htable rfl htask rfl hqueued hloop
    (fun u _ => not_running_of_loop hloop u) fun r' hr' hperiod => ?_
  obtain rfl := Option.some.inj (hr.symm.trans hr')
  rw [(h.oneShot t r hr hperiod).1 hq]
  exact ⟨Nat.zero_le 1, .inl (htr.cancelled.mp hstate)⟩

theorem turn_inv (h : TimerInv s) (hloop : s.control = .loop) (hclock : now ≤ now')
    (hok : TimerStepOk s (.turn now now')) : TimerInv (s.turn now now') := by
  cases hempty : s.timer.queue.isEmpty with
  | true => exact turn_empty_inv h hloop hempty
  | false =>
    obtain ⟨t, k, hmin, hq, hk, hfirst⟩ := h.getMin hempty
    obtain ⟨hwait, hperiodic⟩ := hok t k hmin hk
    obtain ⟨r, hr, htr⟩ := h.tracked t k hk
    rcases lt_or_ge now k.nextTriggerTime with hdue | hdue
    · exact turn_returns_inv h hloop hmin hq hk hfirst hdue (hwait hdue)
    · have hstate : k.state = .scheduled ∨ k.state = .cancelled := by
        rcases htr.placed with ⟨-, hstate⟩ | ⟨hnot, -⟩
        · exact hstate
        · exact absurd hq hnot
      rcases hstate with hstate | hstate
      · by_cases hperiod : 0 < k.period
        · exact turn_periodic_inv h hloop hclock hmin hq hk hdue hstate hperiod
            (hperiodic hdue hstate hperiod)
        · exact turn_oneShot_inv h hloop hmin hq hk hdue hstate (by omega)
      · exact turn_cancelled_inv h hloop hmin hq hk hdue hstate

/-- The runner returns. -/
theorem finish_inv {oneShot : Option ℕ} (h : TimerInv s) (hrun : s.control = .running oneShot) :
    TimerInv (s.finish oneShot) := by
  cases oneShot with
  | none =>
    refine h.congr rfl rfl rfl rfl nofun (fun t => iff_of_false nofun ?_) nofun
    rw [hrun]
    exact nofun
  | some t =>
    obtain ⟨hnot, k, hk⟩ := h.running t hrun
    obtain ⟨tm', hterm, hvalid, htable, hqueued, htask⟩ := doTerminated_spec h.valid hk hnot
    have hs' : s.finish (some t) = { s with timer := tm', control := .loop } := by
      exact congrArg (fun o : Option Timer => s.orCrash (o.map fun timer =>
        { s with timer, control := .loop })) hterm
    rw [hs']
    refine h.terminate hk hvalid htable rfl htask rfl (fun u => ?_) rfl (fun u hu hrun' => ?_)
      fun r hr hperiod => (h.oneShot t r hr hperiod).2 hnot
    · refine (hqueued u).trans (and_iff_left_of_imp ?_).symm
      rintro hq rfl
      exact hnot hq
    · cases hrun.symm.trans hrun'
      exact hu rfl

/-! ### Runs -/

/-- **Every step keeps the invariant.** -/
theorem timerInv_step {e : TimerEvent} (h : TimerInv s) (hok : TimerStepOk s e)
    (hstep : timerStep s e = some s') : TimerInv s' := by
  cases e with
  | schedule now runner delay period unit =>
    dsimp only [timerStep] at hstep
    split at hstep
    · obtain ⟨control, hcontrol, rfl⟩ := Option.map_eq_some_iff.mp hstep
      exact schedule_inv h hcontrol period hok.1 hok.2
    · cases hstep
  | cancel id =>
    obtain ⟨control, hcontrol, rfl⟩ := Option.map_eq_some_iff.mp hstep
    exact cancel_inv h hcontrol id
  | adjust id value unit =>
    obtain ⟨control, hcontrol, rfl⟩ := Option.map_eq_some_iff.mp hstep
    exact adjust_inv h hcontrol hok
  | otherTimer =>
    obtain rfl := Option.some.inj hstep
    exact h.congr rfl rfl rfl rfl h.alive (fun t => Iff.rfl) h.returned
  | routine =>
    dsimp only [timerStep] at hstep
    split at hstep
    · rename_i hc
      obtain rfl := Option.some.inj hstep
      refine h.congr rfl rfl rfl rfl nofun (fun t => iff_of_false nofun ?_) nofun
      rw [hc]
      exact nofun
    · rename_i hc
      obtain rfl := Option.some.inj hstep
      refine h.congr rfl rfl rfl rfl nofun (fun t => iff_of_false nofun ?_) nofun
      rw [hc]
      exact nofun
    · cases hstep
  | turn now now' =>
    dsimp only [timerStep] at hstep
    split at hstep
    · rename_i hloop
      split at hstep
      · rename_i hclock
        obtain rfl := Option.some.inj hstep
        exact turn_inv h hloop hclock.2 hok
      · cases hstep
    · cases hstep
  | finish =>
    dsimp only [timerStep] at hstep
    split at hstep
    · rename_i oneShot hrun
      obtain rfl := Option.some.inj hstep
      exact finish_inv h hrun
    · cases hstep

end Invariant

section

theorem fixUp_one (q : TimerTaskQueue) : q.fixUp 1 = some q := by
  rw [TimerTaskQueue.fixUp, dif_neg (Nat.lt_irrefl 1)]

theorem fixDown_one {q : TimerTaskQueue} (h : q.size ≤ 1) : q.fixDown 1 = some q := by
  rw [TimerTaskQueue.fixDown, TimerTaskQueue.fixDownTo, dif_neg]
  omega

attribute [local simp] Run.steps Run.Along timerStep TimerStepOk TimeFits TimerState.start
  TimerState.afterCall TimerState.orCrash TimerState.schedule TimerState.adjust TimerState.turn
  TimerState.task Timer.task Timer.empty generateTimerTaskID Timer.schedule adjustNextTriggerTime
  Timer.turn after millistime millis uint64 TimerTaskQueue.empty TimerTaskQueue.setTask
  TimerTaskQueue.setIndex TimerTaskQueue.add TimerTaskQueue.removeMin TimerTaskQueue.findTaskIndex
  TimerTaskQueue.rescheduleTask TimerTaskQueue.getMin TimerTaskQueue.isEmpty fixUp_one fixDown_one

end

end Comms
