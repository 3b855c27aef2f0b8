import Mathlib.Data.Int.Notation
import Mathlib.Logic.Function.Basic
import Mathlib.Order.Nat
import Mathlib.Tactic.Set
import Comms.Lib.BinaryHeap

/-!
# The queue of timer tasks

`TimerTaskQueue` keeps the tasks of a timer in a one-based heap, ordered by the time at which they
are due; each task knows its place in it. A task that has been removed keeps the place it had.

* `TimerTaskQueue` — the array and the tasks that are allocated;
* `TimerTaskQueue.fixUp`, `fixDown`, `add`, `removeMin`, .. — the operations, `none` being an access
  to what is not there;
* `TimerTaskQueue.Valid` — the tasks know their places, and the array is a heap;
* `Sifted` — only the places have changed;
* `Valid.add`, `Valid.removeMin`, `Valid.rescheduleMin`, `Valid.rescheduleTask` — what they do.
-/

namespace Comms

open BinaryHeap

/-- `TimerTaskState`. -/
inductive TimerTaskState
  | virgin
  | scheduled
  | executed
  | cancelled
deriving DecidableEq, Repr

/-- `TimeUnit`. -/
inductive TimeUnit
  | nanos
  | micros
  | millis
  | seconds
  | minutes
  | hours
  | days
deriving DecidableEq, Repr

/-- `TimerTask`. A runner is a pointer, and `none` is `NULL`. -/
structure TimerTask where
  id : ℕ
  state : TimerTaskState
  period : ℤ
  unit : TimeUnit
  nextTriggerTime : ℕ
  runner : Option ℕ
  queueIndex : ℕ
deriving DecidableEq, Repr

/-- `TimerTaskQueue`, and the tasks that there are, by their addresses. -/
structure TimerTaskQueue where
  memory : ℕ → Option TimerTask
  queue : ℕ → Option ℕ
  capacity : ℕ
  size : ℕ

namespace TimerTaskQueue

/-! ### Operations -/

/-- The queue of a new timer. -/
def empty : TimerTaskQueue := ⟨fun _ => none, fun _ => none, 128, 0⟩

/-- `m_queue[i]->GetNextTriggerTime()`. -/
def time (q : TimerTaskQueue) (i : ℕ) : Option ℕ :=
  (q.queue i).bind fun t => (q.memory t).map TimerTask.nextTriggerTime

def setTask (q : TimerTaskQueue) (t : ℕ) (task : TimerTask) : TimerTaskQueue :=
  { q with memory := Function.update q.memory t (some task) }

/-- `m_queue[i]->m_queue_index = i`. -/
def setIndex (q : TimerTaskQueue) (i : ℕ) : Option TimerTaskQueue :=
  (q.queue i).bind fun t => (q.memory t).map fun task => q.setTask t { task with queueIndex := i }

/-- The exchange of two tasks in `FixUp` and `FixDown`. -/
def swap (q : TimerTaskQueue) (j k : ℕ) : Option TimerTaskQueue :=
  ({ q with queue := swapped j k q.queue }.setIndex j).bind fun q => q.setIndex k

/-- `FixUp`. -/
def fixUp (q : TimerTaskQueue) (k : ℕ) : Option TimerTaskQueue :=
  if h : k > 1 then
    (q.time (k / 2)).bind fun tj => (q.time k).bind fun tk =>
      if tj ≤ tk then some q else (q.swap (k / 2) k).bind fun q => q.fixUp (k / 2)
  else some q
termination_by k

/-- The child of `k` that `FixDown` compares with it, for a queue of `n` tasks. -/
def smallestKid (q : TimerTaskQueue) (n k : ℕ) : Option Bool :=
  if 2 * k < n then
    (q.time (2 * k)).bind fun tj => (q.time (2 * k + 1)).map fun tj' => decide (tj > tj')
  else some false

/-- The loop of `FixDown`. -/
def fixDownTo (n : ℕ) (q : TimerTaskQueue) (k : ℕ) : Option TimerTaskQueue :=
  if h : 2 * k ≤ n ∧ 0 < k then
    (q.smallestKid n k).bind fun right =>
      (q.time k).bind fun tk => (q.time (2 * k + right.toNat)).bind fun tj =>
        if tk ≤ tj then some q
        else (q.swap (2 * k + right.toNat) k).bind fun q => fixDownTo n q (2 * k + right.toNat)
  else some q
termination_by n - k

/-- `FixDown`. -/
def fixDown (q : TimerTaskQueue) (k : ℕ) : Option TimerTaskQueue := fixDownTo q.size q k

/-- `Add`. -/
def add (q : TimerTaskQueue) (t : ℕ) : Option TimerTaskQueue :=
  let capacity := if q.size + 1 = q.capacity then 2 * q.capacity else q.capacity
  let index := q.size + 1
  ({ q with queue := Function.update q.queue index (some t), capacity, size := index }.setIndex
    index).bind fun q => q.fixUp index

/-- `RemoveMin`. -/
def removeMin (q : TimerTaskQueue) : Option TimerTaskQueue :=
  if q.size = 0 then some q
  else
    ({ q with queue := Function.update q.queue 1 (q.queue q.size) }.setIndex 1).bind fun q =>
      { q with queue := Function.update q.queue q.size none, size := q.size - 1 }.fixDown 1

/-- `RescheduleMin`. -/
def rescheduleMin (q : TimerTaskQueue) (newTime : ℕ) : Option TimerTaskQueue :=
  (q.queue 1).bind fun t => (q.memory t).bind fun task =>
    (q.setTask t { task with nextTriggerTime := newTime }).fixDown 1

/-- `FindTaskIndex`, with `-1` as `none`. The outer `none` is a task that is not there. -/
def findTaskIndex (q : TimerTaskQueue) (t : ℕ) : Option (Option ℕ) :=
  if q.size = 0 then some none
  else
    (q.memory t).map fun task =>
      if 0 < task.queueIndex ∧ q.queue task.queueIndex = some t then some task.queueIndex else none

/-- `RescheduleTask`. -/
def rescheduleTask (q : TimerTaskQueue) (t newTime : ℕ) : Option (Bool × TimerTaskQueue) :=
  (q.findTaskIndex t).bind fun index =>
    match index with
    | none => some (false, q)
    | some index =>
      (q.memory t).bind fun task =>
        let q' := q.setTask t { task with nextTriggerTime := newTime }
        (if newTime > task.nextTriggerTime then q'.fixDown index else q'.fixUp index).map
          fun q' => (true, q')

/-- `GetMin`. -/
def getMin (q : TimerTaskQueue) : Option ℕ := q.queue 1

/-- `IsEmpty`. -/
def isEmpty (q : TimerTaskQueue) : Bool := q.size = 0

/-! ### Places -/

/-- The tasks in the array are there, and know where they are. -/
structure Placed (q : TimerTaskQueue) : Prop where
  slot : ∀ i, 1 ≤ i → i ≤ q.size →
    ∃ t task, q.queue i = some t ∧ q.memory t = some task ∧ task.queueIndex = i
  rest : ∀ i, i = 0 ∨ q.size < i → q.queue i = none

/-- The task is in the array. -/
def Queued (q : TimerTaskQueue) (t : ℕ) : Prop := ∃ i, q.queue i = some t

/-- The time at a place. -/
def key (q : TimerTaskQueue) (i : ℕ) : ℕ := (q.time i).getD 0

/-- The tasks know their places, and none is due before the task above it. -/
structure Valid (q : TimerTaskQueue) : Prop where
  placed : q.Placed
  ordered : Ordered q.key q.size

end TimerTaskQueue

/-- A task wherever it is. -/
def TimerTask.unplaced (task : TimerTask) : TimerTask := { task with queueIndex := 0 }

namespace TimerTaskQueue

/-- Only the places have changed. -/
structure Sifted (q q' : TimerTaskQueue) : Prop where
  size : q'.size = q.size
  queued : ∀ t, q'.Queued t ↔ q.Queued t
  memory : ∀ t, (q'.memory t).map TimerTask.unplaced = (q.memory t).map TimerTask.unplaced

theorem Sifted.refl (q : TimerTaskQueue) : Sifted q q := ⟨rfl, fun _ => Iff.rfl, fun _ => rfl⟩

theorem Sifted.trans {q q' q'' : TimerTaskQueue} (h : Sifted q q') (h' : Sifted q' q'') :
    Sifted q q'' :=
  ⟨h'.size.trans h.size, fun t => (h'.queued t).trans (h.queued t),
    fun t => (h'.memory t).trans (h.memory t)⟩

variable {q : TimerTaskQueue} {i j k t : ℕ}

theorem Placed.pos (h : q.Placed) (hi : q.queue i = some t) : 1 ≤ i ∧ i ≤ q.size := by
  by_contra hout
  rw [h.rest i (by omega)] at hi
  cases hi

/-- A task is at one place. -/
theorem Placed.unique (h : q.Placed) (hi : q.queue i = some t) (hj : q.queue j = some t) :
    i = j := by
  obtain ⟨ti, task, hti, htask, rfl⟩ := h.slot i (h.pos hi).1 (h.pos hi).2
  obtain ⟨tj, task', htj, htask', rfl⟩ := h.slot j (h.pos hj).1 (h.pos hj).2
  obtain rfl := Option.some.inj (hti.symm.trans hi)
  obtain rfl := Option.some.inj (htj.symm.trans hj)
  rw [Option.some.inj (htask.symm.trans htask')]

theorem Placed.time (h : q.Placed) (hpos : 1 ≤ i) (hi : i ≤ q.size) :
    q.time i = some (q.key i) := by
  obtain ⟨t, task, ht, htask, -⟩ := h.slot i hpos hi
  simp [TimerTaskQueue.time, key, ht, htask]

theorem key_of {task : TimerTask} (hi : q.queue i = some t) (ht : q.memory t = some task) :
    q.key i = task.nextTriggerTime := by
  simp [key, TimerTaskQueue.time, hi, ht]

theorem setIndex_eq {task : TimerTask} (hi : q.queue i = some t) (ht : q.memory t = some task) :
    q.setIndex i = some (q.setTask t { task with queueIndex := i }) := by
  simp [setIndex, hi, ht]

/-- The exchange of the tasks at two places. -/
theorem Placed.swap_eq (h : q.Placed) {tj tk : ℕ} {taskj taskk : TimerTask} (hjk : j ≠ k)
    (htj : q.queue j = some tj) (htaskj : q.memory tj = some taskj)
    (htk : q.queue k = some tk) (htaskk : q.memory tk = some taskk) :
    q.swap j k = some { q with
      queue := swapped j k q.queue
      memory := Function.update
        (Function.update q.memory tk (some { taskk with queueIndex := j })) tj
        (some { taskj with queueIndex := k }) } := by
  have hne : tj ≠ tk := fun heq => hjk (h.unique htj (heq ▸ htk))
  have hj : swapped j k q.queue j = some tk := (swapped_left _).trans htk
  have hk : swapped j k q.queue k = some tj := (swapped_right _).trans htj
  simp [swap, setIndex, setTask, hj, hk, htaskk, htaskj, Function.update_of_ne hne]

theorem time_congr {q' : TimerTaskQueue}
    (hmem : ∀ t, (q'.memory t).map TimerTask.unplaced = (q.memory t).map TimerTask.unplaced)
    (hqueue : q'.queue i = q.queue j) : q'.time i = q.time j := by
  have htime : ∀ o : Option TimerTask, o.map TimerTask.nextTriggerTime =
      (o.map TimerTask.unplaced).map TimerTask.nextTriggerTime := by
    intro o
    cases o <;> rfl
  unfold TimerTaskQueue.time
  rw [hqueue]
  refine Option.bind_congr fun t _ => ?_
  rw [htime, hmem, ← htime]

/-- Two tasks are exchanged. -/
theorem Placed.swap (h : q.Placed) (hjk : j ≠ k) (hj : 1 ≤ j) (hjn : j ≤ q.size) (hk : 1 ≤ k)
    (hkn : k ≤ q.size) : ∃ q', q.swap j k = some q' ∧ q'.Placed ∧ Sifted q q' ∧
      q'.key = swapped j k q.key := by
  obtain ⟨tj, taskj, htj, htaskj, hindexj⟩ := h.slot j hj hjn
  obtain ⟨tk, taskk, htk, htaskk, hindexk⟩ := h.slot k hk hkn
  have hne : tj ≠ tk := fun heq => hjk (h.unique htj (heq ▸ htk))
  refine ⟨_, h.swap_eq hjk htj htaskj htk htaskk, ?_⟩
  set q' : TimerTaskQueue := { q with
    queue := swapped j k q.queue
    memory := Function.update (Function.update q.memory tk (some { taskk with queueIndex := j })) tj
      (some { taskj with queueIndex := k }) }
  have hmem : ∀ t, (q'.memory t).map TimerTask.unplaced = (q.memory t).map TimerTask.unplaced := by
    intro t
    by_cases htj' : t = tj
    · subst htj'
      simp [q', htaskj, TimerTask.unplaced]
    · by_cases htk' : t = tk
      · subst htk'
        simp [q', Function.update_of_ne htj', htaskk, TimerTask.unplaced]
      · simp [q', Function.update_of_ne htj', Function.update_of_ne htk']
  have hplaced : q'.Placed := by
    constructor
    · intro i hi hin
      by_cases hij : i = j
      · subst hij
        exact ⟨tk, { taskk with queueIndex := i }, (swapped_left _).trans htk,
          (Function.update_of_ne hne.symm _ _).trans (Function.update_self _ _ _), rfl⟩
      · by_cases hik : i = k
        · subst hik
          exact ⟨tj, { taskj with queueIndex := i }, (swapped_right _).trans htj,
            Function.update_self _ _ _, rfl⟩
        · obtain ⟨t, task, ht, htask, hindex⟩ := h.slot i hi hin
          have htj' : t ≠ tj := fun heq => hij (h.unique ht (heq ▸ htj))
          have htk' : t ≠ tk := fun heq => hik (h.unique ht (heq ▸ htk))
          exact ⟨t, task, (swapped_of_ne hij hik).trans ht, (Function.update_of_ne htj' _ _).trans
            ((Function.update_of_ne htk' _ _).trans htask), hindex⟩
    · intro i hi
      have hin : i = 0 ∨ q.size < i := hi
      exact (swapped_of_ne (by omega) (by omega)).trans (h.rest i hin)
  refine ⟨hplaced, ⟨rfl, fun t => exists_swapped, hmem⟩, funext fun i => ?_⟩
  unfold key swapped
  split
  · rename_i hij
    subst hij
    rw [time_congr hmem (swapped_left _)]
  · split
    · rename_i hik
      subst hik
      rw [time_congr hmem (swapped_right _)]
    · rename_i hij hik
      rw [time_congr hmem (swapped_of_ne hij hik)]

/-! ### Sifting -/

/-- **Sifting up.** -/
theorem Placed.fixUp : ∀ (k : ℕ) {q : TimerTaskQueue}, q.Placed → 1 ≤ k → k ≤ q.size →
    UpTo q.key q.size k → ∃ q', q.fixUp k = some q' ∧ q'.Valid ∧ Sifted q q' := by
  intro k
  induction k using Nat.strongRecOn with
  | ind k ih =>
    intro q hplaced hk hkn hup
    rw [TimerTaskQueue.fixUp]
    split
    · rename_i hgt
      rw [hplaced.time (i := k / 2) (by omega) (by omega), hplaced.time hk hkn]
      simp only [Option.bind_some]
      split
      · rename_i hle
        exact ⟨q, rfl, ⟨hplaced, hup.ordered fun _ => hle⟩, .refl q⟩
      · rename_i hlt
        obtain ⟨q₁, hswap, hplaced₁, hsifted, hkey⟩ := hplaced.swap (j := k / 2) (k := k) (by omega)
          (by omega) (by omega) hk hkn
        rw [hswap, Option.bind_some]
        have hup₁ : UpTo q₁.key q₁.size (k / 2) := by
          rw [hkey, hsifted.size]
          exact hup.swap (by omega) hkn (by omega)
        obtain ⟨q', hrun, hvalid, hsifted'⟩ := ih (k / 2) (by omega) hplaced₁ (by omega)
          (by rw [hsifted.size]; omega) hup₁
        exact ⟨q', hrun, hvalid, hsifted.trans hsifted'⟩
    · exact ⟨q, rfl, ⟨hplaced, hup.ordered fun h2 => by omega⟩, .refl q⟩

/-- The smaller child. -/
theorem Placed.smallestKid (h : q.Placed) (hk : 1 ≤ k) (hkn : 2 * k ≤ q.size) :
    ∃ right, q.smallestKid q.size k = some right ∧ 2 * k + right.toNat ≤ q.size ∧
      ∀ i, i ≤ q.size → i / 2 = k → q.key (2 * k + right.toNat) ≤ q.key i := by
  unfold TimerTaskQueue.smallestKid
  split
  · rename_i hlt
    rw [h.time (i := 2 * k) (by omega) (by omega), h.time (i := 2 * k + 1) (by omega) (by omega)]
    refine ⟨decide (q.key (2 * k) > q.key (2 * k + 1)), rfl, ?_, ?_⟩
    · have := Bool.toNat_le (decide (q.key (2 * k) > q.key (2 * k + 1)))
      omega
    · intro i hi hik
      have hi' : i = 2 * k ∨ i = 2 * k + 1 := by omega
      by_cases hgt : q.key (2 * k) > q.key (2 * k + 1)
      · rcases hi' with rfl | rfl
        · simpa [hgt] using hgt.le
        · simp [hgt]
      · rcases hi' with rfl | rfl
        · simp [hgt]
        · simpa [hgt] using not_lt.mp hgt
  · rename_i hge
    refine ⟨false, rfl, by simpa using hkn, fun i hi hik => ?_⟩
    have hi' : i = 2 * k := by omega
    simp [hi']

/-- **Sifting down.** -/
theorem Placed.fixDown (m : ℕ) : ∀ {q : TimerTaskQueue} {k : ℕ}, q.size - k ≤ m → q.Placed → 1 ≤ k →
    DownFrom q.key q.size k → ∃ q', q.fixDown k = some q' ∧ q'.Valid ∧ Sifted q q' := by
  induction m with
  | zero =>
    intro q k hm hplaced hk hdown
    rw [TimerTaskQueue.fixDown, fixDownTo, dif_neg (by omega)]
    exact ⟨q, rfl, ⟨hplaced, hdown.ordered fun i _ hi hik => by omega⟩, .refl q⟩
  | succ m ih =>
    intro q k hm hplaced hk hdown
    rw [TimerTaskQueue.fixDown, fixDownTo]
    split
    · rename_i hkn
      obtain ⟨right, hkid, hkidn, hleast⟩ := hplaced.smallestKid hk hkn.1
      have hright : right.toNat ≤ 1 := Bool.toNat_le right
      rw [hkid, hplaced.time hk (by omega), Option.bind_some, Option.bind_some,
        hplaced.time (by omega) hkidn, Option.bind_some]
      split
      · rename_i hle
        refine ⟨q, rfl, ⟨hplaced, hdown.ordered fun i _ hi hik => ?_⟩, .refl q⟩
        exact hle.trans (hleast i hi hik)
      · rename_i hlt
        have hlt' : q.key (2 * k + right.toNat) < q.key k := not_le.mp hlt
        obtain ⟨q₁, hswap, hplaced₁, hsifted, hkey⟩ :=
          hplaced.swap (j := 2 * k + right.toNat) (k := k) (by omega) (by omega) hkidn hk (by omega)
        have hdown₁ : DownFrom q₁.key q₁.size (2 * k + right.toNat) := by
          rw [hkey, hsifted.size, swapped_comm]
          exact hdown.swap hk (by omega) hkidn hleast hlt'
        obtain ⟨q', hrun, hvalid, hsifted'⟩ := ih (by rw [hsifted.size]; omega) hplaced₁ (by omega)
          hdown₁
        refine ⟨q', ?_, hvalid, hsifted.trans hsifted'⟩
        rw [hswap, Option.bind_some, ← hsifted.size]
        exact hrun
    · rename_i hkn
      exact ⟨q, rfl, ⟨hplaced, hdown.ordered fun i _ hi hik => by omega⟩, .refl q⟩

/-! ### The operations -/

theorem Valid.empty : TimerTaskQueue.empty.Valid :=
  ⟨⟨fun i _ hi => absurd hi (by change ¬ i ≤ 0; omega), fun _ _ => rfl⟩,
    fun i _ hi => absurd hi (by change ¬ i ≤ 0; omega)⟩

/-- A task with other contents, where it is. -/
theorem Placed.setTask (h : q.Placed) {task task' : TimerTask} (ht : q.memory t = some task)
    (hindex : task'.queueIndex = task.queueIndex) : (q.setTask t task').Placed := by
  refine ⟨fun i hi hin => ?_, h.rest⟩
  obtain ⟨t', task'', ht', htask', hi'⟩ := h.slot i hi hin
  by_cases heq : t' = t
  · subst heq
    obtain rfl := Option.some.inj (ht.symm.trans htask')
    exact ⟨t', task', ht', Function.update_self _ _ _, hindex.trans hi'⟩
  · exact ⟨t', task'', ht', (Function.update_of_ne heq _ _).trans htask', hi'⟩

theorem key_setTask_of_ne {task : TimerTask} (h : q.queue i ≠ some t) :
    (q.setTask t task).key i = q.key i := by
  unfold key TimerTaskQueue.time TimerTaskQueue.setTask
  cases hi : q.queue i with
  | none => rfl
  | some t' =>
    have hne : t' ≠ t := fun heq => h (heq ▸ hi)
    simp [Function.update_of_ne hne]

theorem key_congr {q' : TimerTaskQueue} (hqueue : q'.queue i = q.queue i)
    (hmem : ∀ t, q.queue i = some t → q'.memory t = q.memory t) : q'.key i = q.key i := by
  unfold key TimerTaskQueue.time
  rw [hqueue]
  cases hi : q.queue i with
  | none => rfl
  | some t => simp [hmem t hi]

theorem map_unplaced_setTask {task task' : TimerTask} (ht : q.memory t = some task)
    (hsame : task'.unplaced = task.unplaced) (u : ℕ) :
    ((q.setTask t task').memory u).map TimerTask.unplaced =
      (q.memory u).map TimerTask.unplaced := by
  by_cases hu : u = t
  · subst hu
    simp [setTask, ht, hsame]
  · simp [setTask, Function.update_of_ne hu]

/-- **`Add`,** of a task that is not in the queue. -/
theorem Valid.add (h : q.Valid) {task : TimerTask} (ht : q.memory t = some task)
    (hnot : ¬ q.Queued t) : ∃ q', q.add t = some q' ∧ q'.Valid ∧ q'.size = q.size + 1 ∧
      (∀ u, q'.Queued u ↔ q.Queued u ∨ u = t) ∧
      ∀ u, (q'.memory u).map TimerTask.unplaced = (q.memory u).map TimerTask.unplaced := by
  set q₁ : TimerTaskQueue := { q with
    queue := Function.update q.queue (q.size + 1) (some t)
    capacity := if q.size + 1 = q.capacity then 2 * q.capacity else q.capacity
    size := q.size + 1 } with hq₁
  have hlast : q₁.queue (q.size + 1) = some t := Function.update_self _ _ _
  have hother : ∀ i, i ≠ q.size + 1 → q₁.queue i = q.queue i := fun i hi =>
    Function.update_of_ne hi _ _
  have hset : q₁.setIndex (q.size + 1) =
    some (q₁.setTask t { task with queueIndex := q.size + 1 }) := setIndex_eq hlast ht
  set q₂ := q₁.setTask t { task with queueIndex := q.size + 1 } with hq₂
  have hmem : ∀ i u, q.queue i = some u → q₂.memory u = q.memory u := by
    intro i u hu
    have hne : u ≠ t := fun heq => hnot ⟨i, heq ▸ hu⟩
    exact Function.update_of_ne hne _ _
  have hunplaced : ∀ u, (q₂.memory u).map TimerTask.unplaced =
      (q.memory u).map TimerTask.unplaced := map_unplaced_setTask (q := q₁) ht rfl
  have hplaced : q₂.Placed := by
    constructor
    · intro i hi hin
      by_cases hlt : i = q.size + 1
      · subst hlt
        exact ⟨t, _, hlast, Function.update_self _ _ _, rfl⟩
      · have hin' : i ≤ q.size + 1 := hin
        obtain ⟨u, task', hu, htask', hindex⟩ := h.placed.slot i hi (by omega)
        exact ⟨u, task', (hother i hlt).trans hu, (hmem i u hu).trans htask', hindex⟩
    · intro i hi
      have hi' : i = 0 ∨ q.size + 1 < i := hi
      exact (hother i (by omega)).trans (h.placed.rest i (by omega))
  have hup : UpTo q₂.key q₂.size (q.size + 1) :=
    h.ordered.add fun i hi => key_congr (hother i (by omega)) (hmem i)
  obtain ⟨q', hrun, hvalid, hsifted⟩ := hplaced.fixUp (q.size + 1) (by omega) le_rfl hup
  refine ⟨q', ?_, hvalid, hsifted.size, fun u => (hsifted.queued u).trans ?_, fun u => ?_⟩
  · rw [TimerTaskQueue.add, ← hq₁, hset]
    exact hrun
  · constructor
    · rintro ⟨i, hi⟩
      by_cases hlt : i = q.size + 1
      · subst hlt
        exact .inr (Option.some.inj (hi.symm.trans hlast))
      · exact .inl ⟨i, (hother i hlt).symm.trans hi⟩
    · rintro (⟨i, hi⟩ | rfl)
      · have hin := h.placed.pos hi
        exact ⟨i, (hother i (by omega)).trans hi⟩
      · exact ⟨q.size + 1, hlast⟩
  · exact (hsifted.memory u).trans (hunplaced u)

/-- **`RemoveMin`.** The task that was first is not in the queue any more. -/
theorem Valid.removeMin (h : q.Valid) (ht : q.getMin = some t) : ∃ q', q.removeMin = some q' ∧
    q'.Valid ∧ q'.size + 1 = q.size ∧ (∀ u, q'.Queued u ↔ q.Queued u ∧ u ≠ t) ∧
    ∀ u, (q'.memory u).map TimerTask.unplaced = (q.memory u).map TimerTask.unplaced := by
  have hpos := h.placed.pos ht
  obtain ⟨tn, taskn, htn, htaskn, hindexn⟩ := h.placed.slot q.size hpos.2 le_rfl
  set q₁ : TimerTaskQueue := { q with queue := Function.update q.queue 1 (q.queue q.size) } with hq₁
  have hq₁n : q₁.queue 1 = some tn :=
    (Function.update_self 1 (q.queue q.size) q.queue).trans htn
  have hset : q₁.setIndex 1 = some (q₁.setTask tn { taskn with queueIndex := 1 }) :=
    setIndex_eq hq₁n htaskn
  set q₂ : TimerTaskQueue := { q₁.setTask tn { taskn with queueIndex := 1 } with
    queue := Function.update q₁.queue q.size none
    size := q.size - 1 } with hq₂
  have hfirst : q.size ≠ 1 → q₂.queue 1 = some tn := fun hne =>
    (Function.update_of_ne (Ne.symm hne) _ _).trans hq₁n
  have hother : ∀ i, i ≠ 1 → i ≠ q.size → q₂.queue i = q.queue i := fun i hi hin =>
    (Function.update_of_ne hin _ _).trans (Function.update_of_ne hi _ _)
  have hmem : ∀ i u, i ≠ q.size → q.queue i = some u → q₂.memory u = q.memory u := by
    intro i u hin hu
    have hne : u ≠ tn := fun heq => hin (h.placed.unique hu (heq ▸ htn))
    exact Function.update_of_ne hne _ _
  have hunplaced : ∀ u, (q₂.memory u).map TimerTask.unplaced =
      (q.memory u).map TimerTask.unplaced := map_unplaced_setTask (q := q₁) htaskn rfl
  have hplaced : q₂.Placed := by
    constructor
    · intro i hi hin
      have hin' : i ≤ q.size - 1 := hin
      by_cases h1 : i = 1
      · subst h1
        exact ⟨tn, _, hfirst (by omega), Function.update_self _ _ _, rfl⟩
      · obtain ⟨u, task', hu, htask', hindex⟩ := h.placed.slot i hi (by omega)
        exact ⟨u, task', (hother i h1 (by omega)).trans hu, (hmem i u (by omega) hu).trans htask',
          hindex⟩
    · intro i hi
      have hi' : i = 0 ∨ q.size - 1 < i := hi
      by_cases hn : i = q.size
      · subst hn
        exact Function.update_self _ _ _
      · exact (hother i (by omega) hn).trans (h.placed.rest i (by omega))
  have hdown : DownFrom q₂.key q₂.size 1 := by
    refine (h.ordered.mono (Nat.sub_le q.size 1)).root fun i hi hin => ?_
    exact key_congr (hother i (by omega) (by omega)) fun u hu => hmem i u (by omega) hu
  obtain ⟨q', hrun, hvalid, hsifted⟩ := hplaced.fixDown q₂.size (Nat.sub_le _ _) le_rfl hdown
  refine ⟨q', ?_, hvalid, ?_, fun u => (hsifted.queued u).trans ?_, fun u => ?_⟩
  · rw [TimerTaskQueue.removeMin, if_neg (by omega), ← hq₁, hset]
    exact hrun
  · rw [hsifted.size]
    change q.size - 1 + 1 = q.size
    omega
  · constructor
    · rintro ⟨i, hi⟩
      have hin : i ≠ q.size := by
        rintro rfl
        cases (Function.update_self q.size none q₁.queue).symm.trans hi
      by_cases h1 : i = 1
      · subst h1
        obtain rfl := Option.some.inj ((hfirst (Ne.symm hin)).symm.trans hi)
        exact ⟨⟨q.size, htn⟩, fun heq => hin (h.placed.unique ht (heq ▸ htn))⟩
      · have hi' := (hother i h1 hin).symm.trans hi
        exact ⟨⟨i, hi'⟩, fun heq => h1 (h.placed.unique (heq ▸ hi') ht)⟩
    · rintro ⟨⟨i, hi⟩, hne⟩
      have h1 : i ≠ 1 := by
        rintro rfl
        exact hne (Option.some.inj (hi.symm.trans ht))
      by_cases hn : i = q.size
      · subst hn
        obtain rfl := Option.some.inj (htn.symm.trans hi)
        exact ⟨1, hfirst h1⟩
      · exact ⟨i, (hother i h1 hn).trans hi⟩
  · exact (hsifted.memory u).trans (hunplaced u)

theorem Valid.findTaskIndex (h : q.Valid) {task : TimerTask} (hi : q.queue i = some t)
    (ht : q.memory t = some task) : q.findTaskIndex t = some (some i) := by
  have hpos := h.placed.pos hi
  obtain ⟨u, task', hu, htask', rfl⟩ := h.placed.slot i hpos.1 hpos.2
  obtain rfl := Option.some.inj (hu.symm.trans hi)
  obtain rfl := Option.some.inj (ht.symm.trans htask')
  rw [TimerTaskQueue.findTaskIndex, if_neg (by omega), ht, Option.map_some,
    if_pos ⟨by omega, hi⟩]

/-- **`RescheduleTask`,** of a task in the queue. -/
theorem Valid.rescheduleTask (h : q.Valid) {task : TimerTask} (hq : q.Queued t)
    (ht : q.memory t = some task) (newTime : ℕ) :
    ∃ q', q.rescheduleTask t newTime = some (true, q') ∧ q'.Valid ∧
      Sifted (q.setTask t { task with nextTriggerTime := newTime }) q' := by
  obtain ⟨i, hi⟩ := hq
  have hpos := h.placed.pos hi
  set q₁ := q.setTask t { task with nextTriggerTime := newTime }
  have hplaced : q₁.Placed := h.placed.setTask ht rfl
  have hsame : ∀ j, j ≠ i → q₁.key j = q.key j := fun j hj =>
    key_setTask_of_ne fun heq => hj (h.placed.unique heq hi)
  have hnew : q₁.key i = newTime := key_of (q := q₁) hi (Function.update_self t _ _)
  have hold : q.key i = task.nextTriggerTime := key_of hi ht
  rw [TimerTaskQueue.rescheduleTask, h.findTaskIndex hi ht, Option.bind_some]
  dsimp only
  rw [ht, Option.bind_some]
  by_cases hgt : newTime > task.nextTriggerTime
  · have hdown : DownFrom q₁.key q₁.size i := h.ordered.downFrom hsame (by omega)
    obtain ⟨q', hrun, hvalid, hsifted⟩ := hplaced.fixDown q₁.size (Nat.sub_le _ _) hpos.1 hdown
    exact ⟨q', by rw [if_pos hgt, hrun]; rfl, hvalid, hsifted⟩
  · have hup : UpTo q₁.key q₁.size i := h.ordered.upTo hsame (by omega)
    obtain ⟨q', hrun, hvalid, hsifted⟩ := hplaced.fixUp i hpos.1 hpos.2 hup
    exact ⟨q', by rw [if_neg hgt, hrun]; rfl, hvalid, hsifted⟩

/-- `RescheduleTask` does nothing to a task that is not in the queue. -/
theorem rescheduleTask_not {task : TimerTask} (hnot : ¬ q.Queued t)
    (ht : q.memory t = some task) (newTime : ℕ) :
    q.rescheduleTask t newTime = some (false, q) := by
  have hfind : q.findTaskIndex t = some none := by
    unfold TimerTaskQueue.findTaskIndex
    split
    · rfl
    · rw [ht, Option.map_some, if_neg fun hin => hnot ⟨_, hin.2⟩]
  rw [TimerTaskQueue.rescheduleTask, hfind]
  rfl

/-- **`RescheduleMin`.** -/
theorem Valid.rescheduleMin (h : q.Valid) {task : TimerTask} (hq : q.getMin = some t)
    (ht : q.memory t = some task) (newTime : ℕ) : ∃ q', q.rescheduleMin newTime = some q' ∧
      q'.Valid ∧ Sifted (q.setTask t { task with nextTriggerTime := newTime }) q' := by
  set q₁ := q.setTask t { task with nextTriggerTime := newTime }
  have hplaced : q₁.Placed := h.placed.setTask ht rfl
  have hdown : DownFrom q₁.key q₁.size 1 := by
    refine h.ordered.root fun i hi _ => key_setTask_of_ne fun heq => ?_
    have := h.placed.unique heq hq
    omega
  obtain ⟨q', hrun, hvalid, hsifted⟩ := hplaced.fixDown q₁.size (Nat.sub_le _ _) le_rfl hdown
  refine ⟨q', ?_, hvalid, hsifted⟩
  have hq' : q.queue 1 = some t := hq
  rw [TimerTaskQueue.rescheduleMin, hq', Option.bind_some, ht, Option.bind_some]
  exact hrun

/-- What else changes in the tasks does not matter to the queue. -/
theorem Valid.of_slots (h : q.Valid) {q' : TimerTaskQueue} (hqueue : q'.queue = q.queue)
    (hsize : q'.size = q.size) (hmem : ∀ i t task, q.queue i = some t → q.memory t = some task →
      ∃ task', q'.memory t = some task' ∧ task'.queueIndex = task.queueIndex ∧
        task'.nextTriggerTime = task.nextTriggerTime) : q'.Valid := by
  have hkey : ∀ i, 1 ≤ i → i ≤ q.size → q'.key i = q.key i := by
    intro i hi hin
    obtain ⟨t, task, ht, htask, -⟩ := h.placed.slot i hi hin
    obtain ⟨task', htask', -, htime⟩ := hmem i t task ht htask
    rw [key_of (hqueue ▸ ht) htask', key_of ht htask, htime]
  refine ⟨⟨fun i hi hin => ?_, fun i hi => ?_⟩, fun i hi hin => ?_⟩
  · obtain ⟨t, task, ht, htask, hindex⟩ := h.placed.slot i hi (hsize ▸ hin)
    obtain ⟨task', htask', hindex', -⟩ := hmem i t task ht htask
    exact ⟨t, task', hqueue ▸ ht, htask', hindex'.trans hindex⟩
  · rw [hqueue]
    exact h.placed.rest i (hsize ▸ hi)
  · rw [hsize] at hin
    rw [hkey i (by omega) hin, hkey (i / 2) (by omega) (by omega)]
    exact h.ordered i hi hin

/-- **`GetMin`.** -/
theorem Valid.getMin_le (h : q.Valid) {u : ℕ} {task task' : TimerTask} (ht : q.getMin = some t)
    (htask : q.memory t = some task) (hu : q.Queued u) (htask' : q.memory u = some task') :
    task.nextTriggerTime ≤ task'.nextTriggerTime := by
  obtain ⟨i, hi⟩ := hu
  have hpos := h.placed.pos hi
  rw [← key_of ht htask, ← key_of hi htask']
  exact h.ordered.le hpos.1 hpos.2

end TimerTaskQueue

end Comms
