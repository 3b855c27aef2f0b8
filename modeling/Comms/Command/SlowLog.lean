import Comms.Codec.RedisCommand
import Comms.Command.Reply
import Comms.Lib.Run

/-!
# The slow log

`command/slowlog.cpp`. `DoCall` hands a frame over when its handler is done; the frame may be
another one by then, since some handlers rewrite `*ctx.current_cmd`, which is the frame itself.
Entries are put in front of the queue and taken from its end.

* `trim` — the loop that takes entries from the end;
* `SlowLog.tryPushSlowCommand`, `SlowLog.getSlowlog` — from the source;
* `Newest` — the log holds the newest entries, as they were executed, and `SLOWLOG GET` shows them;
* `keepsNewest_iff` — a run keeps the newest entries exactly if no push makes the log as long as its
  limit, no handler changes what is logged and no id passes `2 ^ 63`.
-/

namespace Comms
namespace SlowLogs

/-- `SlowLogRecord`. -/
structure SlowLogRecord where
  id : ℕ
  ts : ℕ
  costs : ℕ
  cmd : RedisCommandFrame

/-- `g_slowlog_queue`, `kSlowlogIDSeed` and the two settings. -/
structure SlowLog where
  queue : List SlowLogRecord
  idSeed : ℕ
  /-- `slowlog_max_len`. -/
  maxLen : ℤ
  /-- `slowlog_log_slower_than`. -/
  slowerThan : ℤ

/-- `(uint32) n`. -/
def uint32 (n : ℤ) : ℕ := (n % 2 ^ 32).toNat

/-- A `uint64` as an `int64`, in `fill_int_reply`. -/
def int64 (n : ℕ) : ℤ := if n < 2 ^ 63 then n else n - 2 ^ 64

/-- The loop with `pop_back`, which an empty deque does not have. -/
def trim (maxLen : ℤ) (queue : List SlowLogRecord) : Option (List SlowLogRecord) :=
  if 0 < maxLen ∧ uint32 maxLen ≤ queue.length then
    if queue = [] then none else trim maxLen queue.dropLast
  else some queue
termination_by queue.length
decreasing_by
  rename_i hne
  have := List.length_pos_iff.mpr hne
  rw [List.length_dropLast]
  omega

namespace SlowLog

/-- `micros < m_cfg.slowlog_log_slower_than`, which compares unsigned numbers. -/
def Fast (log : SlowLog) (micros : ℕ) : Prop := (micros : ℤ) < log.slowerThan % 2 ^ 64

instance (log : SlowLog) (micros : ℕ) : Decidable (log.Fast micros) :=
  inferInstanceAs (Decidable (_ < _))

/-- `TryPushSlowCommand`. -/
def tryPushSlowCommand (log : SlowLog) (cmd : RedisCommandFrame) (micros now : ℕ) :
    Option SlowLog :=
  if log.Fast micros then some log
  else (trim log.maxLen (⟨log.idSeed, now, micros, cmd⟩ :: log.queue)).map fun queue =>
    { log with queue := queue, idSeed := (log.idSeed + 1) % 2 ^ 64 }

end SlowLog

/-- The reply for one record: `id`, `ts`, `costs` and the words of a command. -/
def recordReply (id ts costs : ℕ) (cmd : RedisCommandFrame) : Reply Unit :=
  .array [.int (int64 id), .int (int64 ts), .int (int64 costs), .strArray (cmd.cmd :: cmd.args)]

/-- `GetSlowlog`. -/
def SlowLog.getSlowlog (log : SlowLog) (len : ℕ) : Reply Unit :=
  .array ((log.queue.take len).map fun r => recordReply r.id r.ts r.costs r.cmd)

/-! ### What has been pushed -/

/-- A command that `DoCall` has executed, and the frame that its handler leaves. -/
structure Executed where
  args : RedisCommandFrame
  left : RedisCommandFrame
  micros : ℕ
  now : ℕ

/-- The log, the commands that were pushed since the last reset, the newest first, and the
`slowlog_max_len` of the last push. -/
structure State where
  log : SlowLog
  pushed : List Executed
  limit : ℤ

/-- What happens to the log. -/
inductive Action
  | doCall (call : Executed)
  | reset
  | setMaxLen (maxLen : { n : ℤ // 0 < n })

/-- One of these; `none` where `pop_back` is called on an empty deque. -/
def step (s : State) : Action → Option State
  | .doCall call =>
    (s.log.tryPushSlowCommand call.left call.micros call.now).map fun log =>
      if s.log.Fast call.micros then s else ⟨log, call :: s.pushed, s.log.maxLen⟩
  | .reset => some { s with log := { s.log with queue := [] }, pushed := [] }
  | .setMaxLen maxLen => some { s with log := { s.log with maxLen := maxLen } }

/-- `Comms`, just started. -/
def start (maxLen : { n : ℤ // 0 < n }) (slowerThan : ℤ) : State :=
  ⟨⟨[], 0, maxLen, slowerThan⟩, [], 0⟩

/-- The number of entries there should be. -/
def State.kept (s : State) : ℕ := min s.pushed.length s.limit.toNat

/-- **What the log is for.** It has the newest entries that were pushed since the last reset, as
many as the limit allowed at the last push, and `SLOWLOG GET` shows the newest of them, under ids
that go down, with the words they were executed with. -/
structure Newest (s : State) : Prop where
  /-- The entries. -/
  entries : s.log.queue.map (fun r => (r.ts, r.costs, r.cmd.cmd, r.cmd.args)) =
    (s.pushed.take s.kept).map fun c => (c.now, c.micros, c.args.cmd, c.args.args)
  /-- What is shown. -/
  shown (n : ℕ) : ∃ ids : List ℕ, ids.length = min n s.kept ∧
    (ids.map int64).Pairwise (· > ·) ∧
    s.log.getSlowlog n =
      .array (List.zipWith (fun id c => recordReply id c.now c.micros c.args) ids (s.pushed.take n))

/-- A step that goes wrong neither in the log nor on the way to it. -/
def KeepsNewest (s : State) (a : Action) : Prop := ∃ t, step s a = some t ∧ Newest t

/-- The log stays shorter than its limit, the handler has not rewritten the frame, and ids do not
become negative above those in the log. -/
def Room (s : State) : Action → Prop
  | .doCall call =>
    s.log.Fast call.micros ∨
      (s.pushed.length + 1 < uint32 s.log.maxLen ∧ call.left.cmd = call.args.cmd ∧
        call.left.args = call.args.args ∧ (s.log.idSeed = 2 ^ 63 → s.pushed = []))
  | _ => True

/-! ### Taking entries from the end -/

theorem uint32_le {n : ℤ} (h : 0 < n) : uint32 n ≤ n.toNat := by
  unfold uint32
  omega

theorem take_dropLast {α : Type*} {l : List α} {k : ℕ} (h : k < l.length) :
    l.dropLast.take k = l.take k := by
  rw [List.dropLast_eq_take, List.take_take, min_eq_left (by omega)]

/-- One entry fewer than the limit is left: the loop also runs when the log is just full. -/
theorem trim_eq {maxLen : ℤ} (h : 0 < maxLen) (queue : List SlowLogRecord) :
    trim maxLen queue =
      if uint32 maxLen = 0 then none else some (queue.take (uint32 maxLen - 1)) := by
  fun_induction trim maxLen queue with
  | case1 hc =>
    have hzero : uint32 maxLen = 0 := by simpa using hc.2
    rw [if_pos hzero]
  | case2 queue hc hne ih =>
    have hpos := List.length_pos_iff.mpr hne
    rw [ih]
    split
    · rfl
    · rw [take_dropLast (by omega)]
  | case3 queue hc =>
    have hlt : queue.length < uint32 maxLen := by omega
    rw [if_neg (by omega), List.take_of_length_le (by omega)]

/-! ### The log that has everything -/

/-- Nothing has been taken from the log since the last reset. -/
structure Full (s : State) : Prop where
  pos : 0 < s.log.maxLen
  limit : s.pushed.length ≤ s.limit.toNat
  entries : s.log.queue.map (fun r => (r.ts, r.costs, r.cmd.cmd, r.cmd.args)) =
    s.pushed.map fun c => (c.now, c.micros, c.args.cmd, c.args.args)
  seed : s.log.idSeed < 2 ^ 64
  last : ∀ r ∈ s.log.queue.head?, r.id < 2 ^ 64 ∧ s.log.idSeed = (r.id + 1) % 2 ^ 64
  ids : ((s.log.queue.map (·.id)).map int64).Pairwise (· > ·)

variable {s t : State}

theorem Full.kept (h : Full s) : s.kept = s.pushed.length := min_eq_left h.limit

theorem Full.length (h : Full s) : s.log.queue.length = s.pushed.length := by
  simpa using congrArg List.length h.entries

/-- Two commands are shown alike when their words are the same. -/
theorem recordReply_congr {id ts costs : ℕ} {cmd cmd' : RedisCommandFrame} (h : cmd.cmd = cmd'.cmd)
    (hargs : cmd.args = cmd'.args) :
    recordReply id ts costs cmd = recordReply id ts costs cmd' := by
  unfold recordReply
  rw [h, hargs]

/-- A record is shown as the command with the same entry. -/
theorem map_recordReply {queue : List SlowLogRecord} {pushed : List Executed}
    (h : queue.map (fun r => (r.ts, r.costs, r.cmd.cmd, r.cmd.args)) =
      pushed.map fun c => (c.now, c.micros, c.args.cmd, c.args.args)) :
    (queue.map fun r => recordReply r.id r.ts r.costs r.cmd) =
      List.zipWith (fun id c => recordReply id c.now c.micros c.args) (queue.map (·.id))
        pushed := by
  induction queue generalizing pushed with
  | nil => simp
  | cons r queue ih =>
    cases pushed with
    | nil => cases h
    | cons c pushed =>
      obtain ⟨hhead, htail⟩ := List.cons.inj h
      obtain ⟨hts, hcosts, hcmd, hargs⟩ : r.ts = c.now ∧ r.costs = c.micros ∧
          r.cmd.cmd = c.args.cmd ∧ r.cmd.args = c.args.args := by simpa using hhead
      rw [List.map_cons, List.map_cons, List.zipWith_cons_cons, ih htail, hts, hcosts,
        recordReply_congr hcmd hargs]

theorem Full.newest (h : Full s) : Newest s where
  entries := by rw [h.kept, List.take_length, h.entries]
  shown n := by
    refine ⟨(s.log.queue.take n).map (·.id), ?_, ?_, ?_⟩
    · rw [List.length_map, List.length_take, h.length, h.kept]
    · rw [List.map_take, List.map_take]
      exact h.ids.take
    · have htake : (s.log.queue.take n).map (fun r => (r.ts, r.costs, r.cmd.cmd, r.cmd.args)) =
          (s.pushed.take n).map fun c => (c.now, c.micros, c.args.cmd, c.args.args) := by
        rw [List.map_take, h.entries, List.map_take]
      unfold SlowLog.getSlowlog
      rw [map_recordReply htake]

/-! ### One step -/

theorem start_full (maxLen : { n : ℤ // 0 < n }) (slowerThan : ℤ) :
    Full (start maxLen slowerThan) where
  pos := maxLen.2
  limit := Nat.zero_le _
  entries := rfl
  seed := Nat.two_pow_pos 64
  last := by rintro r ⟨⟩
  ids := .nil

/-- The entry of a command that is not fast. -/
def entered (s : State) (call : Executed) : SlowLogRecord :=
  ⟨s.log.idSeed, call.now, call.micros, call.left⟩

/-- What a push leaves. -/
theorem step_doCall (hpos : 0 < s.log.maxLen) {call : Executed} (hslow : ¬s.log.Fast call.micros) :
    step s (.doCall call) =
      if uint32 s.log.maxLen = 0 then none
      else some ⟨{ s.log with
          queue := (entered s call :: s.log.queue).take (uint32 s.log.maxLen - 1)
          idSeed := (s.log.idSeed + 1) % 2 ^ 64 }, call :: s.pushed, s.log.maxLen⟩ := by
  unfold step SlowLog.tryPushSlowCommand
  simp only [if_neg hslow, trim_eq hpos, entered]
  split <;> rfl

theorem step_fast {call : Executed} (hfast : s.log.Fast call.micros) :
    step s (.doCall call) = some s := by
  unfold step SlowLog.tryPushSlowCommand
  simp only [if_pos hfast, Option.map_some]

/-- The ids in front of `2 ^ 63` and behind it follow each other as signed numbers. -/
theorem int64_lt_succ {id : ℕ} (h : id < 2 ^ 64) (hne : (id + 1) % 2 ^ 64 ≠ 2 ^ 63) :
    int64 id < int64 ((id + 1) % 2 ^ 64) := by
  unfold int64
  split <;> split <;> omega

/-- The next id is above those in the log. -/
theorem Full.lt_seed (h : Full s) (hid : s.log.idSeed = 2 ^ 63 → s.pushed = []) :
    ∀ id ∈ (s.log.queue.map (·.id)).map int64, id < int64 s.log.idSeed := by
  have hlast := h.last
  have hids := h.ids
  have hlen := h.length
  generalize s.log.queue = queue at hlast hids hlen
  cases queue with
  | nil =>
    rintro id ⟨⟩
  | cons r queue =>
    obtain ⟨hr, hseed⟩ := hlast r rfl
    have hne : s.log.idSeed ≠ 2 ^ 63 := by
      intro heq
      rw [hid heq] at hlen
      cases hlen
    have hlt : int64 r.id < int64 s.log.idSeed := by
      rw [hseed] at hne ⊢
      exact int64_lt_succ hr hne
    obtain ⟨hbelow, -⟩ := List.pairwise_cons.mp hids
    intro id hmem
    obtain rfl | hmem := List.mem_cons.mp hmem
    · exact hlt
    · exact (hbelow id hmem).trans hlt

theorem Full.push (h : Full s) {call : Executed} (hslow : ¬s.log.Fast call.micros)
    (hroom : s.pushed.length + 1 < uint32 s.log.maxLen) (hcmd : call.left.cmd = call.args.cmd)
    (hargs : call.left.args = call.args.args) (hid : s.log.idSeed = 2 ^ 63 → s.pushed = [])
    (hstep : step s (.doCall call) = some t) : Full t := by
  have hlen := h.length
  rw [step_doCall h.pos hslow, if_neg (by omega)] at hstep
  obtain rfl := Option.some.inj hstep
  have hall : (entered s call :: s.log.queue).take (uint32 s.log.maxLen - 1) =
      entered s call :: s.log.queue :=
    List.take_of_length_le (by simp only [List.length_cons]; omega)
  simp only [hall]
  exact
    { pos := h.pos
      limit := by
        have hle := uint32_le h.pos
        simp only [List.length_cons]
        omega
      entries := by
        simp only [List.map_cons, h.entries, entered, hcmd, hargs]
      seed := Nat.mod_lt _ (Nat.two_pow_pos 64)
      last := by
        rintro r hr
        obtain rfl : entered s call = r := Option.some.inj hr
        exact ⟨h.seed, rfl⟩
      ids := .cons (h.lt_seed hid) h.ids }

/-- A step with room keeps everything. -/
theorem Full.step (h : Full s) {a : Action} (hroom : Room s a) (hstep : step s a = some t) :
    Full t := by
  cases a with
  | doCall call =>
    by_cases hfast : s.log.Fast call.micros
    · rw [step_fast hfast] at hstep
      obtain rfl := Option.some.inj hstep
      exact h
    · obtain ⟨hlt, hcmd, hargs, hid⟩ := hroom.resolve_left hfast
      exact h.push hfast hlt hcmd hargs hid hstep
  | reset =>
    obtain rfl := Option.some.inj hstep
    exact
      { pos := h.pos
        limit := Nat.zero_le _
        entries := rfl
        seed := h.seed
        last := by rintro r ⟨⟩
        ids := .nil }
  | setMaxLen maxLen =>
    obtain rfl := Option.some.inj hstep
    exact { h with pos := maxLen.2 }

/-- A step with room is possible. -/
theorem Full.exists_step (h : Full s) {a : Action} (hroom : Room s a) :
    ∃ t, SlowLogs.step s a = some t := by
  cases a with
  | doCall call =>
    by_cases hfast : s.log.Fast call.micros
    · exact ⟨s, step_fast hfast⟩
    · obtain ⟨hlt, -⟩ := hroom.resolve_left hfast
      rw [step_doCall h.pos hfast, if_neg (by omega)]
      exact ⟨_, rfl⟩
  | reset => exact ⟨_, rfl⟩
  | setMaxLen maxLen => exact ⟨_, rfl⟩

/-! ### A step without room -/

/-- The id of a shown entry. -/
def shownId : Reply Unit → ℤ
  | .array (.int id :: _) => id
  | _ => 0

/-- The ids that are shown are those of the log. -/
theorem shown_ids {queue : List SlowLogRecord} {ids : List ℕ} {pushed : List Executed}
    (hlen : ids.length ≤ pushed.length)
    (h : (queue.map fun r => recordReply r.id r.ts r.costs r.cmd) =
      List.zipWith (fun id c => recordReply id c.now c.micros c.args) ids pushed) :
    (queue.map (·.id)).map int64 = ids.map int64 := by
  induction queue generalizing ids pushed with
  | nil =>
    cases ids with
    | nil => rfl
    | cons id ids =>
      cases pushed with
      | nil => simp at hlen
      | cons c pushed => cases h
  | cons r queue ih =>
    cases ids with
    | nil => cases h
    | cons id ids =>
      cases pushed with
      | nil => cases h
      | cons c pushed =>
        obtain ⟨hhead, htail⟩ := List.cons.inj h
        have hid : int64 r.id = int64 id := congrArg shownId hhead
        simp only [List.map_cons, hid, ih (Nat.le_of_succ_le_succ hlen) htail]

/-- The log of a state in which `SLOWLOG GET` is right has its ids in order. -/
theorem Newest.ids (h : Newest t) (hlen : t.log.queue.length = t.kept) :
    ((t.log.queue.map (·.id)).map int64).Pairwise (· > ·) := by
  obtain ⟨ids, hids, hsorted, hshown⟩ := h.shown t.kept
  have hle : t.kept ≤ t.pushed.length := Nat.min_le_left _ _
  have harray : (t.log.queue.map fun r => recordReply r.id r.ts r.costs r.cmd) =
      List.zipWith (fun id c => recordReply id c.now c.micros c.args) ids
        (t.pushed.take t.kept) := by
    have := Reply.array.inj hshown
    rwa [← hlen, List.take_length, hlen] at this
  rw [shown_ids (by rw [hids, List.length_take]; omega) harray]
  exact hsorted

/-- A push without room is one entry short, or shows something else. -/
theorem Full.room (h : Full s) {call : Executed} (hslow : ¬s.log.Fast call.micros)
    (hstep : SlowLogs.step s (.doCall call) = some t) (hnew : Newest t) :
    Room s (.doCall call) := by
  have hlen := h.length
  have hu := uint32_le h.pos
  rw [step_doCall h.pos hslow] at hstep
  split at hstep
  · cases hstep
  next hzero =>
  obtain rfl := Option.some.inj hstep
  have hentries := hnew.entries
  have hlt : s.pushed.length + 1 < uint32 s.log.maxLen := by
    have hcount := congrArg List.length hentries
    simp only [List.length_map, List.length_take, List.length_cons, State.kept] at hcount
    omega
  have hall : (entered s call :: s.log.queue).take (uint32 s.log.maxLen - 1) =
      entered s call :: s.log.queue :=
    List.take_of_length_le (by simp only [List.length_cons]; omega)
  simp only [hall] at hentries hnew
  have hkept : State.kept ⟨{ s.log with
      queue := entered s call :: s.log.queue, idSeed := (s.log.idSeed + 1) % 2 ^ 64 },
      call :: s.pushed, s.log.maxLen⟩ = s.pushed.length + 1 := by
    simp only [State.kept, List.length_cons]
    omega
  rw [hkept, List.take_of_length_le (by simp)] at hentries
  obtain ⟨hhead, -⟩ := List.cons.inj hentries
  obtain ⟨hcmd, hargs⟩ : call.left.cmd = call.args.cmd ∧ call.left.args = call.args.args := by
    simpa [entered] using hhead
  have hids := hnew.ids (by rw [hkept, List.length_cons, hlen])
  refine .inr ⟨hlt, hcmd, hargs, fun hid => ?_⟩
  have hlast := h.last
  generalize s.log.queue = queue at hlen hids hlast
  cases queue with
  | nil => exact List.length_eq_zero_iff.mp hlen.symm
  | cons r queue =>
    -- the id that comes after `2 ^ 63 - 1` is negative
    obtain ⟨hr, hseed⟩ := hlast r rfl
    have hgt : int64 s.log.idSeed > int64 r.id :=
      (List.pairwise_cons.mp hids).1 _ List.mem_cons_self
    unfold int64 at hgt
    split at hgt <;> split at hgt <;> omega

/-! ### Runs -/

/-- **The newest entries.** For every sequence of executed commands, resets and changes of
`slowlog_max_len`: every step leaves the log with the newest entries pushed since the last reset, as
many as the limit allows, and `SLOWLOG GET` shows them as they were executed, if and only if no push
brings the log up to its limit, no handler changes the words of the frame it is called with, and no
id passes `2 ^ 63`. -/
theorem keepsNewest_iff (maxLen : { n : ℤ // 0 < n }) (slowerThan : ℤ) (as : List Action) :
    Run.Along step KeepsNewest (start maxLen slowerThan) as ↔
      Run.Along step Room (start maxLen slowerThan) as := by
  refine Run.along_iff_along (fun s a h => ⟨?_, fun hroom => ?_⟩) (fun s a t h => h.step)
    (start_full maxLen slowerThan)
  · rintro ⟨t, hstep, hnew⟩
    cases a with
    | doCall call =>
      by_cases hfast : s.log.Fast call.micros
      · exact .inl hfast
      · exact h.room hfast hstep hnew
    | reset => trivial
    | setMaxLen maxLen => trivial
  · obtain ⟨t, hstep⟩ := h.exists_step hroom
    exact ⟨t, hstep, (h.step hroom hstep).newest⟩

/-- With a limit of one the log is empty behind a push. -/
theorem push_at_limit_forgotten :
    ¬∀ (maxLen : { n : ℤ // 0 < n }) (slowerThan : ℤ) (as : List Action),
      Run.Along step KeepsNewest (start maxLen slowerThan) as := by
  intro h
  obtain ⟨⟨t, hstep, hnew⟩, -⟩ :=
    h ⟨1, by decide⟩ 0 [.doCall ⟨RedisCommandFrame.empty, RedisCommandFrame.empty, 20, 5⟩]
  have hslow : ¬(start ⟨1, by decide⟩ 0).log.Fast 20 := by decide
  rw [step_doCall (by decide) hslow] at hstep
  obtain rfl := Option.some.inj hstep
  have hcount := congrArg List.length hnew.entries
  revert hcount
  decide

end SlowLogs
end Comms
