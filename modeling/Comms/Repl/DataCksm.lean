import Comms.Codec.Crc64
import Comms.Repl.LinkSteps

/-!
# The checksum of what a slave has executed

Two checksums run over the stream of the master: the log continues its own when a command is appended,
and `UpdateDataOffsetCksm` continues `data_cksm` when a command is executed. The second one is continued
from the data offset, and not from what it was.

* `Node.step_does` — what a step appends to the log, and what it executes;
* `OffsetFollows`, `CksmFollows` — `data_offset` and `data_cksm` are those of the bytes executed since
  both were set;
* `Seeded` — the condition on a step under which continuing from the data offset is right; since `crc64`
  loses nothing, there is no other;
* `Executed.step` — what is executed are the commands of the log in front of the data offset;
* `dataCksm_follows_iff` — every run.
-/

namespace Comms
namespace Linked

variable {behind : Swal → Run → Bytes}

/-! ### What a step does -/

/-- A step that sets neither the log nor the data offset anew. -/
def Act.Continues : Act → Prop
  | .snapshot _ _ | .loaded => False
  | _ => True

/-- What is appended to the log. -/
inductive Logs (s t : Node) : Prop
  | nothing (wal : t.repl.wal = s.repl.wal) (log : t.log = s.log)
  | append (obj : Obj) (wal : swalStep s.repl.wal (.append obj) = some t.repl.wal)
      (log : t.log = s.log.append obj.bytes)

/-- What is executed: nothing or one command, with what `UpdateDataOffsetCksm` makes of it. -/
inductive Applies (s t : Node) : Prop
  | nothing (called : t.repl.called = s.repl.called) (replMeta : t.repl.replMeta = s.repl.replMeta)
  | one (call : Call) (called : t.repl.called = s.repl.called ++ [call])
      (replMeta : t.repl.replMeta = updateDataOffsetCksm crc64 s.repl.replMeta call.raw)

/-- A command may be executed, and the log stays as it is. -/
structure AppliesOnly (s t : Node) : Prop where
  wal : t.repl.wal = s.repl.wal
  log : t.log = s.log
  applies : Applies s t

/-- What a step does. -/
structure Does (s t : Node) : Prop where
  logs : Logs s t
  applies : Applies s t

theorem AppliesOnly.does {s t : Node} (h : AppliesOnly s t) : Does s t :=
  ⟨.nothing h.wal h.log, h.applies⟩

/-- A step that has no part in either. -/
theorem Does.of_eq {s t : Node} (hwal : t.repl.wal = s.repl.wal) (hlog : t.log = s.log)
    (hcalled : t.repl.called = s.repl.called) (hmeta : t.repl.replMeta = s.repl.replMeta) : Does s t :=
  ⟨.nothing hwal hlog, .nothing hcalled hmeta⟩

/-- A replay executes at most one command before the event loop runs. -/
theorem Node.advance_applies {s t : Node} {runs : List Run} {pos : ℕ}
    (h : s.advance crc64 behind runs pos = some t) : AppliesOnly s t := by
  rcases Node.advance_left h with rfl | ⟨call, r, rfl, -⟩
  · exact ⟨rfl, rfl, .nothing rfl rfl⟩
  · exact ⟨rfl, @Node.execute_log crc64 s call, .one call rfl rfl⟩

theorem Node.replayWAL_applies {s t : Node} (h : s.replayWAL crc64 behind = some t) :
    AppliesOnly s t := by
  unfold Node.replayWAL at h
  split at h
  · exact Node.advance_applies h
  · cases h
    exact ⟨rfl, rfl, .nothing rfl rfl⟩

/-- `WriteWAL`. -/
theorem Node.append_logs {s t : Node} {call : Call} {executed : Bool}
    (h : s.append call executed = some t) :
    Logs s t ∧ t.repl.called = s.repl.called ∧ t.repl.replMeta = s.repl.replMeta := by
  obtain ⟨hlen, wal, hwal, rfl⟩ := Node.append_spec h
  refine ⟨.append ⟨call.raw, hlen⟩ hwal ?_, rfl, rfl⟩
  simp [Node.log, Log.append]

/-- What is appended first, and what is executed then. -/
theorem Does.of_append {s mid t : Node} {call : Call} {executed : Bool}
    (happ : s.append call executed = some mid) (h : AppliesOnly mid t) : Does s t := by
  obtain ⟨hlogs, hcalled, hmeta⟩ := Node.append_logs happ
  constructor
  · cases hlogs with
    | nothing wal log => exact .nothing (h.wal.trans wal) (h.log.trans log)
    | append obj wal log => exact .append obj (by rw [h.wal]; exact wal) (h.log.trans log)
  · cases h.applies with
    | nothing called replMeta => exact .nothing (called.trans hcalled) (replMeta.trans hmeta)
    | one call' called replMeta =>
      exact .one call' (by rw [called, hcalled]) (by rw [replMeta, hmeta])

/-- What the link holds has no part in it. -/
theorem Does.setLink {s t : Node} {link : Option Link} (h : Does { s with link := link } t) :
    Does s t := by
  obtain ⟨hlogs, happlies⟩ := h
  constructor
  · cases hlogs with
    | nothing wal log => exact .nothing wal log
    | append obj wal log => exact .append obj wal log
  · cases happlies with
    | nothing called replMeta => exact .nothing called replMeta
    | one call called replMeta => exact .one call called replMeta

/-- A command of the master is appended. Then it is executed at once, or the next one of the log is. -/
theorem Node.handleRedisCommand_does {s t : Node} {call : Call}
    (h : s.handleRedisCommand crc64 behind call = some t) : Does s t := by
  obtain ⟨mid, happ, h⟩ := Option.bind_eq_some_iff.mp h
  refine Does.of_append happ ?_
  split at h
  · cases h
    exact ⟨rfl, @Node.execute_log crc64 mid call, .one call rfl rfl⟩
  · exact Node.replayWAL_applies h

/-- **What a step does.** -/
theorem Node.step_does {s t : Node} {a : Act} (ha : a.Continues)
    (h : s.step crc64 behind a = some t) : Does s t := by
  cases a with
  | arrive chunk =>
    obtain ⟨link, -, h⟩ := Option.bind_eq_some_iff.mp h
    obtain ⟨-, h⟩ := Option.ite_none_right_eq_some.mp h
    cases h
    exact .of_eq rfl rfl rfl rfl
  | deliver =>
    obtain ⟨link, -, h⟩ := Option.bind_eq_some_iff.mp h
    obtain ⟨-, h⟩ := Option.ite_none_right_eq_some.mp h
    unfold Node.deliver at h
    split at h
    · cases h
      exact .of_eq rfl rfl rfl rfl
    · cases h
    · exact (Node.handleRedisCommand_does h).setLink
  | resume =>
    obtain ⟨r, -, h⟩ := Option.bind_eq_some_iff.mp h
    exact (Node.advance_applies h).does
  | routine =>
    obtain ⟨-, h⟩ := Option.ite_none_right_eq_some.mp h
    exact (Node.replayWAL_applies h).does
  | connect =>
    obtain ⟨-, h⟩ := Option.ite_none_right_eq_some.mp h
    cases h
    exact .of_eq rfl rfl rfl rfl
  | handshake state =>
    obtain ⟨-, h⟩ := Option.ite_none_right_eq_some.mp h
    cases h
    exact .of_eq rfl rfl rfl rfl
  | continued =>
    obtain ⟨-, h⟩ := Option.ite_none_right_eq_some.mp h
    cases h
    exact .of_eq rfl rfl rfl rfl
  | snapshot offset cksm => exact ha.elim
  | loaded => exact ha.elim
  | drop =>
    obtain ⟨-, h⟩ := Option.ite_none_right_eq_some.mp h
    cases h
    exact .of_eq rfl rfl rfl rfl
  | slaveof master =>
    cases h
    exact .of_eq rfl rfl rfl rfl
  | log call executed =>
    obtain ⟨hlogs, hcalled, hmeta⟩ := Node.append_logs h
    exact ⟨hlogs, .nothing hcalled hmeta⟩

/-! ### The data offset and its checksum -/

/-- `data_offset` has moved from `offset` by the bytes of what was executed since `start`. -/
def OffsetFollows (start : Node) (offset : UInt64) (s : Node) : Prop :=
  ∃ calls, s.repl.called = start.repl.called ++ calls ∧
    s.repl.replMeta.dataOffset - offset = (callBytes calls).length.toUInt64

/-- `data_cksm` is `cksm`, continued over what was executed since `start`. -/
def CksmFollows (start : Node) (cksm : UInt64) (s : Node) : Prop :=
  ∃ calls, s.repl.called = start.repl.called ++ calls ∧
    s.repl.replMeta.dataCksm = crc64 cksm (callBytes calls)

/-- The command that this step executes, if any, ends where `data_cksm` says, taken as an offset. -/
def Seeded (behind : Swal → Run → Bytes) (s : Node) (a : Act) : Prop :=
  ∀ t call, s.step crc64 behind a = some t → t.repl.called = s.repl.called ++ [call] →
    s.repl.replMeta.dataOffset + call.raw.length.toUInt64 = s.repl.replMeta.dataCksm

theorem callBytes_concat (calls : List Call) (call : Call) :
    callBytes (calls ++ [call]) = callBytes calls ++ call.raw := by
  simp [callBytes]

/-- **The offset.** It always follows. -/
theorem OffsetFollows.step {start s t : Node} {offset : UInt64} {a : Act} (h : OffsetFollows start offset s)
    (ha : a.Continues) (hstep : s.step crc64 behind a = some t) : OffsetFollows start offset t := by
  obtain ⟨calls, hcalls, hoff⟩ := h
  obtain ⟨-, happlies⟩ := Node.step_does ha hstep
  cases happlies with
  | nothing called replMeta => exact ⟨calls, called.trans hcalls, by rw [replMeta]; exact hoff⟩
  | one call called replMeta =>
    refine ⟨calls ++ [call], by rw [called, hcalls, List.append_assoc], ?_⟩
    rw [replMeta, callBytes_concat, List.length_append, toUInt64_add, ← hoff]
    show s.repl.replMeta.dataOffset + _ - offset = _
    grind

/-- **The checksum.** A step keeps it right exactly if the command it executes is seeded right. -/
theorem CksmFollows.step_iff {start s : Node} {cksm : UInt64} {a : Act} (h : CksmFollows start cksm s)
    (ha : a.Continues) :
    (∀ t, s.step crc64 behind a = some t → CksmFollows start cksm t) ↔ Seeded behind s a := by
  obtain ⟨calls, hcalls, hcksm⟩ := h
  constructor
  · intro hkeep t call hstep hcalled
    obtain ⟨calls', hcalls', hcksm'⟩ := hkeep t hstep
    -- the calls since the start, and the one of this step
    obtain rfl : calls' = calls ++ [call] := by
      rw [hcalled, hcalls, List.append_assoc] at hcalls'
      exact (List.append_cancel_left hcalls').symm
    rw [callBytes_concat, crc64_append, ← hcksm] at hcksm'
    obtain ⟨-, happlies⟩ := Node.step_does ha hstep
    cases happlies with
    | nothing called _ =>
      rw [hcalled] at called
      exact absurd called (by simp)
    | one call' called replMeta =>
      obtain rfl : call' = call := by
        rw [hcalled] at called
        simpa using called.symm
      rw [replMeta] at hcksm'
      exact crc64_injective hcksm'
  · intro hseed t hstep
    obtain ⟨-, happlies⟩ := Node.step_does ha hstep
    cases happlies with
    | nothing called replMeta => exact ⟨calls, called.trans hcalls, by rw [replMeta]; exact hcksm⟩
    | one call called replMeta =>
      refine ⟨calls ++ [call], by rw [called, hcalls, List.append_assoc], ?_⟩
      rw [replMeta, callBytes_concat, crc64_append, ← hcksm, ← hseed t call hstep called]
      rfl

/-! ### What is executed and what is logged -/

/-- **The commands executed** since `start` are those in front of the data offset. -/
structure Executed (start s : Node) : Prop where
  le : s.dataIdx ≤ s.entries.length
  called : s.repl.called = start.repl.called ++ (s.entries.take s.dataIdx).map Entry.call

namespace Executed

variable {start s t : Node}

/-- The next command of the log is executed. -/
theorem execute (h : Executed start s) {call : Call} {calls : List Call}
    (hnext : s.pending = call :: calls) : Executed start (s.execute crc64 call) := by
  obtain ⟨hlt, -, htake⟩ := @Node.execute_next crc64 s call calls hnext
  constructor
  · show s.dataIdx + 1 ≤ (s.entries.modify _ _).length
    rw [List.length_modify]
    exact hlt
  · rw [htake, ← List.append_assoc, ← h.called]
    rfl

/-- Something is appended. -/
theorem append (h : Executed start s) {call : Call} {executed : Bool}
    (happ : s.append call executed = some t) : Executed start t := by
  obtain ⟨-, wal, -, rfl⟩ := Node.append_spec happ
  constructor
  · show s.dataIdx ≤ (s.entries ++ _).length
    rw [List.length_append]
    exact h.le.trans (Nat.le_add_right _ _)
  · show s.repl.called = _ ++ ((s.entries ++ _).take s.dataIdx).map _
    rw [List.take_append_of_le_length h.le]
    exact h.called

/-- A replay whose runs carry complete commands takes the next one of the log. -/
theorem advance (h : Executed start s) (hs : s.state = .synced) {runs : List Run} {pos : ℕ}
    (hin : ∀ r ∈ runs, r.Inside s.repl.wal) {parts : List (List CommandFrame)}
    (hunread : unread s.repl.wal ⟨runs, pos⟩ = parts.map streamBytes)
    (hnext : parts.flatten ≠ [] →
      ∃ later, s.pending = (parts.flatten ++ later).map CommandFrame.call)
    (hadv : s.advance crc64 behind runs pos = some t) : Executed start t := by
  have hspec := @Node.advance_spec crc64 behind s hs runs pos hin parts hunread
  cases hflat : parts.flatten with
  | nil =>
    rw [hflat] at hspec
    obtain rfl := Option.some.inj (hspec.symm.trans hadv)
    exact ⟨h.le, h.called⟩
  | cons c rest =>
    rw [hflat] at hspec
    obtain ⟨r', -, hspec, -, -, -⟩ := hspec
    obtain rfl := Option.some.inj (hspec.symm.trans hadv)
    obtain ⟨later, hpending⟩ := hnext (by rw [hflat]; exact List.cons_ne_nil _ _)
    rw [hflat] at hpending
    have hdone := h.execute hpending
    exact ⟨hdone.le, hdone.called⟩

/-- The event loop returns to a replay. -/
theorem resume (h : Executed start s) (hok : LagOk s) {r : Replaying} (hr : s.replaying = some r)
    (hadv : s.advance crc64 behind r.runs r.pos = some t) : Executed start t := by
  by_cases hs : s.state = .synced
  · obtain ⟨hinside, parts, hunread, hnext⟩ := hok.replay r hr hs
    exact h.advance hs hinside hunread hnext hadv
  · rw [Node.advance_off hs] at hadv
    obtain rfl := Option.some.inj hadv
    exact ⟨h.le, h.called⟩

/-- A replay begins at the data offset. -/
theorem replayWAL (h : Executed start s) (hok : LagOk s) (hcut : CutOk s)
    (hreplay : s.replayWAL crc64 behind = some t) : Executed start t := by
  unfold Node.replayWAL at hreplay
  split at hreplay
  · next hstarts =>
    have hs : s.state = .synced := hstarts.1
    have htail := hok.synced hs
    obtain ⟨frames, hframes⟩ := htail.commands
    have hsince : s.log.since s.repl.replMeta.dataOffset = streamBytes frames := by
      rw [htail.since hok.faithful, hframes, callBytes_frames]
    obtain ⟨hlo, hhi⟩ := htail.inWindow hok.faithful hok.noWrap
    obtain ⟨-, hinside, -⟩ := hok.faithful.replay_split hlo hhi hsince
    obtain ⟨parts, hparts, hruns⟩ := hok.faithful.replay_parts hlo hhi hsince
      (hcut hstarts frames hframes)
    refine h.advance hs hinside (by rw [unread_zero, hruns]) (fun _ => ⟨[], ?_⟩) hreplay
    rw [hparts, List.append_nil]
    exact hframes
  · cases hreplay
    exact h

/-- A command of the master is appended. Where it is executed at once, nothing else was left. -/
theorem handle (h : Executed start s) (hok : LagOk s) {c : CommandFrame} (hroom : Room s c.bytes.length)
    (hkeep : KeepsUnread s c.call)
    (hcut : ∀ mid, s.append c.call false = some mid → ¬mid.Direct c.call.raw.length → CutOk mid)
    (hstep : s.handleRedisCommand crc64 behind c.call = some t) : Executed start t := by
  obtain ⟨mid, happ, hstep⟩ := Option.bind_eq_some_iff.mp hstep
  have hmid := hok.append hroom hkeep happ
  have hexec := h.append happ
  split at hstep
  · next hdirect =>
    cases hstep
    have hnil := Direct.pending_eq_nil hok hmid happ hdirect
    refine @execute start mid hexec c.call [] ?_
    obtain ⟨-, wal, -, rfl⟩ := Node.append_spec happ
    rw [Node.pending_append h.le, hnil, List.nil_append]
  · next hdirect => exact hexec.replayWAL hmid (hcut mid happ hdirect) hstep

/-- **Step.** What is executed is the next command of the log. -/
theorem step {a : Act} (h : Executed start s) (hok : LagOk s) (ha : a.Continues) (hsafe : LagSafe s a)
    (hstep : s.step crc64 behind a = some t) : Executed start t := by
  cases a with
  | arrive chunk =>
    obtain ⟨link, -, hstep⟩ := Option.bind_eq_some_iff.mp hstep
    obtain ⟨-, hstep⟩ := Option.ite_none_right_eq_some.mp hstep
    cases hstep
    exact ⟨h.le, h.called⟩
  | deliver =>
    obtain ⟨link, hlink, hstep⟩ := Option.bind_eq_some_iff.mp hstep
    obtain ⟨hcmds, hstep⟩ := Option.ite_none_right_eq_some.mp hstep
    unfold Node.deliver at hstep
    cases hdec : decode (.wrap link.held 0 link.held.length) with
    | none err b =>
      rw [hdec] at hstep
      cases hstep
      exact ⟨h.le, h.called⟩
    | fault => simp [hdec] at hstep
    | frame msg b =>
      rw [hdec] at hstep
      obtain ⟨c, hcall, hroom, hkeep, hcut⟩ := hsafe.deliver hlink hcmds hdec rfl
      have hheld : Executed start { s with link := some { link with held := b.mem.drop b.readIdx } } :=
        ⟨h.le, h.called⟩
      dsimp only at hstep
      rw [hcall] at hstep
      exact hheld.handle (hok.setLink hlink _) hroom hkeep hcut hstep
  | resume =>
    obtain ⟨r, hr, hstep⟩ := Option.bind_eq_some_iff.mp hstep
    exact h.resume hok hr hstep
  | routine =>
    have hcall : s.replayCall .routine = some s := by
      obtain ⟨hcond, -⟩ := Option.ite_none_right_eq_some.mp hstep
      exact if_pos hcond
    obtain ⟨-, hstep⟩ := Option.ite_none_right_eq_some.mp hstep
    exact h.replayWAL hok (hsafe.1 s hcall) hstep
  | connect =>
    obtain ⟨-, hstep⟩ := Option.ite_none_right_eq_some.mp hstep
    cases hstep
    exact ⟨h.le, h.called⟩
  | handshake state =>
    obtain ⟨-, hstep⟩ := Option.ite_none_right_eq_some.mp hstep
    cases hstep
    exact ⟨h.le, h.called⟩
  | continued =>
    obtain ⟨-, hstep⟩ := Option.ite_none_right_eq_some.mp hstep
    cases hstep
    exact ⟨h.le, h.called⟩
  | snapshot offset cksm => exact ha.elim
  | loaded => exact ha.elim
  | drop =>
    obtain ⟨-, hstep⟩ := Option.ite_none_right_eq_some.mp hstep
    cases hstep
    exact ⟨h.le, h.called⟩
  | slaveof master =>
    cases hstep
    exact ⟨h.le, h.called⟩
  | log call executed => exact h.append hstep

end Executed

/-! ### The checksum of the log -/

/-- The log began at `offset`, and its checksum is `cksm`, continued over what was logged since. -/
structure LogFollows (offset cksm : UInt64) (s : Node) : Prop where
  func : s.repl.wal.options.cksmFunc = some crc64
  base : s.base = offset
  cksm : s.repl.wal.logMeta.cksm = crc64 cksm s.log.bytes

theorem LogFollows.step {offset cksm : UInt64} {s t : Node} (h : LogFollows offset cksm s)
    (hlogs : Logs s t) : LogFollows offset cksm t := by
  cases hlogs with
  | nothing wal log =>
    exact ⟨by rw [wal]; exact h.func, (congrArg Log.base log).trans h.base,
      by rw [wal, log]; exact h.cksm⟩
  | append obj wal log =>
    obtain ⟨hopt, -, -, hcksm⟩ := swalStep_append wal
    refine ⟨by rw [hopt]; exact h.func, (congrArg Log.base log).trans h.base, ?_⟩
    rw [hcksm, log, Log.append_bytes, crc64_append, ← h.cksm]
    simp only [appendMeta, h.func]

/-- Where the data offset is the end of the log, everything that was logged has been executed. -/
theorem Executed.all {start s : Node} {offset : UInt64} (h : Executed start s) (hok : LagOk s)
    (hbase : s.base = offset) (hoff : OffsetFollows start offset s)
    (hend : s.repl.replMeta.dataOffset = s.repl.wal.logMeta.logEndOffset) {calls : List Call}
    (hcalls : s.repl.called = start.repl.called ++ calls) : callBytes calls = s.log.bytes := by
  obtain ⟨calls', hcalls', hlen⟩ := hoff
  obtain rfl : calls' = calls := List.append_cancel_left (hcalls'.symm.trans hcalls)
  have hfront : calls' = (s.entries.take s.dataIdx).map Entry.call :=
    List.append_cancel_left (hcalls.symm.trans h.called)
  -- the log is what lies in front of the data index and what lies behind it
  have hsplit := s.log_split
  rw [← hfront] at hsplit
  have hsum := congrArg List.length hsplit
  rw [List.length_append] at hsum
  have hwrap := hok.noWrap
  have hall : (callBytes calls').length = s.log.bytes.length := by
    have hlog : s.log.bytes.length.toUInt64 = (callBytes calls').length.toUInt64 := by
      rw [← hlen, hend, hok.faithful.file.end_eq, ← hbase]
      show _ = s.base + s.log.bytes.length.toUInt64 - s.base
      grind
    have hnat := congrArg UInt64.toNat hlog
    rw [length_toNat (by omega), length_toNat (by omega)] at hnat
    exact hnat.symm
  have hnil : callBytes s.pending = [] := List.length_eq_zero_iff.mp (by omega)
  rw [hsplit, hnil, List.append_nil]

/-! ### Every run -/

/-- `ResetWALOffsetCksm(offset, cksm)` and right behind it `ResetDataOffsetCksm(offset, cksm)`, as
`HandleRedisDumpChunk` calls them. -/
def Node.resynced (s : Node) (offset cksm : UInt64) : Node := (s.snapshot offset cksm).loaded

theorem LagOk.resynced {s : Node} {l : Log} (h : Faithful s.repl.wal l) (hidle : s.replaying = none)
    (hflag : s.repl.slave.replayingWal = false) (offset cksm : UInt64) :
    LagOk (s.resynced offset cksm) := by
  obtain ⟨wal, hwal, hfaith, -⟩ := h.step (.reset offset cksm)
  obtain rfl := Option.some.inj hwal
  exact
    { faithful := hfaith
      noWrap := UInt64.toNat_lt offset
      flag := by
        show s.repl.slave.replayingWal = s.replaying.isSome
        rw [hflag, hidle]
        rfl
      busy := fun _ => Or.inl rfl
      synced := fun _ => ⟨Nat.le_refl 0, (UInt64.add_zero offset).symm, ⟨[], rfl⟩, Nat.zero_le _⟩
      loading := by
        intro hload
        cases hload
      replay := by
        intro r hr
        rw [show s.replaying = some r from hr] at hidle
        cases hidle }

/-- Where the data offset is the end of the log, the two checksums agree. -/
def CksmsAgree (s : Node) : Prop :=
  s.repl.replMeta.dataOffset = s.repl.wal.logMeta.logEndOffset →
    s.repl.replMeta.dataCksm = s.repl.wal.logMeta.cksm

/-- The invariant of a run in which the two checksums agree. -/
structure FollowsLog (start : Node) (offset cksm : UInt64) (s : Node) : Prop where
  lag : LagOk s
  log : LogFollows offset cksm s
  executed : Executed start s
  dataOffset : OffsetFollows start offset s
  dataCksm : CksmFollows start cksm s

theorem FollowsLog.agree {start s : Node} {offset cksm : UInt64} (h : FollowsLog start offset cksm s) :
    CksmsAgree s := by
  intro hend
  obtain ⟨calls, hcalls, hcksm⟩ := h.dataCksm
  rw [hcksm, h.executed.all h.lag h.log.base h.dataOffset hend hcalls, h.log.cksm]

/-- The log of a replication service with a file of sixteen bytes. -/
def checkedPingWal : Swal := { pingWal with options := { pingOptions with cksmFunc := some crc64 } }

/-- A slave whose link is up. -/
def checkedSlave : Node :=
  { Node.init checkedPingWal (some ([104], 6379)) with link := some ⟨[], false⟩ }

/-- One request, fourteen bytes, arrives and is handled. -/
def onePing : List Act := [.arrive pingRequest.bytes, .deliver]

end Linked
end Comms
