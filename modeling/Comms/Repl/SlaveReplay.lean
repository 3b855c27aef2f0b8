import Comms.Codec.CommandStream
import Comms.Repl.SwalReplay

/-!
# Replaying the log on a slave

`Slave::ReplayWAL` hands the log from the data offset to the decoder. `swalReplay` calls back once
for each contiguous run, and each callback decodes its run on its own: a command that lies across
the wrap point of the ring or of the file is cut in two.

* `replayLoop_frames` — one run that holds complete commands, and perhaps the front of another;
* `replayLoop_le` — on any bytes a run moves the data offset by at most its length;
* `Faithful.replayRuns_lengths` — where `swalReplay` cuts;
* `replayWAL_exact_iff` — the slave executes exactly the logged commands if and only if no command
  lies across the cut.
-/

namespace Comms

/-- `SlaveState` of `slave.cpp`. -/
inductive SlaveState
  | invalid
  | connecting
  | waitingAuthReply
  | waitingInfoReply
  | waitingReplconfReply
  | waitingPsyncReply
  | waitingSnapshot
  | loadingSnapshot
  | synced
deriving DecidableEq, Repr

/-- The part of `SlaveStatus` that replaying looks at. -/
structure SlaveStatus where
  state : SlaveState
  replayingWal : Bool
deriving DecidableEq, Repr

/-- The part of `ReplMeta`, the user page of the log, that replaying updates. -/
structure ReplMeta where
  dataCksm : UInt64
  dataOffset : UInt64
deriving DecidableEq, Repr

/-- A command as `g_db->Call` gets it: its name, its arguments and its raw bytes. -/
structure Call where
  cmd : Bytes
  args : List Bytes
  raw : Bytes
deriving DecidableEq, Repr

/-- The replication service and the slave, with the commands passed to `g_db->Call` so far. -/
structure Repl where
  wal : Swal
  replMeta : ReplMeta
  slave : SlaveStatus
  called : List Call

section Replay

variable (crc64 : UInt64 → Bytes → UInt64)

/-- `UpdateDataOffsetCksm`. The checksum is continued from the new offset. -/
def updateDataOffsetCksm (m : ReplMeta) (data : Bytes) : ReplMeta :=
  { dataOffset := m.dataOffset + data.length.toUInt64
    dataCksm := crc64 (m.dataOffset + data.length.toUInt64) data }

/-- The body of the loop of `ReplayWAL` for a decoded command: `Call`, then
`UpdateDataOffsetCksm`. -/
def Repl.apply (s : Repl) (call : Call) : Repl :=
  { s with
    called := s.called ++ [call]
    replMeta := updateDataOffsetCksm crc64 s.replMeta call.raw }

/-- The `while` loop of `ReplayWAL(log, loglen)`. Nothing else runs in its `Continue`. A loop that
runs out of fuel and an exception that leaves the decoder do not return. -/
def replayLoop : ℕ → Buffer → Repl → Option Repl
  | 0, _, _ => none
  | fuel + 1, logbuf, s =>
    if logbuf.Readable ∧ s.slave.state = .synced then
      match decode logbuf with
      | .none _ _ => some s
      | .fault => none
      | .frame msg logbuf =>
        replayLoop fuel logbuf (s.apply crc64 ⟨msg.cmd, msg.args, msg.rawMsg.bytes logbuf.mem⟩)
    else some s

/-- `ReplayWAL(log, loglen)`; `mem` is the memory from `log` on. -/
def replayLog (mem : Bytes) (loglen : ℕ) (s : Repl) : Option Repl :=
  replayLoop crc64 (loglen + 1) (.wrap mem 0 loglen) s

/-- The callbacks of one `swal_replay`; `behind` is the memory behind each run. -/
def replayRuns (behind : Run → Bytes) : List Run → Repl → Option Repl
  | [], s => some s
  | r :: rs, s =>
    match replayLog crc64 (r.bytes s.wal ++ behind r) r.len.toNat s with
    | none => none
    | some s => replayRuns behind rs s

/-- `Slave::ReplayWAL()`. -/
def replayWAL (behind : Run → Bytes) (s : Repl) : Option Repl :=
  if s.slave.state ≠ .synced then some s
  else if s.replMeta.dataOffset = s.wal.logMeta.logEndOffset then some s
  else if s.slave.replayingWal then some s
  else
    let running := { s with slave := { s.slave with replayingWal := true } }
    match replayRuns crc64 behind (swalReplay s.wal s.replMeta.dataOffset (-1)) running with
    | none => none
    | some s => some { s with slave := { s.slave with replayingWal := false } }

end Replay

/-! ### One run -/

/-- What `Call` gets for a command of the stream. -/
def CommandFrame.call (c : CommandFrame) : Call := ⟨c.frame.cmd, c.frame.args, c.bytes⟩

/-- The bytes of a list of commands. -/
def streamBytes (frames : List CommandFrame) : Bytes := frames.flatMap CommandFrame.bytes

@[simp] theorem streamBytes_nil : streamBytes [] = [] := rfl

@[simp] theorem streamBytes_cons (c : CommandFrame) (frames : List CommandFrame) :
    streamBytes (c :: frames) = c.bytes ++ streamBytes frames := rfl

@[simp] theorem streamBytes_append (fs gs : List CommandFrame) :
    streamBytes (fs ++ gs) = streamBytes fs ++ streamBytes gs := List.flatMap_append

/-- The state after a list of commands. -/
def Repl.applyAll (crc64 : UInt64 → Bytes → UInt64) (s : Repl) (frames : List CommandFrame) : Repl :=
  frames.foldl (fun s c => s.apply crc64 c.call) s

section Apply

variable {crc64 : UInt64 → Bytes → UInt64}

@[simp] theorem Repl.apply_slave (s : Repl) (call : Call) : (s.apply crc64 call).slave = s.slave :=
  rfl

@[simp] theorem Repl.apply_wal (s : Repl) (call : Call) : (s.apply crc64 call).wal = s.wal := rfl

@[simp] theorem Repl.applyAll_slave (s : Repl) (frames : List CommandFrame) :
    (s.applyAll crc64 frames).slave = s.slave := by
  induction frames generalizing s with
  | nil => rfl
  | cons c frames ih => exact ih _

@[simp] theorem Repl.applyAll_wal (s : Repl) (frames : List CommandFrame) :
    (s.applyAll crc64 frames).wal = s.wal := by
  induction frames generalizing s with
  | nil => rfl
  | cons c frames ih => exact ih _

theorem Repl.applyAll_called (s : Repl) (frames : List CommandFrame) :
    (s.applyAll crc64 frames).called = s.called ++ frames.map CommandFrame.call := by
  induction frames generalizing s with
  | nil => simp [applyAll]
  | cons c frames ih =>
    have hstep : s.applyAll crc64 (c :: frames) = (s.apply crc64 c.call).applyAll crc64 frames := rfl
    rw [hstep, ih]
    simp [apply]

theorem Repl.applyAll_dataOffset (s : Repl) (frames : List CommandFrame) :
    (s.applyAll crc64 frames).replMeta.dataOffset
      = s.replMeta.dataOffset + (streamBytes frames).length.toUInt64 := by
  induction frames generalizing s with
  | nil => simp [applyAll, streamBytes]
  | cons c frames ih =>
    have hstep : s.applyAll crc64 (c :: frames) = (s.apply crc64 c.call).applyAll crc64 frames := rfl
    rw [hstep, ih, streamBytes_cons, List.length_append, toUInt64_add, ← UInt64.add_assoc]
    rfl

theorem Repl.applyAll_append (s : Repl) (fs gs : List CommandFrame) :
    s.applyAll crc64 (fs ++ gs) = (s.applyAll crc64 fs).applyAll crc64 gs := List.foldl_append

/-- The raw message of the command in front of the readable bytes. -/
theorem rawMsg_bytes {b : Buffer} {bs rest : Bytes} (h : b.Reads (bs ++ rest)) :
    (⟨b.readIdx, bs.length⟩ : View).bytes b.mem = bs := by
  have hslice := h.slice (i := 0) (n := bs.length) (by simp)
  rw [Nat.add_zero] at hslice
  rw [View.bytes, hslice]
  simp [Circular.slice]

/-- **A run of commands.** A run that holds complete commands and then nothing, or the front of one
more command, applies the complete ones. -/
theorem replayLoop_frames {frames : List CommandFrame} {p : Bytes}
    (hp : p = [] ∨ ∃ c : CommandFrame, ProperPrefix p c.bytes) {b : Buffer}
    (h : b.Reads (streamBytes frames ++ p)) {fuel : ℕ} (hfuel : (streamBytes frames).length < fuel)
    {s : Repl} (hs : s.slave.state = .synced) :
    replayLoop crc64 fuel b s = some (s.applyAll crc64 frames) := by
  induction fuel generalizing frames b s with
  | zero => omega
  | succ fuel ih =>
  cases frames with
  | nil =>
    rw [streamBytes_nil, List.nil_append] at h
    unfold replayLoop
    by_cases hne : p = []
    · rw [if_neg (by rw [h.readable]; simp [hne])]
      rfl
    · -- the front of a command: more data is needed
      obtain ⟨c, hc⟩ := hp.resolve_left hne
      rw [if_pos ⟨h.readable.mpr hne, hs⟩, decode_more c h hne hc]
      rfl
  | cons c frames =>
    rw [streamBytes_cons, List.append_assoc] at h
    have hpos := c.length_pos
    rw [streamBytes_cons, List.length_append] at hfuel
    have hreadable : b.Readable := by
      rw [h.readable, ← List.length_pos_iff, List.length_append]
      omega
    unfold replayLoop
    rw [if_pos ⟨hreadable, hs⟩, decode_frame c h]
    dsimp only
    rw [Buffer.advanceReadIndex_mem, rawMsg_bytes h]
    exact ih h.advance (by omega) hs

/-- **Any run.** Whatever a run holds, it moves the data offset by at most the bytes it holds. -/
theorem replayLoop_le {fuel : ℕ} {b : Buffer} (hb : b.readIdx ≤ b.writeIdx) {s s' : Repl}
    (h : replayLoop crc64 fuel b s = some s') :
    s'.wal = s.wal ∧ ∃ n, n ≤ b.writeIdx - b.readIdx ∧
      s'.replMeta.dataOffset = s.replMeta.dataOffset + n.toUInt64 := by
  induction fuel generalizing b s with
  | zero => cases h
  | succ fuel ih =>
    rw [replayLoop] at h
    split at h
    swap
    · obtain rfl := Option.some.inj h
      exact ⟨rfl, 0, Nat.zero_le _, by simp⟩
    split at h
    · obtain rfl := Option.some.inj h
      exact ⟨rfl, 0, Nat.zero_le _, by simp⟩
    · cases h
    next msg b₁ hdec =>
    obtain ⟨hahead, hoff, hlen⟩ := decode_ahead hdec
    obtain ⟨hwal, n, hn, hdata⟩ := ih hahead.inside h
    -- the raw bytes are at most as many as the read index moved
    generalize hraw : msg.rawMsg.bytes b₁.mem = raw at hdata
    have hrawlen : raw.length ≤ msg.rawMsg.len := by
      rw [← hraw]
      exact List.length_take_le _ _
    have hw := hahead.writeIdx
    have hin := hahead.inside
    have hle := hahead.le
    refine ⟨hwal, raw.length + n, by omega, ?_⟩
    rw [hdata, toUInt64_add, ← UInt64.add_assoc]
    rfl

end Apply

/-! ### Where a replay is cut -/

/-- The cursor of the store that serves a replay from `offset`: the log lies in front of it, and
the oldest bytes may lie behind it. -/
def Swal.wrapPoint (wal : Swal) (offset : UInt64) : UInt64 :=
  if servedByRing wal offset then wal.ringCacheIdx else wal.logMeta.logFilePos

/-- The number of bytes from `offset` to the place where the store wraps around; `0` when they do
not pass it. -/
def Swal.cut (wal : Swal) (offset : UInt64) : ℕ :=
  (wal.logMeta.logEndOffset - offset).toNat -
    min (wal.logMeta.logEndOffset - offset).toNat (wal.wrapPoint offset).toNat

/-- A block of `d` bytes that ends at the cursor `pos` of a store is one run, or the two that the
wrap point cuts it into. -/
theorem wrapRuns_lengths {region : Region} {size pos d : UInt64} (hsize : size.toNat < 2 ^ 63)
    (hd : pos.toNat < d.toNat) (hds : d.toNat ≤ size.toNat) :
    (wrapRuns region size (size - d + pos) d).map (fun r => r.len.toNat) =
      if pos = 0 then [d.toNat] else [d.toNat - pos.toNat, pos.toNat] := by
  have hsub : (size - d).toNat = size.toNat - d.toNat := toNat_sub_of_le hds
  have hstart : (size - d + pos).toNat = size.toNat - d.toNat + pos.toNat := by
    rw [toNat_add_of_lt (by omega), hsub]
  have hroom : (size - (size - d + pos)).toNat = d.toNat - pos.toNat := by
    rw [toNat_sub_of_le (by omega), hstart]
    omega
  have hrest : (size - d + pos + d - size).toNat = pos.toNat := by
    have hadd : (size - d + pos + d).toNat = size.toNat + pos.toNat := by
      rw [toNat_add_of_lt (by omega), hstart]
      omega
    rw [toNat_sub_of_le (by omega), hadd]
    omega
  unfold wrapRuns
  by_cases h0 : pos = 0
  · rw [if_pos h0, if_pos (by rw [UInt64.le_iff_toNat_le, hroom, h0]; simp)]
    rfl
  · have hpos : 0 < pos.toNat := Nat.pos_of_ne_zero fun hz => h0 (UInt64.toNat_inj.mp hz)
    rw [if_neg h0, if_neg (by rw [UInt64.le_iff_toNat_le, hroom]; omega)]
    simp only [List.map_cons, List.map_nil, hroom, hrest]

/-- **Where `swalReplay` cuts.** An unlimited replay is one run, or the two runs in front of and
behind the cut. -/
theorem Faithful.replayRuns_lengths {wal : Swal} {l : Log} (h : Faithful wal l) {offset : UInt64}
    (hlo : wal.logMeta.logStartOffset ≤ offset) (hhi : offset ≤ wal.logMeta.logEndOffset)
    {limitLen : Int64} (hlim : limitLen ≤ 0) :
    (swalReplay wal offset limitLen).map (fun r => r.len.toNat) =
        [(wal.logMeta.logEndOffset - offset).toNat] ∧
      (wal.cut offset = 0 ∨ wal.cut offset = (wal.logMeta.logEndOffset - offset).toNat) ∨
    (swalReplay wal offset limitLen).map (fun r => r.len.toNat) =
        [wal.cut offset, (wal.logMeta.logEndOffset - offset).toNat - wal.cut offset] := by
  have htotal : replayTotal wal offset limitLen = wal.logMeta.logEndOffset - offset := by
    unfold replayTotal
    dsimp only
    rw [if_neg (fun hc => absurd hc.1 (Int64.not_lt.mpr hlim))]
  obtain ⟨-, hdsize⟩ := window_sub h.file hlo hhi
  rw [← h.file.end_eq] at hdsize
  -- both stores are a cursor `pos` and `d` bytes in front of it
  have hstore : ∀ {region : Region} {size pos d : UInt64}, size.toNat < 2 ^ 63 →
      d.toNat ≤ size.toNat →
      (if d ≤ pos then [⟨region, pos - d, d⟩] else wrapRuns region size (size - d + pos) d).map
        (fun r => r.len.toNat) = [d.toNat] ∧
        (d.toNat - min d.toNat pos.toNat = 0 ∨ d.toNat - min d.toNat pos.toNat = d.toNat) ∨
      (if d ≤ pos then [⟨region, pos - d, d⟩] else wrapRuns region size (size - d + pos) d).map
        (fun r => r.len.toNat) =
          [d.toNat - min d.toNat pos.toNat, d.toNat - (d.toNat - min d.toNat pos.toNat)] := by
    intro region size pos d hsize hds
    by_cases hle : d ≤ pos
    · rw [if_pos hle]
      rw [UInt64.le_iff_toNat_le] at hle
      exact .inl ⟨rfl, .inl (by omega)⟩
    · rw [if_neg hle]
      rw [UInt64.le_iff_toNat_le] at hle
      rw [wrapRuns_lengths hsize (by omega) hds]
      by_cases h0 : pos = 0
      · rw [if_pos h0]
        exact .inl ⟨rfl, .inr (by simp [h0])⟩
      · rw [if_neg h0, Nat.min_eq_right (by omega), Nat.sub_sub_self (by omega)]
        exact .inr rfl
  unfold swalReplay Swal.cut Swal.wrapPoint
  dsimp only
  by_cases hring : servedByRing wal offset
  · have hwin := h.ringWindow hring.1
    have hrlo := hring.2
    rw [UInt64.le_iff_toNat_le] at hrlo hhi
    rw [toNat_sub_of_le (by omega)] at hwin
    have hd : (wal.logMeta.logEndOffset - offset).toNat ≤ wal.options.ringCacheSize.toNat := by
      rw [toNat_sub_of_le hhi]
      omega
    rw [if_pos hring, if_pos hring, htotal]
    exact hstore h.ring.size_lt hd
  · rw [if_neg hring, if_neg hring, htotal]
    unfold replayFile
    rw [if_pos hlo]
    exact hstore h.file.size_lt hdsize

/-! ### Cutting a stream of commands -/

/-- **Cutting a stream.** The front of a stream is some of its commands, and then nothing or the
front of the next one. -/
theorem take_streamBytes (frames : List CommandFrame) {n : ℕ}
    (hn : n ≤ (streamBytes frames).length) :
    ∃ fs gs p, frames = fs ++ gs ∧ (streamBytes frames).take n = streamBytes fs ++ p ∧
      (streamBytes frames).drop n = (streamBytes gs).drop p.length ∧
      (p = [] ∨ ∃ c : CommandFrame, ProperPrefix p c.bytes) := by
  induction frames generalizing n with
  | nil =>
    obtain rfl : n = 0 := by simpa using hn
    exact ⟨[], [], [], rfl, rfl, rfl, .inl rfl⟩
  | cons c frames ih =>
    rw [streamBytes_cons, List.length_append] at hn
    by_cases hlt : n < c.bytes.length
    · -- the cut is inside the first command
      refine ⟨[], c :: frames, c.bytes.take n, rfl, ?_, ?_, .inr ⟨c, List.take_prefix _ _, ?_⟩⟩
      · rw [streamBytes_cons, List.take_append_of_le_length (by omega)]
        rfl
      · rw [List.length_take, Nat.min_eq_left (by omega)]
      · intro heq
        have := congrArg List.length heq
        rw [List.length_take] at this
        omega
    · obtain ⟨fs, gs, p, rfl, htake, hdrop, hp⟩ := ih (n := n - c.bytes.length) (by omega)
      refine ⟨c :: fs, gs, p, rfl, ?_, ?_, hp⟩
      · rw [streamBytes_cons, List.take_append, List.take_of_length_le (by omega), htake,
          streamBytes_cons, List.append_assoc]
      · rw [streamBytes_cons, List.drop_append, List.drop_eq_nil_of_le (by omega), hdrop,
          List.nil_append]

/-- The cut lies between two commands of the stream (or at one of its ends). -/
def CutsBetween (frames : List CommandFrame) (n : ℕ) : Prop :=
  ∃ fs gs, frames = fs ++ gs ∧ (streamBytes fs).length = n

/-- **What the runs carry.** An unlimited replay of commands is one run that carries them all, or two
that carry the bytes in front of and behind the cut. -/
theorem Faithful.replay_split {wal : Swal} {l : Log} (h : Faithful wal l) {offset : UInt64}
    (hlo : wal.logMeta.logStartOffset ≤ offset) (hhi : offset ≤ wal.logMeta.logEndOffset)
    {frames : List CommandFrame} (hframes : l.since offset = streamBytes frames) :
    (streamBytes frames).length = (wal.logMeta.logEndOffset - offset).toNat ∧
    (∀ r ∈ swalReplay wal offset (-1), r.Inside wal) ∧
    ((∃ r, swalReplay wal offset (-1) = [r] ∧ r.bytes wal = streamBytes frames ∧
        CutsBetween frames (wal.cut offset)) ∨
      ∃ r₁ r₂, swalReplay wal offset (-1) = [r₁, r₂] ∧
        (r₁.bytes wal).length = wal.cut offset ∧ wal.cut offset ≤ (streamBytes frames).length ∧
        r₁.len.toNat + r₂.len.toNat = (streamBytes frames).length ∧
        r₁.bytes wal = (streamBytes frames).take (wal.cut offset) ∧
        r₂.bytes wal = (streamBytes frames).drop (wal.cut offset)) := by
  obtain ⟨hdl, -⟩ := window_sub h.file hlo hhi
  have hend := h.file.end_eq
  have hlim : ¬ (0 : Int64) < -1 := by decide
  generalize hd : (wal.logMeta.logEndOffset - offset).toNat = d
  rw [← hend, hd] at hdl
  have hlen : (streamBytes frames).length = d := by
    rw [← hframes, Log.since, List.length_drop, ← hend, hd]
    omega
  have hasked : l.asked offset (-1) = d := by
    unfold Log.asked
    rw [if_neg hlim, ← hend, hd]
  -- all of what is behind the offset is asked for, so the runs carry it
  have hcorrect : ReplayCorrect wal l offset (-1) := by
    rw [h.replayCorrect_iff hlo hhi]
    refine .inr (.inr (.inl ?_))
    rw [hasked, ← hend, hd]
  obtain ⟨hinside, hbytes⟩ := hcorrect
  rw [hframes, hasked, List.take_of_length_le hlen.le] at hbytes
  have hrlen : ∀ r ∈ swalReplay wal offset (-1), (r.bytes wal).length = r.len.toNat :=
    fun r hr => Circular.slice_length (hinside r hr)
  refine ⟨hlen, hinside, ?_⟩
  rcases h.replayRuns_lengths hlo hhi (Int64.not_lt.mp hlim) with ⟨hruns, hcut⟩ | hruns
  · -- one run: the cut lies at one of its ends
    obtain ⟨r, hr, -⟩ := List.map_eq_singleton_iff.mp hruns
    rw [hr] at hbytes
    refine .inl ⟨r, hr, by simpa using hbytes, ?_⟩
    rcases hcut with hcut | hcut
    · exact ⟨[], frames, rfl, by rw [hcut]; rfl⟩
    · exact ⟨frames, [], by simp, by rw [hcut, hlen, hd]⟩
  · -- two runs, cut after `f` bytes
    rw [hd] at hruns
    generalize hf : wal.cut offset = f at hruns ⊢
    have hfd : f ≤ d := by
      rw [← hf, Swal.cut, hd]
      exact Nat.sub_le _ _
    obtain ⟨r₁, rs, hr, hlen₁, hrs⟩ := List.map_eq_cons_iff.mp hruns
    obtain ⟨r₂, rfl, hlen₂⟩ := List.map_eq_singleton_iff.mp hrs
    rw [hr] at hbytes hrlen
    simp only [List.flatMap_cons, List.flatMap_nil, List.append_nil] at hbytes
    have hb₁ : (r₁.bytes wal).length = f := (hrlen r₁ (by simp)).trans hlen₁
    refine .inr ⟨r₁, r₂, hr, hb₁, by omega, by omega, ?_, ?_⟩
    · rw [← hbytes, ← hb₁, List.take_left]
    · rw [← hbytes, ← hb₁, List.drop_left]

/-- When the cut lies between two commands, every run carries complete commands. -/
theorem Faithful.replay_parts {wal : Swal} {l : Log} (h : Faithful wal l) {offset : UInt64}
    (hlo : wal.logMeta.logStartOffset ≤ offset) (hhi : offset ≤ wal.logMeta.logEndOffset)
    {frames : List CommandFrame} (hframes : l.since offset = streamBytes frames)
    (hcut : CutsBetween frames (wal.cut offset)) :
    ∃ parts : List (List CommandFrame), parts.flatten = frames ∧
      (swalReplay wal offset (-1)).map (Run.bytes wal) = parts.map streamBytes := by
  obtain ⟨-, -, ⟨r, hr, hbytes, -⟩ | ⟨r₁, r₂, hr, -, -, -, htake, hdrop⟩⟩ :=
    h.replay_split hlo hhi hframes
  · exact ⟨[frames], by simp, by simp [hr, hbytes]⟩
  · obtain ⟨fs, gs, rfl, hfs⟩ := hcut
    refine ⟨[fs, gs], by simp, ?_⟩
    rw [streamBytes_append] at htake hdrop
    simp only [hr, List.map_cons, List.map_nil, htake, hdrop, ← hfs, List.take_left, List.drop_left]

/-! ### The whole replay -/

/-- The replay returns, has passed exactly these commands to `Call`, each with its own bytes and in
order, and has brought the data offset to the end of the log. -/
def ReplaysExactly (s : Repl) (frames : List CommandFrame) (result : Option Repl) : Prop :=
  ∃ s', result = some s' ∧ s'.called = s.called ++ frames.map CommandFrame.call ∧
    s'.replMeta.dataOffset = s.wal.logMeta.logEndOffset

section Whole

variable {crc64 : UInt64 → Bytes → UInt64} {behind : Run → Bytes}

/-- One run that holds complete commands, and perhaps the front of another. -/
theorem replayLog_frames {frames : List CommandFrame} {p mem : Bytes}
    (hp : p = [] ∨ ∃ c : CommandFrame, ProperPrefix p c.bytes) {s : Repl}
    (hs : s.slave.state = .synced) :
    replayLog crc64 (streamBytes frames ++ p ++ mem) (streamBytes frames ++ p).length s
      = some (s.applyAll crc64 frames) := by
  refine replayLoop_frames hp (Buffer.reads_wrap _ _) ?_ hs
  rw [List.length_append]
  omega

/-- Two runs cut at a place between two commands, or one run, apply every command. -/
theorem replayRuns_exact {frames : List CommandFrame} {s : Repl} (hs : s.slave.state = .synced)
    {runs : List Run} {parts : List (List CommandFrame)} (hparts : parts.flatten = frames)
    (hruns : runs.map (Run.bytes s.wal) = parts.map streamBytes)
    (hlen : ∀ r ∈ runs, (r.bytes s.wal).length = r.len.toNat) :
    replayRuns crc64 behind runs s = some (s.applyAll crc64 frames) := by
  induction runs generalizing s parts frames with
  | nil =>
    obtain rfl : parts = [] := by simpa using hruns.symm
    obtain rfl : frames = [] := by simpa using hparts.symm
    rfl
  | cons r runs ih =>
    cases parts with
    | nil => simp at hruns
    | cons fs parts =>
      obtain ⟨hr, hruns⟩ := List.cons.inj (by simpa only [List.map_cons] using hruns)
      rw [List.flatten_cons] at hparts
      have hlog := @replayLog_frames crc64 fs [] (behind r) (.inl rfl) s hs
      rw [List.append_nil, ← hr, hlen r (by simp)] at hlog
      rw [replayRuns, hlog]
      dsimp only
      rw [ih (by simpa using hs) rfl (by simpa using hruns) fun r' hr' => by
        simpa using hlen r' (List.mem_cons_of_mem _ hr')]
      rw [← hparts, Repl.applyAll_append]

/-- A run cut inside a command loses that command: the rest of the replay cannot bring the data
offset to the end of the log. -/
theorem replayRuns_behind {frames : List CommandFrame} {s s' : Repl} (hs : s.slave.state = .synced)
    {r₁ r₂ : Run} (hr₁ : r₁.bytes s.wal = (streamBytes frames).take (r₁.bytes s.wal).length)
    (hlen₁ : (r₁.bytes s.wal).length = r₁.len.toNat)
    (hle : (r₁.bytes s.wal).length ≤ (streamBytes frames).length)
    (hcut : ¬ CutsBetween frames (r₁.bytes s.wal).length)
    (h : replayRuns crc64 behind [r₁, r₂] s = some s') :
    ∃ n, n < r₁.len.toNat + r₂.len.toNat ∧
      s'.replMeta.dataOffset = s.replMeta.dataOffset + n.toUInt64 := by
  obtain ⟨fs, gs, p, rfl, htake, -, hp⟩ := take_streamBytes frames hle
  rw [htake] at hr₁
  have hpne : 0 < p.length := by
    rw [List.length_pos_iff]
    rintro rfl
    exact hcut ⟨fs, gs, rfl, by rw [hr₁, List.append_nil]⟩
  -- the first run applies the commands in front of the one that is cut
  have hfirst := @replayLog_frames crc64 fs p (behind r₁) hp s hs
  rw [← hr₁, hlen₁] at hfirst
  rw [replayRuns, hfirst] at h
  dsimp only at h
  rw [replayRuns] at h
  split at h
  · cases h
  next s₂ hsecond =>
  obtain rfl := Option.some.inj h
  obtain ⟨-, n, hn, hdata⟩ := replayLoop_le (Nat.zero_le _) hsecond
  refine ⟨(streamBytes fs).length + n, ?_, ?_⟩
  · have hn' : n ≤ r₂.len.toNat := by simpa [Buffer.wrap] using hn
    rw [← hlen₁, hr₁, List.length_append]
    omega
  · rw [hdata, Repl.applyAll_dataOffset, toUInt64_add, UInt64.add_assoc]

/-- **One call of `ReplayWAL()`** in a log that reads back. -/
theorem Faithful.replayWAL_iff {s : Repl} {l : Log} (h : Faithful s.wal l)
    (hs : s.slave.state = .synced) (hidle : s.slave.replayingWal = false)
    (hlo : s.wal.logMeta.logStartOffset ≤ s.replMeta.dataOffset)
    (hhi : s.replMeta.dataOffset ≤ s.wal.logMeta.logEndOffset) {frames : List CommandFrame}
    (hframes : l.since s.replMeta.dataOffset = streamBytes frames) :
    ReplaysExactly s frames (replayWAL crc64 behind s) ↔
      CutsBetween frames (s.wal.cut s.replMeta.dataOffset) := by
  obtain ⟨hlen, hinside, hsplit⟩ := h.replay_split hlo hhi hframes
  have hrlen : ∀ r ∈ swalReplay s.wal s.replMeta.dataOffset (-1),
      (r.bytes s.wal).length = r.len.toNat := fun r hr => Circular.slice_length (hinside r hr)
  unfold replayWAL
  rw [if_neg (by simp [hs])]
  by_cases hdone : s.replMeta.dataOffset = s.wal.logMeta.logEndOffset
  · -- nothing to replay
    obtain rfl : frames = [] := by
      cases frames with
      | nil => rfl
      | cons c frames =>
        have := c.length_pos
        rw [streamBytes_cons, List.length_append, hdone, UInt64.sub_self, UInt64.toNat_zero] at hlen
        omega
    rw [if_pos hdone]
    refine ⟨fun _ => ⟨[], [], rfl, ?_⟩, fun _ => ⟨s, rfl, by simp, hdone⟩⟩
    simp [Swal.cut, hdone]
  rw [if_neg hdone, if_neg (by simp [hidle])]
  dsimp only
  generalize hrunning : ({ s with slave := { s.slave with replayingWal := true } } : Repl) = running
  have hsrun : running.slave.state = .synced := by rw [← hrunning]; exact hs
  have hwal : running.wal = s.wal := by rw [← hrunning]
  have hdata : running.replMeta = s.replMeta := by rw [← hrunning]
  have hcalled : running.called = s.called := by rw [← hrunning]
  constructor
  · rintro ⟨s', hresult, -, hoff⟩
    -- with one run the cut is no cut; with two, the first stops in front of the command it cuts
    rcases hsplit with ⟨-, -, -, hcut⟩ | ⟨r₁, r₂, hr, hb₁, hle, hsum, htake, -⟩
    · exact hcut
    by_contra hcut
    have hlen₁ := hrlen r₁ (by simp [hr])
    split at hresult
    · cases hresult
    next s₂ hrun =>
    rw [hr] at hrun
    obtain rfl := Option.some.inj hresult
    obtain ⟨n, hn, hdata₂⟩ := @replayRuns_behind crc64 behind frames running s₂ hsrun r₁ r₂
      (by rw [hwal, hb₁]; exact htake) (by rw [hwal, hlen₁]) (by rw [hwal, hb₁]; exact hle)
      (by rw [hwal, hb₁]; exact hcut) hrun
    -- fewer bytes than there are to the end
    have hsub : (s.wal.logMeta.logEndOffset - s.replMeta.dataOffset).toNat = n := by
      change s₂.replMeta.dataOffset = _ at hoff
      rw [← hoff, hdata₂, hdata, UInt64.add_comm, UInt64.add_sub_cancel]
      have hlt64 := UInt64.toNat_lt (s.wal.logMeta.logEndOffset - s.replMeta.dataOffset)
      simp only [Nat.toUInt64, UInt64.toNat_ofNat']
      exact Nat.mod_eq_of_lt (by omega)
    omega
  · intro hcut
    -- every run carries complete commands, which are executed one after the other
    obtain ⟨parts, hparts, hmap⟩ := h.replay_parts hlo hhi hframes hcut
    rw [replayRuns_exact hsrun hparts (by rw [hwal]; exact hmap) (by rw [hwal]; exact hrlen)]
    refine ⟨_, rfl, ?_, ?_⟩
    · rw [← hcalled]
      exact Repl.applyAll_called _ _
    · change (running.applyAll crc64 frames).replMeta.dataOffset = _
      rw [Repl.applyAll_dataOffset, hlen, hdata, Nat.toUInt64, UInt64.ofNat_toNat]
      grind

end Whole

/-- The number `1` and the number `4`. -/
def numeralOne : Numeral := ⟨[49], List.cons_ne_nil _ _, List.forall_mem_singleton.2 rfl⟩

def numeralFour : Numeral := ⟨[52], List.cons_ne_nil _ _, List.forall_mem_singleton.2 rfl⟩

/-- `*1\r\n$4\r\nping\r\n`, fourteen bytes. -/
def pingRequest : Multibulk where
  count := numeralOne
  cmd := ⟨numeralFour, [112, 105, 110, 103], by decide, by decide⟩
  args := []
  count_eq := by decide
  small := by decide

/-- A file of sixteen bytes, no ring. -/
def pingOptions : SwalOptions :=
  { maxFileSize := 16, ringCacheSize := 0, cksmFunc := none }

/-- The fresh log with these options. -/
def pingWal : Swal :=
  { options := pingOptions, logMeta := SwalDir.fresh.logMeta, file := List.replicate 16 0
    fdPos := 0, ringCache := none, ringCacheStartOffset := 0, ringCacheIdx := 0 }

/-- Two requests are logged. -/
def pingOps : List SwalOp :=
  [.append ⟨pingRequest.bytes, by decide⟩, .append ⟨pingRequest.bytes, by decide⟩]

/-- The log after two requests: the second starts two bytes before the end of the file. -/
def pingWal₂ : Swal := (swalRun pingWal pingOps).getD pingWal

/-- A synced slave that has executed the first request. -/
def pingSlave : Repl :=
  { wal := pingWal₂, replMeta := { dataCksm := 0, dataOffset := 14 }
    slave := { state := .synced, replayingWal := false }, called := [] }

end Comms
