import Comms.Repl.SwalRestart

/-!
# Another size for the log file

`swal_open` takes `max_file_size` from its options and the window and the cursor from the meta page,
and never compares them: a window that was laid out in a file of one size is read, and written on, in
a file of another.

* `writeChunk` — one round of the loop over the file; `ChunksFit` — no round starts behind the end;
* `Swal.unrolled` — what the mapping holds, up to the cursor: all a replay of the file can hand out
  (`replay_unrolled`);
* `Resized` — a log whose window is the end of it, kept by every append (`Resized.append`);
* `resize_correct_iff` — the changes of the size after which a log reads back.
-/

namespace Comms

open Circular

/-! ### Rounds of the loop -/

/-- `thislen` of a round. -/
def chunkLen (wal : Swal) (p : List UInt8) : UInt64 :=
  if p.length.toUInt64 < wal.options.maxFileSize - wal.logMeta.logFilePos then p.length.toUInt64
  else wal.options.maxFileSize - wal.logMeta.logFilePos

/-- A round whose `write` is full. -/
def writeChunk (wal : Swal) (p : List UInt8) : Swal :=
  let pos := wal.logMeta.logFilePos + chunkLen wal p
  let wrap := pos = wal.options.maxFileSize
  { wal with
    file := splice (padTo wal.fdPos.toNat wal.file) wal.fdPos.toNat (p.take (chunkLen wal p).toNat)
    fdPos := if wrap then 0 else wal.fdPos + (chunkLen wal p).toNat.toUInt64
    logMeta := { wal.logMeta with logFilePos := if wrap then 0 else pos } }

theorem writeLoop_nil (fuel : ℕ) (wal : Swal) : writeLoop (fuel + 1) [] wal [] = some (0, wal) := rfl

theorem writeLoop_cons {p : List UInt8} (hne : p ≠ []) (fuel : ℕ) (wal : Swal) :
    writeLoop (fuel + 1) [] wal p =
      writeLoop fuel [] (writeChunk wal p) (p.drop (chunkLen wal p).toNat) := by
  rw [writeLoop, if_neg (by simpa using hne)]
  rfl

/-- No round of the loop starts with `log_file_pos` behind `max_file_size`, where `thislen` would be
negative. -/
def ChunksFit : ℕ → Swal → List UInt8 → Prop
  | 0, _, _ => True
  | fuel + 1, wal, p => wal.logMeta.logFilePos ≤ wal.options.maxFileSize ∧
      (p ≠ [] → ChunksFit fuel (writeChunk wal p) (p.drop (chunkLen wal p).toNat))

/-- A log whose cursor is in the file, and the descriptor with it. -/
structure Fitted (wal : Swal) : Prop where
  size_lt : wal.options.maxFileSize.toNat < 2 ^ 63
  length_eq : wal.file.length = wal.options.maxFileSize.toNat
  fd_eq : wal.fdPos = wal.logMeta.logFilePos
  pos_le : wal.logMeta.logFilePos ≤ wal.options.maxFileSize

/-- A round goes as far as the record or the file. -/
theorem chunkLen_toNat {wal : Swal} {p : List UInt8} (hp : p.length < 2 ^ 63)
    (hpos : wal.logMeta.logFilePos ≤ wal.options.maxFileSize) : (chunkLen wal p).toNat =
      min p.length (wal.options.maxFileSize.toNat - wal.logMeta.logFilePos.toNat) := by
  rw [UInt64.le_iff_toNat_le] at hpos
  have hlen : p.length.toUInt64.toNat = p.length := length_toNat (by omega)
  have hroom := toNat_sub_of_le hpos
  unfold chunkLen
  split
  · next h =>
    rw [UInt64.lt_iff_toNat_lt] at h
    omega
  · next h =>
    rw [UInt64.lt_iff_toNat_lt] at h
    omega

/-- The cursor stays in the file. -/
theorem writeChunk_pos_le {wal : Swal} {p : List UInt8}
    (hsize : wal.options.maxFileSize.toNat < 2 ^ 63) (hp : p.length < 2 ^ 63)
    (hpos : wal.logMeta.logFilePos ≤ wal.options.maxFileSize) :
    (writeChunk wal p).logMeta.logFilePos ≤ wal.options.maxFileSize := by
  have hchunk := chunkLen_toNat hp hpos
  rw [UInt64.le_iff_toNat_le] at hpos ⊢
  change (if _ then _ else _ : UInt64).toNat ≤ _
  split
  · exact Nat.zero_le _
  · rw [toNat_add_of_lt (by omega)]
    omega

theorem chunksFit {wal : Swal} (hsize : wal.options.maxFileSize.toNat < 2 ^ 63)
    (hpos : wal.logMeta.logFilePos ≤ wal.options.maxFileSize) {p : List UInt8}
    (hp : p.length < 2 ^ 63) (fuel : ℕ) : ChunksFit fuel wal p := by
  induction fuel generalizing wal p with
  | zero => trivial
  | succ fuel ih =>
    refine ⟨hpos, fun _ => ?_⟩
    apply ih
    · exact hsize
    · exact writeChunk_pos_le hsize hp hpos
    · rw [List.length_drop]
      omega

theorem Fitted.writeChunk {wal : Swal} (h : Fitted wal) {p : List UInt8} (hp : p.length < 2 ^ 63) :
    Fitted (writeChunk wal p) := by
  have hchunk := chunkLen_toNat hp h.pos_le
  have hpos := h.pos_le
  rw [UInt64.le_iff_toNat_le] at hpos
  refine ⟨h.size_lt, ?_, ?_, writeChunk_pos_le h.size_lt hp h.pos_le⟩
  · change (splice (padTo _ _) _ _).length = _
    rw [padTo_of_le (by rw [h.length_eq, h.fd_eq]; exact hpos), splice_length, h.length_eq]
    · rfl
    · rw [List.length_take, h.length_eq, h.fd_eq]
      omega
  · change (if _ then _ else _ : UInt64) = if _ then _ else _
    rw [h.fd_eq]
    congr 2
    exact UInt64.ofNat_toNat

theorem writeLoop_fitted {wal wal' : Swal} (h : Fitted wal) {p : List UInt8}
    (hp : p.length < 2 ^ 63) {fuel : ℕ} {err : Int}
    (hrun : writeLoop fuel [] wal p = some (err, wal')) : Fitted wal' := by
  induction fuel generalizing wal p with
  | zero => cases hrun
  | succ fuel ih =>
    by_cases hne : p = []
    · subst hne
      obtain ⟨-, rfl⟩ := Prod.mk.inj (Option.some.inj hrun)
      exact h
    · rw [writeLoop_cons hne] at hrun
      exact ih (h.writeChunk hp) (by rw [List.length_drop]; omega) hrun

/-- An append leaves the cursor in the file. -/
theorem swalStep_fitted {wal wal' : Swal} (h : Fitted wal) {log : Obj}
    (hstep : swalStep wal (.append log) = some wal') : Fitted wal' := by
  obtain ⟨⟨err, wal₂⟩, happ, rfl⟩ := Option.map_eq_some_iff.mp hstep
  unfold swalAppend at happ
  split at happ
  · cases happ
  next err₁ wal₁ hloop =>
  have hfit := writeLoop_fitted h log.small hloop
  split at happ
  · obtain ⟨-, rfl⟩ := Prod.mk.inj (Option.some.inj happ)
    exact hfit
  split at happ
  · cases happ
  next wal₃ hring =>
  obtain ⟨-, rfl⟩ := Prod.mk.inj (Option.some.inj happ)
  -- the ring has a cursor of its own
  unfold appendRing at hring
  split at hring
  · cases hring
    exact ⟨hfit.size_lt, hfit.length_eq, hfit.fd_eq, hfit.pos_le⟩
  · split at hring
    · cases hring
    · cases hring
      exact ⟨hfit.size_lt, hfit.length_eq, hfit.fd_eq, hfit.pos_le⟩

/-! ### A file that is longer than the log -/

/-- The file goes on behind `max_file_size`. -/
def Swal.withTail (wal : Swal) (tail : List UInt8) : Swal := { wal with file := wal.file ++ tail }

section Tail

variable {wal : Swal} {tail : List UInt8}

theorem writeChunk_withTail (h : Fitted wal) {p : List UInt8} (hp : p.length < 2 ^ 63) :
    writeChunk (wal.withTail tail) p = (writeChunk wal p).withTail tail := by
  have hchunk : (chunkLen wal p).toNat = _ := chunkLen_toNat hp h.pos_le
  have hpos := h.pos_le
  rw [UInt64.le_iff_toNat_le] at hpos
  have hfile : splice (padTo wal.fdPos.toNat (wal.file ++ tail)) wal.fdPos.toNat
      (p.take (chunkLen wal p).toNat) =
      splice (padTo wal.fdPos.toNat wal.file) wal.fdPos.toNat (p.take (chunkLen wal p).toNat) ++
        tail := by
    rw [padTo_of_le (by rw [List.length_append, h.length_eq, h.fd_eq]; omega),
      padTo_of_le (by rw [h.length_eq, h.fd_eq]; exact hpos), splice_append]
    rw [List.length_take, h.length_eq, h.fd_eq]
    omega
  have hround : writeChunk (wal.withTail tail) p = { writeChunk wal p with
      file := splice (padTo wal.fdPos.toNat (wal.file ++ tail)) wal.fdPos.toNat
        (p.take (chunkLen wal p).toNat) } := rfl
  rw [hround, hfile]
  rfl

theorem writeLoop_withTail (h : Fitted wal) {p : List UInt8} (hp : p.length < 2 ^ 63) (fuel : ℕ) :
    writeLoop fuel [] (wal.withTail tail) p =
      (writeLoop fuel [] wal p).map fun r => (r.1, r.2.withTail tail) := by
  induction fuel generalizing wal p with
  | zero => rfl
  | succ fuel ih =>
    by_cases hne : p = []
    · subst hne
      rfl
    · rw [writeLoop_cons hne, writeLoop_cons hne, writeChunk_withTail h hp]
      exact ih (h.writeChunk hp) (by rw [List.length_drop]; omega)

theorem appendRing_withTail (p : List UInt8) :
    appendRing (wal.withTail tail) p = (appendRing wal p).map (·.withTail tail) := by
  obtain ⟨options, logMeta, file, fdPos, cache, start, idx⟩ := wal
  cases cache with
  | none => rfl
  | some ring =>
    unfold appendRing Swal.withTail
    dsimp only
    cases ringLoop options.ringCacheSize (p.length + 1) ring idx p <;> rfl

theorem swalStep_withTail (h : Fitted wal) (log : Obj) :
    swalStep (wal.withTail tail) (.append log) =
      (swalStep wal (.append log)).map (·.withTail tail) := by
  change (swalAppend (wal.withTail tail) [] log).map Prod.snd =
    ((swalAppend wal [] log).map Prod.snd).map (·.withTail tail)
  unfold swalAppend
  rw [writeLoop_withTail h log.small]
  cases writeLoop (log.bytes.length + 2) [] wal log.bytes with
  | none => rfl
  | some r =>
    obtain ⟨err, wal₁⟩ := r
    dsimp only [Option.map_some]
    split
    · rfl
    · have hring := @appendRing_withTail
        { wal₁ with logMeta := appendMeta wal₁.options wal₁.logMeta log.bytes } tail log.bytes
      let logMeta := appendMeta (wal₁.withTail tail).options (wal₁.withTail tail).logMeta log.bytes
      change appendRing { wal₁.withTail tail with logMeta := logMeta } log.bytes = _ at hring
      rw [hring]
      cases appendRing { wal₁ with
        logMeta := appendMeta wal₁.options wal₁.logMeta log.bytes } log.bytes <;> rfl

theorem swalRun_withTail (h : Fitted wal) (logs : List Obj) :
    swalRun (wal.withTail tail) (appendOps logs) =
      (swalRun wal (appendOps logs)).map (·.withTail tail) := by
  induction logs generalizing wal with
  | nil => rfl
  | cons log logs ih =>
    change (swalStep (wal.withTail tail) (.append log)).bind (fun wal => swalRun wal (appendOps logs)) =
      ((swalStep wal (.append log)).bind fun wal => swalRun wal (appendOps logs)).map _
    rw [swalStep_withTail h]
    cases hstep : swalStep wal (.append log) with
    | none => rfl
    | some wal₁ => exact ih (swalStep_fitted h hstep)

/-- The mapping ends in front of the tail. -/
theorem region_withTail (h : wal.file.length = wal.options.maxFileSize.toNat) :
    (wal.withTail tail).region = wal.region := by
  funext region
  cases region with
  | ring => rfl
  | file =>
    change (wal.file ++ tail).take wal.options.maxFileSize.toNat =
      wal.file.take wal.options.maxFileSize.toNat
    rw [← h, List.take_left, List.take_length]

theorem runsCarry_withTail (h : wal.file.length = wal.options.maxFileSize.toNat) (runs : List Run)
    (bs : List UInt8) : RunsCarry (wal.withTail tail) runs bs ↔ RunsCarry wal runs bs := by
  unfold RunsCarry Run.bytes Run.Inside
  rw [region_withTail h]

theorem readsBack_withTail (h : wal.file.length = wal.options.maxFileSize.toNat) (l : Log) :
    ReadsBack (wal.withTail tail) l ↔ ReadsBack wal l := by
  unfold ReadsBack ReplayCorrect
  simp only [runsCarry_withTail h]
  rfl

end Tail

/-! ### Reading a file -/

/-- The mapping once around, and again up to the cursor. -/
def Swal.unrolled (wal : Swal) : List UInt8 := unroll wal.file wal.logMeta.logFilePos.toNat

theorem Fitted.unrolled_length {wal : Swal} (h : Fitted wal) : wal.unrolled.length =
    wal.options.maxFileSize.toNat + wal.logMeta.logFilePos.toNat := by
  have hpos := h.pos_le
  rw [UInt64.le_iff_toNat_le] at hpos
  unfold Swal.unrolled
  rw [unroll_length (by rw [h.length_eq]; exact hpos), h.length_eq]

section Read

variable {wal : Swal} {offset : UInt64} {limitLen : Int64}

/-- Without a limit the total is the distance from the end. -/
theorem replayTotal_unlimited (hlim : limitLen ≤ 0) :
    replayTotal wal offset limitLen = wal.logMeta.logEndOffset - offset := by
  unfold replayTotal
  rw [if_neg fun h => Int64.not_lt.mpr hlim h.1]

theorem Fitted.region_file (h : Fitted wal) : wal.region .file = wal.file := by
  change wal.file.take wal.options.maxFileSize.toNat = wal.file
  rw [← h.length_eq, List.take_length]

/-- **What a replay of the file hands out.** As far back as the unrolled mapping goes it is the end of
it, whatever was logged. -/
theorem Fitted.replay_unrolled (h : Fitted wal) (hlim : limitLen ≤ 0)
    (hlo : wal.logMeta.logStartOffset ≤ offset) (hring : ¬ servedByRing wal offset)
    (hd : (wal.logMeta.logEndOffset - offset).toNat ≤ wal.unrolled.length) :
    RunsCarry wal (swalReplay wal offset limitLen)
      (wal.unrolled.rtake (wal.logMeta.logEndOffset - offset).toNat) := by
  have hlen := h.unrolled_length
  have hsize := h.size_lt
  have hpos := h.pos_le
  rw [UInt64.le_iff_toNat_le] at hpos
  rw [hlen] at hd
  have hcells := h.length_eq
  have hbytes (start len : UInt64) : (Run.mk .file start len).bytes wal =
      slice wal.file start.toNat len.toNat := by
    unfold Run.bytes
    dsimp only
    rw [h.region_file]
  have hinside (start len : UInt64) : (Run.mk .file start len).Inside wal ↔
      start.toNat + len.toNat ≤ wal.options.maxFileSize.toNat := by
    unfold Run.Inside
    dsimp only
    rw [h.region_file, hcells]
  unfold swalReplay
  rw [if_neg hring, replayTotal_unlimited hlim, rtake_eq_slice, hlen, ← hcells]
  unfold replayFile Swal.unrolled
  rw [if_pos hlo]
  dsimp only
  generalize wal.logMeta.logEndOffset - offset = d at hd ⊢
  split
  · next hdirect =>
    -- the block in front of the cursor
    rw [UInt64.le_iff_toNat_le] at hdirect
    have hstart := toNat_sub_of_le hdirect
    rw [slice_unroll_front hdirect]
    refine ⟨fun r hr => ?_, ?_⟩
    · obtain rfl := List.mem_singleton.mp hr
      rw [hinside, hstart]
      omega
    · rw [List.flatMap_singleton, hbytes, hstart]
  · next hwrapped =>
    rw [UInt64.le_iff_toNat_le] at hwrapped
    have hstart : (wal.options.maxFileSize - d + wal.logMeta.logFilePos).toNat =
        wal.options.maxFileSize.toNat + wal.logMeta.logFilePos.toNat - d.toNat := by
      rw [UInt64.toNat_add, UInt64.toNat_sub]
      omega
    have hroom : (wal.options.maxFileSize -
        (wal.options.maxFileSize - d + wal.logMeta.logFilePos)).toNat =
        d.toNat - wal.logMeta.logFilePos.toNat := by
      rw [UInt64.toNat_sub, hstart]
      omega
    rw [slice_unroll_wrapped (by omega) (by rw [hcells]; omega), hcells]
    generalize wal.options.maxFileSize - d + wal.logMeta.logFilePos = start at hstart hroom ⊢
    unfold wrapRuns
    split
    · next hone =>
      -- the cursor is at the start of the file
      rw [UInt64.le_iff_toNat_le, hroom] at hone
      have hzero : wal.logMeta.logFilePos.toNat = 0 := by omega
      refine ⟨fun r hr => ?_, ?_⟩
      · obtain rfl := List.mem_singleton.mp hr
        rw [hinside, hstart]
        omega
      · rw [List.flatMap_singleton, hbytes, hstart, hzero, slice_zero, List.append_nil]
        rfl
    · next htwo =>
      rw [UInt64.le_iff_toNat_le, hroom] at htwo
      have hrest : (start + d - wal.options.maxFileSize).toNat = wal.logMeta.logFilePos.toNat := by
        rw [UInt64.toNat_sub, UInt64.toNat_add, hstart]
        omega
      refine ⟨fun r hr => ?_, ?_⟩
      · rcases List.mem_cons.mp hr with rfl | hr
        · rw [hinside, hstart, hroom]
          omega
        · obtain rfl := List.mem_singleton.mp hr
          rw [hinside, hrest, UInt64.toNat_zero]
          omega
      · rw [List.flatMap_cons, List.flatMap_singleton, hbytes, hbytes, hstart, hroom, hrest,
          UInt64.toNat_zero]

/-- Farther back a run does not lie in the mapping. -/
theorem Fitted.replay_behind (h : Fitted wal) (hlim : limitLen ≤ 0)
    (hlo : wal.logMeta.logStartOffset ≤ offset) (hring : ¬ servedByRing wal offset)
    (hd : wal.unrolled.length < (wal.logMeta.logEndOffset - offset).toNat) :
    ∃ r ∈ swalReplay wal offset limitLen, ¬ r.Inside wal := by
  have hlen := h.unrolled_length
  have hsize := h.size_lt
  have hpos := h.pos_le
  rw [UInt64.le_iff_toNat_le] at hpos
  rw [hlen] at hd
  unfold swalReplay
  rw [if_neg hring, replayTotal_unlimited hlim]
  unfold replayFile
  rw [if_pos hlo]
  dsimp only
  generalize wal.logMeta.logEndOffset - offset = d at hd ⊢
  have hdlt := d.toNat_lt
  rw [if_neg (by rw [UInt64.le_iff_toNat_le]; omega)]
  -- the start wraps around to a number at the end of `size_t`
  have hstart : (wal.options.maxFileSize - d + wal.logMeta.logFilePos).toNat =
      2 ^ 64 + wal.options.maxFileSize.toNat + wal.logMeta.logFilePos.toNat - d.toNat := by
    rw [UInt64.toNat_add, UInt64.toNat_sub]
    omega
  have hroom : (wal.options.maxFileSize -
      (wal.options.maxFileSize - d + wal.logMeta.logFilePos)).toNat =
      d.toNat - wal.logMeta.logFilePos.toNat := by
    rw [UInt64.toNat_sub, hstart]
    omega
  generalize wal.options.maxFileSize - d + wal.logMeta.logFilePos = start at hstart hroom ⊢
  unfold wrapRuns Run.Inside
  split
  · next hone =>
    refine ⟨_, List.mem_singleton_self _, ?_⟩
    dsimp only
    rw [h.region_file, h.length_eq, hstart]
    omega
  · refine ⟨_, List.mem_cons_self, ?_⟩
    dsimp only
    rw [h.region_file, h.length_eq, hstart, hroom]
    omega

end Read

/-! ### Logs whose window is read -/

/-- The length of the window. -/
def Swal.window (wal : Swal) : ℕ := (wal.logMeta.logEndOffset - wal.logMeta.logStartOffset).toNat

/-- A log without a ring, whose window is the end of `l` wherever the cursor is. -/
structure Resized (wal : Swal) (l : Log) : Prop where
  fitted : Fitted wal
  size_pos : 0 < wal.options.maxFileSize.toNat
  no_ring : wal.ringCache = none
  end_eq : wal.logMeta.logEndOffset = l.endOffset
  window_lt : wal.window < 2 ^ 63
  window_le : wal.window ≤ wal.unrolled.length
  read : wal.unrolled.rtake wal.window = l.bytes.rtake wal.window
  logged : wal.window ≤ l.bytes.length

/-- In front of the end of the file the file holds the unrolled mapping. -/
theorem Fitted.cursor {wal : Swal} (h : Fitted wal)
    (hpos : wal.logMeta.logFilePos.toNat < wal.options.maxFileSize.toNat) :
    CursorRep wal wal.unrolled := by
  have hholds := @holds_unroll _ wal.file wal.logMeta.logFilePos.toNat (by rw [h.length_eq]; omega)
  rw [h.length_eq] at hholds
  refine ⟨h.size_lt, ?_, h.fd_eq, hholds⟩
  rw [h.unrolled_length, Nat.add_mod_left, Nat.mod_eq_of_lt hpos]

/-- At the end of the file a round writes nothing and goes back to the start. -/
theorem Fitted.cursor_end {wal : Swal} (h : Fitted wal)
    (hpos : wal.logMeta.logFilePos = wal.options.maxFileSize) (p : List UInt8) :
    chunkLen wal p = 0 ∧ CursorRep (Comms.writeChunk wal p) wal.unrolled := by
  have hchunk : chunkLen wal p = 0 := by
    unfold chunkLen
    rw [hpos, UInt64.sub_self, if_neg UInt64.not_lt_zero]
  have hround : Comms.writeChunk wal p = { wal with
      file := wal.file
      fdPos := 0
      logMeta := { wal.logMeta with logFilePos := 0 } } := by
    have hfile : splice (padTo wal.fdPos.toNat wal.file) wal.fdPos.toNat (p.take 0) = wal.file := by
      rw [padTo_of_le (by rw [h.length_eq, h.fd_eq, hpos]), List.take_zero, splice, List.append_nil,
        List.length_nil, Nat.add_zero, List.take_append_drop]
    unfold Comms.writeChunk
    dsimp only
    rw [hchunk, UInt64.add_zero, if_pos hpos, if_pos hpos, UInt64.toNat_zero, hfile]
  refine ⟨hchunk, ?_⟩
  rw [hround]
  have hlen := h.unrolled_length
  have hholds := @holds_unroll _ wal.file wal.logMeta.logFilePos.toNat
    (by rw [h.length_eq, hpos])
  rw [h.length_eq] at hholds
  refine ⟨h.size_lt, ?_, rfl, hholds⟩
  rw [hlen, hpos, ← Nat.two_mul, Nat.mul_mod_left]
  rfl

/-- The loop over the file appends to the unrolled mapping. -/
theorem Resized.writeLoop {wal : Swal} {l : Log} (h : Resized wal l) {p : List UInt8}
    (hp : p.length < 2 ^ 63) (hne : p ≠ []) :
    ∃ wal', writeLoop (p.length + 2) [] wal p = some (0, wal') ∧
      CursorRep wal' (wal.unrolled ++ p) ∧ wal' = { wal with
        file := wal'.file, fdPos := wal'.fdPos
        logMeta := { wal.logMeta with logFilePos := wal'.logMeta.logFilePos } } := by
  have hpos := h.fitted.pos_le
  rw [UInt64.le_iff_toNat_le] at hpos
  rcases Nat.lt_or_ge wal.logMeta.logFilePos.toNat wal.options.maxFileSize.toNat with hlt | hge
  · exact writeLoop_full (h.fitted.cursor hlt) h.size_pos hp _ (by omega)
  · -- one round to come back to the start
    have hend : wal.logMeta.logFilePos = wal.options.maxFileSize :=
      UInt64.toNat_inj.mp (le_antisymm hpos hge)
    obtain ⟨hchunk, hcursor⟩ := h.fitted.cursor_end hend p
    obtain ⟨wal', hrun, hrep, hframe⟩ :=
      writeLoop_full hcursor h.size_pos hp (p.length + 1) (Nat.lt_succ_self _)
    refine ⟨wal', ?_, hrep, hframe⟩
    rw [writeLoop_cons hne, hchunk]
    exact hrun

/-- The window after an append. -/
theorem appendMeta_window {wal : Swal} (hwin : wal.window < 2 ^ 63) (log : Obj) :
    ((appendMeta wal.options wal.logMeta log.bytes).logEndOffset -
      (appendMeta wal.options wal.logMeta log.bytes).logStartOffset).toNat =
      min (wal.window + log.bytes.length) wal.options.maxFileSize.toNat := by
  have hlen := log.small
  have hlen64 : log.bytes.length.toUInt64.toNat = log.bytes.length := length_toNat (by omega)
  unfold Swal.window at hwin ⊢
  have hclamp := @clampStart_sub wal.logMeta.logStartOffset wal.logMeta.logEndOffset
    wal.options.maxFileSize log.bytes.length.toUInt64 (by rw [hlen64]; omega)
  rw [hlen64] at hclamp
  exact hclamp

/-- **Appending.** An append ends, and the window is the end of what was logged. -/
theorem Resized.append {wal : Swal} {l : Log} (h : Resized wal l) (log : Obj) :
    ∃ wal', swalStep wal (.append log) = some wal' ∧ Resized wal' (l.append log.bytes) ∧
      wal'.options = wal.options := by
  have hsize := h.fitted.size_lt
  have hlogged := h.logged
  -- what the file, the cursor and the descriptor are after the loop
  obtain ⟨wal₁, hloop, hfit, hframe, hread⟩ : ∃ wal₁,
      Comms.writeLoop (log.bytes.length + 2) [] wal log.bytes = some (0, wal₁) ∧ Fitted wal₁ ∧
      wal₁ = { wal with
        file := wal₁.file, fdPos := wal₁.fdPos
        logMeta := { wal.logMeta with logFilePos := wal₁.logMeta.logFilePos } } ∧
      ∀ d ≤ wal.options.maxFileSize.toNat, d ≤ wal.window + log.bytes.length →
        wal₁.unrolled.rtake d = (l.bytes ++ log.bytes).rtake d := by
    by_cases hne : log.bytes = []
    · refine ⟨wal, by rw [hne]; rfl, h.fitted, rfl, fun d _ hd => ?_⟩
      rw [hne, List.append_nil]
      exact rtake_congr h.read (by simpa [hne] using hd)
    · obtain ⟨wal₁, hloop, hrep, hframe⟩ := h.writeLoop log.small hne
      have hopt : wal₁.options = wal.options := by rw [hframe]
      have hmod := Nat.mod_lt (wal.unrolled ++ log.bytes).length h.size_pos
      have hpos := hrep.pos_eq
      have hholds := hrep.file
      rw [hopt] at hpos hholds
      refine ⟨wal₁, hloop, ⟨by rw [hopt]; exact hsize, by rw [hopt]; exact hholds.length_eq,
        hrep.fd_eq, ?_⟩, hframe, fun d hd hdw => ?_⟩
      · rw [UInt64.le_iff_toNat_le, hpos, hopt]
        omega
      · have hlen := h.fitted.unrolled_length
        unfold Swal.unrolled
        rw [hpos, hholds.rtake_unroll h.size_pos hd (by rw [List.length_append]; omega)]
        exact rtake_append_congr h.read log.bytes hdw
  have hopt : wal₁.options = wal.options := by rw [hframe]
  have hring : wal₁.ringCache = none := by rw [hframe]; exact h.no_ring
  have hwin : wal₁.window = wal.window := by rw [hframe]; rfl
  have hend : wal₁.logMeta.logEndOffset = wal.logMeta.logEndOffset := by rw [hframe]
  -- the meta page
  have hwindow := appendMeta_window (hwin ▸ h.window_lt) log
  rw [hwin, hopt] at hwindow
  refine ⟨{ wal₁ with logMeta := appendMeta wal₁.options wal₁.logMeta log.bytes }, ?_, ?_, hopt⟩
  · change (swalAppend wal [] log).map Prod.snd = _
    unfold swalAppend
    rw [hloop]
    dsimp only
    rw [if_neg (Int.lt_irrefl 0)]
    unfold appendRing
    dsimp only
    rw [hring]
    rfl
  · have hfit' : Fitted { wal₁ with logMeta := appendMeta wal₁.options wal₁.logMeta log.bytes } :=
      ⟨hfit.size_lt, hfit.length_eq, hfit.fd_eq, hfit.pos_le⟩
    have hw : Swal.window { wal₁ with logMeta := appendMeta wal₁.options wal₁.logMeta log.bytes } =
        min (wal.window + log.bytes.length) wal.options.maxFileSize.toNat := by
      rw [← hwindow, hopt]
      rfl
    refine ⟨hfit', by rw [hopt]; exact h.size_pos, hring, ?_, ?_, ?_, ?_, ?_⟩
    · rw [Log.append_endOffset, ← h.end_eq, ← hend]
      rfl
    · rw [hw]
      omega
    · rw [hw, hfit'.unrolled_length, hopt]
      omega
    · rw [hw]
      exact hread _ (Nat.min_le_right _ _) (Nat.min_le_left _ _)
    · rw [hw, Log.append_bytes, List.length_append]
      omega

/-- **Runs.** So does a sequence of appends. -/
theorem Resized.run {wal : Swal} {l : Log} (h : Resized wal l) (logs : List Obj) :
    ∃ wal', swalRun wal (appendOps logs) = some wal' ∧
      Resized wal' (l.append (recordBytes logs)) := by
  induction logs generalizing wal l with
  | nil =>
    refine ⟨wal, rfl, ?_⟩
    simpa [recordBytes, Log.append] using h
  | cons log logs ih =>
    obtain ⟨wal₁, hstep, h₁, -⟩ := h.append log
    obtain ⟨wal', hrun, h'⟩ := ih h₁
    refine ⟨wal', ?_, ?_⟩
    · change (swalStep wal (.append log)).bind _ = _
      rw [hstep]
      exact hrun
    · simpa [recordBytes, Log.append] using h'

theorem not_servedByRing {wal : Swal} (h : wal.ringCache = none) (offset : UInt64) :
    ¬ servedByRing wal offset := fun hring => by
  have hsome := hring.1
  rw [h] at hsome
  cases hsome

/-- What a log without a ring should hand out. -/
theorem since_take_asked {wal : Swal} {l : Log} (hend : wal.logMeta.logEndOffset = l.endOffset)
    (offset : UInt64) {limitLen : Int64} (hlim : limitLen ≤ 0) :
    (l.since offset).take (l.asked offset limitLen) =
      l.bytes.rtake (wal.logMeta.logEndOffset - offset).toNat := by
  rw [Log.asked_unlimited l offset hlim, hend]
  refine List.take_of_length_le ?_
  unfold Log.since
  rw [List.length_drop]
  omega

/-- The distance of an offset of the window. -/
theorem window_dist {wal : Swal} {offset : UInt64} (hlo : wal.logMeta.logStartOffset ≤ offset)
    (hhi : offset ≤ wal.logMeta.logEndOffset) :
    (wal.logMeta.logEndOffset - offset).toNat ≤ wal.window := by
  rw [UInt64.le_iff_toNat_le] at hlo hhi
  unfold Swal.window
  rw [toNat_sub_of_le hhi, toNat_sub_of_le (hlo.trans hhi)]
  omega

theorem Resized.readsBack {wal : Swal} {l : Log} (h : Resized wal l) : ReadsBack wal l := by
  intro offset limitLen hlim hlo hhi
  have hdist := window_dist hlo hhi
  have hcarry := h.fitted.replay_unrolled hlim hlo (not_servedByRing h.no_ring offset)
    (hdist.trans h.window_le)
  rw [rtake_congr h.read hdist] at hcarry
  unfold ReplayCorrect
  rw [since_take_asked h.end_eq offset hlim]
  exact hcarry

/-! ### Opening with another size -/

/-- What `swal_open` makes of a directory. -/
theorem swalOpen_ok {dir : SwalDir} {options : SwalOptions}
    {malloc : Option (MallocBlock options.ringCacheSize)} {wal : Swal}
    (h : swalOpen dir options malloc = .ok wal) :
    wal.file = padTo options.maxFileSize.toNat dir.file ∧
      (dir.file.length < 2 ^ 63 → options.maxFileSize.toNat < 2 ^ 63) ∧
      wal.fdPos = dir.logMeta.logFilePos ∧ wal.ringCacheIdx = 0 ∧
      (0 < options.ringCacheSize → ∃ block, malloc = some block ∧ wal.ringCache = some block.bytes ∧
        wal.ringCacheStartOffset = dir.logMeta.logStartOffset) ∧
      (options.ringCacheSize = 0 → wal.ringCache = none) := by
  unfold swalOpen at h
  cases hfile : openWalLogfile options.maxFileSize dir.file with
  | error err => rw [hfile] at h; cases h
  | ok file =>
    rw [hfile] at h
    have hpad : file = padTo options.maxFileSize.toNat dir.file ∧
        (dir.file.length < 2 ^ 63 → options.maxFileSize.toNat < 2 ^ 63) := by
      rcases openWalLogfile_ok hfile with ⟨-, h63, rfl⟩ | ⟨hle, rfl⟩
      · exact ⟨rfl, fun _ => h63⟩
      · exact ⟨(padTo_of_le hle).symm, hle.trans_lt⟩
    dsimp only at h
    split at h
    · next hsize =>
      cases malloc with
      | none => cases h
      | some block =>
        obtain rfl := Except.ok.inj h
        refine ⟨hpad.1, hpad.2, rfl, rfl, fun _ => ⟨block, rfl, rfl, rfl⟩, fun h0 => ?_⟩
        rw [h0] at hsize
        exact absurd hsize UInt64.not_lt_zero
    · next hsize =>
      obtain rfl := Except.ok.inj h
      exact ⟨hpad.1, hpad.2, rfl, rfl, fun h0 => absurd h0 hsize, fun _ => rfl⟩

/-- The log that is opened with `options` and no ring, its file cut off at the new size. -/
def Swal.resize (wal : Swal) (options : SwalOptions) : Swal :=
  { wal with
    options := options
    file := (padTo options.maxFileSize.toNat wal.file).take options.maxFileSize.toNat
    fdPos := wal.logMeta.logFilePos
    ringCache := none
    ringCacheStartOffset := 0
    ringCacheIdx := 0 }

/-- The changes of the size after which a log reads back: the cursor is in the new file, there is no
ring or nothing was logged, and the window is what is found when the new file is read back from the
cursor. -/
structure ResizeSafe (wal : Swal) (options : SwalOptions) (l : Log) : Prop where
  size_pos : 0 < options.maxFileSize
  pos_le : wal.logMeta.logFilePos ≤ options.maxFileSize
  ring : options.ringCacheSize = 0 ∨ l.bytes = []
  window_le : wal.window ≤ (wal.resize options).unrolled.length
  read : (wal.resize options).unrolled.rtake wal.window = l.bytes.rtake wal.window

/-- `swal_open` fails: `ftruncate` and `malloc` take no sizes of `2^63` and more. -/
def OpenRejected (options : SwalOptions) : Prop :=
  2 ^ 63 ≤ options.maxFileSize.toNat ∨ 2 ^ 63 ≤ options.ringCacheSize.toNat

/-- Whatever block the second open gets and whatever is appended, the log reads back, and no append
comes to a negative length. -/
def ResizeReadsBack (wal₁ : Swal) (options : SwalOptions) (l : Log) : Prop :=
  ∀ malloc wal₂, swalOpen (swalClose wal₁) options malloc = .ok wal₂ → ∀ logs,
    ∃ wal, swalRun wal₂ (appendOps logs) = some wal ∧ ReadsBack wal (l.append (recordBytes logs)) ∧
      ∀ log : Obj, ChunksFit (log.bytes.length + 2) wal log.bytes

theorem swalOpen_resize {wal₁ : Swal} {options : SwalOptions} (h0 : options.ringCacheSize = 0)
    {malloc : Option (MallocBlock options.ringCacheSize)} {wal₂ : Swal}
    (h : swalOpen (swalClose wal₁) options malloc = .ok wal₂) :
    wal₂ = (wal₁.resize options).withTail
      ((padTo options.maxFileSize.toNat wal₁.file).drop options.maxFileSize.toNat) := by
  obtain ⟨hfile, -⟩ := swalOpen_ok h
  unfold swalOpen at h
  split at h
  · cases h
  next file _ =>
  have hring : ¬ 0 < options.ringCacheSize := by rw [h0]; exact UInt64.not_lt_zero
  rw [if_neg hring] at h
  obtain rfl := Except.ok.inj h
  have hfile' : file = padTo options.maxFileSize.toNat wal₁.file := hfile
  unfold Swal.withTail Swal.resize
  dsimp only
  rw [List.take_append_drop, hfile']
  rfl

section Open

variable {wal₁ : Swal} {l : Log} {options : SwalOptions}

theorem padTo_length_le (n : ℕ) (file : List UInt8) : n ≤ (padTo n file).length := by
  rw [padTo, List.length_append, List.length_replicate]
  omega

theorem resize_fitted (h63 : options.maxFileSize.toNat < 2 ^ 63)
    (hpos : wal₁.logMeta.logFilePos ≤ options.maxFileSize) : Fitted (wal₁.resize options) := by
  refine ⟨h63, ?_, rfl, hpos⟩
  change ((padTo _ _).take _).length = _
  rw [List.length_take, Nat.min_eq_left (padTo_length_le _ _)]
  rfl

/-- The log that is opened is one whose window is read. -/
theorem ResizeSafe.resized (hs : ResizeSafe wal₁ options l) (h : FileRep wal₁ l)
    (h63 : options.maxFileSize.toNat < 2 ^ 63) : Resized (wal₁.resize options) l := by
  have hsize := h.size_lt
  have hwindow : wal₁.window = min l.bytes.length wal₁.options.maxFileSize.toNat := h.window
  have h0 := hs.size_pos
  rw [UInt64.lt_iff_toNat_lt] at h0
  refine ⟨resize_fitted h63 hs.pos_le, h0, rfl, h.end_eq, ?_, hs.window_le, hs.read, ?_⟩
  · change wal₁.window < _
    omega
  · change wal₁.window ≤ _
    omega

/-- The ring that is allocated was fed nothing. -/
theorem swalOpen_ringRep {dir : SwalDir} (hring : options.ringCacheSize ≠ 0)
    {malloc : Option (MallocBlock options.ringCacheSize)} {wal : Swal}
    (hopen : swalOpen dir options malloc = .ok wal) : RingRep wal [] := by
  obtain ⟨hopt, -⟩ := swalOpen_frame hopen
  obtain ⟨-, -, -, hidx, hcache, -⟩ := swalOpen_ok hopen
  have hR : 0 < options.ringCacheSize := UInt64.pos_iff_ne_zero.mpr hring
  obtain ⟨block, -, hblock, -⟩ := hcache hR
  rw [UInt64.lt_iff_toNat_lt] at hR
  refine ⟨?_, ?_, fun r _ => ?_, fun r hr => ?_⟩
  · rw [hblock, hopt]
    exact ⟨fun _ => hR, fun _ => rfl⟩
  · rw [hopt]
    exact block.small
  · rw [hidx, List.length_nil, Nat.zero_mod]
    rfl
  · obtain rfl := Option.some.inj (hblock.symm.trans hr)
    rw [hopt]
    exact .nil block.length_eq

/-- With nothing logged the log that is opened is empty. -/
theorem faithful_of_empty (h : FileRep wal₁ l) (hnil : l.bytes = []) (h0 : 0 < options.maxFileSize)
    (hring : options.ringCacheSize ≠ 0) {malloc : Option (MallocBlock options.ringCacheSize)}
    {wal₂ : Swal} (hopen : swalOpen (swalClose wal₁) options malloc = .ok wal₂) :
    Faithful { wal₂ with file := wal₂.file.take options.maxFileSize.toNat } l := by
  obtain ⟨hopt, hmeta⟩ := swalOpen_frame hopen
  obtain ⟨hfile, h63, hfd, -, hcache, -⟩ := swalOpen_ok hopen
  obtain ⟨block, -, -, hstart⟩ := hcache (UInt64.pos_iff_ne_zero.mpr hring)
  have hold := swalOpen_ringRep hring hopen
  have hmeta' : wal₂.logMeta = wal₁.logMeta := hmeta
  have hwin := h.window
  have hpos := h.pos_eq
  rw [hnil, List.length_nil, Nat.zero_min] at hwin
  rw [hnil, List.length_nil, Nat.zero_mod] at hpos
  rw [UInt64.lt_iff_toNat_lt] at h0
  refine ⟨⟨?_, ?_, ?_, ?_, ?_, ?_, ?_⟩, ?_, fun _ => ?_⟩
  · rw [hopt]
    exact h0
  · rw [hopt]
    exact h63 (by change wal₁.file.length < _; rw [h.file.length_eq]; exact h.size_lt)
  · rw [hmeta']
    exact h.end_eq
  · dsimp only
    rw [hmeta', hwin, hnil, List.length_nil, Nat.zero_min]
  · dsimp only
    rw [hmeta', hpos, hnil, List.length_nil, Nat.zero_mod]
  · exact hfd.trans (congrArg SwalMeta.logFilePos hmeta').symm
  · rw [hnil]
    refine .nil ?_
    dsimp only
    rw [hopt, List.length_take, hfile, Nat.min_eq_left (padTo_length_le _ _)]
  · rw [hnil]
    exact ⟨hold.some_iff, hold.size_lt, hold.idx_eq, hold.ring⟩
  · dsimp only
    rw [hstart, hmeta', hnil, List.length_nil, Nat.zero_min]
    exact hwin

/-- **Safe changes.** After one of them the log reads back. -/
theorem ResizeSafe.readsBack (hs : ResizeSafe wal₁ options l) (h : FileRep wal₁ l) :
    ResizeReadsBack wal₁ options l := by
  intro malloc wal₂ hopen logs
  obtain ⟨hopt, -⟩ := swalOpen_frame hopen
  obtain ⟨hfile, h63, -⟩ := swalOpen_ok hopen
  have h63' := h63 (by change wal₁.file.length < _; rw [h.file.length_eq]; exact h.size_lt)
  by_cases h0 : options.ringCacheSize = 0
  · have hres := hs.resized h h63'
    obtain ⟨wal, hrun, hwal⟩ := hres.run logs
    rw [swalOpen_resize h0 hopen]
    refine ⟨_, by rw [swalRun_withTail hres.fitted, hrun]; rfl, ?_, fun log => ?_⟩
    · rw [readsBack_withTail hwal.fitted.length_eq]
      exact hwal.readsBack
    · refine chunksFit ?_ ?_ log.small _
      · exact hwal.fitted.size_lt
      · exact hwal.fitted.pos_le
  · have hnil := hs.ring.resolve_left h0
    have hfaith := faithful_of_empty h hnil hs.size_pos h0 hopen
    have hsplit : wal₂ = Swal.withTail { wal₂ with file := wal₂.file.take options.maxFileSize.toNat }
        (wal₂.file.drop options.maxFileSize.toNat) := by
      unfold Swal.withTail
      dsimp only
      rw [List.take_append_drop]
    have hfit (wal : Swal) (l : Log) (hf : FileRep wal l) : Fitted wal := by
      refine ⟨hf.size_lt, hf.file.length_eq, hf.fd_eq, ?_⟩
      rw [UInt64.le_iff_toNat_le, hf.pos_eq]
      exact (Nat.mod_lt _ hf.size_pos).le
    obtain ⟨wal, hrun, hwal, -⟩ := hfaith.run (appendOps logs)
    rw [Log.run_appendOps] at hwal
    have hfitted := hfit wal _ hwal.file
    rw [hsplit]
    refine ⟨_, by rw [swalRun_withTail (hfit _ _ hfaith.file), hrun]; rfl, ?_, fun log => ?_⟩
    · rw [readsBack_withTail hfitted.length_eq]
      exact hwal.readsBack
    · refine chunksFit ?_ ?_ log.small _
      · exact hfitted.size_lt
      · exact hfitted.pos_le

/-- A directory can be opened with any sizes that are not rejected. -/
theorem swalOpen_total (dir : SwalDir) (h63 : options.maxFileSize.toNat < 2 ^ 63)
    (block : MallocBlock options.ringCacheSize) :
    ∃ wal, swalOpen dir options (some block) = .ok wal := by
  have hfile : ∃ file, openWalLogfile options.maxFileSize dir.file = .ok file := by
    unfold openWalLogfile
    by_cases hlen : dir.file.length < options.maxFileSize.toNat
    · rw [if_pos hlen, if_pos h63]
      exact ⟨_, rfl⟩
    · rw [if_neg hlen]
      exact ⟨_, rfl⟩
  obtain ⟨file, hfile⟩ := hfile
  unfold swalOpen
  rw [hfile]
  dsimp only
  split
  · exact ⟨_, rfl⟩
  · exact ⟨_, rfl⟩

theorem swalOpen_rejected (h : FileRep wal₁ l) (hrej : OpenRejected options)
    (malloc : Option (MallocBlock options.ringCacheSize)) (wal₂ : Swal) :
    swalOpen (swalClose wal₁) options malloc ≠ .ok wal₂ := by
  intro hopen
  obtain ⟨-, h63, -, -, hcache, -⟩ := swalOpen_ok hopen
  rcases hrej with hbig | hbig
  · have hlt := h63 (by change wal₁.file.length < _; rw [h.file.length_eq]; exact h.size_lt)
    omega
  · have hR : 0 < options.ringCacheSize := by
      rw [UInt64.lt_iff_toNat_lt, UInt64.toNat_zero]
      omega
    obtain ⟨block, -⟩ := hcache hR
    have hsmall := block.small
    omega

/-- In a file of no size the loop never gets on. -/
theorem writeLoop_stuck {wal : Swal} (hsize : wal.options.maxFileSize = 0)
    (hpos : wal.logMeta.logFilePos = 0) {p : List UInt8} (hne : p ≠ []) (fuel : ℕ) :
    writeLoop fuel [] wal p = none := by
  have hchunk : chunkLen wal p = 0 := by
    unfold chunkLen
    rw [hsize, hpos, UInt64.sub_self, if_neg UInt64.not_lt_zero]
  induction fuel generalizing wal with
  | zero => rfl
  | succ fuel ih =>
    have hpos' : (writeChunk wal p).logMeta.logFilePos = 0 := by
      unfold writeChunk
      dsimp only
      rw [hchunk, hpos, hsize]
      rfl
    have hchunk' : chunkLen (writeChunk wal p) p = 0 := by
      unfold chunkLen
      rw [hpos', show (writeChunk wal p).options.maxFileSize = 0 from hsize, UInt64.sub_self,
        if_neg UInt64.not_lt_zero]
    rw [writeLoop_cons hne, hchunk, UInt64.toNat_zero, List.drop_zero]
    exact ih hsize hpos' hchunk'

/-- The ring that is allocated is read for the byte that was logged last. -/
theorem rtake_of_ring (h : FileRep wal₁ l) (hoff : wal₁.logMeta.logStartOffset ≤ wal₁.logMeta.logEndOffset)
    (hne : l.bytes ≠ []) (hring : options.ringCacheSize ≠ 0)
    {malloc : Option (MallocBlock options.ringCacheSize)} {wal₂ : Swal}
    (hopen : swalOpen (swalClose wal₁) options malloc = .ok wal₂) (hback : ReadsBack wal₂ l) :
    ∃ block, malloc = some block ∧ l.bytes.rtake 1 = block.bytes.rtake 1 := by
  obtain ⟨hopt, hmeta⟩ := swalOpen_frame hopen
  obtain ⟨-, -, -, -, hcache, -⟩ := swalOpen_ok hopen
  have hR : 0 < options.ringCacheSize := UInt64.pos_iff_ne_zero.mpr hring
  obtain ⟨block, hmalloc, hblock, hstart⟩ := hcache hR
  refine ⟨block, hmalloc, ?_⟩
  have hrep : RingRep wal₂ block.bytes := (swalOpen_ringRep hring hopen).block hblock
  have hlen := List.length_pos_iff.mpr hne
  have hwin := h.window
  have hsize := h.size_pos
  have hmeta' : wal₂.logMeta = wal₁.logMeta := hmeta
  rw [← hmeta'] at hoff hwin
  have hstart' : wal₂.ringCacheStartOffset = wal₂.logMeta.logStartOffset := by
    rw [hstart, hmeta']
    rfl
  rw [UInt64.le_iff_toNat_le] at hoff
  rw [toNat_sub_of_le hoff] at hwin
  rw [UInt64.lt_iff_toNat_lt, UInt64.toNat_zero] at hR
  -- the offset in front of the last byte
  have hone : (1 : UInt64).toNat ≤ wal₂.logMeta.logEndOffset.toNat := by
    rw [UInt64.toNat_one]
    omega
  have hprev := toNat_sub_of_le hone
  have hdist : wal₂.logMeta.logEndOffset - (wal₂.logMeta.logEndOffset - 1) = 1 := by grind
  rw [UInt64.toNat_one] at hprev hone
  generalize wal₂.logMeta.logEndOffset - 1 = offset at hprev hdist
  have hlo : wal₂.logMeta.logStartOffset ≤ offset := by
    rw [UInt64.le_iff_toNat_le]
    omega
  have hhi : offset ≤ wal₂.logMeta.logEndOffset := by
    rw [UInt64.le_iff_toNat_le]
    omega
  have hserved : servedByRing wal₂ offset := ⟨by rw [hblock]; rfl, by rw [hstart']; exact hlo⟩
  have hlim : (0 : Int64) ≤ 0 := by decide
  have hright := (hback offset 0 hlim hlo hhi).2
  have hend : wal₂.logMeta.logEndOffset = l.endOffset := by
    rw [hmeta']
    exact h.end_eq
  rw [since_take_asked hend offset hlim, hdist, UInt64.toNat_one] at hright
  have hcarry := @replayRing_carry wal₂ block.bytes hrep hserved.1 offset 1
    (by rw [hdist, hopt, UInt64.toNat_one]; omega)
    (by rw [hdist, block.length_eq, UInt64.toNat_one]; omega) (by rw [hdist])
  unfold swalReplay at hright
  rw [if_pos hserved, replayTotal_unlimited hlim, hdist] at hright
  rw [← hright, hcarry.2, hdist, UInt64.toNat_one, rtake_eq_slice]

/-- **Unsafe changes.** After one of them there is a block, or an append, with which the log does not
read back. -/
theorem ResizeReadsBack.safe (hread : ResizeReadsBack wal₁ options l) (h : FileRep wal₁ l)
    (hoff : wal₁.logMeta.logStartOffset ≤ wal₁.logMeta.logEndOffset) (hrej : ¬ OpenRejected options) :
    ResizeSafe wal₁ options l := by
  unfold OpenRejected at hrej
  push Not at hrej
  obtain ⟨hB, hR⟩ := hrej
  -- the log right after it was opened
  have hopened (y : UInt8) : ∃ wal₂,
      swalOpen (swalClose wal₁) options (some (constBlock _ hR y)) = .ok wal₂ ∧ ReadsBack wal₂ l ∧
      ∀ log : Obj, ChunksFit (log.bytes.length + 2) wal₂ log.bytes := by
    obtain ⟨wal₂, hopen⟩ := swalOpen_total (swalClose wal₁) hB (constBlock _ hR y)
    obtain ⟨wal, hrun, hback, hfit⟩ := hread _ wal₂ hopen []
    obtain rfl := Option.some.inj hrun
    refine ⟨wal₂, hopen, ?_, hfit⟩
    simpa [recordBytes, Log.append] using hback
  obtain ⟨wal₂, hopen, hback, hfit⟩ := hopened 0
  obtain ⟨hopt, hmeta⟩ := swalOpen_frame hopen
  have hmeta' : wal₂.logMeta = wal₁.logMeta := hmeta
  have hpos : wal₁.logMeta.logFilePos ≤ options.maxFileSize := by
    rw [← hmeta', ← hopt]
    exact (hfit ⟨[], by decide⟩).1
  have hring : options.ringCacheSize = 0 ∨ l.bytes = [] := by
    by_contra hno
    push Not at hno
    have hlast (y : UInt8) : l.bytes.rtake 1 = [y] := by
      obtain ⟨wal, hopen, hback, -⟩ := hopened y
      obtain ⟨block, hblock, heq⟩ := rtake_of_ring h hoff hno.2 hno.1 hopen hback
      have hpos : options.ringCacheSize.toNat ≠ 0 := fun h0 => hno.1 (UInt64.toNat_inj.mp h0)
      rw [heq, ← Option.some.inj hblock, List.rtake]
      change (List.replicate _ y).drop _ = _
      rw [List.drop_replicate]
      change List.replicate (options.ringCacheSize.toNat -
        ((List.replicate options.ringCacheSize.toNat y).length - 1)) y = _
      rw [List.length_replicate, Nat.sub_sub_self (by omega)]
      rfl
    have hsame := (hlast 0).symm.trans (hlast 1)
    exact absurd hsame (by decide)
  -- the whole window, from the file
  have hwindow : wal₁.window ≤ (wal₁.resize options).unrolled.length ∧
      (wal₁.resize options).unrolled.rtake wal₁.window = l.bytes.rtake wal₁.window := by
    rcases hring with h0 | hnil
    · have hfit₁ := resize_fitted hB hpos
      rw [swalOpen_resize h0 hopen, readsBack_withTail hfit₁.length_eq] at hback
      have hlim : (0 : Int64) ≤ 0 := by decide
      have hstart := hback wal₁.logMeta.logStartOffset 0 hlim (UInt64.le_refl _) hoff
      have hnoring := @not_servedByRing (wal₁.resize options) rfl wal₁.logMeta.logStartOffset
      have hle : wal₁.window ≤ (wal₁.resize options).unrolled.length := by
        by_contra hgt
        obtain ⟨r, hr, hout⟩ := hfit₁.replay_behind hlim (UInt64.le_refl _) hnoring
          (Nat.lt_of_not_le hgt)
        exact hout (hstart.1 r hr)
      have hcarry := hfit₁.replay_unrolled hlim (UInt64.le_refl _) hnoring hle
      refine ⟨hle, hcarry.2.symm.trans (hstart.2.trans ?_)⟩
      exact since_take_asked h.end_eq _ hlim
    · have hzero : wal₁.window = 0 := by
        have hwin := h.window
        rw [hnil, List.length_nil, Nat.zero_min] at hwin
        exact hwin
      rw [hzero, List.rtake_zero, List.rtake_zero]
      exact ⟨Nat.zero_le _, rfl⟩
  refine ⟨?_, hpos, hring, hwindow.1, hwindow.2⟩
  · -- a file of no size takes no byte
    by_contra h0
    have hzero : options.maxFileSize = 0 := by
      by_contra hne
      exact h0 (UInt64.pos_iff_ne_zero.mpr hne)
    obtain ⟨wal, hrun, -⟩ := hread _ wal₂ hopen [⟨[0], by decide⟩]
    have hpos₂ : wal₂.logMeta.logFilePos = 0 := by
      rw [hmeta']
      rw [hzero] at hpos
      exact UInt64.toNat_inj.mp (Nat.le_zero.mp (UInt64.le_iff_toNat_le.mp hpos))
    have hstuck : swalStep wal₂ (.append ⟨[0], by decide⟩) = none := by
      change (swalAppend wal₂ [] ⟨[0], by decide⟩).map Prod.snd = none
      unfold swalAppend
      rw [writeLoop_stuck (by rw [hopt]; exact hzero) hpos₂ (List.cons_ne_nil _ _)]
      rfl
    change (swalStep wal₂ (.append ⟨[0], by decide⟩)).bind _ = _ at hrun
    rw [hstuck] at hrun
    cases hrun

end Open

/-! ### Histories -/

/-- A log that comes from a fresh open with `options` by appends, resets and restarts, and what was
logged. -/
inductive Reached (options : SwalOptions) : Swal → Log → Prop
  | fresh {malloc : Option (MallocBlock options.ringCacheSize)} {wal : Swal} :
      swalOpen .fresh options malloc = .ok wal → Reached options wal (Log.reset 0)
  | step {wal wal' : Swal} {l : Log} {op : SwalOp} :
      Reached options wal l → swalStep wal op = some wal' → Reached options wal' (l.step op)
  | restart {wal wal' : Swal} {l : Log} {malloc : Option (MallocBlock wal.options.ringCacheSize)} :
      Reached options wal l → swalOpen (swalClose wal) wal.options malloc = .ok wal' →
      Reached options wal' l

/-- The file holds what was logged. -/
theorem Reached.rep {options : SwalOptions} (h0 : 0 < options.maxFileSize) {wal : Swal} {l : Log}
    (h : Reached options wal l) : FileRep wal l ∧ ∃ t, RingRep wal t := by
  induction h with
  | fresh hopen =>
    have h0' : 0 < options.maxFileSize.toNat := by simpa [UInt64.lt_iff_toNat_lt] using h0
    have hfresh := Faithful.fresh h0' hopen
    exact ⟨hfresh.file, _, hfresh.ring⟩
  | @step wal wal' l op _ hstep ih =>
    obtain ⟨hf, t, hr⟩ := ih
    cases op with
    | append log =>
      obtain ⟨wal₁, happ, hf', hr', -⟩ := swalAppend_spec hf hr log
      have hstep' : swalStep wal (.append log) = some wal₁ := by
        change (swalAppend wal [] log).map Prod.snd = _
        rw [happ]
        rfl
      obtain rfl := Option.some.inj (hstep.symm.trans hstep')
      exact ⟨hf', _, hr'⟩
    | reset offset cksm =>
      obtain rfl := Option.some.inj hstep
      obtain ⟨hf', hr'⟩ := swalReset_spec hf hr offset cksm
      exact ⟨hf', _, hr'⟩
  | restart _ hopen ih =>
    obtain ⟨hf', hr', -⟩ := swalOpen_spec (.of_close ih.1) ih.1.size_lt hopen
    exact ⟨hf', _, hr'⟩

/-- The same size, without a ring. -/
theorem ResizeSafe.of_same {wal : Swal} {l : Log} {options : SwalOptions} (h : FileRep wal l)
    (hsize : options.maxFileSize = wal.options.maxFileSize) (hring : options.ringCacheSize = 0) :
    ResizeSafe wal options l := by
  have hmod := Nat.mod_lt l.bytes.length h.size_pos
  have hwin : wal.window = min l.bytes.length wal.options.maxFileSize.toNat := h.window
  have hunrolled : (wal.resize options).unrolled =
      unroll wal.file (l.bytes.length % wal.options.maxFileSize.toNat) := by
    unfold Swal.unrolled Swal.resize
    dsimp only
    rw [hsize, padTo_of_le h.file.length_eq.ge, ← h.file.length_eq, List.take_length,
      h.file.length_eq, h.pos_eq]
  refine ⟨?_, ?_, .inl hring, ?_, ?_⟩
  · rw [hsize, UInt64.lt_iff_toNat_lt]
    exact h.size_pos
  · rw [hsize, UInt64.le_iff_toNat_le, h.pos_eq]
    omega
  · rw [hunrolled, unroll_length (by rw [h.file.length_eq]; omega), h.file.length_eq]
    omega
  · rw [hunrolled]
    exact h.file.rtake_unroll h.size_pos (by omega) (by omega)

/-- A log that never came to the end of the old file and fits the new one, without a ring. -/
theorem ResizeSafe.of_front {wal : Swal} {l : Log} {options : SwalOptions} (h : FileRep wal l)
    (hpos : 0 < options.maxFileSize) (hold : l.bytes.length < wal.options.maxFileSize.toNat)
    (hnew : l.bytes.length ≤ options.maxFileSize.toNat) (hring : options.ringCacheSize = 0) :
    ResizeSafe wal options l := by
  have hcursor := h.pos_eq
  have hwin : wal.window = min l.bytes.length wal.options.maxFileSize.toNat := h.window
  rw [Nat.mod_eq_of_lt hold] at hcursor
  rw [Nat.min_eq_left hold.le] at hwin
  have hpos_le : wal.logMeta.logFilePos ≤ options.maxFileSize := by
    rw [UInt64.le_iff_toNat_le, hcursor]
    exact hnew
  have hlen : ((padTo options.maxFileSize.toNat wal.file).take options.maxFileSize.toNat).length =
      options.maxFileSize.toNat := by
    rw [List.length_take, Nat.min_eq_left (padTo_length_le _ _)]
  have hunrolled : (wal.resize options).unrolled =
      unroll ((padTo options.maxFileSize.toNat wal.file).take options.maxFileSize.toNat)
        l.bytes.length := by
    unfold Swal.unrolled Swal.resize
    dsimp only
    rw [hcursor]
  have htotal := unroll_length (hlen.symm ▸ hnew)
  rw [hlen] at htotal
  refine ⟨hpos, hpos_le, .inl hring, ?_, ?_⟩
  · rw [hunrolled, htotal]
    omega
  · -- both are the first cells of the file
    have hfront := @slice_unroll_front _
      ((padTo options.maxFileSize.toNat wal.file).take options.maxFileSize.toNat) _ _
      (le_refl l.bytes.length)
    rw [hlen, Nat.sub_self] at hfront
    rw [hunrolled, hwin, rtake_eq_slice, htotal, hfront, rtake_eq_slice, Nat.sub_self]
    apply slice_ext
    intro j hj
    have hcell := h.file.mem j hj (by omega)
    rw [Nat.mod_eq_of_lt (by omega)] at hcell
    rw [Nat.zero_add, List.getElem?_take_of_lt (by omega), padTo, List.getElem?_append_left, hcell]
    rw [h.file.length_eq]
    omega

/-- **Another size.** After any history with one `max_file_size` a log that is closed and opened with
other options reads back, whatever is appended, if the open is rejected or the change is
`ResizeSafe`; and only then, as long as the offsets of the window did not wrap around 64 bits. -/
theorem resize_correct_iff {options : SwalOptions} (h0 : 0 < options.maxFileSize) {wal₁ : Swal}
    {l : Log} (h : Reached options wal₁ l) (options₂ : SwalOptions) :
    (OpenRejected options₂ ∨ ResizeSafe wal₁ options₂ l → ResizeReadsBack wal₁ options₂ l) ∧
    (wal₁.logMeta.logStartOffset ≤ wal₁.logMeta.logEndOffset →
      (ResizeReadsBack wal₁ options₂ l ↔ OpenRejected options₂ ∨ ResizeSafe wal₁ options₂ l)) := by
  obtain ⟨hf, -⟩ := h.rep h0
  have hsafe : OpenRejected options₂ ∨ ResizeSafe wal₁ options₂ l →
      ResizeReadsBack wal₁ options₂ l := by
    rintro (hrej | hsafe)
    · exact fun malloc wal₂ hopen => absurd hopen (swalOpen_rejected hf hrej malloc wal₂)
    · exact hsafe.readsBack hf
  refine ⟨hsafe, fun hoff => ⟨fun hread => ?_, hsafe⟩⟩
  by_cases hrej : OpenRejected options₂
  · exact .inl hrej
  · exact .inr (hread.safe hf hoff hrej)

/-- The log of four bytes after `abcdef`: the window is `[2, 6]`, the cursor is at `2`. -/
def wrappedWal : Swal :=
  { options := smallOptions
    logMeta := { logStartOffset := 2, logEndOffset := 6, logFilePos := 2, cksm := 0 }
    file := [101, 102, 99, 100], fdPos := 2
    ringCache := none, ringCacheStartOffset := 0, ringCacheIdx := 0 }

theorem wrappedWal_reached :
    Reached smallOptions wrappedWal ((Log.reset 0).step (.append sixBytes)) :=
  .step (.fresh (show swalOpen .fresh smallOptions none = .ok smallWal from rfl)) rfl

theorem resize_correct_iff_wrapped :
    (OpenRejected smallOptions ∨
        ResizeSafe wrappedWal smallOptions ((Log.reset 0).step (.append sixBytes)) →
      ResizeReadsBack wrappedWal smallOptions ((Log.reset 0).step (.append sixBytes))) ∧
    (wrappedWal.logMeta.logStartOffset ≤ wrappedWal.logMeta.logEndOffset →
      (ResizeReadsBack wrappedWal smallOptions ((Log.reset 0).step (.append sixBytes)) ↔
        OpenRejected smallOptions ∨
          ResizeSafe wrappedWal smallOptions ((Log.reset 0).step (.append sixBytes)))) :=
  @resize_correct_iff smallOptions (by decide) wrappedWal _ wrappedWal_reached smallOptions

/-- With eight bytes for the file the bytes `cd`, behind the cursor in a file of four, are looked for at
the end of one of eight: a read from offset `2` hands out two zeros for them. -/
theorem bigger_file_misread : ¬ ∀ (options : SwalOptions) (wal₁ : Swal) (l : Log)
    (options₂ : SwalOptions), 0 < options.maxFileSize → Reached options wal₁ l →
    ResizeReadsBack wal₁ options₂ l := by
  intro h
  have hread := h smallOptions wrappedWal _ { smallOptions with maxFileSize := 8 } (by decide)
    wrappedWal_reached
  obtain ⟨wal, hrun, hback, -⟩ := hread none _ rfl []
  obtain rfl := Option.some.inj hrun
  have hright := (hback 2 0 (by decide) (by decide) (by decide)).2
  revert hright
  decide

end Comms
