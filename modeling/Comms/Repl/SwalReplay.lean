import Comms.Repl.SwalRep

/-!
# Replay returns what was logged

A history is a list of `SwalOp`s from a fresh open. `swalRun` runs it on the log of the source,
`Log.run` on the abstract one, and `Faithful` relates the two in every state reached
(`Faithful.run`).

`swalReplay` then reads the abstract log back (`replay_ring`, `replay_file_direct`,
`replay_file_unlimited`), except on one path: the wrapped part of the file, read with a limit.
There `replayFile` counts the start position back by the limited `total` and not by the length of
the rest, so it hands out the last `total` bytes of the log, or a run behind the mapping
(`replay_file_limited`, `replay_file_outside`). `swalReplay_correct_iff` puts the cases together.
-/

namespace Comms

/-- A call that changes the log. Every `write` of an append is complete here. -/
inductive SwalOp
  | append (log : Obj)
  | reset (offset cksm : UInt64)

/-- One call; `none` when it never returns. -/
def swalStep (wal : Swal) : SwalOp → Option Swal
  | .append log => (swalAppend wal [] log).map Prod.snd
  | .reset offset cksm => some (swalReset wal offset cksm)

/-- The meta page behind an append that returns. -/
theorem swalStep_append {wal wal' : Swal} {log : Obj} (h : swalStep wal (.append log) = some wal') :
    wal'.options = wal.options ∧
      wal'.logMeta.logEndOffset = wal.logMeta.logEndOffset + log.bytes.length.toUInt64 ∧
      wal'.logMeta.logStartOffset
        = clampStart wal.logMeta.logStartOffset wal'.logMeta.logEndOffset
          wal.options.maxFileSize ∧
      wal'.logMeta.cksm = (appendMeta wal.options wal.logMeta log.bytes).cksm := by
  obtain ⟨⟨err, wal₂⟩, happ, rfl⟩ := Option.map_eq_some_iff.mp h
  exact swalAppend_meta happ

/-- A sequence of calls. -/
def swalRun (wal : Swal) : List SwalOp → Option Swal
  | [] => some wal
  | op :: ops => (swalStep wal op).bind fun wal => swalRun wal ops

/-- The effect of a call on the abstract log. -/
def Log.step (l : Log) : SwalOp → Log
  | .append log => l.append log.bytes
  | .reset offset _ => Log.reset offset

/-- The effect of a sequence of calls on the abstract log. -/
def Log.run (l : Log) (ops : List SwalOp) : Log := ops.foldl Log.step l

/-! ### The invariant of a history -/

/-- The log represents `l` in its file, and in its ring from the same byte on. -/
structure Faithful (wal : Swal) (l : Log) : Prop where
  file : FileRep wal l
  ring : RingRep wal l.bytes
  /-- The window of the ring is as long as the log, up to the size of the ring. -/
  ringWindow : wal.ringCache.isSome → (wal.logMeta.logEndOffset - wal.ringCacheStartOffset).toNat
    = min l.bytes.length wal.options.ringCacheSize.toNat

/-- A fresh log represents the empty one. -/
theorem Faithful.fresh {options : SwalOptions} (h0 : 0 < options.maxFileSize.toNat)
    {malloc : Option (MallocBlock options.ringCacheSize)} {wal : Swal}
    (h : swalOpen .fresh options malloc = .ok wal) : Faithful wal (Log.reset 0) := by
  have h63 : options.maxFileSize.toNat < 2 ^ 63 := by
    unfold swalOpen at h
    cases hfile : openWalLogfile options.maxFileSize SwalDir.fresh.file with
    | error err => rw [hfile] at h; cases h
    | ok file =>
      rcases openWalLogfile_ok hfile with ⟨-, h63, -⟩ | ⟨hle, -⟩
      · exact h63
      · simp [SwalDir.fresh] at hle
        omega
  obtain ⟨hf, hr, -, hmeta, hstart⟩ := swalOpen_spec (.fresh h0) h63 h
  refine ⟨hf, hr, fun hsome => ?_⟩
  obtain ⟨r, hcache⟩ := Option.isSome_iff_exists.mp hsome
  rw [(hstart r hcache).1, hmeta]
  simp [SwalDir.fresh]

/-- **Step.** Every call returns and keeps the representation. -/
theorem Faithful.step {wal : Swal} {l : Log} (h : Faithful wal l) (op : SwalOp) :
    ∃ wal', swalStep wal op = some wal' ∧ Faithful wal' (l.step op) ∧
      wal'.options = wal.options := by
  cases op with
  | append log =>
    obtain ⟨wal', hrun, hf, hr, hopt, hsome, hstart⟩ := swalAppend_spec h.file h.ring log
    refine ⟨wal', by simp [swalStep, hrun], ⟨hf, hr, fun hs => ?_⟩, hopt⟩
    have hs' : wal.ringCache.isSome := by rwa [← hsome]
    have hwin := h.ringWindow hs'
    have hsize := h.ring.size_lt
    have hlen := log.small
    have hlen64 : log.bytes.length.toUInt64.toNat = log.bytes.length := length_toNat (by omega)
    rw [hf.end_eq, hstart, hopt, Swal.ringStartAfter, if_pos hs', Log.append_endOffset,
      ← h.file.end_eq, clampStart_sub (by rw [hwin, hlen64]; omega), hwin, hlen64]
    show _ = min (l.bytes ++ log.bytes).length _
    rw [List.length_append]
    omega
  | reset offset cksm =>
    obtain ⟨hf, hr⟩ := swalReset_spec h.file h.ring offset cksm
    refine ⟨_, rfl, ⟨hf, hr, fun hs => ?_⟩, rfl⟩
    have hs' : wal.ringCache.isSome := hs
    simp [swalReset, hs', Log.step]

/-- **Run.** A history returns and keeps the representation. -/
theorem Faithful.run {wal : Swal} {l : Log} (h : Faithful wal l) (ops : List SwalOp) :
    ∃ wal', swalRun wal ops = some wal' ∧ Faithful wal' (l.run ops) ∧
      wal'.options = wal.options := by
  induction ops generalizing wal l with
  | nil => exact ⟨wal, rfl, h, rfl⟩
  | cons op ops ih =>
    obtain ⟨wal₁, hstep, h₁, hopt₁⟩ := h.step op
    obtain ⟨wal', hrun, h', hopt⟩ := ih h₁
    exact ⟨wal', by simp [swalRun, hstep, hrun], h', hopt.trans hopt₁⟩

/-! ### Runs inside a circular region -/

/-- Every run lies in its region and together they carry `bs`. -/
def RunsCarry (wal : Swal) (runs : List Run) (bs : List UInt8) : Prop :=
  (∀ r ∈ runs, r.Inside wal) ∧ runs.flatMap (Run.bytes wal) = bs

section Region

variable {wal : Swal} {region : Region} {size pos : UInt64} {s : List UInt8}

/-- The block before the cursor, in one run. -/
theorem runsCarry_direct (h : Circular.Holds size.toNat (wal.region region) s)
    (hsize : 0 < size.toNat) (hpos : pos.toNat = s.length % size.toNat) {d n : UInt64}
    (hd : d ≤ pos) (hn : n.toNat ≤ d.toNat) :
    RunsCarry wal [⟨region, pos - d, n⟩]
      (Circular.slice s (s.length - d.toNat) n.toNat) := by
  rw [UInt64.le_iff_toNat_le] at hd
  have hsub : (pos - d).toNat = pos.toNat - d.toNat := toNat_sub_of_le hd
  have hmod := Nat.mod_lt s.length hsize
  refine ⟨?_, ?_⟩
  · rintro r hr
    obtain rfl := List.mem_singleton.mp hr
    show (pos - d).toNat + n.toNat ≤ _
    rw [hsub, h.length_eq]
    omega
  · simp only [List.flatMap_cons, List.flatMap_nil, List.append_nil, Run.bytes, hsub]
    rw [hpos] at hd ⊢
    exact h.read_direct hsize hd hn

/-- The block that starts `d` before the cursor in the wrapped part: one run or two. A `d` equal
to the cursor starts at the end of the region, with an empty first run. -/
theorem runsCarry_wrapped (h : Circular.Holds size.toNat (wal.region region) s)
    (hlt : size.toNat < 2 ^ 63) (hpos : pos.toNat = s.length % size.toNat) {d n : UInt64}
    (hd : pos ≤ d) (hds : d.toNat ≤ size.toNat) (hdl : d.toNat ≤ s.length) (hsize : 0 < size.toNat)
    (hn : n.toNat ≤ d.toNat) :
    RunsCarry wal (wrapRuns region size (size - d + pos) n)
      (Circular.slice s (s.length - d.toNat) n.toNat) := by
  rw [UInt64.le_iff_toNat_le] at hd
  have hmod := Nat.mod_lt s.length hsize
  have hsub : (size - d).toNat = size.toNat - d.toNat := toNat_sub_of_le hds
  have hstart : (size - d + pos).toNat = size.toNat - d.toNat + pos.toNat := by
    rw [toNat_add_of_lt (by omega), hsub]
  have hroom : (size - (size - d + pos)).toNat = d.toNat - pos.toNat := by
    rw [toNat_sub_of_le (by omega), hstart]
    omega
  unfold wrapRuns
  split
  · next hle =>
    -- the block ends in front of the end of the region
    rw [UInt64.le_iff_toNat_le, hroom] at hle
    refine ⟨?_, ?_⟩
    · rintro r hr
      obtain rfl := List.mem_singleton.mp hr
      show (size - d + pos).toNat + n.toNat ≤ _
      rw [hstart, h.length_eq]
      omega
    · simp only [List.flatMap_cons, List.flatMap_nil, List.append_nil, Run.bytes, hstart]
      rcases Nat.lt_or_ge pos.toNat d.toNat with hlt' | hge
      · rw [hpos] at hlt' hle ⊢
        exact h.read_wrapped hlt' hds hdl hle
      · have : n.toNat = 0 := by omega
        simp [this]
  · next hgt =>
    -- the block goes on at the start of the region
    rw [UInt64.le_iff_toNat_le, hroom] at hgt
    have hrest : (size - d + pos + n - size).toNat = n.toNat - (d.toNat - pos.toNat) := by
      have hadd : (size - d + pos + n).toNat = size.toNat - d.toNat + pos.toNat + n.toNat := by
        rw [toNat_add_of_lt (by omega), hstart]
      rw [toNat_sub_of_le (by omega), hadd]
      omega
    refine ⟨?_, ?_⟩
    · rintro r hr
      rcases List.mem_cons.mp hr with rfl | hr
      · show (size - d + pos).toNat + (size - (size - d + pos)).toNat ≤ _
        rw [hstart, hroom, h.length_eq]
        omega
      · obtain rfl := List.mem_singleton.mp hr
        show (0 : UInt64).toNat + (size - d + pos + n - size).toNat ≤ _
        rw [hrest, h.length_eq]
        simp only [UInt64.toNat_zero]
        omega
    · simp only [List.flatMap_cons, List.flatMap_nil, List.append_nil, Run.bytes, hstart, hroom,
        hrest, UInt64.toNat_zero]
      rcases Nat.lt_or_ge pos.toNat d.toNat with hlt' | hge
      · rw [hpos] at hlt' hgt ⊢
        exact h.read_split hlt' hds hdl (by omega) hn
      · -- `d` is the cursor itself
        have hdp : d.toNat = pos.toNat := by omega
        have hdirect := h.read_direct hsize (d := d.toNat) (n := n.toNat) (by omega) hn
        rw [← hpos, hdp, Nat.sub_self] at hdirect
        rw [hdp, Nat.sub_self, Circular.slice_zero, List.nil_append, Nat.sub_zero, hdirect]

end Region

/-! ### What a replay should hand out -/

/-- The number of bytes from `offset` that a replay with this limit is asked for. -/
def Log.asked (l : Log) (offset : UInt64) (limitLen : Int64) : ℕ :=
  let rest := (l.endOffset - offset).toNat
  if 0 < limitLen then min limitLen.toInt.toNat rest else rest

/-- The replay hands out exactly the bytes asked for, from inside its regions. -/
def ReplayCorrect (wal : Swal) (l : Log) (offset : UInt64) (limitLen : Int64) : Prop :=
  RunsCarry wal (swalReplay wal offset limitLen) ((l.since offset).take (l.asked offset limitLen))

/-- A positive limit is the same number as a `size_t`. -/
theorem limit_toNat {limitLen : Int64} (h : 0 < limitLen) :
    limitLen.toUInt64.toNat = limitLen.toInt.toNat := by
  have hpos : 0 < limitLen.toInt := by
    have := Int64.lt_iff_toInt_lt.mp h
    simpa using this
  -- both are the same 64 bits, whose sign bit is clear
  have hbits := BitVec.toInt_eq_toNat_cond limitLen.toBitVec
  show limitLen.toBitVec.toNat = limitLen.toBitVec.toInt.toNat
  have hpos' : 0 < limitLen.toBitVec.toInt := hpos
  split at hbits <;> omega

/-- The total of a replay is what it is asked for. -/
theorem replayTotal_toNat {wal : Swal} {l : Log} (hend : wal.logMeta.logEndOffset = l.endOffset)
    (offset : UInt64) (limitLen : Int64) :
    (replayTotal wal offset limitLen).toNat = l.asked offset limitLen := by
  unfold replayTotal Log.asked
  rw [hend]
  simp only
  by_cases hpos : 0 < limitLen
  · by_cases hlt : limitLen.toUInt64 < l.endOffset - offset
    · rw [if_pos ⟨hpos, hlt⟩, if_pos hpos, limit_toNat hpos]
      rw [UInt64.lt_iff_toNat_lt, limit_toNat hpos] at hlt
      omega
    · rw [if_neg (fun h => hlt h.2), if_pos hpos]
      rw [UInt64.lt_iff_toNat_lt, limit_toNat hpos] at hlt
      omega
  · rw [if_neg (fun h => hpos h.1), if_neg hpos]

theorem Log.asked_le (l : Log) (offset : UInt64) (limitLen : Int64) :
    l.asked offset limitLen ≤ (l.endOffset - offset).toNat := by
  unfold Log.asked
  simp only
  split
  · exact Nat.min_le_right _ _
  · exact le_rfl

/-- As long as there is a rest, something is asked for. -/
theorem Log.asked_pos {l : Log} {offset : UInt64} (h : 0 < (l.endOffset - offset).toNat)
    (limitLen : Int64) : 0 < l.asked offset limitLen := by
  unfold Log.asked
  split
  · next hlim =>
    have hint : 0 < limitLen.toInt := by simpa using Int64.lt_iff_toInt_lt.mp hlim
    exact Nat.lt_min.mpr ⟨by omega, h⟩
  · exact h

/-- The bytes asked for, as a slice of the log. -/
theorem Log.since_take (l : Log) (offset : UInt64) (n : ℕ) :
    (l.since offset).take n
      = Circular.slice l.bytes (l.bytes.length - (l.endOffset - offset).toNat) n := rfl

/-- The distance of an offset of the window from the end. -/
theorem window_sub {wal : Swal} {l : Log} (h : FileRep wal l) {offset : UInt64}
    (hlo : wal.logMeta.logStartOffset ≤ offset) (hhi : offset ≤ wal.logMeta.logEndOffset) :
    (l.endOffset - offset).toNat ≤ l.bytes.length ∧
      (l.endOffset - offset).toNat ≤ wal.options.maxFileSize.toNat := by
  have hwin := h.window
  rw [← h.end_eq]
  rw [UInt64.le_iff_toNat_le] at hlo hhi
  rw [toNat_sub_of_le (by omega)] at hwin
  rw [toNat_sub_of_le hhi]
  omega

/-- The offset lies in the window of the log. -/
def InWindow (wal : Swal) (offset : UInt64) : Prop :=
  wal.logMeta.logStartOffset ≤ offset ∧ offset ≤ wal.logMeta.logEndOffset

instance (wal : Swal) (offset : UInt64) : Decidable (InWindow wal offset) :=
  inferInstanceAs (Decidable (_ ∧ _))

/-- The offset of the `i`-th byte of a log. -/
def Log.offsetAt (l : Log) (i : ℕ) : UInt64 := l.base + i.toUInt64

/-- The distance of a byte from the end. -/
theorem Log.endOffset_sub (l : Log) {i : ℕ} (hi : i ≤ l.bytes.length)
    (hfar : l.bytes.length - i < 2 ^ 64) :
    (l.endOffset - l.offsetAt i).toNat = l.bytes.length - i := by
  have hsum : l.bytes.length.toUInt64 = i.toUInt64 + (l.bytes.length - i).toUInt64 := by
    rw [← toUInt64_add]
    congr 1
    omega
  have hsub : l.endOffset - l.offsetAt i = (l.bytes.length - i).toUInt64 := by
    unfold Log.endOffset Log.offsetAt
    rw [hsum]
    grind
  rw [hsub]
  simp only [Nat.toUInt64, UInt64.toNat_ofNat']
  exact Nat.mod_eq_of_lt hfar

/-- The bytes from the `i`-th one on. -/
theorem Log.since_offsetAt (l : Log) {i : ℕ} (hi : i ≤ l.bytes.length)
    (hfar : l.bytes.length - i < 2 ^ 64) : l.since (l.offsetAt i) = l.bytes.drop i := by
  unfold Log.since
  rw [l.endOffset_sub hi hfar]
  congr 1
  omega

/-! ### The read paths -/

/-- Reading back from the ring: the last bytes it was fed. -/
theorem replayRing_carry {wal : Swal} {u : List UInt8} (h : RingRep wal u)
    (hsome : wal.ringCache.isSome) {offset total : UInt64}
    (hd : (wal.logMeta.logEndOffset - offset).toNat ≤ wal.options.ringCacheSize.toNat)
    (hu : (wal.logMeta.logEndOffset - offset).toNat ≤ u.length)
    (hn : total.toNat ≤ (wal.logMeta.logEndOffset - offset).toNat) :
    RunsCarry wal (replayRing wal offset total)
      (Circular.slice u (u.length - (wal.logMeta.logEndOffset - offset).toNat) total.toNat) := by
  obtain ⟨r, hcache⟩ := Option.isSome_iff_exists.mp hsome
  have hsize := h.some_iff.mp hsome
  have hholds : Circular.Holds wal.options.ringCacheSize.toNat (wal.region .ring) u := by
    have hregion : wal.region .ring = r := by simp [Swal.region, hcache]
    rw [hregion]
    exact h.ring r hcache
  have hidx := h.idx_eq r hcache
  unfold replayRing
  simp only
  split
  · next hle => exact runsCarry_direct hholds hsize hidx hle hn
  · next hgt =>
    have hgt' : wal.ringCacheIdx ≤ wal.logMeta.logEndOffset - offset := by
      rw [UInt64.le_iff_toNat_le] at hgt ⊢
      omega
    exact runsCarry_wrapped hholds h.size_lt hidx hgt' hd hu hsize hn

/-- The read from the ring is correct. -/
theorem replay_ring {wal : Swal} {l : Log} (h : Faithful wal l) {offset : UInt64}
    (hhi : offset ≤ wal.logMeta.logEndOffset) (hring : servedByRing wal offset)
    (limitLen : Int64) : ReplayCorrect wal l offset limitLen := by
  have hwin := h.ringWindow hring.1
  have htotal := replayTotal_toNat h.file.end_eq offset limitLen
  have hn := l.asked_le offset limitLen
  -- `cache_len` reaches no further back than the window of the ring
  have hd : (wal.logMeta.logEndOffset - offset).toNat
      ≤ min l.bytes.length wal.options.ringCacheSize.toNat := by
    have hlo := hring.2
    rw [UInt64.le_iff_toNat_le] at hlo hhi
    rw [← hwin, toNat_sub_of_le hhi, toNat_sub_of_le (by omega)]
    omega
  unfold ReplayCorrect swalReplay
  rw [if_pos hring, Log.since_take, ← htotal, ← h.file.end_eq]
  rw [← htotal, ← h.file.end_eq] at hn
  exact replayRing_carry h.ring hring.1 (by omega) (by omega) hn

section File

variable {wal : Swal} {l : Log}

/-- The mapping holds the log. -/
theorem FileRep.mapping (h : FileRep wal l) :
    Circular.Holds wal.options.maxFileSize.toNat (wal.region .file) l.bytes := by
  have : wal.region .file = wal.file := by
    simp only [Swal.region]
    exact List.take_of_length_le (by rw [h.file.length_eq])
  rw [this]
  exact h.file

/-- The read from the file is the direct block when the log does not wrap after `offset`. -/
theorem replay_file_direct (h : FileRep wal l) {offset : UInt64}
    (hlo : wal.logMeta.logStartOffset ≤ offset) (hring : ¬ servedByRing wal offset)
    (hd : l.endOffset - offset ≤ wal.logMeta.logFilePos) (limitLen : Int64) :
    ReplayCorrect wal l offset limitLen := by
  have htotal := replayTotal_toNat h.end_eq offset limitLen
  have hn := l.asked_le offset limitLen
  unfold ReplayCorrect swalReplay
  rw [if_neg hring, Log.since_take, ← htotal]
  rw [← htotal] at hn
  unfold replayFile
  rw [if_pos hlo, h.end_eq]
  simp only
  rw [if_pos hd]
  exact runsCarry_direct h.mapping h.size_pos h.pos_eq hd hn

/-- In the wrapped part the read hands out the last `total` bytes of the log. -/
theorem replay_file_limited (h : FileRep wal l) {offset : UInt64}
    (hlo : wal.logMeta.logStartOffset ≤ offset) (hhi : offset ≤ wal.logMeta.logEndOffset)
    (hring : ¬ servedByRing wal offset) (hd : ¬ l.endOffset - offset ≤ wal.logMeta.logFilePos)
    {limitLen : Int64} (hpos : wal.logMeta.logFilePos.toNat ≤ l.asked offset limitLen) :
    RunsCarry wal (swalReplay wal offset limitLen)
      (Circular.slice l.bytes (l.bytes.length - l.asked offset limitLen)
        (l.asked offset limitLen)) := by
  have htotal := replayTotal_toNat h.end_eq offset limitLen
  have hn := l.asked_le offset limitLen
  obtain ⟨hlen, hsize⟩ := window_sub h hlo hhi
  unfold swalReplay
  rw [if_neg hring]
  unfold replayFile
  rw [if_pos hlo, h.end_eq]
  simp only
  rw [if_neg hd, ← htotal]
  rw [← htotal] at hn hpos
  exact runsCarry_wrapped h.mapping h.size_lt h.pos_eq (UInt64.le_iff_toNat_le.mpr hpos)
    (by omega) (by omega) h.size_pos le_rfl

/-- In the wrapped part, a total shorter than the cursor makes one run, and it ends behind the
mapping. -/
theorem replay_file_outside_run (h : FileRep wal l) {offset : UInt64}
    (hlo : wal.logMeta.logStartOffset ≤ offset) (hhi : offset ≤ wal.logMeta.logEndOffset)
    (hring : ¬ servedByRing wal offset) (hd : ¬ l.endOffset - offset ≤ wal.logMeta.logFilePos)
    {limitLen : Int64} (hpos : l.asked offset limitLen < wal.logMeta.logFilePos.toNat) :
    ∃ startPos total, swalReplay wal offset limitLen = [⟨.file, startPos, total⟩] ∧
      total.toNat = l.asked offset limitLen ∧
      (wal.region .file).length < startPos.toNat + total.toNat := by
  have htotal := replayTotal_toNat h.end_eq offset limitLen
  have hn := l.asked_le offset limitLen
  obtain ⟨hlen, hsize⟩ := window_sub h hlo hhi
  have hlt := h.size_lt
  have hmod : wal.logMeta.logFilePos.toNat < wal.options.maxFileSize.toNat := by
    rw [h.pos_eq]; exact Nat.mod_lt _ h.size_pos
  unfold swalReplay
  rw [if_neg hring]
  unfold replayFile
  rw [if_pos hlo, h.end_eq]
  simp only
  rw [if_neg hd, h.mapping.length_eq]
  rw [← htotal] at hn hpos ⊢
  generalize replayTotal wal offset limitLen = total at hn hpos ⊢
  have hsub : (wal.options.maxFileSize - total).toNat
      = wal.options.maxFileSize.toNat - total.toNat := toNat_sub_of_le (by omega)
  have hstart : (wal.options.maxFileSize - total + wal.logMeta.logFilePos).toNat
      = wal.options.maxFileSize.toNat - total.toNat + wal.logMeta.logFilePos.toNat := by
    rw [toNat_add_of_lt (by omega), hsub]
  generalize wal.options.maxFileSize - total + wal.logMeta.logFilePos = startPos at hstart ⊢
  -- the remaining room wraps around to a huge number, so there is one run
  have hroom : total ≤ wal.options.maxFileSize - startPos := by
    rw [UInt64.le_iff_toNat_le, UInt64.toNat_sub]
    omega
  exact ⟨startPos, total, by simp [wrapRuns, hroom], rfl, by omega⟩

/-- Such a run does not lie in the mapping. -/
theorem replay_file_outside (h : FileRep wal l) {offset : UInt64}
    (hlo : wal.logMeta.logStartOffset ≤ offset) (hhi : offset ≤ wal.logMeta.logEndOffset)
    (hring : ¬ servedByRing wal offset) (hd : ¬ l.endOffset - offset ≤ wal.logMeta.logFilePos)
    {limitLen : Int64} (hpos : l.asked offset limitLen < wal.logMeta.logFilePos.toNat) :
    ∃ r ∈ swalReplay wal offset limitLen, ¬ r.Inside wal := by
  obtain ⟨startPos, total, hrun, -, hout⟩ := replay_file_outside_run h hlo hhi hring hd hpos
  exact ⟨_, by rw [hrun]; exact List.mem_singleton_self _, Nat.not_le.mpr hout⟩

/-- An unlimited read of the file is correct. -/
theorem replay_file_unlimited (h : FileRep wal l) {offset : UInt64}
    (hlo : wal.logMeta.logStartOffset ≤ offset) (hhi : offset ≤ wal.logMeta.logEndOffset)
    (hring : ¬ servedByRing wal offset) {limitLen : Int64}
    (hall : l.asked offset limitLen = (l.endOffset - offset).toNat) :
    ReplayCorrect wal l offset limitLen := by
  by_cases hd : l.endOffset - offset ≤ wal.logMeta.logFilePos
  · exact replay_file_direct h hlo hring hd limitLen
  · unfold ReplayCorrect
    rw [Log.since_take, ← hall]
    refine replay_file_limited h hlo hhi hring hd ?_
    rw [UInt64.le_iff_toNat_le] at hd
    omega

end File

/-! ### When a replay is correct -/

/-- The reads that come out right: from the ring, from a part of the file that does not wrap, or
without an effective limit. The last case is a coincidence of the data: the limit is at least the
cursor, and the first `n` bytes from `offset` are the last `n` bytes of the log. -/
def ReplaySafe (wal : Swal) (l : Log) (offset : UInt64) (limitLen : Int64) : Prop :=
  servedByRing wal offset ∨
  l.endOffset - offset ≤ wal.logMeta.logFilePos ∨
  l.asked offset limitLen = (l.endOffset - offset).toNat ∨
  (wal.logMeta.logFilePos.toNat ≤ l.asked offset limitLen ∧
    (l.since offset).take (l.asked offset limitLen)
      = l.bytes.drop (l.bytes.length - l.asked offset limitLen))

theorem Faithful.replayCorrect_iff {wal : Swal} {l : Log} (h : Faithful wal l) {offset : UInt64}
    (hlo : wal.logMeta.logStartOffset ≤ offset) (hhi : offset ≤ wal.logMeta.logEndOffset)
    (limitLen : Int64) :
    ReplayCorrect wal l offset limitLen ↔ ReplaySafe wal l offset limitLen := by
  by_cases hring : servedByRing wal offset
  · exact ⟨fun _ => .inl hring, fun _ => replay_ring h hhi hring limitLen⟩
  by_cases hd : l.endOffset - offset ≤ wal.logMeta.logFilePos
  · exact ⟨fun _ => .inr (.inl hd), fun _ => replay_file_direct h.file hlo hring hd limitLen⟩
  by_cases hall : l.asked offset limitLen = (l.endOffset - offset).toNat
  · exact ⟨fun _ => .inr (.inr (.inl hall)),
      fun _ => replay_file_unlimited h.file hlo hhi hring hall⟩
  by_cases hpos : wal.logMeta.logFilePos.toNat ≤ l.asked offset limitLen
  · -- the runs carry the last bytes of the log, which may be the right ones
    obtain ⟨hin, hbytes⟩ := replay_file_limited h.file hlo hhi hring hd hpos
    obtain ⟨hlen, -⟩ := window_sub h.file hlo hhi
    have hn := l.asked_le offset limitLen
    rw [Circular.slice_eq_drop (by omega)] at hbytes
    constructor
    · intro hc
      exact .inr (.inr (.inr ⟨hpos, hc.2.symm.trans hbytes⟩))
    · rintro (h' | h' | h' | ⟨-, h'⟩)
      · exact absurd h' hring
      · exact absurd h' hd
      · exact absurd h' hall
      · exact ⟨hin, hbytes.trans h'.symm⟩
  · obtain ⟨r, hr, hout⟩ := replay_file_outside h.file hlo hhi hring hd (Nat.lt_of_not_le hpos)
    constructor
    · intro hc
      exact absurd (hc.1 r hr) hout
    · rintro (h' | h' | h' | ⟨h', -⟩)
      · exact absurd h' hring
      · exact absurd h' hd
      · exact absurd h' hall
      · exact absurd h' hpos

/-- A replay that hands out the right bytes is correct: a run that leaves its region hands out
fewer. -/
theorem Faithful.replayCorrect_of_bytes {wal : Swal} {l : Log} (h : Faithful wal l)
    {offset : UInt64} (hlo : wal.logMeta.logStartOffset ≤ offset)
    (hhi : offset ≤ wal.logMeta.logEndOffset) {limitLen : Int64}
    (hbytes : replayBytes wal offset limitLen
      = (l.since offset).take (l.asked offset limitLen)) :
    ReplayCorrect wal l offset limitLen := by
  rw [h.replayCorrect_iff hlo hhi]
  by_cases hring : servedByRing wal offset
  · exact .inl hring
  by_cases hd : l.endOffset - offset ≤ wal.logMeta.logFilePos
  · exact .inr (.inl hd)
  by_cases hpos : wal.logMeta.logFilePos.toNat ≤ l.asked offset limitLen
  · obtain ⟨hin, -⟩ := replay_file_limited h.file hlo hhi hring hd hpos
    exact (h.replayCorrect_iff hlo hhi limitLen).mp ⟨hin, hbytes⟩
  obtain ⟨startPos, total, hrun, htotal, hout⟩ :=
    replay_file_outside_run h.file hlo hhi hring hd (Nat.lt_of_not_le hpos)
  obtain ⟨hlen, -⟩ := window_sub h.file hlo hhi
  have hn := l.asked_le offset limitLen
  have hright := congrArg List.length hbytes
  rw [replayBytes, hrun, List.flatMap_singleton, Run.bytes, Circular.slice, List.length_take,
    List.length_drop, List.length_take, Log.since, List.length_drop] at hright
  dsimp only at hright
  rw [htotal] at hout hright
  rw [UInt64.le_iff_toNat_le] at hd
  have hasked := @Log.asked_pos l offset (by omega) limitLen
  omega

/-- **Replay after any history.** From a fresh open with a positive file size every history of
appends and resets returns, and in the state it reaches a replay of an offset of the window hands
out exactly the logged bytes if and only if the read is `ReplaySafe`. -/
theorem swalReplay_correct_iff {options : SwalOptions} (h0 : 0 < options.maxFileSize)
    {malloc : Option (MallocBlock options.ringCacheSize)} {wal₀ : Swal}
    (hopen : swalOpen .fresh options malloc = .ok wal₀) (ops : List SwalOp) :
    ∃ wal, swalRun wal₀ ops = some wal ∧ ∀ offset limitLen,
      wal.logMeta.logStartOffset ≤ offset → offset ≤ wal.logMeta.logEndOffset →
      (ReplayCorrect wal ((Log.reset 0).run ops) offset limitLen ↔
        ReplaySafe wal ((Log.reset 0).run ops) offset limitLen) := by
  have h0' : 0 < options.maxFileSize.toNat := by simpa [UInt64.lt_iff_toNat_lt] using h0
  obtain ⟨wal, hrun, hfaith, -⟩ := (Faithful.fresh h0' hopen).run ops
  exact ⟨wal, hrun, fun offset limitLen hlo hhi => hfaith.replayCorrect_iff hlo hhi limitLen⟩

/-! ### A limited read that starts in the wrapped part -/

/-- A file of four bytes, no ring. -/
def smallOptions : SwalOptions :=
  { maxFileSize := 4, ringCacheSize := 0, cksmFunc := none }

/-- The fresh log with these options. -/
def smallWal : Swal :=
  { options := smallOptions, logMeta := SwalDir.fresh.logMeta, file := [0, 0, 0, 0], fdPos := 0
    ringCache := none, ringCacheStartOffset := 0, ringCacheIdx := 0 }

/-- The record `abcdef`, longer than the file. -/
def sixBytes : Obj := ⟨[97, 98, 99, 100, 101, 102], by decide⟩

/-- After `abcdef` the window is `[2, 6]` and the file wraps after `cd`. A read of three bytes from
offset `2` hands out `def`, where the log has `cde` there. -/
theorem swalReplay_limited_wrong :
    ∃ wal, swalOpen .fresh smallOptions none = .ok smallWal ∧
      swalRun smallWal [.append sixBytes] = some wal ∧
      wal.logMeta.logStartOffset ≤ 2 ∧ 2 ≤ wal.logMeta.logEndOffset ∧
      replayBytes wal 2 3 = [100, 101, 102] ∧
      (((Log.reset 0).run [.append sixBytes]).since 2).take
        (((Log.reset 0).run [.append sixBytes]).asked 2 3) = [99, 100, 101] ∧
      ¬ ReplayCorrect wal ((Log.reset 0).run [.append sixBytes]) 2 3 := by
  have hbytes : ∀ wal : Swal, replayBytes wal 2 3 = [100, 101, 102] →
      ¬ ReplayCorrect wal ((Log.reset 0).run [.append sixBytes]) 2 3 := by
    intro wal h hc
    have h' := hc.2.symm.trans h
    revert h'
    decide
  refine ⟨_, rfl, rfl, by decide, by decide, by decide, by decide, hbytes _ (by decide)⟩

theorem swalReplay_correct_iff_small :
    ∃ wal, swalRun smallWal [.append sixBytes] = some wal ∧ ∀ offset limitLen,
      wal.logMeta.logStartOffset ≤ offset → offset ≤ wal.logMeta.logEndOffset →
      (ReplayCorrect wal ((Log.reset 0).run [.append sixBytes]) offset limitLen ↔
        ReplaySafe wal ((Log.reset 0).run [.append sixBytes]) offset limitLen) :=
  @swalReplay_correct_iff smallOptions (by decide) none smallWal rfl _

end Comms
