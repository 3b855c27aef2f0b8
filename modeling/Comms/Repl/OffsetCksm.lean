import Comms.Codec.Crc64
import Comms.Repl.FullResync

/-!
# The check of a partial resync

A slave asks to go on at an offset and names the checksum it has there. `IsValidOffsetCksm` continues
that checksum over what the log holds behind the offset and compares it with the checksum of the log.

* `CksmHistory` — the checksums that the log had at the offsets it still holds;
* `CksmOk` — the log continues the checksum of its last reset, and so does every entry of the history;
* `CksmOk.step` — kept by every append and every reset;
* `Faithful.isValidOffsetCksm_iff` — what the check says of any checksum;
* `isValidOffsetCksm_exact` — the check after any history.

The replay that the check runs asks for everything behind the offset, so the limit it passes does not cut
anything off.
-/

namespace Comms

/-! ### The checksums of a log -/

/-- What checksum a log had when its end offset was this one. -/
abbrev CksmHistory := UInt64 → Option UInt64

/-- The log has come to a new end. The offsets that its window has left are forgotten. -/
def CksmHistory.record (K : CksmHistory) (wal : Swal) : CksmHistory := fun offset =>
  if offset = wal.logMeta.logEndOffset then some wal.logMeta.cksm
  else if wal.logMeta.logEndOffset - offset ≤ wal.logMeta.logEndOffset - wal.logMeta.logStartOffset
  then K offset
  else none

/-- What of the history concerns the log behind this call: a reset begins another log. -/
def CksmHistory.before (K : CksmHistory) : SwalOp → CksmHistory
  | .append _ => K
  | .reset _ _ => fun _ => none

/-- The history of a log that has just been opened. -/
def CksmHistory.init (wal : Swal) : CksmHistory := CksmHistory.record (fun _ => none) wal

/-- One call, with its entry in the history. -/
def cksmStep (s : Swal × CksmHistory) (op : SwalOp) : Option (Swal × CksmHistory) :=
  (swalStep s.1 op).map fun wal => (wal, (s.2.before op).record wal)

/-! ### The invariant -/

/-- **The checksums.** The log has the checksum of its last reset, continued over everything since; an
entry of the history has it continued up to its offset, which the window still holds. -/
structure CksmOk (wal : Swal) (K : CksmHistory) (l : Log) (reset : UInt64) : Prop where
  faithful : Faithful wal l
  func : wal.options.cksmFunc = some crc64
  cksm : wal.logMeta.cksm = crc64 reset l.bytes
  entry : ∀ offset c, K offset = some c →
    (l.endOffset - offset).toNat ≤ min l.bytes.length wal.options.maxFileSize.toNat ∧
      c = crc64 reset (l.bytes.take (l.bytes.length - (l.endOffset - offset).toNat))

/-- The entry for the end of the log. -/
theorem CksmOk.record_end {wal : Swal} {K : CksmHistory} {l : Log} {reset offset c : UInt64}
    (hf : Faithful wal l) (hcksm : wal.logMeta.cksm = crc64 reset l.bytes)
    (hend : offset = wal.logMeta.logEndOffset) (hc : K.record wal offset = some c) :
    (l.endOffset - offset).toNat ≤ min l.bytes.length wal.options.maxFileSize.toNat ∧
      c = crc64 reset (l.bytes.take (l.bytes.length - (l.endOffset - offset).toNat)) := by
  unfold CksmHistory.record at hc
  rw [if_pos hend] at hc
  have hzero : (l.endOffset - offset).toNat = 0 := by
    rw [hend, hf.file.end_eq, UInt64.sub_self, UInt64.toNat_zero]
  rw [hzero, Nat.sub_zero, List.take_length, ← hcksm]
  exact ⟨Nat.zero_le _, (Option.some.inj hc).symm⟩

theorem CksmOk.init {options : SwalOptions} (h0 : 0 < options.maxFileSize.toNat)
    (hfunc : options.cksmFunc = some crc64) {malloc : Option (MallocBlock options.ringCacheSize)}
    {wal : Swal} (hopen : swalOpen .fresh options malloc = .ok wal) :
    CksmOk wal (.init wal) (Log.reset 0) 0 := by
  have hf := Faithful.fresh h0 hopen
  obtain ⟨hopt, hmeta⟩ := swalOpen_frame hopen
  have hcksm : wal.logMeta.cksm = crc64 0 (Log.reset 0).bytes := by
    rw [hmeta]
    rfl
  refine ⟨hf, by rw [hopt]; exact hfunc, hcksm, ?_⟩
  intro offset c hc
  by_cases hend : offset = wal.logMeta.logEndOffset
  · exact CksmOk.record_end hf hcksm hend hc
  · -- no other offset has an entry
    unfold CksmHistory.init CksmHistory.record at hc
    rw [if_neg hend, ite_self] at hc
    cases hc

/-- **Step.** -/
theorem CksmOk.step {wal : Swal} {K : CksmHistory} {l : Log} {reset : UInt64}
    (h : CksmOk wal K l reset) (op : SwalOp) :
    ∃ wal' reset', cksmStep (wal, K) op = some (wal', (K.before op).record wal') ∧
      CksmOk wal' ((K.before op).record wal') (l.step op) reset' := by
  obtain ⟨wal', hstep, hf, hopt⟩ := h.faithful.step op
  have hcall : cksmStep (wal, K) op = some (wal', (K.before op).record wal') := by
    unfold cksmStep
    rw [hstep]
    rfl
  cases op with
  | append log =>
    refine ⟨wal', reset, hcall, ?_⟩
    obtain ⟨-, hend', -, hcksm'⟩ := swalStep_append hstep
    have hcksm : wal'.logMeta.cksm = crc64 reset (l.append log.bytes).bytes := by
      rw [hcksm', Log.append_bytes, crc64_append, ← h.cksm]
      simp only [appendMeta, h.func]
    refine ⟨hf, by rw [hopt]; exact h.func, hcksm, ?_⟩
    intro offset c hc
    by_cases hend : offset = wal'.logMeta.logEndOffset
    · exact CksmOk.record_end hf hcksm hend hc
    · -- an entry of before: what lies behind it has grown by what was appended
      unfold CksmHistory.record at hc
      rw [if_neg hend] at hc
      obtain ⟨hin, hold⟩ := Option.ite_none_right_eq_some.mp hc
      obtain ⟨hle, hc⟩ := h.entry offset c hold
      have hsize := h.faithful.file.size_lt
      have hsmall := log.small
      have hlen : log.bytes.length.toUInt64.toNat = log.bytes.length := length_toNat (by omega)
      have hgrown : ((l.append log.bytes).endOffset - offset).toNat
          = (l.endOffset - offset).toNat + log.bytes.length := by
        have hsub : l.endOffset + log.bytes.length.toUInt64 - offset
            = l.endOffset - offset + log.bytes.length.toUInt64 := by grind
        rw [Log.append_endOffset, hsub, toNat_add_of_lt (by rw [hlen]; omega), hlen]
      constructor
      · have hwindow := hf.file.window
        rw [UInt64.le_iff_toNat_le, hwindow, hf.file.end_eq] at hin
        exact hin
      · change c = crc64 reset ((l.append log.bytes).bytes.take
          ((l.append log.bytes).bytes.length - ((l.append log.bytes).endOffset - offset).toNat))
        rw [hgrown, Log.append_bytes, List.length_append, Nat.add_sub_add_right,
          List.take_append_of_le_length (Nat.sub_le _ _)]
        exact hc
  | reset offset cksm =>
    refine ⟨wal', cksm, hcall, ?_⟩
    obtain rfl : swalReset wal offset cksm = wal' := Option.some.inj hstep
    refine ⟨hf, h.func, rfl, ?_⟩
    intro o c hc
    by_cases hend : o = (swalReset wal offset cksm).logMeta.logEndOffset
    · exact CksmOk.record_end hf rfl hend hc
    · -- the history begins anew
      unfold CksmHistory.record at hc
      rw [if_neg hend] at hc
      have hnone := (Option.ite_none_right_eq_some.mp hc).2
      cases hnone

/-- **Run.** -/
theorem CksmOk.run {wal : Swal} {K : CksmHistory} {l : Log} {reset : UInt64}
    (h : CksmOk wal K l reset) (ops : List SwalOp) :
    ∃ wal' K' reset', Run.steps cksmStep (wal, K) ops = some (wal', K') ∧
      CksmOk wal' K' (l.run ops) reset' := by
  induction ops generalizing wal K l reset with
  | nil => exact ⟨wal, K, reset, rfl, h⟩
  | cons op ops ih =>
    obtain ⟨wal₁, reset₁, hstep, h₁⟩ := h.step op
    obtain ⟨wal', K', reset', hrun, h'⟩ := ih h₁
    refine ⟨wal', K', reset', ?_, h'⟩
    rw [Run.steps_cons, hstep]
    exact hrun

/-! ### The check -/

/-- The offset is one that the check looks at. -/
def Asked (wal : Swal) (offset : Int64) : Prop := 0 < offset ∧ InWindow wal offset.toUInt64

instance (wal : Swal) (offset : Int64) : Decidable (Asked wal offset) :=
  inferInstanceAs (Decidable (_ ∧ _))

/-- The distance to the end is passed as the limit, and asks for all there is. -/
theorem asked_all {wal : Swal} {l : Log} (h : FileRep wal l) {offset : UInt64}
    (hin : InWindow wal offset) :
    l.asked offset (wal.logMeta.logEndOffset - offset).toInt64 = (l.endOffset - offset).toNat := by
  obtain ⟨-, hsize⟩ := window_sub h hin.1 hin.2
  have hlt := h.size_lt
  unfold Log.asked
  dsimp only
  rw [h.end_eq]
  generalize l.endOffset - offset = d at hsize ⊢
  have hint : d.toInt64.toInt = d.toNat := by
    show d.toBitVec.toInt = d.toBitVec.toNat
    rw [BitVec.toInt_eq_toNat_cond, if_pos]
    show 2 * d.toNat < 2 ^ 64
    omega
  split
  · rw [hint]
    exact Nat.min_self _
  · exact rfl

/-- **The check.** A checksum that is not `0` is accepted if and only if it is continued to the checksum
of the log by what lies behind the offset. -/
theorem Faithful.isValidOffsetCksm_iff {wal : Swal} {l : Log} (h : Faithful wal l) {offset : Int64}
    (hasked : Asked wal offset) {c : UInt64} (hc : c ≠ 0) :
    Resync.isValidOffsetCksm crc64 wal offset.toUInt64 c = true ↔
      crc64 c (l.since offset.toUInt64) = wal.logMeta.cksm := by
  obtain ⟨hpos, hin⟩ := hasked
  have hback : offset.toUInt64.toInt64 = offset := rfl
  unfold Resync.isValidOffsetCksm
  rw [if_pos ⟨by rw [hback]; exact hpos, hin.2, hin.1⟩, if_neg hc, decide_eq_true_iff,
    crc64_chunks]
  -- nothing is cut off, so the replay reads the log back
  have hall := asked_all h.file hin
  have hcorrect : ReplayCorrect wal l offset.toUInt64
      (wal.logMeta.logEndOffset - offset.toUInt64).toInt64 :=
    (h.replayCorrect_iff hin.1 hin.2 _).mpr (Or.inr (Or.inr (Or.inl hall)))
  obtain ⟨-, hbytes⟩ := hcorrect
  obtain ⟨hlen, -⟩ := window_sub h.file hin.1 hin.2
  have hsince : (l.since offset.toUInt64).length = (l.endOffset - offset.toUInt64).toNat := by
    rw [Log.since, List.length_drop]
    omega
  rw [hbytes, hall, ← hsince, List.take_length]

/-- An offset that the check does not look at is refused. -/
theorem isValidOffsetCksm_outside {wal : Swal} {offset : Int64} (h : ¬Asked wal offset)
    (c : UInt64) : Resync.isValidOffsetCksm crc64 wal offset.toUInt64 c = false := by
  unfold Resync.isValidOffsetCksm
  exact if_neg fun ⟨hpos, hhi, hlo⟩ => h ⟨hpos, hlo, hhi⟩

/-- The checksum that the log had at an offset is accepted there. -/
theorem CksmOk.accepts {wal : Swal} {K : CksmHistory} {l : Log} {reset : UInt64}
    (h : CksmOk wal K l reset) {offset : Int64} (hasked : Asked wal offset) {c : UInt64}
    (hc : K offset.toUInt64 = some c) :
    Resync.isValidOffsetCksm crc64 wal offset.toUInt64 c = true := by
  by_cases h0 : c = 0
  · -- `0` is not checked
    unfold Resync.isValidOffsetCksm
    rw [if_pos ⟨hasked.1, hasked.2.2, hasked.2.1⟩, if_pos h0]
  · rw [h.faithful.isValidOffsetCksm_iff hasked h0]
    obtain ⟨-, rfl⟩ := h.entry _ _ hc
    calc crc64 (crc64 reset (l.bytes.take _)) (l.since offset.toUInt64)
        = crc64 reset (l.bytes.take _ ++ l.bytes.drop _) := (crc64_append _ _ _).symm
      _ = crc64 reset l.bytes := by rw [List.take_append_drop]
      _ = wal.logMeta.cksm := h.cksm.symm

/-! ### A file without room

A log with `max_file_size = 0` can be opened. An append of anything never returns, so whatever history
there is leaves the log empty.
-/

/-- The loop over such a file never ends. -/
theorem writeLoop_noRoom {fuel : ℕ} {wal : Swal} (hsize : wal.options.maxFileSize = 0)
    (hpos : wal.logMeta.logFilePos = 0) {p : List UInt8} (hp : p ≠ []) :
    writeLoop fuel [] wal p = none := by
  induction fuel generalizing wal with
  | zero => rfl
  | succ fuel ih =>
    have hroom : wal.options.maxFileSize - wal.logMeta.logFilePos = 0 := by
      rw [hsize, hpos, UInt64.sub_self]
    have hnot : ¬p.length.toUInt64 < 0 := by simp [UInt64.lt_iff_toNat_lt]
    rw [writeLoop, if_neg (by simpa using hp)]
    dsimp only
    rw [hroom, if_neg hnot]
    simp only [List.headD_nil, WriteResult.taken, List.tail_nil, UInt64.toNat_zero, List.drop_zero]
    refine ih hsize ?_
    show (if _ then (0 : UInt64) else _) = 0
    rw [if_pos (by rw [hsize, hpos, UInt64.add_zero])]

/-- An append that returns has appended nothing. -/
theorem swalAppend_noRoom {wal wal' : Swal} {log : Obj} {err : Int}
    (hsize : wal.options.maxFileSize = 0) (hpos : wal.logMeta.logFilePos = 0)
    (h : swalAppend wal [] log = some (err, wal')) :
    log.bytes = [] ∧ wal'.logMeta.logFilePos = 0 := by
  by_cases hnil : log.bytes = []
  · refine ⟨hnil, ?_⟩
    have hloop : writeLoop (([] : List UInt8).length + 2) [] wal [] = some (0, wal) := rfl
    unfold swalAppend at h
    rw [hnil, hloop] at h
    dsimp only at h
    rw [if_neg (Int.lt_irrefl 0)] at h
    split at h
    · cases h
    next wal₃ hring =>
    obtain ⟨-, rfl⟩ := Prod.mk.inj (Option.some.inj h)
    obtain ⟨-, hmeta⟩ := appendRing_frame hring
    rw [hmeta]
    exact hpos
  · unfold swalAppend at h
    rw [writeLoop_noRoom hsize hpos hnil] at h
    cases h

/-- The log is empty, and the only offset is its end. -/
structure NoRoom (wal : Swal) (K : CksmHistory) (l : Log) : Prop where
  size : wal.options.maxFileSize = 0
  pos : wal.logMeta.logFilePos = 0
  window : wal.logMeta.logStartOffset = wal.logMeta.logEndOffset
  log : l = Log.reset wal.logMeta.logEndOffset
  entry : ∀ offset c, K offset = some c → c = wal.logMeta.cksm

/-- Every other entry has left the window. -/
theorem NoRoom.record {wal : Swal} (hwindow : wal.logMeta.logStartOffset = wal.logMeta.logEndOffset)
    (K : CksmHistory) {offset c : UInt64} (hc : K.record wal offset = some c) :
    c = wal.logMeta.cksm := by
  unfold CksmHistory.record at hc
  split at hc
  · exact (Option.some.inj hc).symm
  · next hne =>
    obtain ⟨hin, -⟩ := Option.ite_none_right_eq_some.mp hc
    rw [hwindow, UInt64.sub_self, UInt64.le_iff_toNat_le, UInt64.toNat_zero, Nat.le_zero] at hin
    have hzero : wal.logMeta.logEndOffset - offset = 0 := UInt64.toNat_inj.mp hin
    exact absurd (by grind) hne

theorem NoRoom.step {wal wal' : Swal} {K K' : CksmHistory} {l : Log} (h : NoRoom wal K l)
    {op : SwalOp} (hstep : cksmStep (wal, K) op = some (wal', K')) : NoRoom wal' K' (l.step op) := by
  obtain ⟨wal₁, hwal, heq⟩ := Option.map_eq_some_iff.mp hstep
  obtain ⟨rfl, rfl⟩ := Prod.mk.inj heq
  cases op with
  | append log =>
    obtain ⟨hopt, hend, hstart, -⟩ := swalStep_append hwal
    obtain ⟨r, happ, hr⟩ := Option.map_eq_some_iff.mp hwal
    obtain ⟨hnil, hpos⟩ := swalAppend_noRoom h.size h.pos happ
    rw [hr] at hpos
    have hend' : wal₁.logMeta.logEndOffset = wal.logMeta.logEndOffset := by
      rw [hend, hnil]
      exact UInt64.add_zero _
    have hwindow : wal₁.logMeta.logStartOffset = wal₁.logMeta.logEndOffset := by
      show _ = wal₁.logMeta.logEndOffset
      rw [hstart, h.size, clampStart, if_pos UInt64.zero_le, UInt64.sub_zero]
    refine ⟨by rw [hopt]; exact h.size, hpos, hwindow, ?_, fun _ _ => NoRoom.record hwindow _⟩
    rw [hend', h.log]
    show Log.append _ log.bytes = _
    rw [hnil]
    rfl
  | reset offset cksm =>
    obtain rfl : swalReset wal offset cksm = wal₁ := Option.some.inj hwal
    exact ⟨h.size, rfl, rfl, rfl, fun _ _ => NoRoom.record rfl _⟩

/-- The replay of the only offset hands out nothing. -/
theorem NoRoom.replay {wal : Swal} {K : CksmHistory} {l : Log} (h : NoRoom wal K l) {offset : UInt64}
    (hin : InWindow wal offset) (limitLen : Int64) :
    (swalReplay wal offset limitLen).flatMap (Run.bytes wal) = [] ∧ l.since offset = [] := by
  have hend : offset = wal.logMeta.logEndOffset := by
    obtain ⟨hlo, hhi⟩ := hin
    rw [h.window] at hlo
    exact UInt64.le_antisymm hhi hlo
  have htotal : replayTotal wal offset limitLen = 0 := by
    unfold replayTotal
    rw [hend, UInt64.sub_self]
    exact if_neg fun ⟨_, hlt⟩ => absurd hlt UInt64.not_lt_zero
  have hzero : wal.logMeta.logEndOffset - offset = 0 := by rw [hend, UInt64.sub_self]
  constructor
  · unfold swalReplay replayRing replayFile
    dsimp only
    rw [htotal, hzero, if_pos UInt64.zero_le, if_pos UInt64.zero_le]
    split
    · simp [Run.bytes, Circular.slice]
    · rw [if_pos hin.1]
      simp [Run.bytes, Circular.slice]
  · rw [h.log, Log.since, Log.reset_bytes, List.drop_nil]

/-! ### Every history -/

/-- **The check is exact**: the checksum that the log had at an offset is accepted there; an offset that
is not positive or not in the window is refused; any other checksum but `0` is accepted if and only if
what lies behind the offset continues it to the checksum of the log. -/
structure ChecksExactly (wal : Swal) (K : CksmHistory) (l : Log) : Prop where
  accepts : ∀ (offset : Int64) (c : UInt64), Asked wal offset → K offset.toUInt64 = some c →
    Resync.isValidOffsetCksm crc64 wal offset.toUInt64 c = true
  outside : ∀ (offset : Int64) (c : UInt64), ¬Asked wal offset →
    Resync.isValidOffsetCksm crc64 wal offset.toUInt64 c = false
  iff : ∀ (offset : Int64) (c : UInt64), Asked wal offset → c ≠ 0 →
    (Resync.isValidOffsetCksm crc64 wal offset.toUInt64 c = true ↔
      crc64 c (l.since offset.toUInt64) = wal.logMeta.cksm)

theorem CksmOk.checksExactly {wal : Swal} {K : CksmHistory} {l : Log} {reset : UInt64}
    (h : CksmOk wal K l reset) : ChecksExactly wal K l where
  accepts _ _ hasked hc := h.accepts hasked hc
  outside _ c hnot := isValidOffsetCksm_outside hnot c
  iff _ _ hasked hc := h.faithful.isValidOffsetCksm_iff hasked hc

theorem NoRoom.checksExactly {wal : Swal} {K : CksmHistory} {l : Log} (h : NoRoom wal K l) :
    ChecksExactly wal K l := by
  have hiff (offset : Int64) (c : UInt64) (hasked : Asked wal offset) (hc : c ≠ 0) :
      Resync.isValidOffsetCksm crc64 wal offset.toUInt64 c = true ↔
        crc64 c (l.since offset.toUInt64) = wal.logMeta.cksm := by
    obtain ⟨hnone, hsince⟩ := h.replay hasked.2
      (wal.logMeta.logEndOffset - offset.toUInt64).toInt64
    unfold Resync.isValidOffsetCksm
    rw [if_pos ⟨hasked.1, hasked.2.2, hasked.2.1⟩, if_neg hc, decide_eq_true_iff, crc64_chunks,
      hnone, hsince]
  refine ⟨fun offset c hasked hc => ?_, fun _ c hnot => isValidOffsetCksm_outside hnot c, hiff⟩
  by_cases h0 : c = 0
  · unfold Resync.isValidOffsetCksm
    rw [if_pos ⟨hasked.1, hasked.2.2, hasked.2.1⟩, if_pos h0]
  · rw [hiff offset c hasked h0, (h.replay hasked.2 0).2]
    exact h.entry _ _ hc

/-- **The check of a partial resync after any history.** From a fresh open of a log that is checked with
`crc64`, every history of appends and resets that returns, and with a positive file size that is every
history, leaves a log on which the check is exact. -/
theorem isValidOffsetCksm_exact {options : SwalOptions} (hfunc : options.cksmFunc = some crc64)
    {malloc : Option (MallocBlock options.ringCacheSize)} {wal₀ : Swal}
    (hopen : swalOpen .fresh options malloc = .ok wal₀) (ops : List SwalOp) :
    (0 < options.maxFileSize →
      ∃ wal K, Run.steps cksmStep (wal₀, .init wal₀) ops = some (wal, K)) ∧
    ∀ wal K, Run.steps cksmStep (wal₀, .init wal₀) ops = some (wal, K) →
      ChecksExactly wal K ((Log.reset 0).run ops) := by
  obtain ⟨hopt, hmeta⟩ := swalOpen_frame hopen
  by_cases h0 : 0 < options.maxFileSize
  · have h0' : 0 < options.maxFileSize.toNat := by simpa [UInt64.lt_iff_toNat_lt] using h0
    obtain ⟨wal, K, reset, hrun, hok⟩ := (CksmOk.init h0' hfunc hopen).run ops
    refine ⟨fun _ => ⟨wal, K, hrun⟩, fun wal' K' hrun' => ?_⟩
    obtain ⟨rfl, rfl⟩ := Prod.mk.inj (Option.some.inj (hrun.symm.trans hrun'))
    exact hok.checksExactly
  · refine ⟨fun hpos => absurd hpos h0, fun wal K hrun => ?_⟩
    have hsize : wal₀.options.maxFileSize = 0 := by
      rw [hopt]
      simpa using h0
    have hstart : NoRoom wal₀ (.init wal₀) (Log.reset 0) := by
      have hwindow : wal₀.logMeta.logStartOffset = wal₀.logMeta.logEndOffset := by
        rw [hmeta]
        rfl
      exact ⟨hsize, by rw [hmeta]; rfl, hwindow, by rw [hmeta]; rfl,
        fun _ _ => NoRoom.record hwindow _⟩
    suffices hall : ∀ (s : Swal × CksmHistory) (l : Log), NoRoom s.1 s.2 l →
        Run.steps cksmStep s ops = some (wal, K) → NoRoom wal K (l.run ops) from
      (hall _ _ hstart hrun).checksExactly
    clear hrun
    induction ops with
    | nil =>
      intro s l h hrun
      obtain rfl := Option.some.inj hrun
      exact h
    | cons op ops ih =>
      intro s l h hrun
      obtain ⟨t, ht, hrun⟩ := Run.steps_eq_some_cons hrun
      exact ih t (l.step op) (h.step ht) hrun

/-- The options of the log of a replication service, with a file of four bytes and no ring. -/
def checkedOptions : SwalOptions := { smallOptions with cksmFunc := some crc64 }

/-- The fresh log with these options. -/
def checkedWal : Swal := { smallWal with options := checkedOptions }

/-- Six bytes, a reset, and six bytes that run over the end of the file. -/
def checkedOps : List SwalOp := [.append sixBytes, .reset 3 7, .append sixBytes]

theorem isValidOffsetCksm_exact_small :
    ∃ wal K, Run.steps cksmStep (checkedWal, .init checkedWal) checkedOps = some (wal, K) ∧
      ChecksExactly wal K ((Log.reset 0).run checkedOps) := by
  obtain ⟨hreturns, hexact⟩ :=
    @isValidOffsetCksm_exact checkedOptions rfl none checkedWal rfl checkedOps
  obtain ⟨wal, K, hrun⟩ := hreturns (by decide)
  exact ⟨wal, K, hrun, hexact wal K hrun⟩

end Comms
