import Comms.Repl.SwalReplay

/-!
# Restarting a log

The meta page and the file survive `swalClose` and `swalOpen`; the ring does not. `swalOpen` sets
the window start of the new, unwritten ring to the start of the file's window, so a reopened log
serves from the ring offsets whose bytes were never copied there.

The unwritten ring is a ring that holds its own `malloc` block (`RingRep.block`): everything a
reopened log reads from its ring is the tail of that block followed by the bytes appended since
(`Reopened`). A replay is right for every block exactly when no byte from before the restart can
be asked from the ring (`swalRestart_correct_iff`).
-/

namespace Comms

/-- The bytes of a list of records. -/
def recordBytes (logs : List Obj) : List UInt8 := logs.flatMap Obj.bytes

/-- The history that appends these records. -/
def appendOps (logs : List Obj) : List SwalOp := logs.map .append

theorem Log.run_append (l : Log) (ops ops' : List SwalOp) :
    l.run (ops ++ ops') = (l.run ops).run ops' := List.foldl_append

theorem Log.run_appendOps (l : Log) (logs : List Obj) :
    l.run (appendOps logs) = l.append (recordBytes logs) := by
  induction logs generalizing l with
  | nil => simp [Log.run, appendOps, recordBytes, Log.append]
  | cons log logs ih =>
    have hstep : l.run (appendOps (log :: logs)) = (l.append log.bytes).run (appendOps logs) := rfl
    rw [hstep, ih]
    simp [Log.append, recordBytes]

/-! ### The ring after a restart -/

/-- A ring that was fed nothing holds the block it was allocated with. -/
theorem RingRep.block {wal : Swal} (h : RingRep wal []) {r : List UInt8}
    (hcache : wal.ringCache = some r) : RingRep wal r where
  some_iff := h.some_iff
  size_lt := h.size_lt
  idx_eq := by
    intro r' hr'
    rw [h.idx_eq r' hr', (h.ring r hcache).length_eq]
    simp
  ring := by
    intro r' hr'
    obtain rfl : r = r' := Option.some.inj (hcache.symm.trans hr')
    have hlen := (h.ring r hcache).length_eq
    refine ⟨hlen, fun i hi _ => ?_⟩
    rw [Nat.mod_eq_of_lt (by omega)]

/-- The window of the ring after records were appended to a ring whose window was `k` long. Before
the first append nothing clamps it. -/
def ringWindowAfter (k size : ℕ) (logs : List Obj) : ℕ :=
  if logs = [] then k else min (k + (recordBytes logs).length) size

/-- **Appending to a log whose ring was fed `u`.** -/
theorem appendOps_run {wal : Swal} {l : Log} {u : List UInt8} (hf : FileRep wal l)
    (hr : RingRep wal u) {k : ℕ} (hk : k < 2 ^ 63)
    (hwin : wal.ringCache.isSome →
      (wal.logMeta.logEndOffset - wal.ringCacheStartOffset).toNat = k) (logs : List Obj) :
    ∃ wal', swalRun wal (appendOps logs) = some wal' ∧ FileRep wal' (l.append (recordBytes logs)) ∧
      RingRep wal' (u ++ recordBytes logs) ∧ wal'.options = wal.options ∧
      wal'.ringCache.isSome = wal.ringCache.isSome ∧
      (wal'.ringCache.isSome → (wal'.logMeta.logEndOffset - wal'.ringCacheStartOffset).toNat
        = ringWindowAfter k wal.options.ringCacheSize.toNat logs) := by
  induction logs generalizing wal l u k with
  | nil =>
    refine ⟨wal, rfl, ?_, ?_, rfl, rfl, ?_⟩
    · simpa [recordBytes, Log.append] using hf
    · simpa [recordBytes] using hr
    · simpa [ringWindowAfter] using hwin
  | cons log logs ih =>
    obtain ⟨wal₁, hrun₁, hf₁, hr₁, hopt₁, hsome₁, hstart₁⟩ := swalAppend_spec hf hr log
    have hlen := log.small
    have hlen64 : log.bytes.length.toUInt64.toNat = log.bytes.length := length_toNat (by omega)
    have hsize := hr.size_lt
    -- one record clamps the window at the size of the ring
    have hwin₁ : wal₁.ringCache.isSome →
        (wal₁.logMeta.logEndOffset - wal₁.ringCacheStartOffset).toNat
          = min (k + log.bytes.length) wal.options.ringCacheSize.toNat := by
      intro hs
      rw [hsome₁] at hs
      have hw := hwin hs
      rw [hf₁.end_eq, hstart₁, Swal.ringStartAfter, if_pos hs, Log.append_endOffset,
        ← hf.end_eq, clampStart_sub (by rw [hw, hlen64]; omega), hw, hlen64]
    obtain ⟨wal', hrun, hf', hr', hopt, hsome, hwin'⟩ := ih hf₁ hr₁ (by omega) hwin₁
    have hbytes : recordBytes (log :: logs) = log.bytes ++ recordBytes logs := by
      simp [recordBytes]
    refine ⟨wal', ?_, ?_, ?_, hopt.trans hopt₁, hsome.trans hsome₁, fun hs => ?_⟩
    · have hstep : swalStep wal (.append log) = some wal₁ := by simp [swalStep, hrun₁]
      show (swalStep wal (.append log)).bind _ = _
      rw [hstep]
      exact hrun
    · rw [hbytes]
      simpa [Log.append] using hf'
    · rw [hbytes, ← List.append_assoc]
      exact hr'
    · rw [hwin' hs, hopt₁]
      unfold ringWindowAfter
      rw [if_neg (List.cons_ne_nil _ _), hbytes, List.length_append]
      split
      · next hnil => simp [hnil, recordBytes]
      · omega

/-- The state of a log after a restart and the appends `logs`: the ring was fed its own block `r`
and then the records. -/
structure Reopened (wal : Swal) (l : Log) (r : List UInt8) (logs : List Obj) : Prop where
  file : FileRep wal (l.append (recordBytes logs))
  ring : RingRep wal (r ++ recordBytes logs)
  block : wal.ringCache.isSome → r.length = wal.options.ringCacheSize.toNat
  ringWindow : wal.ringCache.isSome → (wal.logMeta.logEndOffset - wal.ringCacheStartOffset).toNat
    = ringWindowAfter (min l.bytes.length wal.options.maxFileSize.toNat)
      wal.options.ringCacheSize.toNat logs

/-- **Restart.** Closing a log, opening its directory again with the same options and appending
records returns, and leaves a `Reopened` log with the `malloc` block of the second open. -/
theorem FileRep.restart {wal₁ : Swal} {l : Log} (h : FileRep wal₁ l)
    {malloc : Option (MallocBlock wal₁.options.ringCacheSize)} {wal₂ : Swal}
    (hopen : swalOpen (swalClose wal₁) wal₁.options malloc = .ok wal₂) (logs : List Obj) :
    ∃ wal r, swalRun wal₂ (appendOps logs) = some wal ∧ wal.options = wal₁.options ∧
      Reopened wal l r logs ∧ (wal.ringCache.isSome → ∃ block, malloc = some block ∧
        r = block.bytes) := by
  obtain ⟨hf, hr, hopt, hmeta, hstart⟩ := swalOpen_spec (.of_close h) h.size_lt hopen
  have hk : min l.bytes.length wal₁.options.maxFileSize.toNat < 2 ^ 63 := by
    have := h.size_lt
    omega
  cases hcache : wal₂.ringCache with
  | none =>
    obtain ⟨wal, hrun, hf', hr', hopt', hsome, -⟩ :=
      appendOps_run hf hr hk (by intro hs; simp [hcache] at hs) logs
    have hnone : ¬ wal.ringCache.isSome := by rw [hsome, hcache]; simp
    exact ⟨wal, [], hrun, hopt'.trans hopt, ⟨hf', hr', fun hs => absurd hs hnone,
      fun hs => absurd hs hnone⟩, fun hs => absurd hs hnone⟩
  | some r =>
    obtain ⟨hst, hblock⟩ := hstart r hcache
    have hwin : (wal₂.logMeta.logEndOffset - wal₂.ringCacheStartOffset).toNat
        = min l.bytes.length wal₁.options.maxFileSize.toNat := by
      rw [hst, ← hopt]; exact hf.window
    obtain ⟨wal, hrun, hf', hr', hopt', hsome, hwin'⟩ :=
      appendOps_run hf (hr.block hcache) hk (fun _ => hwin) logs
    refine ⟨wal, r, hrun, hopt'.trans hopt, ⟨hf', hr', fun _ => ?_, fun hs => ?_⟩, fun _ => hblock⟩
    · rw [(hr.ring r hcache).length_eq, hopt']
    · rw [hwin' hs, hopt', hopt]

/-! ### Reading back after a restart -/

/-- Every unlimited replay of an offset of the window is correct. -/
def ReadsBack (wal : Swal) (l : Log) : Prop :=
  ∀ offset limitLen, limitLen ≤ 0 → wal.logMeta.logStartOffset ≤ offset →
    offset ≤ wal.logMeta.logEndOffset → ReplayCorrect wal l offset limitLen

/-- Without a limit the rest of the log is asked for. -/
theorem Log.asked_unlimited (l : Log) (offset : UInt64) {limitLen : Int64} (h : limitLen ≤ 0) :
    l.asked offset limitLen = (l.endOffset - offset).toNat := by
  unfold Log.asked
  exact if_neg (Int64.not_lt.mpr h)

/-- A history without restart reads back. -/
theorem Faithful.readsBack {wal : Swal} {l : Log} (h : Faithful wal l) : ReadsBack wal l := by
  intro offset limitLen hlim hlo hhi
  rw [h.replayCorrect_iff hlo hhi]
  exact .inr (.inr (.inl (l.asked_unlimited offset hlim)))

/-- The restarts after which the log reads back, whatever the new ring was allocated with: there is
no ring; or the log was empty; or the bytes appended since fill the ring or replace the file. The
last case needs offsets that have just wrapped around 64 bits: the end offset is less than the
length of a window. -/
def RestartSafe (options : SwalOptions) (l : Log) (logs : List Obj) : Prop :=
  options.ringCacheSize = 0 ∨ l.bytes = [] ∨
  min options.ringCacheSize.toNat options.maxFileSize.toNat ≤ (recordBytes logs).length ∨
  (l.append (recordBytes logs)).endOffset.toNat <
    max (min (l.bytes.length + (recordBytes logs).length) options.maxFileSize.toNat)
      (ringWindowAfter (min l.bytes.length options.maxFileSize.toNat)
        options.ringCacheSize.toNat logs)

section Reopened

variable {wal : Swal} {l : Log} {r : List UInt8} {logs : List Obj}

/-- The ring serves offsets at most as far back as its window. -/
theorem Reopened.served (h : Reopened wal l r logs) {offset : UInt64}
    (hring : servedByRing wal offset) (hhi : offset ≤ wal.logMeta.logEndOffset) :
    (wal.logMeta.logEndOffset - offset).toNat
        ≤ ringWindowAfter (min l.bytes.length wal.options.maxFileSize.toNat)
          wal.options.ringCacheSize.toNat logs ∧
      ringWindowAfter (min l.bytes.length wal.options.maxFileSize.toNat)
          wal.options.ringCacheSize.toNat logs ≤ wal.logMeta.logEndOffset.toNat := by
  have hwin := h.ringWindow hring.1
  have hlo := hring.2
  rw [UInt64.le_iff_toNat_le] at hlo hhi
  rw [toNat_sub_of_le (by omega)] at hwin
  rw [toNat_sub_of_le hhi]
  omega

/-- The runs of a read from the ring carry the tail of the block and the appended records. -/
theorem Reopened.ringRuns (h : Reopened wal l r logs) {offset : UInt64}
    (hring : servedByRing wal offset)
    (hd : (wal.logMeta.logEndOffset - offset).toNat ≤ wal.options.ringCacheSize.toNat)
    {limitLen : Int64} (hlim : limitLen ≤ 0) :
    RunsCarry wal (swalReplay wal offset limitLen)
      (Circular.slice (r ++ recordBytes logs)
        ((r ++ recordBytes logs).length - (wal.logMeta.logEndOffset - offset).toNat)
        (wal.logMeta.logEndOffset - offset).toNat) := by
  have htotal := replayTotal_toNat h.file.end_eq offset limitLen
  rw [Log.asked_unlimited _ _ hlim, ← h.file.end_eq] at htotal
  have hlen := h.block hring.1
  unfold swalReplay
  rw [if_pos hring]
  have hcarry := replayRing_carry h.ring hring.1 hd
    (by rw [List.length_append]; omega) (htotal.le)
  rwa [htotal] at hcarry

/-- A read from the ring that asks only for bytes appended since the restart is correct. -/
theorem Reopened.replay_recent (h : Reopened wal l r logs) {offset : UInt64}
    (hring : servedByRing wal offset)
    (hd : (wal.logMeta.logEndOffset - offset).toNat ≤ wal.options.ringCacheSize.toNat)
    (hm : (wal.logMeta.logEndOffset - offset).toNat ≤ (recordBytes logs).length)
    {limitLen : Int64} (hlim : limitLen ≤ 0) :
    ReplayCorrect wal (l.append (recordBytes logs)) offset limitLen := by
  have hcarry := h.ringRuns hring hd hlim
  unfold ReplayCorrect
  rw [Log.since_take, Log.asked_unlimited _ _ hlim, ← h.file.end_eq, Log.append_bytes]
  -- both streams end in the appended records
  have htail : ∀ pre : List UInt8, Circular.slice (pre ++ recordBytes logs)
      ((pre ++ recordBytes logs).length - (wal.logMeta.logEndOffset - offset).toNat)
      (wal.logMeta.logEndOffset - offset).toNat
      = (recordBytes logs).drop
        ((recordBytes logs).length - (wal.logMeta.logEndOffset - offset).toNat) := by
    intro pre
    rw [Circular.slice_eq_drop (by rw [List.length_append]; omega), List.length_append,
      List.drop_append]
    rw [List.drop_eq_nil_of_le (by omega), List.nil_append]
    congr 1
    omega
  rw [htail] at hcarry ⊢
  exact hcarry

/-- A safe restart reads back. -/
theorem Reopened.readsBack (h : Reopened wal l r logs)
    (hsafe : RestartSafe wal.options l logs) : ReadsBack wal (l.append (recordBytes logs)) := by
  intro offset limitLen hlim hlo hhi
  by_cases hring : servedByRing wal offset
  swap
  · exact replay_file_unlimited h.file hlo hhi hring (Log.asked_unlimited _ _ hlim)
  obtain ⟨hd, hend⟩ := h.served hring hhi
  obtain ⟨-, hfile⟩ := window_sub h.file hlo hhi
  obtain ⟨hlen, -⟩ := window_sub h.file hlo hhi
  have hsize := h.ring.some_iff.mp hring.1
  have hmax := h.file.size_pos
  rw [← h.file.end_eq] at hfile hlen
  rw [Log.append_bytes, List.length_append] at hlen
  rcases hsafe with h0 | hnil | hfull | hwrap
  · rw [h0] at hsize
    exact absurd hsize (by simp)
  · -- nothing was logged before, so nothing old can be asked for
    rw [hnil] at hd hlen
    simp only [List.length_nil, Nat.zero_min, Nat.zero_add, ringWindowAfter] at hd hlen
    refine h.replay_recent hring ?_ hlen hlim
    split at hd <;> omega
  · have hne : logs ≠ [] := by
      rintro rfl
      simp only [recordBytes, List.flatMap_nil, List.length_nil] at hfull
      omega
    unfold ringWindowAfter at hd
    rw [if_neg hne] at hd
    exact h.replay_recent hring (by omega) (by omega) hlim
  · -- the end offset is too small for an offset of the window to be served by the ring
    rw [← h.file.end_eq] at hwrap
    have hwin := h.file.window
    rw [Log.append_bytes, List.length_append] at hwin
    rw [UInt64.le_iff_toNat_le] at hlo hhi
    rw [toNat_sub_of_le (by omega)] at hwin
    omega

/-- An unsafe restart asks the ring for the byte logged last before it, and gets the last byte of
the block. -/
theorem Reopened.getLast_of_readsBack (h : Reopened wal l r logs) (hsome : wal.ringCache.isSome)
    (hsafe : ¬ RestartSafe wal.options l logs)
    (hread : ReadsBack wal (l.append (recordBytes logs))) : r.getLast? = l.bytes.getLast? := by
  unfold RestartSafe at hsafe
  push Not at hsafe
  obtain ⟨hring0, hne, hmin, hend⟩ := hsafe
  rw [← h.file.end_eq] at hend
  have hpos : 0 < l.bytes.length := List.length_pos_iff.mpr hne
  have hwin := h.file.window
  have hrwin := h.ringWindow hsome
  have hblock := h.block hsome
  have h63 := h.file.size_lt
  rw [Log.append_bytes, List.length_append] at hwin
  -- the offset one byte before the first one appended after the restart
  have hd : (wal.logMeta.logEndOffset - (wal.logMeta.logEndOffset
      - ((recordBytes logs).length + 1).toUInt64)).toNat = (recordBytes logs).length + 1 := by
    have hback : wal.logMeta.logEndOffset - (wal.logMeta.logEndOffset
        - ((recordBytes logs).length + 1).toUInt64) = ((recordBytes logs).length + 1).toUInt64 := by
      grind
    rw [hback]
    simp only [Nat.toUInt64, UInt64.toNat_ofNat']
    exact Nat.mod_eq_of_lt (by omega)
  generalize wal.logMeta.logEndOffset - ((recordBytes logs).length + 1).toUInt64 = offset at hd
  have hrw : (recordBytes logs).length + 1 ≤ ringWindowAfter
      (min l.bytes.length wal.options.maxFileSize.toNat) wal.options.ringCacheSize.toNat logs := by
    unfold ringWindowAfter
    split
    · next hnil =>
      simp only [hnil, recordBytes, List.flatMap_nil, List.length_nil] at hmin ⊢
      omega
    · omega
  have hsub := UInt64.toNat_sub wal.logMeta.logEndOffset offset
  have hsub₁ := UInt64.toNat_sub wal.logMeta.logEndOffset wal.logMeta.logStartOffset
  have hsub₂ := UInt64.toNat_sub wal.logMeta.logEndOffset wal.ringCacheStartOffset
  have hb := offset.toNat_lt
  have hb₁ := wal.logMeta.logStartOffset.toNat_lt
  have hb₂ := wal.ringCacheStartOffset.toNat_lt
  have hb₃ := wal.logMeta.logEndOffset.toNat_lt
  have hhi : offset ≤ wal.logMeta.logEndOffset := by
    rw [UInt64.le_iff_toNat_le]; omega
  have hlo : wal.logMeta.logStartOffset ≤ offset := by
    rw [UInt64.le_iff_toNat_le] at hhi ⊢
    omega
  have hserved : servedByRing wal offset := by
    refine ⟨hsome, ?_⟩
    rw [UInt64.le_iff_toNat_le] at hhi ⊢
    omega
  have hlim : (0 : Int64) ≤ 0 := by decide
  have hcarry := (h.ringRuns hserved (by omega) hlim).2
  have hgood := (hread offset 0 hlim hlo hhi).2
  rw [Log.since_take, Log.asked_unlimited _ _ hlim, ← h.file.end_eq, Log.append_bytes] at hgood
  -- compare the first byte of the two answers
  have heq := congrArg (fun bs => bs[0]?) (hcarry.symm.trans hgood)
  simp only [hd] at heq
  rw [Circular.slice_getElem? _ _ _ _ (by omega), Circular.slice_getElem? _ _ _ _ (by omega),
    List.getElem?_append_left (by rw [List.length_append]; omega),
    List.getElem?_append_left (by rw [List.length_append]; omega)] at heq
  rw [List.getLast?_eq_getElem?, List.getLast?_eq_getElem?]
  rw [List.length_append, List.length_append] at heq
  convert heq using 2 <;> omega

end Reopened

/-- A block of `n` bytes that are all `y`. -/
def constBlock (n : UInt64) (h : n.toNat < 2 ^ 63) (y : UInt8) : MallocBlock n :=
  ⟨List.replicate n.toNat y, List.length_replicate, h⟩

/-- The replays after the restart: whatever `malloc` block the second open gets, the appends
return, every unlimited replay of the window hands out the logged bytes, and they are the bytes the
log `walN` without the restart hands out. -/
def RestartReadsBack (wal₁ walN : Swal) (l : Log) (logs : List Obj) : Prop :=
  ∀ malloc wal₂, swalOpen (swalClose wal₁) wal₁.options malloc = .ok wal₂ →
    ∃ wal, swalRun wal₂ (appendOps logs) = some wal ∧ ReadsBack wal l ∧
      ∀ offset limitLen, limitLen ≤ 0 → wal.logMeta.logStartOffset ≤ offset →
        offset ≤ wal.logMeta.logEndOffset →
        replayBytes wal offset limitLen = replayBytes walN offset limitLen

/-- A closed log can be opened again, with any block `malloc` may answer. -/
theorem FileRep.reopen {wal₁ : Swal} {l : Log} (h : FileRep wal₁ l)
    (block : MallocBlock wal₁.options.ringCacheSize) :
    ∃ wal₂, swalOpen (swalClose wal₁) wal₁.options (some block) = .ok wal₂ := by
  -- the file has its full size already
  have hfile : openWalLogfile wal₁.options.maxFileSize (swalClose wal₁).file = .ok wal₁.file := by
    unfold openWalLogfile
    rw [if_neg]
    · rfl
    · show ¬ wal₁.file.length < _
      rw [h.file.length_eq]
      omega
  unfold swalOpen
  rw [hfile]
  simp only
  split <;> exact ⟨_, rfl⟩

/-- With a ring full of bytes `y` an unsafe restart reads back only when the log before it ended
in `y`. -/
theorem FileRep.getLast_of_restart {wal₁ : Swal} {l : Log} (h : FileRep wal₁ l)
    (h63 : wal₁.options.ringCacheSize.toNat < 2 ^ 63) {logs : List Obj}
    (hsafe : ¬ RestartSafe wal₁.options l logs)
    (hall : ∀ malloc wal₂, swalOpen (swalClose wal₁) wal₁.options malloc = .ok wal₂ →
      ∃ wal, swalRun wal₂ (appendOps logs) = some wal ∧
        ReadsBack wal (l.append (recordBytes logs))) (y : UInt8) :
    l.bytes.getLast? = some y := by
  have hsize : 0 < wal₁.options.ringCacheSize.toNat := by
    rw [Nat.pos_iff_ne_zero]
    intro hz
    exact hsafe (.inl (UInt64.toNat_inj.mp (by simpa using hz)))
  obtain ⟨wal₂, hopen⟩ := h.reopen (constBlock _ h63 y)
  obtain ⟨wal, hrun, hread⟩ := hall _ wal₂ hopen
  obtain ⟨wal', r, hrun', hopt, hre, hblock⟩ := h.restart hopen logs
  obtain rfl : wal = wal' := Option.some.inj (hrun.symm.trans hrun')
  have hsome : wal.ringCache.isSome := hre.ring.some_iff.mpr (by rw [hopt]; exact hsize)
  obtain ⟨block, hb, hr⟩ := hblock hsome
  have hr' : r = List.replicate wal₁.options.ringCacheSize.toNat y := by
    rw [hr, ← Option.some.inj hb]
    rfl
  calc l.bytes.getLast?
      = r.getLast? := (hre.getLast_of_readsBack hsome (by rw [hopt]; exact hsafe) hread).symm
    _ = some y := by rw [hr', List.getLast?_replicate, if_neg (by omega)]

/-- After a safe restart the log hands out what it would have handed out without it. -/
theorem Reopened.same_replay {wal walN : Swal} {l : Log} {r : List UInt8} {logs : List Obj}
    (h : Reopened wal l r logs) (hsafe : RestartSafe wal.options l logs)
    (hN : Faithful walN (l.append (recordBytes logs))) (hopt : wal.options = walN.options)
    {offset : UInt64} {limitLen : Int64} (hlim : limitLen ≤ 0)
    (hlo : wal.logMeta.logStartOffset ≤ offset) (hhi : offset ≤ wal.logMeta.logEndOffset) :
    replayBytes wal offset limitLen = replayBytes walN offset limitLen := by
  have hend : wal.logMeta.logEndOffset = walN.logMeta.logEndOffset := by
    rw [h.file.end_eq, hN.file.end_eq]
  -- equal ends and equally long windows
  have hstart : wal.logMeta.logStartOffset = walN.logMeta.logStartOffset := by
    have hwin := h.file.window
    rw [hopt, ← hN.file.window, UInt64.toNat_inj, hend] at hwin
    grind
  have hread := h.readsBack hsafe offset limitLen hlim hlo hhi
  rw [hstart] at hlo
  rw [hend] at hhi
  exact hread.2.trans (hN.readsBack offset limitLen hlim hlo hhi).2.symm

/-- **Restart after any history.** From a fresh open with a positive file size, run a history of
appends and resets, restart with the same options and append further records. The log reads back
as it would have done without the restart if and only if the restart is `RestartSafe`. -/
theorem swalRestart_correct_iff {options : SwalOptions} (h0 : 0 < options.maxFileSize)
    {malloc : Option (MallocBlock options.ringCacheSize)} {wal₀ : Swal}
    (hopen : swalOpen .fresh options malloc = .ok wal₀) (ops : List SwalOp) (logs : List Obj) :
    ∃ wal₁ walN, swalRun wal₀ ops = some wal₁ ∧ swalRun wal₀ (ops ++ appendOps logs) = some walN ∧
      (RestartReadsBack wal₁ walN ((Log.reset 0).run (ops ++ appendOps logs)) logs ↔
        RestartSafe options ((Log.reset 0).run ops) logs) := by
  have h0' : 0 < options.maxFileSize.toNat := by simpa [UInt64.lt_iff_toNat_lt] using h0
  have hfresh := Faithful.fresh h0' hopen
  obtain ⟨wal₁, hrun₁, h₁, hopt₁⟩ := hfresh.run ops
  obtain ⟨walN, hrunN, hN, hoptN⟩ := hfresh.run (ops ++ appendOps logs)
  refine ⟨wal₁, walN, hrun₁, hrunN, ?_⟩
  rw [← (swalOpen_frame hopen).1, ← hopt₁, Log.run_append, Log.run_appendOps]
  rw [Log.run_append, Log.run_appendOps] at hN
  constructor
  · -- two blocks with different last bytes cannot both agree with the log
    intro hall
    by_contra hsafe
    have hlast := h₁.file.getLast_of_restart h₁.ring.size_lt hsafe fun malloc wal₂ hopen₂ =>
      (hall malloc wal₂ hopen₂).imp fun wal hwal => ⟨hwal.1, hwal.2.1⟩
    have h01 := (hlast 0).symm.trans (hlast 1)
    exact absurd h01 (by decide)
  · intro hsafe malloc₂ wal₂ hopen₂
    obtain ⟨wal, r, hrun, hopt, hre, -⟩ := h₁.file.restart hopen₂ logs
    rw [← hopt] at hsafe
    have hsame : wal.options = walN.options := hopt.trans (hopt₁.trans hoptN.symm)
    exact ⟨wal, hrun, hre.readsBack hsafe, fun offset limitLen hlim hlo hhi =>
      hre.same_replay hsafe hN hsame hlim hlo hhi⟩

/-! ### A restart that serves from an unwritten ring -/

/-- A file of eight bytes and a ring of four. -/
def ringOptions : SwalOptions :=
  { maxFileSize := 8, ringCacheSize := 4, cksmFunc := none }

/-- The fresh log with these options. -/
def ringWal : Swal :=
  { options := ringOptions, logMeta := SwalDir.fresh.logMeta, file := List.replicate 8 0, fdPos := 0
    ringCache := some [0, 0, 0, 0], ringCacheStartOffset := 0, ringCacheIdx := 0 }

/-- What the heap hands out for the ring. -/
def zeroBlock : MallocBlock ringOptions.ringCacheSize := constBlock 4 (by decide) 0

/-- After `abcdef` and a restart the ring claims the whole window `[0, 6]`. A read from offset `3`
hands out three bytes of the `malloc` block, where the log has `def` there. -/
theorem swalRestart_wrong :
    ∃ wal₁ malloc wal₂, swalOpen .fresh ringOptions (some zeroBlock) = .ok ringWal ∧
      swalRun ringWal [.append sixBytes] = some wal₁ ∧
      swalOpen (swalClose wal₁) wal₁.options malloc = .ok wal₂ ∧
      wal₂.logMeta.logStartOffset ≤ 3 ∧ 3 ≤ wal₂.logMeta.logEndOffset ∧
      replayBytes wal₁ 3 0 = [100, 101, 102] ∧
      replayBytes wal₂ 3 0 = [0, 0, 0] ∧
      ¬ RestartReadsBack wal₁ wal₁ ((Log.reset 0).run [.append sixBytes]) [] := by
  refine ⟨_, some zeroBlock, _, rfl, rfl, rfl, by decide, by decide, by decide, by decide,
    fun hall => ?_⟩
  obtain ⟨wal, hrun, -, hsame⟩ := hall (some zeroBlock) _ rfl
  obtain rfl := Option.some.inj hrun
  have h3 := hsame 3 0 (by decide) (by decide) (by decide)
  revert h3
  decide

theorem swalRestart_correct_iff_ring :
    ∃ wal₁ walN, swalRun ringWal [.append sixBytes] = some wal₁ ∧
      swalRun ringWal ([.append sixBytes] ++ appendOps [sixBytes]) = some walN ∧
      (RestartReadsBack wal₁ walN
          ((Log.reset 0).run ([.append sixBytes] ++ appendOps [sixBytes])) [sixBytes] ↔
        RestartSafe ringOptions ((Log.reset 0).run [.append sixBytes]) [sixBytes]) :=
  @swalRestart_correct_iff ringOptions (by decide) (some zeroBlock) ringWal rfl _ _

end Comms
