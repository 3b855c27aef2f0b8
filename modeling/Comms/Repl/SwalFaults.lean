import Comms.Lib.Run
import Comms.Repl.SwalRestart

/-!
# Appends that are not written in full

`swal_append` writes a record in chunks and looks at the sign of what `write` returns, no more. A
short count leaves the descriptor behind `log_file_pos`; an error behind the wrap point leaves
`log_file_pos` at the start of the file, with `log_end_offset` where it was. `WriteWAL` does not look
at the result at all and goes on appending.

* `callSize` — what each `write` of an append asks for;
* `Kept` — a log beside the records whose append returned `0`; `faultStep` — the calls, each with the
  outcomes of its `write`s;
* `Kept.Agrees` — the positions agree with each other and with the records, and the records are read
  back;
* `append_atomic` — appends that are written in full, or not at all.
-/

namespace Comms

/-! ### The writes of an append -/

/-- The bytes that the `i`-th `write` asks for, when a record of `len` bytes is appended at `pos`: the
part of the record that lies in the `i`-th round of a file of `size` bytes. -/
def callSize (size pos len i : ℕ) : ℕ := min (pos + len) ((i + 1) * size) - max pos (i * size)

/-- Every `write` of the append takes what it is asked for. -/
def WritesFull (size pos len : ℕ) (results : List WriteResult) : Prop :=
  ∀ i < len, 0 < callSize size pos len i →
    (results.getD i .full).taken (callSize size pos len i) = some (callSize size pos len i)

/-- So it does, or the first one fails. -/
def WholeOrNothing (size pos len : ℕ) (results : List WriteResult) : Prop :=
  results.headD .full = .fail ∨ WritesFull size pos len results

instance (size pos len : ℕ) (results : List WriteResult) :
    Decidable (WritesFull size pos len results) :=
  inferInstanceAs (Decidable (∀ i < len, _))

instance (size pos len : ℕ) (results : List WriteResult) :
    Decidable (WholeOrNothing size pos len results) :=
  inferInstanceAs (Decidable (_ ∨ _))

/-- The first `write` goes as far as the record or the file. -/
theorem callSize_zero {size pos len : ℕ} (hpos : pos < size) :
    callSize size pos len 0 = min len (size - pos) := by
  unfold callSize
  simp only [Nat.zero_add, Nat.one_mul, Nat.zero_mul]
  omega

/-- The others are those of the rest of the record, from where the first one leaves the cursor. -/
theorem callSize_succ {size pos len c : ℕ} (hpos : pos < size) (hc : c = min len (size - pos)) (i : ℕ) :
    callSize size pos len (i + 1) =
      callSize size (if pos + c = size then 0 else pos + c) (len - c) i := by
  have hround : (i + 1) * size = i * size + size := Nat.succ_mul i size
  have hround' : (i + 1 + 1) * size = i * size + size + size := by rw [Nat.succ_mul, hround]
  unfold callSize
  rw [hround, hround']
  split
  · next hwrap => omega
  · next hfront =>
    -- the record ends in front of the end of the file
    omega

/-- The rest of a record that is written in full is written in full. -/
theorem WritesFull.tail {size pos len c : ℕ} {results : List WriteResult} (hpos : pos < size)
    (hlen : 0 < len) (hc : c = min len (size - pos)) (h : WritesFull size pos len results) :
    WritesFull size (if pos + c = size then 0 else pos + c) (len - c) results.tail := by
  intro i hi hcall
  have hc0 : 0 < c := hc ▸ Nat.lt_min.mpr ⟨hlen, Nat.sub_pos_of_lt hpos⟩
  rw [← callSize_succ hpos hc] at hcall ⊢
  have hnext := h (i + 1) (by omega) hcall
  cases results with
  | nil => exact hnext
  | cons r results => exact hnext

/-- **Writes that are full.** The loop does what it does when no `write` is ever short. -/
theorem writeLoop_of_full {wal : Swal} (hsize : wal.options.maxFileSize.toNat < 2 ^ 63)
    {results : List WriteResult} {p : List UInt8} (hp : p.length < 2 ^ 63)
    (hpos : wal.logMeta.logFilePos.toNat < wal.options.maxFileSize.toNat)
    (h : WritesFull wal.options.maxFileSize.toNat wal.logMeta.logFilePos.toNat p.length results)
    (fuel : ℕ) : writeLoop fuel results wal p = writeLoop fuel [] wal p := by
  induction fuel generalizing wal results p with
  | zero => rfl
  | succ fuel ih =>
    rw [writeLoop, writeLoop]
    by_cases hne : p = []
    · rw [if_pos (by simpa using hne), if_pos (by simpa using hne)]
    rw [if_neg (by simpa using hne), if_neg (by simpa using hne)]
    obtain ⟨hthis, hthis0, hadd⟩ := chunk_spec hsize hp hpos hne
    have hlen : 0 < p.length := List.length_pos_iff.mpr hne
    dsimp only
    generalize (if p.length.toUInt64 < wal.options.maxFileSize - wal.logMeta.logFilePos
      then p.length.toUInt64 else wal.options.maxFileSize - wal.logMeta.logFilePos) = thislen
      at hthis hthis0 hadd ⊢
    -- the first `write` is the one at index `0`
    have hfirst : (results.headD .full).taken thislen.toNat = some thislen.toNat := by
      have h0 := h 0 hlen
      rw [callSize_zero hpos, ← hthis] at h0
      cases results with
      | nil => exact h0 hthis0
      | cons r results => exact h0 hthis0
    rw [hfirst]
    dsimp only [List.headD_nil, WriteResult.taken, List.tail_nil]
    have hcursor : (if wal.logMeta.logFilePos + thislen = wal.options.maxFileSize then 0
        else wal.logMeta.logFilePos + thislen).toNat =
        if wal.logMeta.logFilePos.toNat + thislen.toNat = wal.options.maxFileSize.toNat then 0
        else wal.logMeta.logFilePos.toNat + thislen.toNat := by
      rw [apply_ite UInt64.toNat, hadd, UInt64.toNat_zero]
      refine if_congr ?_ rfl rfl
      rw [← UInt64.toNat_inj, hadd]
    apply ih
    · exact hsize
    · rw [List.length_drop]
      omega
    · dsimp only
      rw [hcursor]
      split <;> omega
    · dsimp only
      rw [hcursor, List.length_drop]
      exact h.tail hpos hlen hthis

/-- The loop ends, and leaves the ring as it is. -/
theorem writeLoop_returns {wal : Swal} (hsize : wal.options.maxFileSize.toNat < 2 ^ 63)
    {p : List UInt8} (hp : p.length < 2 ^ 63)
    (hpos : wal.logMeta.logFilePos.toNat < wal.options.maxFileSize.toNat) {fuel : ℕ}
    (hfuel : p.length < fuel) (results : List WriteResult) :
    ∃ err wal', writeLoop fuel results wal p = some (err, wal') ∧ wal'.options = wal.options ∧
      wal'.ringCache = wal.ringCache ∧ wal'.ringCacheIdx = wal.ringCacheIdx := by
  induction fuel generalizing wal results p with
  | zero => omega
  | succ fuel ih =>
    rw [writeLoop]
    by_cases hne : p = []
    · rw [if_pos (by simpa using hne)]
      exact ⟨0, wal, rfl, rfl, rfl, rfl⟩
    rw [if_neg (by simpa using hne)]
    obtain ⟨hthis, hthis0, hadd⟩ := chunk_spec hsize hp hpos hne
    have hlen : 0 < p.length := List.length_pos_iff.mpr hne
    dsimp only
    generalize (if p.length.toUInt64 < wal.options.maxFileSize - wal.logMeta.logFilePos
      then p.length.toUInt64 else wal.options.maxFileSize - wal.logMeta.logFilePos) = thislen
      at hthis hthis0 hadd ⊢
    cases htaken : (results.headD .full).taken thislen.toNat with
    | none => exact ⟨-1, wal, rfl, rfl, rfl, rfl⟩
    | some n =>
      dsimp only
      have hmod : (if wal.logMeta.logFilePos + thislen = wal.options.maxFileSize then 0
          else wal.logMeta.logFilePos + thislen).toNat < wal.options.maxFileSize.toNat := by
        split
        · rw [UInt64.toNat_zero]
          omega
        · next hwrap =>
          rw [← UInt64.toNat_inj] at hwrap
          omega
      obtain ⟨err, wal', hrun, hopt, hring, hidx⟩ := @ih { wal with
          file := Circular.splice (padTo wal.fdPos.toNat wal.file) wal.fdPos.toNat (p.take n)
          fdPos := if wal.logMeta.logFilePos + thislen = wal.options.maxFileSize then 0
            else wal.fdPos + n.toUInt64
          logMeta := { wal.logMeta with
            logFilePos := if wal.logMeta.logFilePos + thislen = wal.options.maxFileSize then 0
              else wal.logMeta.logFilePos + thislen } } hsize (p.drop thislen.toNat)
        (by rw [List.length_drop]; omega) hmod (by rw [List.length_drop]; omega) results.tail
      exact ⟨err, wal', hrun, hopt, hring, hidx⟩

/-! ### Logs and the records they should hold -/

/-- A call, with the outcomes of the `write`s it makes. A restart closes the log and opens it again
with the same options. -/
inductive FaultOp
  | append (results : List WriteResult) (log : Obj)
  | reset (offset cksm : UInt64)
  | restart (malloc : (n : UInt64) → Option (MallocBlock n))

/-- A log, what it should hold, and the checksum of it. -/
structure Kept where
  wal : Swal
  log : Log
  cksm : UInt64

namespace Kept

/-- A log that was just created. -/
def fresh (wal : Swal) : Kept := ⟨wal, Log.reset 0, 0⟩

/-- The record `log` behind the others. -/
def keep (s : Kept) (wal : Swal) (log : Obj) : Kept where
  wal := wal
  log := s.log.append log.bytes
  cksm := match s.wal.options.cksmFunc with
    | none => s.cksm
    | some f => f s.cksm log.bytes

/-- The size of the file. -/
def size (s : Kept) : ℕ := s.wal.options.maxFileSize.toNat

/-- The cursor. -/
def pos (s : Kept) : ℕ := s.wal.logMeta.logFilePos.toNat

end Kept

/-- One call. A record is kept when its append returns `0`. -/
def faultStep (s : Kept) : FaultOp → Option Kept
  | .append results log => (swalAppend s.wal results log).map fun (err, wal) =>
      if err = 0 then s.keep wal log else { s with wal := wal }
  | .reset offset cksm => some ⟨swalReset s.wal offset cksm, Log.reset offset, cksm⟩
  | .restart malloc =>
    match swalOpen (swalClose s.wal) s.wal.options (malloc _) with
    | .ok wal => some { s with wal := wal }
    | .error _ => none

namespace Kept

/-- The positions agree with each other, with the descriptor and with the records that are kept, every
append ends, and a replay hands out the records wherever a log that was never written short does. -/
structure Agrees (s : Kept) : Prop where
  end_eq : s.wal.logMeta.logEndOffset = s.log.endOffset
  pos_eq : s.pos = s.log.bytes.length % s.size
  fd_eq : s.wal.fdPos = s.wal.logMeta.logFilePos
  ringIdx_eq : s.wal.ringCache.isSome →
    s.wal.ringCacheIdx.toNat = s.log.bytes.length % s.wal.options.ringCacheSize.toNat
  cksm_eq : s.wal.logMeta.cksm = s.cksm
  returns : ∀ results log, (swalAppend s.wal results log).isSome
  replay : ∀ offset limitLen, InWindow s.wal offset →
    (ReplayCorrect s.wal s.log offset limitLen ↔ ReplaySafe s.wal s.log offset limitLen)

/-- An append is written in full or not at all, and a restart finds no ring or no records. -/
def Whole (s : Kept) : FaultOp → Prop
  | .append results log => WholeOrNothing s.size s.pos log.bytes.length results
  | .reset _ _ => True
  | .restart _ => s.wal.options.ringCacheSize = 0 ∨ s.log.bytes = []

/-- The log holds the records. -/
structure Sound (s : Kept) : Prop where
  faithful : Faithful s.wal s.log
  cksm_eq : s.wal.logMeta.cksm = s.cksm

theorem Sound.pos_lt {s : Kept} (h : s.Sound) : s.pos < s.size := by
  unfold Kept.pos Kept.size
  rw [h.faithful.file.pos_eq]
  exact Nat.mod_lt _ h.faithful.file.size_pos

/-- An append ends, whatever its `write`s do. -/
theorem Sound.returns {s : Kept} (h : s.Sound) (results : List WriteResult) (log : Obj) :
    (swalAppend s.wal results log).isSome := by
  have hfuel : log.bytes.length < log.bytes.length + 2 := by omega
  obtain ⟨err, wal, hloop, hopt, hcache, hidx⟩ :=
    writeLoop_returns h.faithful.file.size_lt log.small h.pos_lt hfuel results
  unfold swalAppend
  rw [hloop]
  dsimp only
  split
  · rfl
  · have hring : RingRep { wal with logMeta := appendMeta wal.options wal.logMeta log.bytes }
        s.log.bytes := by
      have hold := h.faithful.ring
      refine ⟨?_, ?_, fun r hr => ?_, fun r hr => ?_⟩
      · dsimp only
        rw [hcache, hopt]
        exact hold.some_iff
      · dsimp only
        rw [hopt]
        exact hold.size_lt
      · dsimp only at hr ⊢
        rw [hopt, hidx]
        exact hold.idx_eq r (hcache ▸ hr)
      · dsimp only at hr ⊢
        rw [hopt]
        exact hold.ring r (hcache ▸ hr)
    obtain ⟨cache, idx, hfeed, -⟩ := appendRing_spec hring log
    rw [hfeed]
    rfl

theorem Sound.agrees {s : Kept} (h : s.Sound) : s.Agrees where
  end_eq := h.faithful.file.end_eq
  pos_eq := h.faithful.file.pos_eq
  fd_eq := h.faithful.file.fd_eq
  ringIdx_eq := fun hsome => by
    obtain ⟨r, hr⟩ := Option.isSome_iff_exists.mp hsome
    exact h.faithful.ring.idx_eq r hr
  cksm_eq := h.cksm_eq
  returns := h.returns
  replay := fun _ limitLen hwin => h.faithful.replayCorrect_iff hwin.1 hwin.2 limitLen

/-! ### Steps -/

/-- What an append with full writes makes of the log. -/
theorem Sound.append_full {s : Kept} (h : s.Sound) {results : List WriteResult} {log : Obj}
    (hfull : WritesFull s.size s.pos log.bytes.length results) :
    ∃ wal, swalAppend s.wal results log = some (0, wal) ∧ (s.keep wal log).Sound := by
  obtain ⟨wal, hstep, hfaith, -⟩ := h.faithful.step (.append log)
  obtain ⟨⟨err, wal₁⟩, happ, hwal⟩ := Option.map_eq_some_iff.mp hstep
  obtain ⟨wal', happ', -⟩ := swalAppend_spec h.faithful.file h.faithful.ring log
  obtain ⟨rfl, rfl⟩ := Prod.mk.inj (Option.some.inj (happ.symm.trans happ'))
  obtain rfl : wal₁ = wal := hwal
  have hsame : swalAppend s.wal results log = swalAppend s.wal [] log := by
    unfold swalAppend
    rw [writeLoop_of_full h.faithful.file.size_lt log.small h.pos_lt hfull]
  refine ⟨wal₁, hsame.trans happ', hfaith, ?_⟩
  obtain ⟨-, -, -, hcksm⟩ := swalAppend_meta happ'
  change wal₁.logMeta.cksm = _
  rw [hcksm, Kept.keep, ← h.cksm_eq]
  rfl

/-- An append whose first `write` fails changes nothing. -/
theorem append_failed {s : Kept} {results : List WriteResult} {log : Obj}
    (hfail : results.headD .full = .fail) (hne : log.bytes ≠ []) :
    swalAppend s.wal results log = some (-1, s.wal) := by
  unfold swalAppend
  rw [writeLoop, if_neg (by simpa using hne), hfail]
  rfl

/-- A restart that finds no ring or no records finds the log as it was. -/
theorem Sound.restart {s : Kept} (h : s.Sound)
    (hop : s.wal.options.ringCacheSize = 0 ∨ s.log.bytes = [])
    {malloc : Option (MallocBlock s.wal.options.ringCacheSize)} {wal : Swal}
    (hopen : swalOpen (swalClose s.wal) s.wal.options malloc = .ok wal) :
    Sound { s with wal := wal } := by
  obtain ⟨hfile, hring, hopt, hmeta, hstart⟩ :=
    swalOpen_spec (.of_close h.faithful.file) h.faithful.file.size_lt hopen
  have hring' : RingRep wal s.log.bytes := by
    rcases hop with h0 | hnil
    · -- there is no ring
      have hnone : ¬ wal.ringCache.isSome := by
        rw [hring.some_iff, hopt, h0]
        exact Nat.lt_irrefl 0
      refine ⟨hring.some_iff, hring.size_lt, fun r hr => ?_, fun r hr => ?_⟩
      · exact absurd (by rw [hr]; rfl) hnone
      · exact absurd (by rw [hr]; rfl) hnone
    · rw [hnil]
      exact hring
  refine ⟨⟨hfile, hring', fun hsome => ?_⟩, ?_⟩
  · obtain ⟨r, hr⟩ := Option.isSome_iff_exists.mp hsome
    rcases hop with h0 | hnil
    · rw [hring.some_iff, hopt, h0] at hsome
      exact absurd hsome (Nat.lt_irrefl 0)
    · rw [(hstart r hr).1, hfile.window, hnil, List.length_nil, Nat.zero_min, Nat.zero_min]
  · change wal.logMeta.cksm = s.cksm
    rw [hmeta]
    exact h.cksm_eq

/-- **Steps.** A step that is written in full or not at all keeps the records. -/
theorem Sound.step (s : Kept) (op : FaultOp) (t : Kept) (h : s.Sound) (hop : s.Whole op)
    (hstep : faultStep s op = some t) : t.Sound := by
  cases op with
  | append results log =>
    have hkept : WritesFull s.size s.pos log.bytes.length results → t.Sound := by
      intro hfull
      obtain ⟨wal, happ, hsound⟩ := h.append_full hfull
      rw [faultStep, happ] at hstep
      obtain rfl : s.keep wal log = t := Option.some.inj hstep
      exact hsound
    by_cases hne : log.bytes = []
    · -- no `write` at all
      refine hkept fun i hi => ?_
      rw [hne] at hi
      exact absurd hi (Nat.not_lt_zero i)
    obtain hfail | hfull := hop
    · rw [faultStep, append_failed hfail hne] at hstep
      obtain rfl : s = t := Option.some.inj hstep
      exact h
    · exact hkept hfull
  | reset offset cksm =>
    obtain rfl := Option.some.inj hstep
    obtain ⟨wal, hreset, hfaith, -⟩ := h.faithful.step (.reset offset cksm)
    obtain rfl := Option.some.inj hreset
    exact ⟨hfaith, rfl⟩
  | restart malloc =>
    rw [faultStep] at hstep
    split at hstep
    · next wal hopen =>
      obtain rfl := Option.some.inj hstep
      exact h.restart hop hopen
    · cases hstep

/-! ### A record in front of the end of the file -/

/-- Such a record takes one `write`. -/
theorem wholeOrNothing_front {size pos len : ℕ} (hpos : pos + len < size) (hlen : 0 < len)
    (results : List WriteResult) : WholeOrNothing size pos len results ↔
      results.headD .full = .fail ∨ (results.headD .full).taken len = some len := by
  have hcall : callSize size pos len 0 = len := by
    rw [callSize_zero (by omega)]
    omega
  have hhead : results.getD 0 .full = results.headD .full := by cases results <;> rfl
  refine or_congr_right ⟨fun h => ?_, fun h i _ hi => ?_⟩
  · have h0 := h 0 hlen
    rw [hcall, hhead] at h0
    exact h0 hlen
  · cases i with
    | zero => rw [hcall, hhead, h]
    | succ i =>
      -- there is nothing left for another round
      have hround : (i + 1) * size = i * size + size := Nat.succ_mul i size
      unfold callSize at hi
      rw [hround] at hi
      omega

/-- A short count in front of the end of the file. -/
theorem writeLoop_short {wal : Swal} (hsize : wal.options.maxFileSize.toNat < 2 ^ 63)
    {p : List UInt8} (hp : p.length < 2 ^ 63) (hlen : 0 < p.length)
    (hpos : wal.logMeta.logFilePos.toNat + p.length < wal.options.maxFileSize.toNat)
    {results : List WriteResult} {k : ℕ} (hshort : (results.headD .full).taken p.length = some k)
    (fuel : ℕ) :
    ∃ wal', writeLoop (fuel + 2) results wal p = some (0, wal') ∧
      wal'.fdPos = wal.fdPos + k.toUInt64 ∧
      wal'.logMeta.logFilePos = wal.logMeta.logFilePos + p.length.toUInt64 := by
  have hne : p ≠ [] := List.length_pos_iff.mp hlen
  have hlen64 : p.length.toUInt64.toNat = p.length := length_toNat (by omega)
  have hmod : wal.logMeta.logFilePos.toNat < wal.options.maxFileSize.toNat := by omega
  obtain ⟨hthis, -, hadd⟩ := chunk_spec hsize hp hmod hne
  rw [writeLoop, if_neg (by simpa using hne)]
  dsimp only
  generalize (if p.length.toUInt64 < wal.options.maxFileSize - wal.logMeta.logFilePos
    then p.length.toUInt64 else wal.options.maxFileSize - wal.logMeta.logFilePos) = thislen
    at hthis hadd ⊢
  obtain rfl : thislen = p.length.toUInt64 := by
    rw [← UInt64.toNat_inj, hthis, hlen64]
    omega
  have hwrap : ¬ wal.logMeta.logFilePos + p.length.toUInt64 = wal.options.maxFileSize := by
    rw [← UInt64.toNat_inj, hadd, hlen64]
    omega
  rw [hlen64, hshort]
  dsimp only
  rw [if_neg hwrap, if_neg hwrap, List.drop_length, writeLoop, if_pos List.isEmpty_nil]
  exact ⟨_, rfl, rfl, rfl⟩

/-- The ring is fed behind the back of the descriptor. -/
theorem appendRing_fdPos {wal wal' : Swal} {p : List UInt8} (h : appendRing wal p = some wal') :
    wal'.fdPos = wal.fdPos := by
  unfold appendRing at h
  split at h
  · cases h
    rfl
  · split at h
    · cases h
    · cases h
      rfl

/-- **A short write.** In front of the end of the file a short count leaves the descriptor behind the
cursor. -/
theorem Sound.agrees_front_iff {s : Kept} (h : s.Sound) {results : List WriteResult} {log : Obj}
    (hpos : s.pos + log.bytes.length < s.size) :
    (∀ t, faultStep s (.append results log) = some t → t.Agrees) ↔ s.Whole (.append results log) := by
  refine ⟨fun hall => ?_, fun hop t hstep => (Sound.step s _ t h hop hstep).agrees⟩
  by_cases hne : log.bytes = []
  · refine .inr fun i hi => ?_
    rw [hne] at hi
    exact absurd hi (Nat.not_lt_zero i)
  have hlen : 0 < log.bytes.length := List.length_pos_iff.mpr hne
  refine (wholeOrNothing_front hpos hlen results).mpr ?_
  cases htaken : (results.headD .full).taken log.bytes.length with
  | none =>
    left
    cases hhead : results.headD .full with
    | fail => rfl
    | full => rw [hhead] at htaken; cases htaken
    | short k => rw [hhead] at htaken; cases htaken
  | some k =>
    right
    obtain ⟨wal₁, hloop, hfd, hfile⟩ := writeLoop_short h.faithful.file.size_lt log.small hlen hpos
      htaken log.bytes.length
    obtain ⟨⟨err, wal⟩, happ⟩ := Option.isSome_iff_exists.mp (h.returns results log)
    have hstep : faultStep s (.append results log) =
        some (if err = 0 then s.keep wal log else { s with wal := wal }) := by
      rw [faultStep, happ]
      rfl
    -- the descriptor went `k` bytes and the cursor all of them
    have hwal : wal.fdPos = wal₁.fdPos ∧ wal.logMeta.logFilePos = wal₁.logMeta.logFilePos := by
      unfold swalAppend at happ
      rw [hloop] at happ
      dsimp only at happ
      rw [if_neg (Int.lt_irrefl 0)] at happ
      split at happ
      · cases happ
      · next wal₂ hring =>
        obtain ⟨-, rfl⟩ := Prod.mk.inj (Option.some.inj happ)
        have hmeta := (appendRing_frame hring).2
        have hfd₂ := appendRing_fdPos hring
        have hpos₂ := congrArg SwalMeta.logFilePos hmeta
        exact ⟨hfd₂, hpos₂⟩
    have hagree := (hall _ hstep).fd_eq
    have hposn : wal.fdPos = wal.logMeta.logFilePos := by
      split at hagree
      · exact hagree
      · exact hagree
    rw [hwal.1, hwal.2, hfd, hfile, h.faithful.file.fd_eq, UInt64.add_right_inj] at hposn
    have hk := congrArg UInt64.toNat hposn
    have hle : k ≤ log.bytes.length := by
      cases hhead : results.headD .full with
      | fail => rw [hhead] at htaken; cases htaken
      | full =>
        rw [hhead] at htaken
        exact (Option.some.inj htaken).ge
      | short j =>
        rw [hhead] at htaken
        exact (Option.some.inj htaken).ge.trans (Nat.min_le_right _ _)
    have hsmall := log.small
    rw [length_toNat (by omega)] at hk
    rw [Nat.toUInt64, UInt64.toNat_ofNat', Nat.mod_eq_of_lt (by omega)] at hk
    rw [hk]

/-- A log that was just created holds nothing. -/
theorem Sound.fresh {options : SwalOptions} (h0 : 0 < options.maxFileSize)
    {malloc : Option (MallocBlock options.ringCacheSize)} {wal : Swal}
    (hopen : swalOpen .fresh options malloc = .ok wal) : (Kept.fresh wal).Sound := by
  have h0' : 0 < options.maxFileSize.toNat := by simpa [UInt64.lt_iff_toNat_lt] using h0
  refine ⟨Faithful.fresh h0' hopen, ?_⟩
  change wal.logMeta.cksm = 0
  rw [(swalOpen_frame hopen).2]
  rfl

end Kept

/-- **Appends that fail.** In a run from a fresh open whose appends are written in full or fail at
their first `write`, the positions agree in every state, and the records whose append returned `0`
are read back. For a record that ends in front of the end of the file this is exact: a short count
leaves the descriptor and the cursor apart. -/
theorem append_atomic {options : SwalOptions} (h0 : 0 < options.maxFileSize)
    {malloc : Option (MallocBlock options.ringCacheSize)} {wal₀ : Swal}
    (hopen : swalOpen .fresh options malloc = .ok wal₀) {ops : List FaultOp}
    (hops : Run.Along faultStep Kept.Whole (Kept.fresh wal₀) ops) :
    Run.Always faultStep Kept.Agrees (Kept.fresh wal₀) ops ∧
    ∀ s, Run.steps faultStep (Kept.fresh wal₀) ops = some s → ∀ results log,
      s.pos + log.bytes.length < s.size →
      ((∀ t, faultStep s (.append results log) = some t → t.Agrees) ↔
        s.Whole (.append results log)) := by
  have hsound := Kept.Sound.fresh h0 hopen
  refine ⟨?_, fun s hrun results log hpos => ?_⟩
  · exact Run.always_of_invariant Kept.Sound.step (fun s h => h.agrees) hsound hops
  · exact Kept.Sound.agrees_front_iff (Run.invariant Kept.Sound.step hsound hops hrun) hpos

/-- A record in full, and one whose first `write` fails. -/
theorem append_atomic_failing :
    Run.Always faultStep Kept.Agrees (Kept.fresh smallWal)
      [.append [] sixBytes, .append [.fail] sixBytes] ∧
    ∀ s, Run.steps faultStep (Kept.fresh smallWal)
      [.append [] sixBytes, .append [.fail] sixBytes] = some s →
      ∀ results log, s.pos + log.bytes.length < s.size →
      ((∀ t, faultStep s (.append results log) = some t → t.Agrees) ↔
        s.Whole (.append results log)) :=
  @append_atomic smallOptions (by decide) none smallWal rfl
    [.append [] sixBytes, .append [.fail] sixBytes]
    ⟨.inr (by decide), fun s hs => ⟨.inl rfl, fun _ _ => trivial⟩⟩

/-- One byte of six is written, and the append returns `0`: the record is not read back, and the next
one goes to where the descriptor stayed. -/
theorem short_append_kept : ¬ ∀ ops : List FaultOp,
    Run.Always faultStep Kept.Agrees (Kept.fresh ringWal) ops := by
  intro h
  have hagree := (h [.append [.short 1] sixBytes]).of_steps rfl
  exact absurd hagree.fd_eq (by decide)

end Comms
