import Comms.Repl.FullResync

/-!
# What is announced of a snapshot

`SendSnapshotToSlave` announces the offset and the checksum that `g_snapshot_state` holds and then
sends the file at `DefaultPath`. Nothing ties the two together: `Save` writes the first also when it
has failed and before it renames the file, and a slave renames the file it has received before it
loads it and tells `g_snapshot_state` of it only when that went well.

* `Instance.Settled` — nothing went wrong with the snapshots of a type since the last good one, and
  nothing is under way between the file and what is recorded of it;
* `MetaOk.step` — what is settled is described, kept by every step that is `MetaSafe`;
* `snapshot_described` — the run.

`Save(false)` also looks for a file that no function writes: `repl_data_dir/snapshot_filename`, with
no type behind the name.
-/

namespace Comms
namespace Resync

variable {crc64 : UInt64 → Bytes → UInt64} {replWalSize : UInt64}

namespace Instance

/-- What is at `DefaultPath` is there, and was produced at what `g_snapshot_state` tells. -/
def Described (s : Instance) (type : SnapshotType) : Prop :=
  s.files type = some (s.recordedFile type)

/-- Some slave waits for a snapshot of this type. -/
def Awaited (s : Instance) (type : SnapshotType) : Prop :=
  ∃ id slave, s.slaves id = some slave ∧ slave.state = .waitingSnapshot ∧ slave.type = type

/-- `SendSnapshotToSlave` runs in this step for a slave of this type. -/
def Sends (s : Instance) (type : SnapshotType) : Act → Prop
  | .resync frame _ _ =>
    (∃ saver, s.savers frame = some saver ∧ saver.phase = .renamed ∧ saver.type = type) ∧
      s.Awaited type
  | .created frame _ _ =>
    (∃ saver, s.savers frame = some saver ∧ saver.phase = .returned true ∧ saver.type = type) ∧
      s.Awaited type
  | _ => False

/-- `SyncSlave` comes to `CreateSnapshot`. -/
def NeedsSnapshot (crc64 : UInt64 → Bytes → UInt64) (s : Instance) (slave : SlaveConn) : Prop :=
  ¬(s.hasMaster ∧ s.slaveSynced = false) ∧ slave.serverKey ≠ [] ∧
    ¬(slave.serverKey = s.serverKey ∧
      isValidOffsetCksm crc64 s.wal slave.syncOffset slave.syncCksm = true)

instance (crc64 : UInt64 → Bytes → UInt64) (s : Instance) (slave : SlaveConn) :
    Decidable (s.NeedsSnapshot crc64 slave) := inferInstanceAs (Decidable (_ ∧ _))

/-- `Save(false)` of this type returns `0` in this step. -/
def ReturnsZero (crc64 : UInt64 → Bytes → UInt64) (replWalSize : UInt64) (s : Instance)
    (type : SnapshotType) : Act → Prop
  | .request _ slave _ opened _ =>
    s.NeedsSnapshot crc64 slave ∧ slave.type = type ∧
      s.saveStart crc64 replWalSize false type opened = .useLast
  | .resync frame _ _ => ∃ saver, s.savers frame = some saver ∧ saver.phase = .renamed ∧
      saver.type = type ∧ saver.owner = .createSnapshot
  | _ => False

/-- A call of `Save` that has written its file and not renamed it yet. -/
def Recording (s : Instance) (frame : ℕ) (saver : Saver) : Prop :=
  s.savers frame = some saver ∧ saver.phase = .recorded

/-- The last save or full resync of this type went well, and none is between the file and what is
recorded of it. -/
structure Settled (s : Instance) (type : SnapshotType) : Prop where
  spoilt : s.spoilt type = false
  recording : ∀ frame saver, s.Recording frame saver → saver.type ≠ type
  loading : ∀ l, s.loading = some l → l.type ≠ type

end Instance

open Instance

/-- What a step announces, or returns `0` for, is described. -/
def MetaTold (crc64 : UInt64 → Bytes → UInt64) (replWalSize : UInt64) (s : Instance) (a : Act) :
    Prop :=
  ∀ type, s.Sends type a ∨ s.ReturnsZero crc64 replWalSize type a → s.Described type

/-- A step that does not run into the defects: only what is settled is sent, and the two ways in which
the metadata are written do not meet. -/
def MetaSafe (crc64 : UInt64 → Bytes → UInt64) (replWalSize : UInt64) (s : Instance) (a : Act) :
    Prop :=
  (∀ type, s.Sends type a ∨ s.ReturnsZero crc64 replWalSize type a → s.Settled type) ∧
  match a with
  | .record frame _ => ∀ saver, s.savers frame = some saver → ∀ other w, s.Recording other w →
      w.type ≠ saver.type
  | .rename frame _ => ∀ saver, s.savers frame = some saver → ∀ l, s.loading = some l →
      l.type ≠ saver.type
  | .dumpLoaded _ _ => ∀ l, s.loading = some l → ∀ frame w, s.Recording frame w → w.type ≠ l.type
  | _ => True

/-! ### The invariant -/

/-- **The invariant.** What is settled is described. -/
structure MetaOk (s : Instance) : Prop where
  recording : ∀ frame saver, s.Recording frame saver →
    s.recordedFile saver.type = ⟨saver.cacheOffset, saver.cacheCksm⟩
  loading : ∀ l, s.loading = some l → l.renamed = true → s.files l.type = some l.file
  described : ∀ type, s.Settled type → s.Described type

theorem MetaOk.init (wal : Swal) (serverKey : Bytes) (hasMaster plainFile : Bool)
    (files : SnapshotType → Option SnapshotFile) :
    MetaOk (.init wal serverKey hasMaster plainFile files) where
  recording := by
    rintro frame saver ⟨h, -⟩
    cases h
  loading := by
    intro l h
    cases h
  described := by
    intro type h
    cases h.spoilt

/-! ### Steps that touch neither the file nor what is recorded of it -/

/-- The step touches no file, nothing that is recorded of one, and no call of `Save` between the
two. -/
structure Untouched (s s' : Instance) : Prop where
  recorded : ∀ type, s'.recordedFile type = s.recordedFile type
  files : s'.files = s.files
  loading : s'.loading = s.loading
  spoilt : s'.spoilt = s.spoilt
  recording : ∀ frame saver, s'.Recording frame saver ↔ s.Recording frame saver

namespace Untouched

theorem refl (s : Instance) : Untouched s s := ⟨fun _ => rfl, rfl, rfl, rfl, fun _ _ => Iff.rfl⟩

theorem trans {s t u : Instance} (h : Untouched s t) (h' : Untouched t u) : Untouched s u where
  recorded type := (h'.recorded type).trans (h.recorded type)
  files := h'.files.trans h.files
  loading := h'.loading.trans h.loading
  spoilt := h'.spoilt.trans h.spoilt
  recording frame saver := (h'.recording frame saver).trans (h.recording frame saver)

theorem metaOk {s s' : Instance} (h : Untouched s s') (hs : MetaOk s) : MetaOk s' where
  recording := by
    intro frame saver hrec
    rw [h.recorded]
    exact hs.recording frame saver ((h.recording frame saver).mp hrec)
  loading := by
    rw [h.loading, h.files]
    exact hs.loading
  described := by
    intro type hset
    have hold : s.Settled type :=
      { spoilt := by rw [← h.spoilt]; exact hset.spoilt
        recording := fun frame saver hrec =>
          hset.recording frame saver ((h.recording frame saver).mpr hrec)
        loading := by rw [← h.loading]; exact hset.loading }
    change s'.files type = some (s'.recordedFile type)
    rw [h.files, h.recorded]
    exact hs.described type hold

/-- Only the slaves have changed. -/
theorem of_slaves (s : Instance) (slaves : ℕ → Option SlaveConn) :
    Untouched s { s with slaves := slaves } := ⟨fun _ => rfl, rfl, rfl, rfl, fun _ _ => Iff.rfl⟩

/-- A call of `Save` that is not between the file and what is recorded of it goes on to another point
that is not. -/
theorem setSaver {s : Instance} {frame : ℕ} {saver : Option Saver}
    (hold : ∀ w, ¬s.Recording frame w) (hnew : ∀ w, saver = some w → w.phase ≠ .recorded) :
    Untouched s (s.setSaver frame saver) where
  recorded _ := rfl
  files := rfl
  loading := rfl
  spoilt := rfl
  recording := by
    intro f w
    by_cases hf : f = frame
    · subst hf
      have hnot : ¬(s.setSaver f saver).Recording f w := by
        rintro ⟨hw, hphase⟩
        exact hnew w (by simpa [Instance.setSaver] using hw) hphase
      exact iff_of_false hnot (hold w)
    · simp [Recording, Instance.setSaver, hf]

theorem returnSave {s : Instance} {frame : ℕ} {saver : Saver} (ok : Bool)
    (hold : ∀ w, ¬s.Recording frame w) : Untouched s (s.returnSave frame saver ok) := by
  refine setSaver hold ?_
  intro w hw
  cases ho : saver.owner with
  | createSnapshot =>
    rw [ho] at hw
    cases hw
    exact SavePhase.noConfusion
  | user =>
    rw [ho] at hw
    cases hw

theorem beginSave {s : Instance} {frame : ℕ} (type : SnapshotType) (owner : Owner)
    (hold : ∀ w, ¬s.Recording frame w) : Untouched s (s.beginSave frame type owner) := by
  have hcache : Untouched s (s.setCache type { s.cache type with saving := true }) := by
    refine ⟨fun t => ?_, rfl, rfl, rfl, fun _ _ => Iff.rfl⟩
    by_cases ht : t = type
    · subst ht
      simp [recordedFile, setCache]
    · simp [recordedFile, setCache, ht]
  refine hcache.trans (setSaver hold ?_)
  intro w hw
  cases hw
  exact SavePhase.noConfusion

theorem createSnapshot {s : Instance} {frame : ℕ} (type : SnapshotType) (opened : Bool)
    (hold : ∀ w, ¬s.Recording frame w) :
    Untouched s (s.createSnapshot crc64 replWalSize frame type opened) := by
  have hreturned : ∀ ok, Untouched s
      (s.setSaver frame (some (s.saver type .createSnapshot (.returned ok)))) := by
    intro ok
    refine setSaver hold ?_
    intro w hw
    cases hw
    exact SavePhase.noConfusion
  unfold Instance.createSnapshot
  cases s.saveStart crc64 replWalSize false type opened with
  | saving => exact refl s
  | useLast => exact hreturned true
  | notOpened => exact hreturned false
  | started => exact beginSave type .createSnapshot hold

theorem syncSlave {s : Instance} {frame : ℕ} (id : ℕ) (slave : SlaveConn) (opened deferred : Bool)
    (hold : ∀ w, ¬s.Recording frame w) :
    Untouched s (s.syncSlave crc64 replWalSize id slave frame opened deferred) := by
  unfold Instance.syncSlave
  split
  · exact of_slaves s _
  · split
    · exact of_slaves s _
    · split
      · exact of_slaves s _
      · exact (of_slaves s _).trans (createSnapshot slave.type opened hold)

end Untouched

/-! ### The steps that do -/

theorem not_recording_of_none {s : Instance} {frame : ℕ} (h : s.savers frame = none) (w : Saver) :
    ¬s.Recording frame w := by
  rintro ⟨hw, -⟩
  rw [h] at hw
  cases hw

theorem not_recording_of_phase {s : Instance} {frame : ℕ} {saver : Saver}
    (h : s.savers frame = some saver) (hphase : saver.phase ≠ .recorded) (w : Saver) :
    ¬s.Recording frame w := by
  rintro ⟨hw, hw'⟩
  rw [h] at hw
  cases hw
  exact hphase hw'

/-- What is cached for one type says nothing of the others. -/
theorem recordedFile_setCache {s : Instance} {type type' : SnapshotType} (h : type' ≠ type)
    (c : CacheState) : (s.setCache type c).recordedFile type' = s.recordedFile type' := by
  simp [recordedFile, setCache, h]

/-- A save that fails: the metadata are overwritten though nothing was saved. -/
theorem MetaOk.spoil {s : Instance} {saver : Saver} (h : MetaOk s)
    (hsafe : ∀ other w, s.Recording other w → w.type ≠ saver.type) (c : CacheState) :
    MetaOk ((s.setCache saver.type c).setSpoilt saver.type true) where
  recording := by
    intro f w hw
    exact (recordedFile_setCache (hsafe f w hw) c).trans (h.recording f w hw)
  loading := h.loading
  described := by
    intro type hset
    -- the type that is spoilt is not settled
    have hne : type ≠ saver.type := by
      rintro rfl
      have hspoilt := hset.spoilt
      simp [setSpoilt] at hspoilt
    have hold : s.Settled type :=
      ⟨by simpa [setSpoilt, setCache, hne] using hset.spoilt, hset.recording, hset.loading⟩
    exact (h.described type hold).trans (congrArg some (recordedFile_setCache hne c).symm)

/-- The file is written and described: the call is between the file and its metadata now. -/
theorem recording_setSaver (s : Instance) (frame : ℕ) (saver : Saver) (f : ℕ) (w : Saver) :
    (s.setSaver frame (some { saver with phase := .recorded })).Recording f w ↔
      f = frame ∧ w = { saver with phase := .recorded } ∨ f ≠ frame ∧ s.Recording f w := by
  by_cases hf : f = frame
  · subst hf
    constructor
    · rintro ⟨hw, -⟩
      exact Or.inl ⟨rfl, by simpa [setSaver, eq_comm] using hw⟩
    · rintro (⟨-, rfl⟩ | ⟨hf, -⟩)
      · exact ⟨by simp [setSaver], rfl⟩
      · exact absurd rfl hf
  · simp [Recording, setSaver, hf]

theorem MetaOk.record {s : Instance} {frame : ℕ} {saver : Saver} (h : MetaOk s)
    (hsaver : s.savers frame = some saver) (hphase : saver.phase = .writing)
    (hsafe : ∀ other w, s.Recording other w → w.type ≠ saver.type) (ok : Bool) :
    MetaOk (s.record frame saver ok) := by
  let c : CacheState := ⟨false, saver.cacheOffset, saver.cacheCksm⟩
  cases ok with
  | false =>
    have hnot : ∀ w, ¬((s.setCache saver.type c).setSpoilt saver.type true).Recording frame w :=
      not_recording_of_phase (s := (s.setCache saver.type c).setSpoilt saver.type true) hsaver
        (by simp [hphase])
    exact (Untouched.returnSave false hnot).metaOk (h.spoil hsafe c)
  | true =>
    have hrec := recording_setSaver (s.setCache saver.type c) frame saver
    exact
      { recording := by
          intro f w hw
          rcases (hrec f w).mp hw with ⟨-, rfl⟩ | ⟨-, hold⟩
          · simp [recordedFile, Instance.record, setCache, setSaver]
          · exact (recordedFile_setCache (hsafe f w hold) c).trans (h.recording f w hold)
        loading := h.loading
        described := by
          -- the type of this call is not settled before the file is renamed
          intro type hset
          have hne : type ≠ saver.type :=
            (hset.recording frame _ ((hrec _ _).mpr (Or.inl ⟨rfl, rfl⟩))).symm
          have hold : s.Settled type :=
            { spoilt := hset.spoilt
              loading := hset.loading
              recording := by
                intro f w hw
                by_cases hf : f = frame
                · subst hf
                  exact absurd hw (not_recording_of_phase hsaver (by simp [hphase]) w)
                · exact hset.recording f w ((hrec f w).mpr (Or.inr ⟨hf, hw⟩)) }
          exact (h.described type hold).trans (congrArg some (recordedFile_setCache hne c).symm) }

theorem MetaOk.rename {s : Instance} {frame : ℕ} {saver : Saver} (h : MetaOk s)
    (hsaver : s.savers frame = some saver) (hphase : saver.phase = .recorded)
    (hsafe : ∀ l, s.loading = some l → l.type ≠ saver.type) (ok : Bool) :
    MetaOk (s.rename frame saver ok) := by
  have hrecorded := h.recording frame saver ⟨hsaver, hphase⟩
  -- what was between the file and its metadata still is, apart from this call
  have hrec : ∀ f w, (s.rename frame saver ok).Recording f w ↔ f ≠ frame ∧ s.Recording f w := by
    intro f w
    cases ok <;> by_cases hf : f = frame <;>
      simp [Recording, Instance.rename, setSaver, setSpoilt, setFile, hf] <;> rintro rfl <;>
      exact SavePhase.noConfusion
  exact
    { recording := by
        intro f w hw
        have hold := h.recording f w ((hrec f w).mp hw).2
        cases ok <;> exact hold
      loading := by
        intro l hl hren
        cases ok with
        | false => exact h.loading l hl hren
        | true =>
          have hne := hsafe l hl
          simpa [Instance.rename, setSaver, setSpoilt, setFile, hne] using h.loading l hl hren
      described := by
        intro type hset
        by_cases htype : type = saver.type
        · subst htype
          cases ok with
          | false =>
            have hspoilt := hset.spoilt
            simp [Instance.rename, setSpoilt] at hspoilt
          | true =>
            calc (s.rename frame saver true).files saver.type
                = some ⟨saver.cacheOffset, saver.cacheCksm⟩ := by
                  simp [Instance.rename, setFile, setSaver, setSpoilt]
              _ = some (s.recordedFile saver.type) := by rw [hrecorded]
        · have hold : s.Settled type :=
            { spoilt := by
                have hspoilt := hset.spoilt
                cases ok <;> simpa [Instance.rename, setSpoilt, setFile, setSaver, htype] using hspoilt
              loading := by
                have hloading := hset.loading
                cases ok <;> exact hloading
              recording := by
                intro f w hw hwt
                by_cases hf : f = frame
                · subst hf
                  obtain ⟨hw, -⟩ := hw
                  rw [hsaver] at hw
                  cases hw
                  exact htype hwt.symm
                · exact hset.recording f w ((hrec f w).mpr ⟨hf, hw⟩) hwt }
          have hfile := h.described type hold
          cases ok with
          | false => exact hfile
          | true =>
            change Function.update s.files saver.type _ type = some (s.recordedFile type)
            rw [Function.update_of_ne htype]
            exact hfile }

theorem MetaOk.dumpReceived {s : Instance} (h : MetaOk s) (hidle : s.loading = none) (l : Loading) :
    MetaOk (s.dumpReceived l) where
  recording := by
    intro frame saver hrec
    cases hren : l.renamed <;> simp only [Instance.dumpReceived, hren] at hrec ⊢ <;>
      exact h.recording frame saver hrec
  loading := by
    intro l' hl' hren
    obtain rfl := Option.some.inj hl'
    simp [Instance.dumpReceived, setFile, hren]
  described := by
    intro type hset
    have hne : l.type ≠ type := hset.loading l rfl
    have hold : s.Settled type :=
      { spoilt := by
          have hspoilt := hset.spoilt
          cases hren : l.renamed <;> simpa [Instance.dumpReceived, setFile, hren] using hspoilt
        recording := by
          have hrec := hset.recording
          cases hren : l.renamed <;> simp only [Instance.dumpReceived, hren] at hrec <;> exact hrec
        loading := by
          intro l' hl'
          rw [hidle] at hl'
          cases hl' }
    have hfile := h.described type hold
    cases hren : l.renamed with
    | false => simpa [Described, recordedFile, Instance.dumpReceived, hren] using hfile
    | true =>
      simpa [Described, recordedFile, Instance.dumpReceived, setFile, hren,
        Function.update_of_ne hne.symm] using hfile

theorem MetaOk.dumpLoaded {s : Instance} {l : Loading} (h : MetaOk s) (hl : s.loading = some l)
    (hsafe : ∀ frame w, s.Recording frame w → w.type ≠ l.type) (ok : Bool) (deferred : ℕ → Bool) :
    MetaOk (s.dumpLoaded l ok deferred) := by
  -- a type that is settled now and is not the one that was loaded was settled before
  have hback : ∀ type, type ≠ l.type → (s.dumpLoaded l ok deferred).Settled type → s.Settled type := by
    intro type hne hset
    refine ⟨?_, ?_, ?_⟩
    · have hspoilt := hset.spoilt
      cases ok <;> simpa [Instance.dumpLoaded, setSpoilt, setCache, disconnectAllSlaves, hne]
        using hspoilt
    · have hrec := hset.recording
      cases ok <;> exact hrec
    · intro l' hl'
      rw [hl] at hl'
      cases hl'
      exact hne.symm
  cases ok with
  | false =>
    exact
      { recording := h.recording
        loading := by
          intro l' hl'
          cases hl'
        described := by
          intro type hset
          have hne : type ≠ l.type := by
            rintro rfl
            have hspoilt := hset.spoilt
            simp [Instance.dumpLoaded, setSpoilt] at hspoilt
          exact h.described type (hback type hne hset) }
  | true =>
    exact
      { recording := by
          intro frame w hw
          have hne := hsafe frame w hw
          calc (s.dumpLoaded l true deferred).recordedFile w.type
              = s.recordedFile w.type := by
                simp [recordedFile, Instance.dumpLoaded, setSpoilt, setCache, disconnectAllSlaves, hne]
            _ = ⟨w.cacheOffset, w.cacheCksm⟩ := h.recording frame w hw
        loading := by
          intro l' hl'
          cases hl'
        described := by
          intro type hset
          by_cases htype : type = l.type
          · subst htype
            have hspoilt := hset.spoilt
            have hren : l.renamed = true := by
              simpa [Instance.dumpLoaded, setSpoilt, setCache, disconnectAllSlaves] using hspoilt
            calc (s.dumpLoaded l true deferred).files l.type
                = some l.file := h.loading l hl hren
              _ = some ((s.dumpLoaded l true deferred).recordedFile l.type) := by
                simp [recordedFile, Instance.dumpLoaded, setSpoilt, setCache, disconnectAllSlaves]
          · have hfile := h.described type (hback type htype hset)
            simpa [Described, recordedFile, Instance.dumpLoaded, setSpoilt, setCache,
              disconnectAllSlaves, htype] using hfile }

/-- **The step.** What is settled stays described in every step that is `MetaSafe`. -/
theorem MetaOk.step {s s' : Instance} {a : Act} (h : MetaOk s)
    (hsafe : MetaSafe crc64 replWalSize s a) (hstep : s.step crc64 replWalSize a = some s') :
    MetaOk s' := by
  obtain ⟨-, hsafe⟩ := hsafe
  cases a with
  | log op =>
    obtain ⟨wal, -, rfl⟩ := Option.map_eq_some_iff.mp hstep
    have hsame : Untouched s { s with wal := wal } :=
      ⟨fun _ => rfl, rfl, rfl, rfl, fun _ _ => Iff.rfl⟩
    exact hsame.metaOk h
  | setServerKey | role | setPlainFile =>
    -- none of them has to do with a snapshot
    cases hstep
    refine Untouched.metaOk ?_ h
    exact ⟨fun _ => rfl, rfl, rfl, rfl, fun _ _ => Iff.rfl⟩
  | request id slave frame opened deferred =>
    simp only [Instance.step, Option.ite_none_right_eq_some] at hstep
    obtain ⟨⟨-, hframe⟩, hstep⟩ := hstep
    cases hstep
    exact (Untouched.syncSlave id slave opened deferred (not_recording_of_none hframe)).metaOk h
  | save frame type opened =>
    simp only [Instance.step, Option.ite_none_right_eq_some] at hstep
    obtain ⟨hframe, hstep⟩ := hstep
    split at hstep <;> cases hstep
    · exact (Untouched.beginSave type .user (not_recording_of_none hframe)).metaOk h
    · exact h
  | record frame ok =>
    obtain ⟨saver, hsaver, hstep⟩ := Option.bind_eq_some_iff.mp hstep
    obtain ⟨hphase, hstep⟩ := Option.ite_none_right_eq_some.mp hstep
    cases hstep
    exact h.record hsaver hphase (hsafe saver hsaver) ok
  | rename frame ok =>
    obtain ⟨saver, hsaver, hstep⟩ := Option.bind_eq_some_iff.mp hstep
    obtain ⟨hphase, hstep⟩ := Option.ite_none_right_eq_some.mp hstep
    cases hstep
    exact h.rename hsaver hphase (hsafe saver hsaver) ok
  | resync frame opened deferred =>
    obtain ⟨saver, hsaver, hstep⟩ := Option.bind_eq_some_iff.mp hstep
    obtain ⟨hphase, hstep⟩ := Option.ite_none_right_eq_some.mp hstep
    cases hstep
    -- the file is described before anybody is sent it
    have hold : ∀ w, ¬(s.fullResyncSlaves saver.type opened deferred).Recording frame w :=
      not_recording_of_phase (s := s.fullResyncSlaves saver.type opened deferred) hsaver
        (by simp [hphase])
    exact ((Untouched.of_slaves s _).trans (Untouched.returnSave true hold)).metaOk h
  | created frame opened deferred =>
    obtain ⟨saver, hsaver, hstep⟩ := Option.bind_eq_some_iff.mp hstep
    have hnone : ∀ w, (none : Option Saver) = some w → w.phase ≠ .recorded := by
      intro w hw
      cases hw
    cases hphase : saver.phase with
    | writing | recorded | renamed => simp [hphase] at hstep
    | returned ok =>
      have hphase' : saver.phase ≠ .recorded := by simp [hphase]
      simp only [hphase] at hstep
      cases ok with
      | true =>
        cases hstep
        have hold : ∀ w, ¬(s.fullResyncSlaves saver.type opened deferred).Recording frame w :=
          not_recording_of_phase (s := s.fullResyncSlaves saver.type opened deferred) hsaver hphase'
        exact ((Untouched.of_slaves s _).trans (Untouched.setSaver hold hnone)).metaOk h
      | false =>
        cases hstep
        have hold : ∀ w, ¬(s.closeWaiting deferred).Recording frame w :=
          not_recording_of_phase (s := s.closeWaiting deferred) hsaver hphase'
        exact ((Untouched.of_slaves s _).trans (Untouched.setSaver hold hnone)).metaOk h
  | sent id =>
    obtain ⟨slave, -, hstep⟩ := Option.bind_eq_some_iff.mp hstep
    obtain ⟨-, hstep⟩ := Option.ite_none_right_eq_some.mp hstep
    cases hstep
    exact (Untouched.of_slaves s _).metaOk h
  | lost id =>
    cases hstep
    exact (Untouched.of_slaves s _).metaOk h
  | dumpReceived type file renamed =>
    obtain ⟨hidle, hstep⟩ := Option.ite_none_right_eq_some.mp hstep
    cases hstep
    exact h.dumpReceived hidle _
  | dumpLoaded ok deferred =>
    obtain ⟨l, hl, rfl⟩ := Option.map_eq_some_iff.mp hstep
    exact h.dumpLoaded hl (hsafe l hl) ok deferred
  | restart =>
    -- every type is spoilt at first
    cases hstep
    refine ⟨?_, ?_, ?_⟩
    · rintro frame saver ⟨hw, -⟩
      cases hw
    · intro l hl
      cases hl
    · intro type hset
      cases hset.spoilt

/-- **Every run.** Where only settled snapshots are sent, and the two ways of writing the metadata do
not meet, what is announced describes the file that is sent. -/
theorem snapshot_described (crc64 : UInt64 → Bytes → UInt64) (replWalSize : UInt64) (wal : Swal)
    (serverKey : Bytes) (hasMaster plainFile : Bool) (files : SnapshotType → Option SnapshotFile)
    {as : List Act}
    (hsafe : Run.Along (Instance.step crc64 replWalSize) (MetaSafe crc64 replWalSize)
      (.init wal serverKey hasMaster plainFile files) as) :
    Run.Along (Instance.step crc64 replWalSize) (MetaTold crc64 replWalSize)
      (.init wal serverKey hasMaster plainFile files) as :=
  Run.along_of_invariant (fun _ _ _ h hs hstep => MetaOk.step h hs hstep)
    (fun _ _ h hs type htold => h.described type (hs.1 type htold)) (MetaOk.init ..) hsafe

/-! ### A rename that fails -/

open Streaming (streamWal)

/-- A master that has just been started. -/
def newInstance (plainFile : Bool) : Instance :=
  .init streamWal [109] false plainFile fun _ => none

/-- A slave that knows another master. -/
def newSlave : SlaveConn :=
  { serverKey := [120], isRedisSlave := false, syncOffset := 5, syncCksm := 0, state := .start
    sendFile := false, closing := false }

theorem oneByte_small : ([103] : Bytes).length < 2 ^ 63 := by decide

/-- `SAVE` at offset `6`. One byte later a slave makes the master save again, and the file that was
written cannot be renamed. -/
def renameFails : List Act :=
  [.log (.append sixBytes), .save 0 .mmkv true, .record 0 true, .rename 0 true,
    .resync 0 (fun _ => true) (fun _ => false), .log (.append ⟨[103], oneByte_small⟩),
    .request 1 newSlave 1 true false, .record 1 true, .rename 1 false]

/-- `SAVE` fails while there is some file at `repl_data_dir/snapshot_filename`. -/
def saveFails : List Act := [.log (.append sixBytes), .save 0 .mmkv true, .record 0 false]

/-- The slave is sent the file of offset `6`, and told that it is of offset `7`. And `Save(false)`
returns `0` for a slave when no file was ever saved. -/
theorem snapshot_described_fails :
    (∃ s, Run.steps (Instance.step (fun cksm _ => cksm) 100) (newInstance false) renameFails = some s ∧
      s.Sends .mmkv (.resync 1 (fun _ => true) (fun _ => false)) ∧
      s.files .mmkv = some ⟨6, 0⟩ ∧ s.recordedFile .mmkv = ⟨7, 0⟩ ∧ ¬s.Described .mmkv) ∧
    ∃ s, Run.steps (Instance.step (fun cksm _ => cksm) 100) (newInstance true) saveFails = some s ∧
      s.ReturnsZero (fun cksm _ => cksm) 100 .mmkv (.request 1 newSlave 1 true false) ∧
      s.files .mmkv = none := by
  constructor
  · refine ⟨_, rfl, ⟨⟨_, rfl, rfl, rfl⟩, 1, _, rfl, rfl, rfl⟩, rfl, rfl, ?_⟩
    change ¬some (⟨6, 0⟩ : SnapshotFile) = some ⟨7, 0⟩
    decide
  · exact ⟨_, rfl, ⟨by decide, by decide, by decide⟩, rfl⟩

/-- The slave makes the master save, and is sent the file. -/
def slaveSaves : List Act :=
  [.request 1 newSlave 1 true false, .record 1 true, .rename 1 true,
    .resync 1 (fun _ => true) (fun _ => false), .created 1 (fun _ => true) (fun _ => false)]

/-- With one call of `Save` under way, that is not between the file and what is recorded of it, and no
snapshot being loaded, a type is settled if it is not spoilt. -/
theorem settled_of_only {s : Instance} {frame : ℕ} {type : SnapshotType}
    (honly : ∀ f, f ≠ frame → s.savers f = none) (hnot : ∀ w, ¬s.Recording frame w)
    (hloading : s.loading = none) (hspoilt : s.spoilt type = false) : s.Settled type where
  spoilt := hspoilt
  recording := by
    intro f w hw
    by_cases hf : f = frame
    · exact absurd (hf ▸ hw) (hnot w)
    · exact absurd hw (not_recording_of_none (honly f hf) w)
  loading := by
    intro l hl
    rw [hloading] at hl
    cases hl

theorem snapshot_described_slaveSaves :
    Run.Along (Instance.step (fun cksm _ => cksm) 100) (MetaTold (fun cksm _ => cksm) 100)
      (newInstance false) slaveSaves := by
  refine snapshot_described (fun cksm _ => cksm) 100 streamWal [109] false false (fun _ => none)
    ⟨⟨fun type htold => ?_, trivial⟩, fun s₁ h₁ => ⟨⟨fun type htold => ?_, ?_⟩, fun s₂ h₂ =>
      ⟨⟨fun type htold => ?_, ?_⟩, fun s₃ h₃ => ⟨⟨fun type htold => ?_, trivial⟩, fun s₄ h₄ =>
        ⟨⟨fun type htold => ?_, trivial⟩, fun s₅ h₅ => trivial⟩⟩⟩⟩⟩
  · rcases htold with htold | ⟨-, -, hstart⟩
    · exact htold.elim
    · exact absurd hstart (by cases type <;> decide)
  · rcases htold with htold | htold <;> exact htold.elim
  · obtain rfl := Option.some.inj h₁
    rintro saver - other w ⟨hw, hphase⟩
    by_cases hother : other = 1
    · subst hother
      cases hw
      cases hphase
    · have hnone : (none : Option Saver) = some w := (Function.update_of_ne hother _ _).symm.trans hw
      cases hnone
  · rcases htold with htold | htold <;> exact htold.elim
  · obtain rfl := Option.some.inj h₁
    obtain rfl := Option.some.inj h₂
    intro saver _ l hl
    cases hl
  · obtain rfl := Option.some.inj h₁
    obtain rfl := Option.some.inj h₂
    obtain rfl := Option.some.inj h₃
    have htype : type = .mmkv := by
      rcases htold with ⟨⟨saver, hs, -, rfl⟩, -⟩ | ⟨saver, hs, -, rfl, -⟩ <;> cases hs <;> rfl
    subst htype
    refine @settled_of_only _ 1 _ (fun f hf => ?_) (not_recording_of_phase rfl SavePhase.noConfusion)
      rfl rfl
    exact (Function.update_of_ne hf _ _).trans ((Function.update_of_ne hf _ _).trans
      (Function.update_of_ne hf _ _))
  · obtain rfl := Option.some.inj h₁
    obtain rfl := Option.some.inj h₂
    obtain rfl := Option.some.inj h₃
    obtain rfl := Option.some.inj h₄
    have htype : type = .mmkv := by
      rcases htold with ⟨⟨saver, hs, -, rfl⟩, -⟩ | htold
      · cases hs
        rfl
      · exact htold.elim
    subst htype
    refine @settled_of_only _ 1 _ (fun f hf => ?_) (not_recording_of_phase rfl SavePhase.noConfusion)
      rfl rfl
    exact (Function.update_of_ne hf _ _).trans ((Function.update_of_ne hf _ _).trans
      ((Function.update_of_ne hf _ _).trans (Function.update_of_ne hf _ _)))

end Resync
end Comms
