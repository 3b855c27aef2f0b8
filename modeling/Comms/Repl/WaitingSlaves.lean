import Comms.Repl.SnapshotMeta

/-!
# Slaves that wait for a snapshot

A slave that waits is served by whoever ends a save of its type: `Save` itself, when it has worked,
and `CreateSnapshot` behind it, which also closes the slaves that wait when it has not. A slave that
comes while a save is under way starts none: it relies on the one who started it.

* `Instance.Attended` — somebody is about to serve or to close the slaves that wait for a type;
* `WaitOk.step` — every slave that waits is attended, every one that is being sent a snapshot has a
  file to be sent, kept by every step that is `WaitSafe`;
* `no_slave_left_waiting` — the run.

`SAVE` and `BGSAVE` serve the slaves that wait when they have worked and do nothing about them when
they have not. And a slave that has sent `sync` is in `SYNC_STATE_SYNCING_SNAPSHOT` from the start,
with nobody sending it anything.
-/

namespace Comms
namespace Resync

open Streaming (SyncState streamWal)

variable {crc64 : UInt64 → Bytes → UInt64} {replWalSize : UInt64}

/-- A call of `Save` that will serve or close the slaves that wait for a snapshot of this type, if it
does not fail. `CreateSnapshot` closes them all when it has failed. -/
def Saver.Attends (saver : Saver) (type : SnapshotType) : Prop :=
  saver.phase = .returned false ∨ saver.type = type

namespace Instance

def Attended (s : Instance) (type : SnapshotType) : Prop :=
  ∃ frame saver, s.savers frame = some saver ∧ saver.Attends type

/-- The slave is connected, `Close()` has not been called for it, and it is in this state. -/
def InState (s : Instance) (id : ℕ) (slave : SlaveConn) (state : SyncState) : Prop :=
  s.slaves id = some slave ∧ slave.closing = false ∧ slave.state = state

/-- No `Save` is running, no `SendFile` is pending and no close is queued. -/
def Quiescent (s : Instance) : Prop :=
  (∀ frame, s.savers frame = none) ∧
    ∀ id slave, s.slaves id = some slave → slave.sendFile = false ∧ slave.closing = false

/-- **No slave is left waiting for nothing.** -/
def NoneWaits (s : Instance) : Prop :=
  s.Quiescent → ∀ id slave, s.slaves id = some slave →
    slave.state ≠ .waitingSnapshot ∧ slave.state ≠ .syncingSnapshot

end Instance

open Instance

/-- A step that does not run into the defects: nobody sends `sync`, and a save of the user does not
fail while a slave relies on it alone. -/
def WaitSafe (s : Instance) : Act → Prop
  | .request _ slave _ _ _ => s.hasMaster ∧ s.slaveSynced = false ∨ slave.serverKey ≠ []
  | .record frame false => ∀ saver, s.savers frame = some saver → saver.owner = .user →
      ∀ id slave, s.InState id slave .waitingSnapshot → slave.type = saver.type →
        ∃ other w, other ≠ frame ∧ s.savers other = some w ∧ w.Attends slave.type
  | _ => True

/-! ### The invariant -/

/-- **The invariant.** Whoever waits is attended, whoever is being sent a snapshot has a file to be
sent, and `snapshot_saving` tells of a save that is under way. -/
structure WaitOk (s : Instance) : Prop where
  waiting : ∀ id slave, s.InState id slave .waitingSnapshot → s.Attended slave.type
  syncing : ∀ id slave, s.InState id slave .syncingSnapshot → slave.sendFile = true
  saving : ∀ type, (s.cache type).saving = true →
    ∃ frame saver, s.savers frame = some saver ∧ saver.type = type ∧ saver.phase = .writing

theorem WaitOk.init (wal : Swal) (serverKey : Bytes) (hasMaster plainFile : Bool)
    (files : SnapshotType → Option SnapshotFile) :
    WaitOk (.init wal serverKey hasMaster plainFile files) where
  waiting := by
    rintro id slave ⟨h, -⟩
    cases h
  syncing := by
    rintro id slave ⟨h, -⟩
    cases h
  saving := by
    intro type h
    cases h

/-- In a quiescent state the invariant leaves nobody waiting. -/
theorem WaitOk.noneWaits {s : Instance} (h : WaitOk s) : s.NoneWaits := by
  rintro ⟨hsavers, hslaves⟩ id slave hslave
  obtain ⟨hfile, hclosing⟩ := hslaves id slave hslave
  constructor
  · intro hstate
    obtain ⟨frame, saver, hsaver, -⟩ := h.waiting id slave ⟨hslave, hclosing, hstate⟩
    rw [hsavers frame] at hsaver
    cases hsaver
  · intro hstate
    have hsending := h.syncing id slave ⟨hslave, hclosing, hstate⟩
    rw [hfile] at hsending
    cases hsending

/-! ### What is done to the slaves -/

/-- Everyone who waits or is being sent a snapshot now was before, or has been given a file. -/
structure Fewer (s s' : Instance) : Prop where
  waiting : ∀ id slave, s'.InState id slave .waitingSnapshot → s.InState id slave .waitingSnapshot
  syncing : ∀ id slave, s'.InState id slave .syncingSnapshot →
    s.InState id slave .syncingSnapshot ∨ slave.sendFile = true

theorem closeConn_closing {deferred : Bool} {slave slave' : SlaveConn}
    (h : closeConn deferred slave = some slave') : slave'.closing = true := by
  cases deferred with
  | false => cases h
  | true =>
    obtain rfl := Option.some.inj h
    rfl

/-- A slave that was sent a snapshot is served or closed. -/
theorem sendSnapshot_spec {s : Instance} {opened deferred : Bool} {slave slave' : SlaveConn}
    (h : s.sendSnapshot opened deferred slave = some slave') :
    slave'.closing = true ∨ slave'.state = .syncingSnapshot ∧ slave'.sendFile = true := by
  unfold sendSnapshot at h
  simp only at h
  split at h
  · obtain rfl := Option.some.inj h
    exact Or.inr ⟨rfl, rfl⟩
  · exact Or.inl (closeConn_closing h)

/-- After `FullResyncSlaves` nobody waits for a snapshot of the type, and nobody else has begun
to. -/
theorem fullResyncSlaves_fewer (s : Instance) (type : SnapshotType) (opened deferred : ℕ → Bool) :
    Fewer s (s.fullResyncSlaves type opened deferred) ∧
      ∀ id slave, (s.fullResyncSlaves type opened deferred).InState id slave .waitingSnapshot →
        slave.type ≠ type := by
  have hcases : ∀ id slave', (s.fullResyncSlaves type opened deferred).slaves id = some slave' →
      slave'.closing = false →
        s.slaves id = some slave' ∧ ¬(slave'.state = .waitingSnapshot ∧ slave'.type = type) ∨
          slave'.state = .syncingSnapshot ∧ slave'.sendFile = true := by
    intro id slave' h hopen
    obtain ⟨slave, hslave, h⟩ := Option.bind_eq_some_iff.mp h
    split at h
    · rcases sendSnapshot_spec h with hclosing | hserved
      · rw [hopen] at hclosing
        cases hclosing
      · exact Or.inr hserved
    · next hnot =>
      obtain rfl := Option.some.inj h
      exact Or.inl ⟨hslave, hnot⟩
  refine ⟨⟨?_, ?_⟩, ?_⟩
  · rintro id slave ⟨h, hopen, hstate⟩
    rcases hcases id slave h hopen with ⟨hold, -⟩ | ⟨hsync, -⟩
    · exact ⟨hold, hopen, hstate⟩
    · rw [hsync] at hstate
      cases hstate
  · rintro id slave ⟨h, hopen, hstate⟩
    rcases hcases id slave h hopen with ⟨hold, -⟩ | ⟨-, hfile⟩
    · exact Or.inl ⟨hold, hopen, hstate⟩
    · exact Or.inr hfile
  · rintro id slave ⟨h, hopen, hstate⟩ htype
    rcases hcases id slave h hopen with ⟨-, hnot⟩ | ⟨hsync, -⟩
    · exact hnot ⟨hstate, htype⟩
    · rw [hsync] at hstate
      cases hstate

/-- After the failure of `CreateSnapshot` nobody waits. -/
theorem closeWaiting_fewer (s : Instance) (deferred : ℕ → Bool) :
    Fewer s (s.closeWaiting deferred) ∧
      ∀ id slave, ¬(s.closeWaiting deferred).InState id slave .waitingSnapshot := by
  have hcases : ∀ id slave', (s.closeWaiting deferred).slaves id = some slave' →
      slave'.closing = false → s.slaves id = some slave' ∧ slave'.state ≠ .waitingSnapshot := by
    intro id slave' h hopen
    obtain ⟨slave, hslave, h⟩ := Option.bind_eq_some_iff.mp h
    split at h
    · rw [closeConn_closing h] at hopen
      cases hopen
    · next hnot =>
      obtain rfl := Option.some.inj h
      exact ⟨hslave, hnot⟩
  refine ⟨⟨?_, ?_⟩, ?_⟩
  · rintro id slave ⟨h, hopen, hstate⟩
    exact absurd hstate (hcases id slave h hopen).2
  · rintro id slave ⟨h, hopen, hstate⟩
    exact Or.inl ⟨(hcases id slave h hopen).1, hopen, hstate⟩
  · rintro id slave ⟨h, hopen, hstate⟩
    exact (hcases id slave h hopen).2 hstate

/-- After `DisconnectAllSlaves` every slave that is left is being closed. -/
theorem disconnectAllSlaves_inState (s : Instance) (deferred : ℕ → Bool) (id : ℕ) (slave : SlaveConn)
    (state : SyncState) : ¬(s.disconnectAllSlaves deferred).InState id slave state := by
  rintro ⟨h, hopen, -⟩
  obtain ⟨old, -, h⟩ := Option.bind_eq_some_iff.mp h
  rw [closeConn_closing h] at hopen
  cases hopen

/-- What is done to the slaves leaves the invariant, as long as whoever still waits is attended. -/
theorem WaitOk.of_fewer {s s' : Instance} (h : WaitOk s) (hfewer : Fewer s s')
    (hattended : ∀ id slave, s'.InState id slave .waitingSnapshot → s.Attended slave.type →
      s'.Attended slave.type)
    (hsaving : ∀ type, (s'.cache type).saving = true →
      ∃ frame saver, s'.savers frame = some saver ∧ saver.type = type ∧ saver.phase = .writing) :
    WaitOk s' where
  waiting id slave hin := hattended id slave hin (h.waiting id slave (hfewer.waiting id slave hin))
  syncing := by
    intro id slave hin
    rcases hfewer.syncing id slave hin with hold | hfile
    · exact h.syncing id slave hold
    · exact hfile
  saving := hsaving

theorem Fewer.of_slaves {s s' : Instance} (h : s'.slaves = s.slaves) : Fewer s s' := by
  have hin : ∀ id slave state, s'.InState id slave state → s.InState id slave state := by
    rintro id slave state ⟨hslave, hrest⟩
    exact ⟨by rw [← h]; exact hslave, hrest⟩
  exact ⟨fun id slave h => hin id slave _ h, fun id slave h => Or.inl (hin id slave _ h)⟩

/-! ### The calls of `Save` -/

/-- A call of `Save` goes on: whoever it attended is attended still. -/
theorem Attended.setSaver {s : Instance} {frame : ℕ} {new : Option Saver} {type : SnapshotType}
    (h : s.Attended type)
    (hnew : ∀ old, s.savers frame = some old → old.Attends type →
      ∃ w, new = some w ∧ w.Attends type) : (s.setSaver frame new).Attended type := by
  obtain ⟨f, saver, hsaver, hattends⟩ := h
  by_cases hf : f = frame
  · subst hf
    obtain ⟨w, rfl, hw⟩ := hnew saver hsaver hattends
    exact ⟨f, w, by simp [Instance.setSaver], hw⟩
  · exact ⟨f, saver, by simp [Instance.setSaver, hf, hsaver], hattends⟩

/-- A call of `Save` that is not writing its file goes on. -/
theorem saving_setSaver {s : Instance} {frame : ℕ} {new : Option Saver} {type : SnapshotType}
    (hold : ∀ old, s.savers frame = some old → old.type = type → old.phase ≠ .writing)
    (h : ∃ f saver, s.savers f = some saver ∧ saver.type = type ∧ saver.phase = .writing) :
    ∃ f saver, (s.setSaver frame new).savers f = some saver ∧ saver.type = type ∧
      saver.phase = .writing := by
  obtain ⟨f, saver, hsaver, htype, hphase⟩ := h
  have hf : f ≠ frame := by
    rintro rfl
    exact hold saver hsaver htype hphase
  exact ⟨f, saver, by simp [Instance.setSaver, hf, hsaver], htype, hphase⟩

theorem none_of_savers {s : Instance} {frame : ℕ} {p : Saver → Prop} (h : s.savers frame = none) :
    ∀ old, s.savers frame = some old → p old := by
  intro old hold
  rw [h] at hold
  cases hold

theorem beginSave_saving {s : Instance} {frame : ℕ} (type : SnapshotType) (owner : Owner)
    (hframe : s.savers frame = none) (h : WaitOk s) (t : SnapshotType)
    (ht : ((s.beginSave frame type owner).cache t).saving = true) :
    ∃ f saver, (s.beginSave frame type owner).savers f = some saver ∧ saver.type = t ∧
      saver.phase = .writing := by
  by_cases htype : t = type
  · subst htype
    exact ⟨frame, _, Function.update_self _ _ _, rfl, rfl⟩
  · have hsaving : (s.cache t).saving = true := by
      simpa [beginSave, setSaver, setCache, htype] using ht
    exact saving_setSaver (s := s.setCache type { s.cache type with saving := true })
      (none_of_savers hframe) (h.saving t hsaving)

/-- `CreateSnapshot` attends the slaves of its type. -/
theorem WaitOk.createSnapshot {s : Instance} {frame : ℕ} {type : SnapshotType} (opened : Bool)
    (hframe : s.savers frame = none) (h : WaitOk s) {id : ℕ} {slave : SlaveConn}
    (htype : slave.type = type) (hfile : slave.state = .waitingSnapshot) :
    WaitOk ((s.setSlave id (some slave)).createSnapshot crc64 replWalSize frame type opened) := by
  let t := s.setSlave id (some slave)
  -- whatever `Save` does at its beginning, it has to leave somebody who attends the new slave
  have hbuild : ∀ u : Instance, u.slaves = t.slaves → (∀ T, s.Attended T → u.Attended T) →
      u.Attended type → (∀ T, (u.cache T).saving = true →
        ∃ f saver, u.savers f = some saver ∧ saver.type = T ∧ saver.phase = .writing) → WaitOk u := by
    intro u hslaves hmono hnew hsaving
    have hold : ∀ i c state, u.InState i c state → i = id ∧ c = slave ∨ s.InState i c state := by
      rintro i c state ⟨hc, hrest⟩
      rw [hslaves] at hc
      by_cases hi : i = id
      · subst hi
        exact Or.inl ⟨rfl, by simpa [t, setSlave, eq_comm] using hc⟩
      · exact Or.inr ⟨by simpa [t, setSlave, hi] using hc, hrest⟩
    refine ⟨?_, ?_, hsaving⟩
    · intro i c hin
      rcases hold i c _ hin with ⟨-, rfl⟩ | hin
      · rw [htype]
        exact hnew
      · exact hmono _ (h.waiting i c hin)
    · intro i c hin
      rcases hold i c _ hin with ⟨-, rfl⟩ | hin
      · have hstate := hin.2.2
        rw [hfile] at hstate
        cases hstate
      · exact h.syncing i c hin
  have hreturned : ∀ ok, WaitOk
      (t.setSaver frame (some (t.saver type .createSnapshot (.returned ok)))) := by
    intro ok
    refine hbuild _ rfl (fun T hT => Attended.setSaver (s := t) hT (none_of_savers hframe)) ?_
      (fun T hT => saving_setSaver (s := t) (none_of_savers hframe) (h.saving T hT))
    exact ⟨frame, _, Function.update_self _ _ _, Or.inr rfl⟩
  change WaitOk (t.createSnapshot crc64 replWalSize frame type opened)
  unfold Instance.createSnapshot
  cases hstart : t.saveStart crc64 replWalSize false type opened with
  | saving =>
    -- somebody else saves
    have hsaving : (s.cache type).saving = true := by
      unfold saveStart at hstart
      split at hstart
      · assumption
      · split at hstart
        · cases hstart
        · split at hstart <;> cases hstart
    obtain ⟨f, saver, hsaver, hst, -⟩ := h.saving type hsaving
    exact hbuild t rfl (fun T hT => hT) ⟨f, saver, hsaver, Or.inr hst⟩ h.saving
  | useLast => exact hreturned true
  | notOpened => exact hreturned false
  | started =>
    refine hbuild _ rfl (fun T hT => ?_) ⟨frame, _, Function.update_self _ _ _, Or.inr rfl⟩ ?_
    · exact Attended.setSaver (s := t.setCache type { t.cache type with saving := true }) hT
        (none_of_savers hframe)
    · exact beginSave_saving (s := s) type .createSnapshot hframe h

/-! ### The steps -/

theorem WaitOk.setSlave {s : Instance} (h : WaitOk s) {id : ℕ} {new : Option SlaveConn}
    (hnew : ∀ slave, new = some slave → slave.closing = true ∨
      slave.state ≠ .waitingSnapshot ∧ slave.state ≠ .syncingSnapshot) : WaitOk (s.setSlave id new) := by
  have hback : ∀ i c state, (s.setSlave id new).InState i c state →
      state = .waitingSnapshot ∨ state = .syncingSnapshot → s.InState i c state := by
    rintro i c state ⟨hc, hopen, rfl⟩ hstate
    by_cases hi : i = id
    · subst hi
      have hc : new = some c := by simpa [Instance.setSlave] using hc
      rcases hnew c hc with hclosing | ⟨hwaiting, hsyncing⟩
      · rw [hopen] at hclosing
        cases hclosing
      · exact absurd hstate (by simp [hwaiting, hsyncing])
    · exact ⟨by simpa [Instance.setSlave, hi] using hc, hopen, rfl⟩
  exact h.of_fewer ⟨fun i c hin => hback i c _ hin (Or.inl rfl), fun i c hin =>
    Or.inl (hback i c _ hin (Or.inr rfl))⟩ (fun _ _ _ hatt => hatt) h.saving

theorem WaitOk.request {s : Instance} (h : WaitOk s) {frame : ℕ} (hframe : s.savers frame = none)
    (id : ℕ) (slave : SlaveConn) (opened deferred : Bool)
    (hsafe : s.hasMaster ∧ s.slaveSynced = false ∨ slave.serverKey ≠ []) :
    WaitOk (s.syncSlave crc64 replWalSize id slave frame opened deferred) := by
  unfold syncSlave
  split
  · exact h.setSlave fun c hc => Or.inl (closeConn_closing hc)
  · next hopen =>
    rw [if_neg (hsafe.resolve_left hopen)]
    split
    · refine h.setSlave fun c hc => Or.inr ?_
      obtain rfl := Option.some.inj hc
      exact ⟨SyncState.noConfusion, SyncState.noConfusion⟩
    · exact h.createSnapshot opened hframe rfl rfl

/-- A call of `Save` that stops writing: its type is not saved any more, and the other types do not
rely on this call. -/
theorem WaitOk.saving_stopped {s : Instance} (h : WaitOk s) {frame : ℕ} {saver : Saver}
    (hsaver : s.savers frame = some saver) (offset cksm : UInt64) (new : Option Saver)
    {T : SnapshotType}
    (hT : (((s.setCache saver.type ⟨false, offset, cksm⟩).setSaver frame new).cache T).saving = true) :
    ∃ f w, ((s.setCache saver.type ⟨false, offset, cksm⟩).setSaver frame new).savers f = some w ∧
      w.type = T ∧ w.phase = .writing := by
  have hne : T ≠ saver.type := by
    rintro rfl
    simp [setSaver, setCache] at hT
  have hold : (s.cache T).saving = true := by simpa [setSaver, setCache, hne] using hT
  refine saving_setSaver (s := s.setCache saver.type ⟨false, offset, cksm⟩) ?_ (h.saving T hold)
  intro old hsame htype
  obtain rfl : saver = old := Option.some.inj (hsaver.symm.trans hsame)
  exact absurd htype.symm hne

/-- Whoever was attended still is, if the call that goes on attends those it has attended. -/
theorem attended_goesOn {s : Instance} {frame : ℕ} {saver : Saver}
    (hsaver : s.savers frame = some saver) (new : Saver) {T : SnapshotType}
    (hnew : saver.Attends T → new.Attends T) (hT : s.Attended T) :
    (s.setSaver frame (some new)).Attended T := by
  refine Attended.setSaver hT ?_
  intro old hsame hattends
  obtain rfl : saver = old := Option.some.inj (hsaver.symm.trans hsame)
  exact ⟨new, rfl, hnew hattends⟩

/-- **The file is written**, or it is not: whoever waits stays attended. -/
theorem WaitOk.record {s : Instance} (h : WaitOk s) {frame : ℕ} {saver : Saver}
    (hsaver : s.savers frame = some saver) (ok : Bool)
    (hphase : saver.phase = .writing)
    (hsafe : ok = false → saver.owner = .user → ∀ id slave, s.InState id slave .waitingSnapshot →
      slave.type = saver.type →
        ∃ other w, other ≠ frame ∧ s.savers other = some w ∧ w.Attends slave.type) :
    WaitOk (s.record frame saver ok) := by
  let t := s.setCache saver.type ⟨false, saver.cacheOffset, saver.cacheCksm⟩
  have hsaving : ∀ new T, ((t.setSaver frame new).cache T).saving = true →
      ∃ f w, (t.setSaver frame new).savers f = some w ∧ w.type = T ∧ w.phase = .writing :=
    fun new T hT => h.saving_stopped hsaver _ _ new hT
  have hwriting : ∀ T, saver.Attends T → saver.type = T := by
    rintro T (hreturned | htype)
    · rw [hphase] at hreturned
      cases hreturned
    · exact htype
  cases ok with
  | true =>
    -- the call goes on, and attends those of its type
    refine h.of_fewer (Fewer.of_slaves rfl) (fun id slave _ hatt => ?_) (hsaving _)
    exact attended_goesOn (s := t) hsaver _ (fun hw => Or.inr (hwriting _ hw)) hatt
  | false =>
    cases howner : saver.owner with
    | createSnapshot =>
      -- the call returns, and attends everybody who waits
      have heq : s.record frame saver false = (t.setSpoilt saver.type true).setSaver frame
          (some { saver with phase := .returned false }) := by
        simp [Instance.record, returnSave, howner, t]
      rw [heq]
      refine h.of_fewer (Fewer.of_slaves rfl) (fun id slave _ hatt => ?_) (hsaving _)
      exact attended_goesOn (s := t.setSpoilt saver.type true) hsaver _ (fun _ => Or.inl rfl) hatt
    | user =>
      -- the call is over: those of its type rely on another one
      have heq : s.record frame saver false = (t.setSpoilt saver.type true).setSaver frame none := by
        simp [Instance.record, returnSave, howner, t]
      rw [heq]
      refine h.of_fewer (Fewer.of_slaves rfl) (fun id slave hin hatt => ?_) (hsaving none)
      have hin : s.InState id slave .waitingSnapshot := hin
      by_cases htype : slave.type = saver.type
      · obtain ⟨other, w, hne, hw, hattends⟩ := hsafe rfl howner id slave hin htype
        exact ⟨other, w, by simp [setSaver, setSpoilt, t, setCache, hne, hw], hattends⟩
      · refine Attended.setSaver (s := t.setSpoilt saver.type true) hatt ?_
        intro old hsame hattends
        obtain rfl : saver = old := Option.some.inj (hsaver.symm.trans hsame)
        exact absurd (hwriting _ hattends).symm htype

/-- A call of `Save` that has served or closed those who waited for it goes on or is over. -/
theorem WaitOk.served {s : Instance} (h : WaitOk s) (s' : Instance) {frame : ℕ} {saver : Saver}
    (hsaver : s.savers frame = some saver) (hphase : saver.phase ≠ .writing)
    (hcache : s'.cache = s.cache) (hsavers : s'.savers = s.savers) (hfewer : Fewer s s')
    {new : Option Saver}
    (hserved : ∀ id slave, s'.InState id slave .waitingSnapshot → saver.Attends slave.type →
      ∃ w, new = some w ∧ w.Attends slave.type) : WaitOk (s'.setSaver frame new) := by
  refine h.of_fewer ⟨hfewer.waiting, hfewer.syncing⟩ (fun id slave hin hatt => ?_) (fun T hT => ?_)
  · obtain ⟨f, w, hw, hattends⟩ := hatt
    refine Attended.setSaver ⟨f, w, hsavers ▸ hw, hattends⟩ ?_
    intro old hold hattends
    rw [hsavers, hsaver] at hold
    cases hold
    exact hserved id slave hin hattends
  · have hT : (s.cache T).saving = true := hcache ▸ hT
    obtain ⟨f, w, hw, hrest⟩ := h.saving T hT
    refine saving_setSaver ?_ ⟨f, w, hsavers ▸ hw, hrest⟩
    intro old hold _
    rw [hsavers, hsaver] at hold
    cases hold
    exact hphase

/-- `FullResyncSlaves` of the saved type leaves nobody waiting for that type. -/
theorem WaitOk.resynced {s : Instance} (h : WaitOk s) {frame : ℕ} {saver : Saver}
    (hsaver : s.savers frame = some saver) (hwriting : saver.phase ≠ .writing)
    (hreturned : saver.phase ≠ .returned false) (opened deferred : ℕ → Bool)
    (new : Option Saver) :
    WaitOk ((s.fullResyncSlaves saver.type opened deferred).setSaver frame new) := by
  obtain ⟨hfewer, hnone⟩ := fullResyncSlaves_fewer s saver.type opened deferred
  refine h.served (s.fullResyncSlaves saver.type opened deferred) hsaver hwriting rfl rfl hfewer ?_
  rintro id slave hin (hphase | htype)
  · exact absurd hphase hreturned
  · exact absurd htype.symm (hnone id slave hin)

theorem WaitOk.rename {s : Instance} (h : WaitOk s) {frame : ℕ} {saver : Saver}
    (hsaver : s.savers frame = some saver) (hphase : saver.phase = .recorded) (ok : Bool) :
    WaitOk (s.rename frame saver ok) := by
  have hgo : WaitOk (s.setSaver frame (some { saver with phase := .renamed })) := by
    refine h.served s hsaver (by simp [hphase]) rfl rfl (Fewer.of_slaves rfl) ?_
    rintro id slave - (hreturned | htype)
    · rw [hphase] at hreturned
      cases hreturned
    · exact ⟨_, rfl, Or.inr htype⟩
  cases ok <;> exact ⟨hgo.waiting, hgo.syncing, hgo.saving⟩

/-- **The step.** Whoever waits stays attended in every step that is `WaitSafe`. -/
theorem WaitOk.step {s s' : Instance} {a : Act} (h : WaitOk s) (hsafe : WaitSafe s a)
    (hstep : s.step crc64 replWalSize a = some s') : WaitOk s' := by
  cases a with
  | log op =>
    obtain ⟨wal, -, rfl⟩ := Option.map_eq_some_iff.mp hstep
    exact ⟨h.waiting, h.syncing, h.saving⟩
  | setServerKey | role | setPlainFile =>
    -- no slave, no save and no cached snapshot is touched
    cases hstep
    exact ⟨h.waiting, h.syncing, h.saving⟩
  | request id slave frame opened deferred =>
    simp only [Instance.step, Option.ite_none_right_eq_some] at hstep
    obtain ⟨⟨-, hframe⟩, hstep⟩ := hstep
    cases hstep
    exact h.request hframe id slave opened deferred hsafe
  | save frame type opened =>
    simp only [Instance.step, Option.ite_none_right_eq_some] at hstep
    obtain ⟨hframe, hstep⟩ := hstep
    split at hstep <;> cases hstep
    · -- the save that begins attends those of its type, and nobody else's is replaced
      refine h.of_fewer (Fewer.of_slaves rfl) (fun id slave _ hatt => ?_)
        (beginSave_saving type .user hframe h)
      exact Attended.setSaver (s := s.setCache type { s.cache type with saving := true }) hatt
        (none_of_savers hframe)
    · exact h
  | record frame ok =>
    obtain ⟨saver, hsaver, hstep⟩ := Option.bind_eq_some_iff.mp hstep
    obtain ⟨hphase, hstep⟩ := Option.ite_none_right_eq_some.mp hstep
    cases hstep
    refine h.record hsaver ok hphase ?_
    rintro rfl
    exact hsafe saver hsaver
  | rename frame ok =>
    obtain ⟨saver, hsaver, hstep⟩ := Option.bind_eq_some_iff.mp hstep
    obtain ⟨hphase, hstep⟩ := Option.ite_none_right_eq_some.mp hstep
    cases hstep
    exact h.rename hsaver hphase ok
  | resync frame opened deferred =>
    obtain ⟨saver, hsaver, hstep⟩ := Option.bind_eq_some_iff.mp hstep
    obtain ⟨hphase, hstep⟩ := Option.ite_none_right_eq_some.mp hstep
    cases hstep
    exact h.resynced hsaver (by simp [hphase]) (by simp [hphase]) opened deferred _
  | created frame opened deferred =>
    obtain ⟨saver, hsaver, hstep⟩ := Option.bind_eq_some_iff.mp hstep
    cases hphase : saver.phase with
    | writing | recorded | renamed => simp [hphase] at hstep
    | returned ok =>
      simp only [hphase] at hstep
      cases ok with
      | true =>
        cases hstep
        exact h.resynced hsaver (by simp [hphase]) (by simp [hphase]) opened deferred _
      | false =>
        -- whoever waits is closed, of whatever type
        cases hstep
        obtain ⟨hfewer, hnone⟩ := closeWaiting_fewer s deferred
        exact h.served (s.closeWaiting deferred) hsaver (by simp [hphase]) rfl rfl hfewer
          fun id slave hin => absurd hin (hnone id slave)
  | sent id =>
    obtain ⟨slave, -, hstep⟩ := Option.bind_eq_some_iff.mp hstep
    obtain ⟨-, hstep⟩ := Option.ite_none_right_eq_some.mp hstep
    cases hstep
    -- it is synced now, and does not wait any more
    refine h.setSlave fun c hc => Or.inr ?_
    obtain rfl := Option.some.inj hc
    exact ⟨SyncState.noConfusion, SyncState.noConfusion⟩
  | lost id =>
    cases hstep
    refine h.setSlave fun c hc => ?_
    cases hc
  | dumpReceived type file renamed =>
    obtain ⟨-, hstep⟩ := Option.ite_none_right_eq_some.mp hstep
    cases hstep
    cases renamed <;> exact ⟨h.waiting, h.syncing, h.saving⟩
  | dumpLoaded ok deferred =>
    obtain ⟨l, -, rfl⟩ := Option.map_eq_some_iff.mp hstep
    cases ok with
    | false => exact ⟨h.waiting, h.syncing, h.saving⟩
    | true =>
      -- every slave is disconnected, so nobody waits
      have hnone := fun t => disconnectAllSlaves_inState t deferred
      refine ⟨fun id slave hin => absurd hin (hnone _ id slave _), fun id slave hin =>
        absurd hin (hnone _ id slave _), fun T hT => h.saving T ?_⟩
      by_cases hT' : T = l.type
      · subst hT'
        simpa [dumpLoaded, disconnectAllSlaves, setSpoilt, setCache] using hT
      · simpa [dumpLoaded, disconnectAllSlaves, setSpoilt, setCache, hT'] using hT
  | restart =>
    -- a process that starts has no slaves and saves nothing
    cases hstep
    refine ⟨?_, ?_, ?_⟩
    · rintro id slave ⟨hslave, -⟩
      cases hslave
    · rintro id slave ⟨hslave, -⟩
      cases hslave
    · intro T hT
      cases hT

/-- **Every run.** Where nobody sends `sync` and no save of the user fails while a slave relies on it
alone, no slave is left waiting for nothing. -/
theorem no_slave_left_waiting (crc64 : UInt64 → Bytes → UInt64) (replWalSize : UInt64) (wal : Swal)
    (serverKey : Bytes) (hasMaster plainFile : Bool) (files : SnapshotType → Option SnapshotFile)
    {as : List Act} {s : Instance}
    (hsafe : Run.Along (Instance.step crc64 replWalSize) WaitSafe
      (.init wal serverKey hasMaster plainFile files) as)
    (hrun : Run.steps (Instance.step crc64 replWalSize)
      (.init wal serverKey hasMaster plainFile files) as = some s) : s.NoneWaits :=
  (Run.invariant (fun _ _ _ h hs hstep => WaitOk.step h hs hstep) (WaitOk.init ..) hsafe hrun).noneWaits

/-! ### Two slaves that are left waiting -/

/-- A redis 2.4 slave, which sends `sync`. -/
def oldSlave : SlaveConn :=
  { serverKey := [], isRedisSlave := true, syncOffset := 0xffffffffffffffff, syncCksm := 0
    state := .start, sendFile := false, closing := false }

/-- A slave comes while `SAVE` is running, which then fails. -/
def userSaveFails : List Act :=
  [.save 0 .mmkv true, .request 1 newSlave 1 true false, .record 0 false]

/-- One slave that is left waiting is enough. -/
theorem not_noneWaits {s : Instance} {slave : SlaveConn} (hsavers : ∀ frame, s.savers frame = none)
    (hslave : s.slaves 1 = some slave) (hothers : ∀ id, id ≠ 1 → s.slaves id = none)
    (hfile : slave.sendFile = false) (hopen : slave.closing = false)
    (hstate : slave.state = .waitingSnapshot ∨ slave.state = .syncingSnapshot) : ¬s.NoneWaits := by
  intro h
  have hquiet : s.Quiescent := by
    refine ⟨hsavers, ?_⟩
    intro id c hc
    by_cases hid : id = 1
    · subst hid
      rw [hslave] at hc
      cases hc
      exact ⟨hfile, hopen⟩
    · rw [hothers id hid] at hc
      cases hc
  obtain ⟨hwaiting, hsyncing⟩ := h hquiet 1 slave hslave
  exact hstate.elim hwaiting hsyncing

theorem slave_left_waiting :
    (∃ s, Run.steps (Instance.step (fun cksm _ => cksm) 100) (newInstance false)
        [.request 1 oldSlave 0 true false] = some s ∧ ¬s.NoneWaits) ∧
    ∃ s, Run.steps (Instance.step (fun cksm _ => cksm) 100) (newInstance false)
        userSaveFails = some s ∧ ¬s.NoneWaits := by
  constructor
  · exact ⟨_, rfl, not_noneWaits (fun _ => rfl) rfl (fun id hid => Function.update_of_ne hid _ _) rfl
      rfl (Or.inr rfl)⟩
  · refine ⟨_, rfl, not_noneWaits (fun f => ?_) rfl (fun id hid => Function.update_of_ne hid _ _) rfl
      rfl (Or.inl rfl)⟩
    change Function.update (Function.update (fun _ => none) 0 _) 0 none f = (none : Option Saver)
    rw [Function.update_idem]
    exact congrFun (Function.update_eq_self 0 fun _ => none) f

/-- The slave makes the master save, is sent the file and is synced. -/
theorem no_slave_left_waiting_saves :
    ∃ s, Run.steps (Instance.step (fun cksm _ => cksm) 100) (newInstance false)
        (slaveSaves ++ [.sent 1]) = some s ∧
      Run.Along (Instance.step (fun cksm _ => cksm) 100) WaitSafe (newInstance false)
        (slaveSaves ++ [.sent 1]) ∧ s.NoneWaits := by
  have hsafe : Run.Along (Instance.step (fun cksm _ => cksm) 100) WaitSafe (newInstance false)
      (slaveSaves ++ [.sent 1]) :=
    ⟨Or.inr (by decide), fun _ _ => ⟨trivial, fun _ _ => ⟨trivial, fun _ _ => ⟨trivial, fun _ _ =>
      ⟨trivial, fun _ _ => ⟨trivial, fun _ _ => trivial⟩⟩⟩⟩⟩⟩
  exact ⟨_, rfl, hsafe, no_slave_left_waiting (fun cksm _ => cksm) 100 streamWal [109] false false
    (fun _ => none) hsafe rfl⟩

end Resync
end Comms
