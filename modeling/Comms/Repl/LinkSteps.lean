import Comms.Repl.RoleChange

/-!
# What a step does to the log and to the data offset

Nothing is assumed here of what the log holds: a step appends at most one command and executes at most
one, and a replay never goes further than the end of the log.

* `InWindow.append` — an offset that the file still has room for stays in the window;
* `left` — the bytes that a replay has still to read; `swalReplay_left` bounds them at its start;
* `Executes` — what a step executes; `Follows` — what it appends before that;
* `Node.step_follows` — every step of the link `Follows`.
-/

namespace Comms

/-! ### The window -/

/-- The file has room for `n` more bytes behind this offset, and the offsets do not wrap around. -/
def Fits (wal : Swal) (offset : UInt64) (n : ℕ) : Prop :=
  wal.logMeta.logEndOffset.toNat + n < 2 ^ 64 ∧
    (wal.logMeta.logEndOffset - offset).toNat + n ≤ wal.options.maxFileSize.toNat

instance (wal : Swal) (offset : UInt64) (n : ℕ) : Decidable (Fits wal offset n) :=
  inferInstanceAs (Decidable (_ ∧ _))

theorem inWindow_iff {wal : Swal} {offset : UInt64} : InWindow wal offset ↔
    wal.logMeta.logStartOffset.toNat ≤ offset.toNat ∧
      offset.toNat ≤ wal.logMeta.logEndOffset.toNat := by
  unfold InWindow
  rw [UInt64.le_iff_toNat_le, UInt64.le_iff_toNat_le]

/-- **Room.** An offset that the file has room for stays in the window, and its distance to the end
grows by what is appended. -/
theorem InWindow.append {wal wal' : Swal} {log : Obj} {offset : UInt64}
    (hin : InWindow wal offset) (hfits : Fits wal offset log.bytes.length)
    (h : swalStep wal (.append log) = some wal') :
    InWindow wal' offset ∧ (wal'.logMeta.logEndOffset - offset).toNat
      = (wal.logMeta.logEndOffset - offset).toNat + log.bytes.length := by
  obtain ⟨-, hend, hstart, -⟩ := swalStep_append h
  obtain ⟨hwrap, hroom⟩ := hfits
  obtain ⟨hlo, hhi⟩ := inWindow_iff.mp hin
  have hlen : log.bytes.length.toUInt64.toNat = log.bytes.length := length_toNat (by omega)
  have hend' : wal'.logMeta.logEndOffset.toNat
      = wal.logMeta.logEndOffset.toNat + log.bytes.length := by
    rw [hend, toNat_add_of_lt (by rw [hlen]; omega), hlen]
  rw [toNat_sub_of_le hhi] at hroom ⊢
  rw [toNat_sub_of_le (by omega), hend']
  refine ⟨inWindow_iff.mpr ⟨?_, by omega⟩, by omega⟩
  rw [hstart]
  unfold clampStart
  split
  · next hfull =>
    -- the window is full, and the offset is at most the size of the file behind the end
    rw [UInt64.le_iff_toNat_le, toNat_sub_of_le (by omega)] at hfull
    rw [toNat_sub_of_le (by omega)]
    omega
  · exact hlo

/-- Executing a command of the log leaves the data offset in the window. -/
theorem InWindow.add {wal : Swal} {offset : UInt64} {n : ℕ} (hin : InWindow wal offset)
    (hn : n ≤ (wal.logMeta.logEndOffset - offset).toNat) :
    InWindow wal (offset + n.toUInt64) ∧
      (wal.logMeta.logEndOffset - (offset + n.toUInt64)).toNat + n
        = (wal.logMeta.logEndOffset - offset).toNat := by
  obtain ⟨hlo, hhi⟩ := inWindow_iff.mp hin
  have hend := UInt64.toNat_lt wal.logMeta.logEndOffset
  rw [toNat_sub_of_le hhi] at hn ⊢
  have hlt : n < 2 ^ 64 := by omega
  have hlen : n.toUInt64.toNat = n := UInt64.toNat_ofNat_of_lt' hlt
  have hadd : (offset + n.toUInt64).toNat = offset.toNat + n := by
    rw [toNat_add_of_lt (by rw [hlen]; omega), hlen]
  rw [toNat_sub_of_le (by omega), hadd]
  exact ⟨inWindow_iff.mpr ⟨by omega, by omega⟩, by omega⟩

namespace Linked

variable {crc64 : UInt64 → Bytes → UInt64} {behind : Swal → Run → Bytes}

/-! ### The replay -/

/-- The bytes of the runs. -/
def runsLength (runs : List Run) : ℕ := (runs.map fun r => r.len.toNat).sum

/-- The bytes that a replay has still to read. -/
def left (r : Replaying) : ℕ :=
  match r.runs with
  | [] => 0
  | run :: runs => run.len.toNat - r.pos + runsLength runs

@[simp] theorem left_zero (runs : List Run) : left ⟨runs, 0⟩ = runsLength runs := by
  cases runs <;> rfl

theorem wrapRuns_length {region : Region} {size startPos total : UInt64} :
    runsLength (wrapRuns region size startPos total) = total.toNat := by
  unfold wrapRuns
  split
  · rfl
  · next hlt =>
    have hlt' : (size - startPos).toNat < total.toNat := by
      rwa [UInt64.le_iff_toNat_le, Nat.not_le] at hlt
    have hrest : startPos + total - size = total - (size - startPos) := by grind
    change (size - startPos).toNat + ((startPos + total - size).toNat + 0) = total.toNat
    have hsub : (total - (size - startPos)).toNat = total.toNat - (size - startPos).toNat :=
      toNat_sub_of_le hlt'.le
    rw [hrest, hsub]
    omega

/-- A replay reads at most what lies behind the offset. -/
theorem swalReplay_left (wal : Swal) (offset : UInt64) :
    left ⟨swalReplay wal offset (-1), 0⟩ ≤ (wal.logMeta.logEndOffset - offset).toNat := by
  have htotal : replayTotal wal offset (-1) = wal.logMeta.logEndOffset - offset := by
    unfold replayTotal
    exact if_neg fun h => absurd h.1 (by decide)
  rw [left_zero]
  unfold swalReplay
  rw [htotal]
  dsimp only
  split
  · unfold replayRing
    dsimp only
    split
    · exact le_refl _
    · exact wrapRuns_length.le
  · unfold replayFile
    dsimp only
    split
    · split
      · exact le_refl _
      · exact wrapRuns_length.le
    · exact Nat.zero_le _

/-- **A replay that goes on.** It comes to its end, or has executed a command of what it has still to
read. -/
theorem Node.advance_left {s t : Node} {runs : List Run} {pos : ℕ}
    (h : s.advance crc64 behind runs pos = some t) :
    t = s.setReplaying none ∨
      ∃ call r, t = (s.replayed crc64 call).setReplaying (some r) ∧
        call.raw.length + left r ≤ left ⟨runs, pos⟩ := by
  induction runs generalizing pos with
  | nil => exact Or.inl (Option.some.inj h).symm
  | cons r rs ih =>
    have hskip : left ⟨rs, 0⟩ ≤ left ⟨r :: rs, pos⟩ := by
      rw [left_zero]
      exact Nat.le_add_left _ _
    have hnext (h : s.advance crc64 behind rs 0 = some t) : t = s.setReplaying none ∨
        ∃ call r', t = (s.replayed crc64 call).setReplaying (some r') ∧
          call.raw.length + left r' ≤ left ⟨r :: rs, pos⟩ := by
      rcases ih h with hend | ⟨call, r', ht, hle⟩
      · exact Or.inl hend
      · exact Or.inr ⟨call, r', ht, hle.trans hskip⟩
    rw [Node.advance] at h
    split at h
    swap
    · exact hnext h
    split at h
    · exact hnext h
    · cases h
    next hcond _ msg b hdec =>
    cases h
    refine Or.inr ⟨_, _, rfl, ?_⟩
    obtain ⟨hahead, hoff, hlen⟩ := decode_ahead hdec
    have hraw : (msg.rawMsg.bytes b.mem).length ≤ msg.rawMsg.len := List.length_take_le _ _
    have hw : b.writeIdx = r.len.toNat := by
      rw [hahead.writeIdx]
      exact Nat.zero_add _
    have hin := hahead.inside
    change pos ≤ msg.rawMsg.off at hoff
    change (msg.rawMsg.bytes b.mem).length + (r.len.toNat - b.readIdx + runsLength rs)
      ≤ r.len.toNat - pos + runsLength rs
    omega

/-- **What a step executes** behind the `n` bytes that it has appended, if any. Nothing; or just these
bytes, when they end the log; or a command of what a replay has still to read, the one under way or one that
starts at the data offset. -/
inductive Executes (s t : Node) (n : Option ℕ) : Prop
  | nothing (called : t.repl.called = s.repl.called)
      (offset : t.repl.replMeta.dataOffset = s.repl.replMeta.dataOffset)
      (replaying : t.replaying = none ∨ t.replaying = s.replaying)
  | direct (call : Call) (length : n = some call.raw.length)
      (called : t.repl.called = s.repl.called ++ [call])
      (offset : t.repl.replMeta.dataOffset
        = s.repl.replMeta.dataOffset + call.raw.length.toUInt64)
      (ends : t.repl.replMeta.dataOffset = s.repl.wal.logMeta.logEndOffset)
      (replaying : t.replaying = s.replaying)
  | replay (call : Call) (r : Replaying) (called : t.repl.called = s.repl.called ++ [call])
      (offset : t.repl.replMeta.dataOffset
        = s.repl.replMeta.dataOffset + call.raw.length.toUInt64)
      (replaying : t.replaying = some r)
      (reads : call.raw.length + left r
          ≤ (s.repl.wal.logMeta.logEndOffset - s.repl.replMeta.dataOffset).toNat ∨
        ∃ r₀, s.replaying = some r₀ ∧ call.raw.length + left r ≤ left r₀)

/-- What a step that runs a replay leaves as it is. -/
structure Keeps (s t : Node) : Prop where
  wal : t.repl.wal = s.repl.wal
  state : t.state = s.state
  link : t.link = s.link
  cached : t.cachedOffset = s.cachedOffset

theorem Node.advance_executes {s t : Node} {runs : List Run} {pos : ℕ} {n : Option ℕ}
    (h : s.advance crc64 behind runs pos = some t)
    (hleft : left ⟨runs, pos⟩
        ≤ (s.repl.wal.logMeta.logEndOffset - s.repl.replMeta.dataOffset).toNat ∨
      s.replaying = some ⟨runs, pos⟩) : Keeps s t ∧ Executes s t n := by
  rcases advance_left h with rfl | ⟨call, r, rfl, hle⟩
  · exact ⟨⟨rfl, rfl, rfl, rfl⟩, .nothing rfl rfl (Or.inl rfl)⟩
  · refine ⟨⟨rfl, rfl, rfl, rfl⟩, .replay call r rfl rfl rfl ?_⟩
    rcases hleft with hlt | hr
    · exact Or.inl (hle.trans hlt)
    · exact Or.inr ⟨_, hr, hle⟩

theorem Node.replayWAL_executes {s t : Node} {n : Option ℕ} (h : s.replayWAL crc64 behind = some t) :
    Keeps s t ∧ Executes s t n := by
  unfold Node.replayWAL at h
  split at h
  · exact advance_executes h (Or.inl (swalReplay_left _ _))
  · cases h
    exact ⟨⟨rfl, rfl, rfl, rfl⟩, .nothing rfl rfl (Or.inr rfl)⟩

/-- `ReplayWAL` returns at once. -/
theorem Node.replayWAL_idle {s : Node} (hs : s.state ≠ .synced) :
    s.replayWAL crc64 behind = some s :=
  if_neg fun h => hs h.1

/-! ### The steps -/

/-- How much a step appends to the log: a command that the decoder hands on, or one of its own. -/
def appended (s : Node) : Act → Option ℕ
  | .deliver =>
    match s.link with
    | none => none
    | some link =>
      if s.DecodesCommands then
        match decode (.wrap link.held 0 link.held.length) with
        | .frame msg b => some (msg.rawMsg.bytes b.mem).length
        | _ => none
      else none
  | .log call _ => some call.raw.length
  | _ => none

/-- `n` bytes are appended to the log, or none. -/
structure Appends (s t : Node) (n : Option ℕ) : Prop where
  wal : match n with
    | none => t.repl.wal = s.repl.wal
    | some n => ∃ log : Obj, log.bytes.length = n ∧
        swalStep s.repl.wal (.append log) = some t.repl.wal
  called : t.repl.called = s.repl.called
  offset : t.repl.replMeta.dataOffset = s.repl.replMeta.dataOffset
  state : t.state = s.state
  replaying : t.replaying = s.replaying
  cached : t.cachedOffset = s.cachedOffset

/-- What a step does: something is appended, and then something is executed. -/
def Follows (s t : Node) (n : Option ℕ) : Prop :=
  ∃ mid : Node, Appends s mid n ∧ Executes mid t n ∧ t.repl.wal = mid.repl.wal ∧
    t.cachedOffset = mid.cachedOffset

theorem Node.append_appends {s t : Node} {call : Call} {executed : Bool}
    (h : s.append call executed = some t) : Appends s t (some call.raw.length) := by
  obtain ⟨hlen, wal, hwal, rfl⟩ := Node.append_spec h
  exact ⟨⟨⟨call.raw, hlen⟩, rfl, hwal⟩, rfl, rfl, rfl, rfl, rfl⟩

theorem Appends.refl (s : Node) : Appends s s none := ⟨rfl, rfl, rfl, rfl, rfl, rfl⟩

theorem Appends.follows {s t : Node} {n : Option ℕ} (h : Appends s t n) : Follows s t n :=
  ⟨t, h, .nothing rfl rfl (Or.inr rfl), rfl, rfl⟩

/-- What is done with a command of the link. -/
theorem Node.handleRedisCommand_follows {s t : Node} {call : Call}
    (h : s.handleRedisCommand crc64 behind call = some t) :
    Follows s t (some call.raw.length) ∧ t.state = s.state ∧ t.link = s.link ∧
      (s.state ≠ .synced → Appends s t (some call.raw.length)) := by
  obtain ⟨mid, happ, h⟩ := Option.bind_eq_some_iff.mp h
  have hmid := Node.append_appends happ
  have hlink : mid.link = s.link := by
    obtain ⟨-, wal, -, rfl⟩ := Node.append_spec happ
    rfl
  split at h
  · next hdirect =>
    cases h
    refine ⟨⟨mid, hmid, .direct call rfl rfl rfl hdirect.2 rfl, rfl, rfl⟩, hmid.state, hlink,
      fun hs => ?_⟩
    rw [hmid.state.symm.trans hdirect.1] at hs
    exact absurd rfl hs
  · obtain ⟨hkeeps, hexec⟩ := Node.replayWAL_executes h
    refine ⟨⟨mid, hmid, hexec, hkeeps.wal, hkeeps.cached⟩, hkeeps.state.trans hmid.state,
      hkeeps.link.trans hlink, fun hs => ?_⟩
    rw [Node.replayWAL_idle (by rw [hmid.state]; exact hs)] at h
    cases h
    exact hmid

/-- A step of the link that can also happen in the event loop of `MMKVLoad`. -/
def Act.Nested : Act → Prop
  | .arrive _ | .deliver | .slaveof _ | .log _ _ => True
  | _ => False

/-- A step that `HandleRedisDumpChunk`, the answer to `PSYNC` and a lost connection have no part in. -/
def Act.Plain : Act → Prop
  | .continued | .snapshot _ _ | .loaded | .drop => False
  | _ => True

/-- A replay is under way in a slave that is synced, or that has lost its connection. -/
def Alone (s : Node) : Prop :=
  s.replaying ≠ none → s.state = .synced ∨ s.state = .invalid ∧ s.link = none

theorem Alone.idle {s : Node} (h : Alone s) (hlink : s.link ≠ none) (hs : s.state ≠ .synced) :
    s.replaying = none := by
  by_contra hne
  rcases h hne with hsync | ⟨-, hnone⟩
  · exact hs hsync
  · exact hlink hnone

/-- What comes out of the decoder. -/
theorem Node.deliver_follows {s t : Node} (h : s.step crc64 behind .deliver = some t) :
    Follows s t (appended s .deliver) ∧ t.state = s.state ∧ s.link ≠ none ∧ t.link ≠ none ∧
      (s.state ≠ .synced → Appends s t (appended s .deliver)) := by
  obtain ⟨link, hlink, h⟩ := Option.bind_eq_some_iff.mp h
  obtain ⟨hcmds, h⟩ := Option.ite_none_right_eq_some.mp h
  have hsome : s.link ≠ none := by
    rw [hlink]
    exact Option.some_ne_none link
  unfold Node.deliver at h
  unfold appended
  simp only [hlink, if_pos hcmds]
  cases hdec : decode (.wrap link.held 0 link.held.length) with
  | none err b =>
    rw [hdec] at h
    cases h
    have happ : Appends s { s with link := some { link with held := b.mem.drop b.readIdx } } none :=
      ⟨rfl, rfl, rfl, rfl, rfl, rfl⟩
    exact ⟨happ.follows, rfl, Option.some_ne_none _, Option.some_ne_none _, fun _ => happ⟩
  | fault => simp [hdec] at h
  | frame msg b =>
    rw [hdec] at h
    obtain ⟨⟨mid, happ, hrest⟩, hstate, hlink', hunsynced⟩ := Node.handleRedisCommand_follows h
    refine ⟨⟨mid, ⟨happ.wal, happ.called, happ.offset, happ.state, happ.replaying, happ.cached⟩,
      hrest⟩, hstate, Option.some_ne_none _, ?_, fun hs => ?_⟩
    · rw [hlink']
      exact Option.some_ne_none _
    · have happ' := hunsynced hs
      exact ⟨happ'.wal, happ'.called, happ'.offset, happ'.state, happ'.replaying, happ'.cached⟩

/-- **Nested steps.** While the slave is not synced, a step of the event loop only appends. -/
theorem Node.step_nested {s t : Node} {a : Act} (ha : a.Nested) (hs : s.state ≠ .synced)
    (h : s.step crc64 behind a = some t) : Appends s t (appended s a) := by
  cases a with
  | arrive chunk =>
    obtain ⟨link, hlink, h⟩ := Option.bind_eq_some_iff.mp h
    obtain ⟨-, h⟩ := Option.ite_none_right_eq_some.mp h
    cases h
    exact ⟨rfl, rfl, rfl, rfl, rfl, rfl⟩
  | deliver => exact (Node.deliver_follows h).2.2.2.2 hs
  | slaveof master =>
    cases h
    exact ⟨rfl, rfl, rfl, rfl, rfl, rfl⟩
  | log call executed => exact Node.append_appends h
  | _ => exact ha.elim

/-- **The steps.** -/
theorem Node.step_follows {s t : Node} {a : Act} (ha : a.Plain) (halone : Alone s)
    (h : s.step crc64 behind a = some t) : Follows s t (appended s a) ∧ Alone t := by
  cases a with
  | arrive chunk =>
    obtain ⟨link, hlink, h⟩ := Option.bind_eq_some_iff.mp h
    obtain ⟨-, h⟩ := Option.ite_none_right_eq_some.mp h
    cases h
    -- what arrives is not in the log
    refine ⟨Appends.follows ⟨rfl, rfl, rfl, rfl, rfl, rfl⟩, fun hne => ?_⟩
    rcases halone hne with hsync | ⟨-, hnone⟩
    · exact Or.inl hsync
    · rw [hlink] at hnone
      cases hnone
  | deliver =>
    obtain ⟨hfollows, hstate, hlink, -, hunsynced⟩ := Node.deliver_follows h
    refine ⟨hfollows, fun hne => ?_⟩
    by_cases hs : s.state = .synced
    · exact Or.inl (hstate.trans hs)
    · -- nothing is replayed by a slave that is not synced
      rw [(hunsynced hs).replaying] at hne
      exact absurd (halone.idle hlink hs) hne
  | resume =>
    obtain ⟨r, hr, h⟩ := Option.bind_eq_some_iff.mp h
    -- the replay goes on by what it executes
    obtain ⟨hkeeps, hexec⟩ := Node.advance_executes h (Or.inr hr)
    refine ⟨⟨s, .refl s, hexec, hkeeps.wal, hkeeps.cached⟩,
      fun _ => ?_⟩
    rw [hkeeps.state, hkeeps.link]
    exact halone (by rw [hr]; exact Option.some_ne_none r)
  | routine =>
    obtain ⟨⟨-, hidle⟩, h⟩ := Option.ite_none_right_eq_some.mp h
    obtain ⟨hkeeps, hexec⟩ := Node.replayWAL_executes h
    refine ⟨⟨s, .refl s, hexec, hkeeps.wal, hkeeps.cached⟩,
      fun hne => ?_⟩
    -- a replay begins, if the slave is synced
    by_cases hs : s.state = .synced
    · exact Or.inl (hkeeps.state.trans hs)
    · rw [Node.replayWAL_idle hs] at h
      cases h
      exact absurd hidle hne
  | connect =>
    obtain ⟨⟨-, hidle, -⟩, h⟩ := Option.ite_none_right_eq_some.mp h
    cases h
    -- a slave that connects was replaying nothing
    exact ⟨⟨s, .refl s, .nothing rfl rfl (Or.inr rfl), rfl, rfl⟩,
      fun hne => absurd hidle hne⟩
  | handshake state =>
    obtain ⟨⟨hlink, hcmds, -, -⟩, h⟩ := Option.ite_none_right_eq_some.mp h
    cases h
    exact ⟨⟨s, .refl s, .nothing rfl rfl (Or.inr rfl), rfl, rfl⟩,
      fun hne => absurd (halone.idle hlink fun hs => hcmds (Or.inl hs)) hne⟩
  | slaveof master =>
    cases h
    refine ⟨Appends.follows ⟨rfl, rfl, rfl, rfl, rfl, rfl⟩, fun hne => ?_⟩
    -- the replay goes on under the new master
    rcases halone hne with hsync | ⟨hinv, hnone⟩
    · exact Or.inl hsync
    · exact Or.inr ⟨hinv, by simp [Node.slaveof, hnone]⟩
  | log call executed =>
    refine ⟨(Node.append_appends h).follows, fun hne => ?_⟩
    obtain ⟨-, wal, -, rfl⟩ := Node.append_spec h
    exact halone hne
  | _ => exact ha.elim

/-- What a step executes, it executes in order, and the data offset moves by it. -/
theorem Follows.calls {s t : Node} {n : Option ℕ} (h : Follows s t n) :
    ∃ calls, t.repl.called = s.repl.called ++ calls ∧
      t.repl.replMeta.dataOffset
        = s.repl.replMeta.dataOffset + (callBytes calls).length.toUInt64 := by
  obtain ⟨mid, happ, hexec, -, -⟩ := h
  rw [← happ.called, ← happ.offset]
  cases hexec with
  | nothing called offset _ => exact ⟨[], by simpa using called, by simpa [callBytes] using offset⟩
  | direct call _ called offset _ _ => exact ⟨[call], called, by simpa [callBytes] using offset⟩
  | replay call _ called offset _ _ => exact ⟨[call], called, by simpa [callBytes] using offset⟩

theorem Follows.cached {s t : Node} {n : Option ℕ} (h : Follows s t n) : t.cachedOffset = s.cachedOffset := by
  obtain ⟨mid, happ, -, -, hcached⟩ := h
  exact hcached.trans happ.cached

/-- The data offset lies in the window, and a replay under way reads no further than the end. -/
structure Within (s : Node) : Prop where
  window : InWindow s.repl.wal s.repl.replMeta.dataOffset
  replay : ∀ r, s.replaying = some r →
    left r ≤ (s.repl.wal.logMeta.logEndOffset - s.repl.replMeta.dataOffset).toNat

theorem Appends.window {s t : Node} {n : Option ℕ} {offset : UInt64} (h : Appends s t n)
    (hin : InWindow s.repl.wal offset) (hfits : ∀ k ∈ n, Fits s.repl.wal offset k) :
    InWindow t.repl.wal offset ∧ (t.repl.wal.logMeta.logEndOffset - offset).toNat
      = (s.repl.wal.logMeta.logEndOffset - offset).toNat + n.getD 0 := by
  cases n with
  | none =>
    rw [show t.repl.wal = s.repl.wal from h.wal]
    exact ⟨hin, rfl⟩
  | some k =>
    obtain ⟨log, rfl, happend⟩ := h.wal
    exact hin.append (hfits _ rfl) happend

/-- **The window.** A step that the file has room for leaves the data offset in the window. -/
theorem Within.follows {s t : Node} {n : Option ℕ} (h : Within s) (hf : Follows s t n)
    (hfits : ∀ k ∈ n, Fits s.repl.wal s.repl.replMeta.dataOffset k) : Within t := by
  obtain ⟨mid, happ, hexec, hwal, -⟩ := hf
  obtain ⟨hin, hlag⟩ := happ.window h.window hfits
  rw [← happ.offset] at hin hlag
  cases hexec with
  | nothing _ offset replaying =>
    refine ⟨by rw [hwal, offset]; exact hin, fun r hr => ?_⟩
    rw [hwal, offset, hlag, happ.offset]
    rcases replaying with hnone | hsame
    · rw [hnone] at hr
      cases hr
    · have hr₀ := h.replay r (happ.replaying.symm.trans (hsame.symm.trans hr))
      exact hr₀.trans (Nat.le_add_right _ _)
  | direct call length _ offset ends replaying =>
    -- the command ends the log, so nothing was left in front of it
    have hall : mid.repl.wal.logMeta.logEndOffset - mid.repl.replMeta.dataOffset
        = call.raw.length.toUInt64 := by
      rw [← ends, offset]
      grind
    have hlt : call.raw.length < 2 ^ 64 := by
      have hwrap := (hfits _ length).1
      omega
    rw [length, hall, length_toNat hlt] at hlag
    obtain ⟨hin', -⟩ := hin.add (n := call.raw.length) (by rw [hall, length_toNat hlt])
    refine ⟨by rw [hwal, offset]; exact hin', fun r hr => ?_⟩
    have hr₀ := h.replay r (happ.replaying.symm.trans (replaying.symm.trans hr))
    rw [happ.offset, Option.getD_some] at hlag
    omega
  | replay call r _ offset replaying reads =>
    have hle : call.raw.length + left r
        ≤ (mid.repl.wal.logMeta.logEndOffset - mid.repl.replMeta.dataOffset).toNat := by
      rcases reads with hle | ⟨r₀, hr₀, hle⟩
      · exact hle
      · have hr₁ := h.replay r₀ (happ.replaying.symm.trans hr₀)
        rw [happ.offset] at hlag ⊢
        omega
    obtain ⟨hin', hlag'⟩ := hin.add ((Nat.le_add_right _ _).trans hle)
    refine ⟨by rw [hwal, offset]; exact hin', fun r' hr' => ?_⟩
    obtain rfl := Option.some.inj (replaying.symm.trans hr')
    rw [hwal, offset]
    omega

end Linked
end Comms
