import Comms.Channel.WritePath

/-!
# Sending what is left

What `WriteNow` and `SendFile` leave to later: a writable event or the flush timer has to come for
it, and a deferred `Close` has to wait for it.

* `Loop.always_armed_iff` — when something is waiting for whatever is left, in every state of a run;
* `Loop.run_closed` — a channel that closes without an error has sent everything;
* `Loop.run_drained` — so many writable events, and everything is sent.
-/

namespace Comms
namespace Channel

namespace Sender

variable {s t : Sender} {k k' : Outcome} {buffer : Message} {file : SendFileSetting}

/-! ### Who sends what is left -/

/-- What is in the buffer waits for a writable event or for the flush timer, and a file for a
writable event. -/
structure Armed (s : Sender) : Prop where
  buffer : s.isOpen = true → s.outputBuffer ≠ [] → s.writing = true ∨ s.flushTimer = true
  file : s.isOpen = true → s.fileSending ≠ none → s.writing = true

theorem armed_of_closed (h : s.isOpen = false) : s.Armed where
  buffer hopen := absurd hopen (by simp [h])
  file hopen := absurd hopen (by simp [h])

theorem armed_of_writing (h : s.isOpen = true → s.writing = true) : s.Armed where
  buffer hopen _ := .inl (h hopen)
  file hopen _ := h hopen

theorem armed_enableWriting (s : Sender) : s.enableWriting.Armed := by
  unfold enableWriting
  cases hopen : s.isOpen
  · exact armed_of_closed hopen
  · exact armed_of_writing fun _ => rfl

theorem armed_close (s : Sender) : s.close.Armed := by
  rcases close_cases s with ⟨-, -, heq⟩ | ⟨-, heq⟩
  · exact heq ▸ armed_of_writing fun _ => rfl
  · exact heq ▸ armed_of_closed rfl

theorem armed_acceptFile (file : SendFileSetting) (s : Sender) : (s.acceptFile file).Armed := by
  rw [acceptFile_eq]
  exact armed_of_writing fun hopen => by simp [show s.isOpen = true from hopen]

theorem Armed.takeBuffer (h : s.Armed) (n : ℕ) : (s.takeBuffer n).Armed where
  buffer hopen hout := h.buffer hopen fun hnil => hout (by simp [Sender.takeBuffer, hnil])
  file := h.file

theorem Armed.doFlush (h : s.Armed) (k : Outcome) : (s.doFlush k).1.Armed := by
  rcases doFlush_cases k s with ⟨b, heq, -⟩ | ⟨-, -, heq⟩ | ⟨n, -, -, -, -, heq⟩
  · rw [heq]
    exact h
  · rw [heq]
    exact armed_of_closed rfl
  · rw [heq]
    exact h.takeBuffer n

theorem Armed.flush (h : s.Armed) (k : Outcome) : (s.flush k).1.Armed := by
  unfold Sender.flush
  split_ifs
  · exact h
  · exact h.doFlush k

theorem Armed.accept (h : s.Armed) (buffer : Message) (k : Outcome) :
    (s.accept buffer k).Armed := by
  rcases accept_cases buffer k s with heq | ⟨hfile, hcase⟩
  · rw [heq]
    exact h
  rcases hcase with heq | ⟨-, heq⟩ | ⟨n, w, f, -, hwaits, heq⟩ | ⟨w, f, -, -, heq⟩
  · rw [heq]
    exact h
  · rw [heq]
    exact armed_of_closed rfl
  · rw [heq]
    exact ⟨fun hopen => hwaits hopen (h.buffer hopen), fun _ hne => absurd hfile hne⟩
  · rw [heq]
    exact armed_of_closed rfl

/-- A file that is written from keeps its writable events. -/
theorem armed_sendRange (hw : s.writing = true) (k : Outcome)
    (file : SendFileSetting) : (s.sendRange k file).1.Armed := by
  have hsent (t : Sender) (ht : t.writing = true) (file : SendFileSetting) :
      (t.fileSent file).1.Armed := by
    rcases fileSent_cases file t with heq | ⟨-, heq⟩ <;>
      exact heq ▸ armed_of_writing fun _ => ht
  cases k with
  | took n => exact hsent { s with ledger := s.ledger.takeOut (file.rest.take n) } hw _
  | again => exact hsent s hw file
  | interrupted => exact armed_close s
  | error => exact armed_close s

theorem Armed.onWrite (h : s.Armed) (hopen : s.isOpen = true) (k k' : Outcome) :
    (s.onWrite k k').1.Armed := by
  rcases onWrite_cases k k' s with ⟨heq, -⟩ | ⟨heq, -⟩ | ⟨file, hout, -, -, heq⟩
  · exact heq ▸ armed_close _
  · exact heq ▸ h.doFlush k
  · rw [heq]
    have hopen' : (s.doFlush k).1.isOpen = true := (isOpen_of_doFlush hout).trans hopen
    have hwriting : (s.doFlush k).1.enableWriting = { (s.doFlush k).1 with writing := true } :=
      if_pos hopen'
    rw [hwriting]
    exact @armed_sendRange { (s.doFlush k).1 with writing := true } rfl k' file

/-- An event ends: a file that a handler announced loses its writable events again, if there is
nothing in the buffer. -/
theorem armed_onWritten_iff (h : s.Armed) : s.onWritten.Armed ↔
    (s.isOpen = true → s.outputBuffer = [] → s.options.autoDisableWriting = true →
      s.fileSending = none) := by
  unfold onWritten
  by_cases hoff : s.outputBuffer = [] ∧ s.options.autoDisableWriting = true
  · rw [if_pos hoff]
    constructor
    · intro harmed hopen _ _
      by_contra hfile
      exact absurd (harmed.file hopen hfile) (by simp [disableWriting])
    · exact fun hfile => ⟨fun _ hout => absurd hoff.1 hout,
        fun hopen hne => absurd (hfile hopen hoff.1 hoff.2) hne⟩
  · rw [if_neg hoff]
    exact iff_of_true h fun _ hout hauto => absurd ⟨hout, hauto⟩ hoff

theorem armed_disableWriting_iff : s.disableWriting.Armed ↔
    (s.isOpen = true →
      (s.outputBuffer ≠ [] → s.flushTimer = true) ∧ s.fileSending = none) := by
  constructor
  · intro h hopen
    refine ⟨fun hout => (h.buffer hopen hout).resolve_left (by simp [disableWriting]), ?_⟩
    by_contra hfile
    exact absurd (h.file hopen hfile) (by simp [disableWriting])
  · exact fun h => ⟨fun hopen hout => .inr ((h hopen).1 hout),
      fun hopen hne => absurd (h hopen).2 hne⟩

/-- The timer has gone off: without writable events, it has to send all of the buffer. -/
theorem armed_run_iff (h : s.Armed) (k : Outcome) : (s.run k).Armed ↔
    (s.isOpen = true → s.writing = true ∨ s.outputBuffer = [] ∨ s.Fatal k ∨
      ∃ n, k = .took n ∧ s.outputBuffer.length ≤ n) := by
  have hrun : s.run k = (flush k { s with flushTimer := false }).1 := rfl
  rcases flush_cases k { s with flushTimer := false } with
    ⟨b, heq, hwhy⟩ | ⟨hw, hout, hk, heq⟩ | ⟨n, hw, hout, hopen, hn, hk, heq⟩
  · -- nothing is sent: the writable events have to do it
    rw [hrun, heq]
    constructor
    · intro harmed hopen
      rcases hwhy with hw | hout | ⟨hk, hzero⟩
      · exact .inl hw
      · exact .inr (.inl hout)
      · by_cases hout : s.outputBuffer = []
        · exact .inr (.inl hout)
        · exact .inl ((harmed.buffer hopen hout).resolve_right (by simp))
    · intro hwaits
      refine ⟨fun hopen hout => ?_, h.file⟩
      rcases hwhy with hw | hnil | ⟨hk, hzero⟩
      · exact .inl hw
      · exact absurd hnil hout
      · rcases hwaits hopen with hw | hnil | hfatal | ⟨n, rfl, hle⟩
        · exact .inl hw
        · exact absurd hnil hout
        · exact absurd hfatal hk
        · rw [hzero n rfl] at hle
          exact absurd (List.length_eq_zero_iff.mp (Nat.le_zero.mp hle)) hout
  · -- the channel is closed, and nothing has to wait
    rw [hrun, heq]
    exact iff_of_true (armed_of_closed rfl) fun hopen => .inr (.inr (.inl (hk hopen)))
  · -- the kernel takes `n` bytes; no event is left for what it does not take
    rw [hrun, heq]
    have hfile : s.fileSending = none := by
      by_contra hne
      exact absurd (h.file hopen hne) (by simpa using hw)
    constructor
    · intro harmed _
      by_contra! hnot
      have hleft : s.outputBuffer.drop n ≠ [] := fun hnil =>
        absurd (List.drop_eq_nil_iff.mp hnil) (not_le.mpr (hnot.2.2.2 n hk))
      exact absurd ((harmed.buffer hopen hleft).resolve_right (by simp [takeBuffer]))
        (by simpa [takeBuffer] using hw)
    · intro hwaits
      refine ⟨fun _ hleft => ?_, fun _ hne => absurd hfile hne⟩
      rcases hwaits hopen with hw' | hnil | hfatal | ⟨m, hm, hle⟩
      · exact .inl hw'
      · exact absurd hnil hout
      · rcases hfatal with rfl | ⟨rfl, -⟩
        · cases hk
        · exact absurd (Outcome.took.inj hk) hn.ne
      · obtain rfl := Outcome.took.inj (hm.symm.trans hk)
        exact absurd (List.drop_of_length_le hle) hleft

/-! ### A channel that closes -/

/-- A closed channel has sent everything. -/
def Spent (s : Sender) : Prop := s.isOpen = false → s.ledger.Holds []

theorem spent_of_open (h : s.isOpen = true) : s.Spent := fun hclosed => by simp [h] at hclosed

/-- The channel is closed when nothing is left, or once more. -/
theorem Spent.doClose (h : s.Spent) (hs : s.Stream)
    (hnil : s.isOpen = true → s.outputBuffer = [] ∧ s.fileRest = []) : s.doClose.Spent := by
  intro _
  cases hopen : s.isOpen
  · exact h hopen
  · have hleft := hs.left hopen
    rwa [(hnil hopen).1, (hnil hopen).2, List.append_nil] at hleft

theorem Spent.enableWriting (h : s.Spent) : s.enableWriting.Spent := by
  unfold Sender.enableWriting
  split_ifs <;> exact h

theorem Spent.onWritten (h : s.Spent) : s.onWritten.Spent := by
  unfold Sender.onWritten
  split_ifs <;> exact h

theorem Spent.close (h : s.Spent) (hs : s.Stream)
    (hfile : s.outputBuffer = [] → s.fileRest = []) : s.close.Spent := by
  rcases close_cases s with ⟨-, hopen, heq⟩ | ⟨hwhy, heq⟩
  · exact heq ▸ spent_of_open hopen
  · refine heq ▸ h.doClose hs fun hopen => ?_
    have hout := hwhy.resolve_right (by simp [hopen])
    exact ⟨hout, hfile hout⟩

theorem Spent.doFlush (h : s.Spent) (hk : s.isOpen = true → ¬ s.Fatal k) :
    (s.doFlush k).1.Spent := by
  rcases doFlush_cases k s with ⟨b, heq, -⟩ | ⟨-, hfatal, heq⟩ | ⟨n, -, hopen, -, -, heq⟩
  · rw [heq]
    exact h
  · rw [heq]
    cases hopen : s.isOpen
    · exact fun _ => h hopen
    · exact absurd (hfatal hopen) (hk hopen)
  · rw [heq]
    exact spent_of_open hopen

theorem Spent.flush (h : s.Spent) (hk : s.isOpen = true → ¬ s.Fatal k) : (s.flush k).1.Spent := by
  unfold Sender.flush
  split_ifs
  · exact h
  · exact h.doFlush hk

theorem Spent.accept (h : s.Spent) (hs : s.Stream) (hopen : s.isOpen = true) (hk : ¬ s.Fatal k)
    (buffer : Message) : (s.accept buffer k).Spent := by
  rcases accept_cases buffer k s with heq | ⟨hfile, hcase⟩
  · rw [heq]
    exact h
  rcases hcase with heq | ⟨hout, heq⟩ | ⟨n, w, f, -, -, heq⟩ | ⟨w, f, -, hfatal, -⟩
  · rw [heq]
    exact h
  · exact heq ▸ h.doClose hs fun _ => ⟨hout, by simp [fileRest, hfile]⟩
  · exact heq ▸ spent_of_open hopen
  · exact absurd (hfatal hopen) hk

theorem isOpen_enableWriting (s : Sender) : s.enableWriting.isOpen = s.isOpen := by
  unfold enableWriting
  split_ifs <;> rfl

/-- A flush that is not fatal leaves an open channel open, and its file alone. -/
theorem doFlush_open (hopen : s.isOpen = true) (hk : ¬ s.Fatal k) :
    (s.doFlush k).1.isOpen = true ∧ (s.doFlush k).1.fileSending = s.fileSending ∧
      (s.doFlush k).1.closeAfterWrite = s.closeAfterWrite := by
  rcases doFlush_cases k s with ⟨b, heq, -⟩ | ⟨-, hfatal, heq⟩ | ⟨n, -, -, -, -, heq⟩
  · exact heq ▸ ⟨hopen, rfl, rfl⟩
  · exact absurd (hfatal hopen) hk
  · exact heq ▸ ⟨hopen, rfl, rfl⟩

theorem sendRange_isOpen (h : k = .again ∨ ∃ n, k = .took n) (file : SendFileSetting) (s : Sender) :
    (s.sendRange k file).1.isOpen = s.isOpen := by
  have hsent (t : Sender) (file : SendFileSetting) : (t.fileSent file).1.isOpen = t.isOpen := by
    rcases fileSent_cases file t with heq | ⟨-, heq⟩ <;> rw [heq]
  rcases h with rfl | ⟨n, rfl⟩
  · exact hsent s file
  · exact hsent _ _

theorem Spent.onWrite (h : s.Spent) (hs : s.Stream) (hopen : s.isOpen = true) (hk : ¬ s.Fatal k)
    (hfile : s.fileSending ≠ none → k' = .again ∨ ∃ n, k' = .took n)
    (hclose : s.closeAfterWrite = true → s.fileRest = []) : (s.onWrite k k').1.Spent := by
  obtain ⟨hopen', hsame, hdefer⟩ := doFlush_open hopen hk
  have hflush := h.doFlush fun _ => hk
  rcases onWrite_cases k k' s with ⟨heq, hnow⟩ | ⟨heq, -⟩ | ⟨file, -, -, hsome, heq⟩
  · refine heq ▸ hflush.close (hs.doFlush k) fun _ => ?_
    rw [fileRest, hsame]
    exact hclose (hdefer ▸ hnow)
  · exact heq ▸ hflush
  · rw [heq]
    have hk' := hfile (by rw [← hsame, hsome]; simp)
    have henabled : (s.doFlush k).1.enableWriting.isOpen = true :=
      (isOpen_enableWriting _).trans hopen'
    exact spent_of_open ((sendRange_isOpen hk' file _).trans henabled)

/-! ### How much is left -/

/-- What is left in the buffer and of the file. -/
def pending (s : Sender) : ℕ := s.outputBuffer.length + s.fileRest.length

theorem pending_doFlush_le (k : Outcome) (s : Sender) : (s.doFlush k).1.pending ≤ s.pending := by
  rcases doFlush_cases k s with ⟨b, heq, -⟩ | ⟨-, -, heq⟩ | ⟨n, -, -, -, -, heq⟩
  · rw [heq]
  · rw [heq]
    exact Nat.add_le_add_left (Nat.zero_le _) _
  · rw [heq]
    have hle : (s.outputBuffer.drop n).length ≤ s.outputBuffer.length := by simp
    exact Nat.add_le_add_right hle _

theorem pending_flush_le (k : Outcome) (s : Sender) : (s.flush k).1.pending ≤ s.pending := by
  unfold flush
  split_ifs
  · exact le_rfl
  · exact pending_doFlush_le k s

theorem pending_close_le (s : Sender) : s.close.pending ≤ s.pending := by
  rcases close_cases s with ⟨-, -, heq⟩ | ⟨-, heq⟩
  · exact heq ▸ le_rfl
  · exact heq ▸ Nat.add_le_add_left (Nat.zero_le _) _

/-- The file gets shorter when the kernel takes something of it. -/
theorem pending_sendRange_le {n : ℕ} (hn : 0 < n) (file : SendFileSetting) (s : Sender) :
    (s.sendRange (.took n) file).1.pending ≤ s.outputBuffer.length + (file.rest.length - 1) := by
  have hsent (t : Sender) (file : SendFileSetting) :
      (t.fileSent file).1.pending ≤ t.outputBuffer.length + file.rest.length := by
    rcases fileSent_cases file t with heq | ⟨-, heq⟩
    · exact heq ▸ le_rfl
    · exact heq ▸ Nat.add_le_add_left (Nat.zero_le _) _
  refine (hsent _ _).trans (Nat.add_le_add_left ?_ _)
  rw [List.length_drop]
  omega

/-- **A writable event makes progress**, if the kernel takes something of whatever it is given. -/
theorem pending_onWrite_le {n m : ℕ} (hopen : s.isOpen = true) (hn : 0 < n) (hm : 0 < m) :
    (s.onWrite (.took n) (.took m)).1.pending ≤ s.pending - 1 := by
  by_cases hout : s.outputBuffer = []
  · -- the buffer is empty: the file is next, if there is one
    have hflush : s.doFlush (.took n) = (s, true) := if_pos hout
    rcases onWrite_cases (.took n) (.took m) s with
      ⟨heq, -⟩ | ⟨heq, hwhy⟩ | ⟨file, -, -, hfile, heq⟩
    · rw [heq, hflush]
      rcases close_cases s with ⟨hne, -⟩ | ⟨-, hclose⟩
      · exact absurd hout hne
      · simp [hclose, Sender.doClose, pending, fileRest, hout]
    · rw [hflush] at hwhy heq
      have hnone : s.fileSending = none := by simpa [hout] using hwhy
      simp [heq, pending, fileRest, hout, hnone]
    · rw [hflush] at hfile heq
      rw [heq]
      refine (pending_sendRange_le hm file _).trans ?_
      have hkeep : s.enableWriting.outputBuffer = [] := by
        rw [enableWriting, if_pos hopen]
        exact hout
      have hrest : s.fileRest = file.rest := fileRest_of_some hfile
      simp [hkeep, pending, hout, hrest]
  · -- the kernel takes something of the buffer
    have hpos : 0 < s.outputBuffer.length := List.length_pos_iff.mpr hout
    have htook : s.doFlush (.took n) = (s.takeBuffer n, true) := by
      rcases doFlush_cases (.took n) s with ⟨b, -, hwhy⟩ | ⟨-, hfatal, -⟩ | ⟨j, -, -, -, hj, heq⟩
      · exact absurd ((hwhy.resolve_left hout).2 n rfl) hn.ne'
      · rcases hfatal hopen with hk | ⟨hk, -⟩
        · cases hk
        · exact absurd (Outcome.took.inj hk) hn.ne'
      · obtain rfl := Outcome.took.inj hj
        exact heq
    have hless : (s.takeBuffer n).pending ≤ s.pending - 1 := by
      have hlen : (s.takeBuffer n).outputBuffer.length = s.outputBuffer.length - n :=
        List.length_drop
      have hrest : (s.takeBuffer n).fileRest = s.fileRest := rfl
      rw [pending, pending, hlen, hrest]
      omega
    refine le_trans ?_ hless
    rcases onWrite_cases (.took n) (.took m) s with ⟨heq, -⟩ | ⟨heq, -⟩ | ⟨file, -, -, hfile, heq⟩
    · rw [heq, htook]
      exact pending_close_le _
    · rw [heq, htook]
    · rw [htook] at heq hfile
      rw [heq]
      refine (pending_sendRange_le hm file _).trans ?_
      have hkeep : (s.takeBuffer n).enableWriting.outputBuffer = (s.takeBuffer n).outputBuffer := by
        unfold enableWriting
        split_ifs <;> rfl
      have hrest : (s.takeBuffer n).fileRest = file.rest := fileRest_of_some hfile
      rw [hkeep, pending, hrest]
      omega

/-! ### Nothing is accepted but by calls -/

theorem put_doFlush (k : Outcome) (s : Sender) : (s.doFlush k).1.ledger.put = s.ledger.put := by
  rcases doFlush_cases k s with ⟨b, heq, -⟩ | ⟨-, -, heq⟩ | ⟨n, -, -, -, -, heq⟩
  · rw [heq]
  · exact congrArg (·.1.ledger.put) heq
  · exact congrArg (·.1.ledger.put) heq

theorem put_flush (k : Outcome) (s : Sender) : (s.flush k).1.ledger.put = s.ledger.put := by
  unfold flush
  split_ifs
  · rfl
  · exact put_doFlush k s

theorem put_close (s : Sender) : s.close.ledger.put = s.ledger.put := by
  rcases close_cases s with ⟨-, -, heq⟩ | ⟨-, heq⟩ <;> exact congrArg (·.ledger.put) heq

theorem put_enableWriting (s : Sender) : s.enableWriting.ledger.put = s.ledger.put := by
  unfold enableWriting
  split_ifs <;> rfl

theorem put_sendRange (k : Outcome) (file : SendFileSetting) (s : Sender) :
    (s.sendRange k file).1.ledger.put = s.ledger.put := by
  have hsent (t : Sender) (file : SendFileSetting) :
      (t.fileSent file).1.ledger.put = t.ledger.put := by
    rcases fileSent_cases file t with heq | ⟨-, heq⟩ <;> rw [heq]
  cases k with
  | took n => exact hsent _ _
  | again => exact hsent s file
  | interrupted => exact put_close s
  | error => exact put_close s

theorem put_onWrite (k k' : Outcome) (s : Sender) :
    (s.onWrite k k').1.ledger.put = s.ledger.put := by
  rcases onWrite_cases k k' s with ⟨heq, -⟩ | ⟨heq, -⟩ | ⟨file, -, -, -, heq⟩
  · rw [heq, put_close, put_doFlush]
  · rw [heq, put_doFlush]
  · rw [heq, put_sendRange, put_enableWriting, put_doFlush]

end Sender

namespace Loop

open Sender

variable {s t : Loop} {a : Act} {as bs : List Act} {options : ChannelOptions} {socket : Bool}

/-! ### Who sends what is left, over a run -/

/-- A step that leaves what is left with an event to wait for: a timer that goes off without
writable events sends all of the buffer, and a handler of a writable event announces no file behind
an empty buffer. -/
def Rearms (s : Loop) : Act → Prop
  | .timer k => s.phase = .idle → s.channel.flushTimer = true → s.channel.isOpen = true →
      s.channel.writing = true ∨ s.channel.outputBuffer = [] ∨ s.channel.Fatal k ∨
        ∃ n, k = .took n ∧ s.channel.outputBuffer.length ≤ n
  | .fired => s.phase = .firing → s.channel.isOpen = true → s.channel.outputBuffer = [] →
      s.channel.options.autoDisableWriting = true → s.channel.fileSending = none
  | .disableWriting => s.channel.isOpen = true →
      (s.channel.outputBuffer ≠ [] → s.channel.flushTimer = true) ∧ s.channel.fileSending = none
  | _ => True

/-- Every other step keeps it. -/
theorem armed_step_iff (h : s.channel.Armed) (a : Act) :
    (∀ t, s.step a = some t → t.channel.Armed) ↔ s.Rearms a := by
  have hsome {u : Loop} {P : Prop} (heq : s.step a = some u) (hiff : u.channel.Armed ↔ P) :
      (∀ t, s.step a = some t → t.channel.Armed) ↔ P := by
    simp [heq, hiff]
  cases a with
  | writeNow buffer k => exact hsome rfl (iff_of_true (h.accept buffer k) trivial)
  | sendFile file => exact hsome rfl (iff_of_true (armed_acceptFile file s.channel) trivial)
  | close => exact hsome rfl (iff_of_true (armed_close s.channel) trivial)
  | flush k => exact hsome rfl (iff_of_true (h.flush k) trivial)
  | enableWriting => exact hsome rfl (iff_of_true (armed_enableWriting s.channel) trivial)
  | disableWriting => exact hsome rfl armed_disableWriting_iff
  | setOptions options => exact hsome rfl (iff_of_true ⟨h.buffer, h.file⟩ trivial)
  | writable k k' =>
    refine iff_of_true (fun t hstep => ?_) trivial
    obtain ⟨⟨-, hopen⟩, heq⟩ := Option.ite_none_right_eq_some.mp hstep
    obtain rfl := Option.some.inj heq
    exact h.onWrite hopen k k'
  | completed =>
    refine iff_of_true (fun t hstep => ?_) trivial
    obtain ⟨-, heq⟩ := Option.ite_none_right_eq_some.mp hstep
    obtain rfl := Option.some.inj heq
    exact h
  | fired =>
    by_cases hphase : s.phase = .firing
    · exact hsome (if_pos hphase) ((armed_onWritten_iff h).trans ⟨fun h _ => h, fun h => h hphase⟩)
    · exact iff_of_true (fun t hstep => absurd (Option.ite_none_right_eq_some.mp hstep).1 hphase)
        fun hfiring => absurd hfiring hphase
  | timer k =>
    by_cases hidle : s.phase = .idle ∧ s.channel.flushTimer = true
    · exact hsome (if_pos hidle)
        ((armed_run_iff h k).trans ⟨fun h _ _ => h, fun h => h hidle.1 hidle.2⟩)
    · exact iff_of_true (fun t hstep => absurd (Option.ite_none_right_eq_some.mp hstep).1 hidle)
        fun hphase htimer => absurd ⟨hphase, htimer⟩ hidle

/-- **Nothing is forgotten.** In every state that a run comes to, what is left of an open channel
waits for an event that sends it, exactly if every step of the run leaves it so. -/
theorem always_armed_iff (options : ChannelOptions) (socket : Bool) (as : List Act) :
    Run.Always step (fun s => s.channel.Armed) (init options socket) as ↔
      Run.Along step Rearms (init options socket) as :=
  Run.always_iff_along (fun _ _ _ _ _ _ => trivial) (fun _ a _ _ h => armed_step_iff h a) trivial
    (Run.along_of_forall fun _ _ => trivial) ⟨fun _ h => absurd rfl h, fun _ h => absurd rfl h⟩

/-- A flush timer that sends a part: two bytes are left, and nothing waits to send them. -/
example : ∃ s, Run.steps step (init ⟨8, -1, true, false⟩ true)
      [.writeNow ⟨[1, 2, 3], by decide⟩ .again, .timer (.took 1)] = some s ∧
      s.channel.isOpen = true ∧ s.channel.outputBuffer = [2, 3] ∧ s.channel.writing = false ∧
      s.channel.flushTimer = false :=
  ⟨_, rfl, rfl, rfl, rfl, rfl⟩

/-! ### Sending everything -/

/-- No error, nothing is announced on a closed channel, and a file is not closed away. -/
def Calm (s : Loop) : Act → Prop
  | .writeNow _ k => s.channel.isOpen = true ∧ ¬ s.channel.Fatal k
  | .sendFile _ => s.channel.isOpen = true ∧ s.channel.fileRest = []
  | .close => s.channel.outputBuffer = [] → s.channel.fileRest = []
  | .flush k | .timer k => ¬ s.channel.Fatal k
  | .writable k k' => ¬ s.channel.Fatal k ∧
      (s.channel.fileSending ≠ none → k' = .again ∨ ∃ n, k' = .took n) ∧
      (s.channel.closeAfterWrite = true → s.channel.fileRest = [])
  | _ => True

theorem Calm.alone (h : s.Calm a) : s.Alone a := by
  cases a with
  | sendFile file => exact h.2
  | _ => trivial

theorem spent_step (h : s.channel.Stream ∧ s.channel.Spent) (hcalm : s.Calm a)
    (hstep : s.step a = some t) : t.channel.Stream ∧ t.channel.Spent := by
  refine ⟨stream_step h.1 hcalm.alone hstep, ?_⟩
  obtain ⟨hstream, hspent⟩ := h
  cases a with
  | writeNow buffer k =>
    obtain rfl := Option.some.inj hstep
    exact hspent.accept hstream hcalm.1 hcalm.2 buffer
  | sendFile file =>
    obtain rfl := Option.some.inj hstep
    refine spent_of_open ?_
    rw [acceptFile_eq]
    exact hcalm.1
  | close =>
    obtain rfl := Option.some.inj hstep
    exact hspent.close hstream hcalm
  | flush k =>
    obtain rfl := Option.some.inj hstep
    exact hspent.flush fun _ => hcalm
  | enableWriting =>
    obtain rfl := Option.some.inj hstep
    exact hspent.enableWriting
  | disableWriting =>
    obtain rfl := Option.some.inj hstep
    exact hspent
  | setOptions options =>
    obtain rfl := Option.some.inj hstep
    exact hspent
  | writable k k' =>
    obtain ⟨⟨-, hopen⟩, heq⟩ := Option.ite_none_right_eq_some.mp hstep
    obtain rfl := Option.some.inj heq
    exact hspent.onWrite hstream hopen hcalm.1 hcalm.2.1 hcalm.2.2
  | completed =>
    obtain ⟨-, heq⟩ := Option.ite_none_right_eq_some.mp hstep
    obtain rfl := Option.some.inj heq
    exact hspent
  | fired =>
    obtain ⟨-, heq⟩ := Option.ite_none_right_eq_some.mp hstep
    obtain rfl := Option.some.inj heq
    exact hspent.onWritten
  | timer k =>
    obtain ⟨-, heq⟩ := Option.ite_none_right_eq_some.mp hstep
    obtain rfl := Option.some.inj heq
    exact @Spent.flush { s.channel with flushTimer := false } k hspent fun _ => hcalm

theorem spent_init (options : ChannelOptions) (socket : Bool) :
    (init options socket).channel.Stream ∧ (init options socket).channel.Spent :=
  ⟨stream_init options socket, spent_of_open rfl⟩

/-- **Closing.** A channel that is closed without an error, and not over a file that is still to be
sent, has sent everything that was accepted: a `Close` waits for the buffer. -/
theorem run_closed (hcalm : Run.Along step Calm (init options socket) as)
    (hrun : Run.steps step (init options socket) as = some s)
    (hclosed : s.channel.isOpen = false) :
    s.channel.ledger.taken = s.channel.ledger.put := by
  have h := Run.invariant (fun _ _ _ => spent_step) (spent_init options socket) hcalm hrun
  have hput := h.2 hclosed
  exact (hput.trans (List.append_nil _)).symm

/-- Nothing more is announced, and the kernel takes something at each writable event. -/
def Draining (s : Loop) : Act → Prop
  | .writeNow _ _ | .sendFile _ => False
  | .writable k k' => (∃ n, 0 < n ∧ k = .took n) ∧ (∃ n, 0 < n ∧ k' = .took n) ∧
      (s.channel.closeAfterWrite = true → s.channel.fileRest = [])
  | .close => s.channel.outputBuffer = [] → s.channel.fileRest = []
  | .flush k | .timer k => ¬ s.channel.Fatal k
  | _ => True

theorem Draining.calm (h : s.Draining a) : s.Calm a := by
  cases a with
  | writeNow buffer k => exact h.elim
  | sendFile file => exact h.elim
  | writable k k' =>
    obtain ⟨⟨n, hn, rfl⟩, ⟨m, -, rfl⟩, hclose⟩ := h
    refine ⟨?_, fun _ => .inr ⟨m, rfl⟩, hclose⟩
    rintro (hk | ⟨hk, -⟩)
    · cases hk
    · exact hn.ne' (Outcome.took.inj hk)
  | close => exact h
  | flush k => exact h
  | timer k => exact h
  | _ => trivial

/-- A writable event. -/
def Act.isWritable : Act → Bool
  | .writable _ _ => true
  | _ => false

/-- The number of writable events. -/
def writables (as : List Act) : ℕ := as.countP Act.isWritable

/-- What is left gets less with each writable event, and nothing more is accepted. -/
theorem pending_step (hdrain : s.Draining a) (hstep : s.step a = some t) :
    t.channel.pending ≤ s.channel.pending - writables [a] ∧
      t.channel.ledger.put = s.channel.ledger.put := by
  cases a with
  | writeNow buffer k => exact hdrain.elim
  | sendFile file => exact hdrain.elim
  | close =>
    obtain rfl := Option.some.inj hstep
    exact ⟨pending_close_le _, put_close _⟩
  | flush k =>
    obtain rfl := Option.some.inj hstep
    exact ⟨pending_flush_le k _, put_flush k _⟩
  | enableWriting =>
    obtain rfl := Option.some.inj hstep
    refine ⟨?_, put_enableWriting _⟩
    unfold enableWriting
    split_ifs <;> exact le_rfl
  | disableWriting =>
    obtain rfl := Option.some.inj hstep
    exact ⟨le_rfl, rfl⟩
  | setOptions options =>
    obtain rfl := Option.some.inj hstep
    exact ⟨le_rfl, rfl⟩
  | writable k k' =>
    obtain ⟨⟨-, hopen⟩, heq⟩ := Option.ite_none_right_eq_some.mp hstep
    obtain rfl := Option.some.inj heq
    obtain ⟨⟨n, hn, rfl⟩, ⟨m, hm, rfl⟩, -⟩ := hdrain
    exact ⟨pending_onWrite_le hopen hn hm, put_onWrite _ _ _⟩
  | completed =>
    obtain ⟨-, heq⟩ := Option.ite_none_right_eq_some.mp hstep
    obtain rfl := Option.some.inj heq
    exact ⟨le_rfl, rfl⟩
  | fired =>
    obtain ⟨-, heq⟩ := Option.ite_none_right_eq_some.mp hstep
    obtain rfl := Option.some.inj heq
    dsimp only
    unfold onWritten
    split_ifs <;> exact ⟨le_rfl, rfl⟩
  | timer k =>
    obtain ⟨-, heq⟩ := Option.ite_none_right_eq_some.mp hstep
    obtain rfl := Option.some.inj heq
    exact ⟨pending_flush_le k { s.channel with flushTimer := false }, put_flush _ _⟩

theorem pending_run (hdrain : Run.Along step Draining s bs) (hrun : Run.steps step s bs = some t) :
    t.channel.pending ≤ s.channel.pending - writables bs ∧
      t.channel.ledger.put = s.channel.ledger.put := by
  induction bs generalizing s with
  | nil =>
    obtain rfl := Option.some.inj hrun
    exact ⟨le_rfl, rfl⟩
  | cons b bs ih =>
    obtain ⟨u, hu, hrun⟩ := Run.steps_eq_some_cons hrun
    obtain ⟨hle, hput⟩ := pending_step hdrain.1 hu
    obtain ⟨hle', hput'⟩ := ih (hdrain.2 u hu) hrun
    have hcount : writables (b :: bs) = writables [b] + writables bs :=
      @List.countP_append _ Act.isWritable [b] bs
    exact ⟨by omega, hput'.trans hput⟩

/-- **Draining.** When as many writable events have come as there were bytes left, the kernel has
taken all that was accepted; whatever else happens in between. -/
theorem run_drained (hcalm : Run.Along step Calm (init options socket) as)
    (hrun : Run.steps step (init options socket) as = some s)
    (hdrain : Run.Along step Draining s bs) (hrun' : Run.steps step s bs = some t)
    (henough : s.channel.pending ≤ writables bs) :
    t.channel.ledger.taken = s.channel.ledger.put := by
  have hs := Run.invariant (fun _ _ _ => spent_step) (spent_init options socket) hcalm hrun
  have ht := Run.invariant (fun _ _ _ => spent_step) hs (hdrain.mono fun _ _ => Draining.calm) hrun'
  obtain ⟨hpending, hput⟩ := pending_run hdrain hrun'
  have hnone : t.channel.pending = 0 := by omega
  have hleft : t.channel.ledger.Holds [] := by
    cases hopen : t.channel.isOpen
    · exact ht.2 hopen
    · have hnil : t.channel.outputBuffer ++ t.channel.fileRest = [] := by
        rw [← List.length_eq_zero_iff, List.length_append]
        exact hnone
      exact hnil ▸ ht.1.left hopen
  rw [← hput]
  exact (hleft.trans (List.append_nil _)).symm

/-- A `Close` behind three bytes, of which the kernel takes a part at each event. -/
def deferredClose : List Act :=
  [.writeNow threeBytes (.took 1), .close, .writable (.took 1) (.took 1),
    .writable (.took 5) (.took 1)]

theorem run_closed_deferredClose : ∃ s, Run.steps step (init .default true) deferredClose = some s ∧
      s.channel.isOpen = false ∧ s.channel.ledger.put = [1, 2, 3] ∧
      s.channel.ledger.taken = s.channel.ledger.put :=
  have hfile {s : Sender} {P : Prop} (h : s.fileSending = none) : s.fileSending ≠ none → P :=
    fun hne => absurd h hne
  have hcalm : Run.Along step Calm (init .default true) deferredClose :=
    .cons ⟨rfl, by decide⟩ rfl (.cons (fun _ => rfl) rfl
      (.cons ⟨by decide, hfile rfl, fun _ => rfl⟩ rfl
        (.cons ⟨by decide, hfile rfl, fun _ => rfl⟩ rfl trivial)))
  ⟨_, rfl, rfl, rfl, run_closed hcalm rfl rfl⟩

theorem run_drained_deferredClose : ∃ s t,
      Run.steps step (init .default true) (deferredClose.take 2) = some s ∧
      Run.steps step s (deferredClose.drop 2) = some t ∧
      t.channel.ledger.taken = s.channel.ledger.put :=
  have hcalm : Run.Along step Calm (init .default true) (deferredClose.take 2) :=
    .cons ⟨rfl, by decide⟩ rfl (.cons (fun _ => rfl) rfl trivial)
  have hdrain {s : Loop} (h : Run.steps step (init .default true) (deferredClose.take 2) = some s) :
      Run.Along step Draining s (deferredClose.drop 2) := by
    obtain rfl := Option.some.inj h
    exact .cons ⟨⟨1, by decide, rfl⟩, ⟨1, by decide, rfl⟩, fun _ => rfl⟩ rfl
      (.cons ⟨⟨5, by decide, rfl⟩, ⟨1, by decide, rfl⟩, fun _ => rfl⟩ rfl trivial)
  ⟨_, _, rfl, rfl, run_drained hcalm rfl (hdrain rfl) rfl (by decide)⟩

end Loop

end Channel
end Comms
