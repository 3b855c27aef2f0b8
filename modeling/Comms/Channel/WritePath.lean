import Comms.Codec.Buffer
import Comms.Lib.Ledger
import Comms.Lib.Run
import Mathlib.Data.Int.Order.Basic

/-!
# What a channel sends

The writing half of `channel.cpp`: `WriteNow` writes to the socket at once where it can, and leaves
the rest in `m_outputBuffer` for the next writable event, or for the flush timer; a file is sent by
writable events when the buffer is empty; and `Close` waits for the buffer. The kernel takes any
part of what it is given.

* `Sender`, `Sender.writeNow`, `Sender.onWrite`, `Sender.close` — from the source;
* `Loop`, `Loop.step` — calls and events of one channel, in any order, the handlers of an event in
  the middle of it;
* `Sender.accept_cases`, `Sender.onWrite_cases` — all that a call or an event can do;
* `Loop.run_stream` — what the kernel has taken is what was accepted, in order, up to what is left.
-/

namespace Comms
namespace Channel

/-- The options that writing depends on. -/
structure ChannelOptions where
  userWriteBufferWaterMark : UInt32
  maxWriteBufferSize : Int32
  autoDisableWriting : Bool
  asyncWrite : Bool
deriving DecidableEq

/-- The options of a `ChannelOptions` that nobody has changed. -/
def ChannelOptions.default : ChannelOptions where
  userWriteBufferWaterMark := 0
  maxWriteBufferSize := -1
  autoDisableWriting := true
  asyncWrite := false

/-- A buffer that is written: `ReadableBytes` is an `int`. -/
abbrev Message := { bytes : Bytes // bytes.length < 2 ^ 31 }

/-- What a write to the socket comes to. -/
inductive Outcome
  /-- So many bytes are taken, if there are as many. -/
  | took (n : ℕ)
  /-- `EAGAIN` or `EWOULDBLOCK`. -/
  | again
  /-- `EINTR`. -/
  | interrupted
  | error
deriving DecidableEq

/-- `SendFileSetting`: what is left of the announced range, and if there is an `on_complete`. -/
structure SendFileSetting where
  rest : Bytes
  onComplete : Bool
deriving DecidableEq

/-- What `Sender` writes with. The ledger is not of the source: put in is what was accepted for
sending, taken out what the kernel took. -/
structure Sender where
  options : ChannelOptions
  /-- `HandleExceptionEvent` is that of `SocketChannel`. -/
  socket : Bool
  /-- `m_fd` is not -1. -/
  isOpen : Bool
  outputBuffer : Bytes
  /-- `AE_WRITABLE` is registered. -/
  writing : Bool
  /-- `m_flush_timertask_id` is not -1. -/
  flushTimer : Bool
  closeAfterWrite : Bool
  fileSending : Option SendFileSetting
  ledger : Ledger UInt8
deriving DecidableEq

namespace Sender

/-- A channel that has just been opened. -/
def init (options : ChannelOptions) (socket : Bool) : Sender where
  options := options
  socket := socket
  isOpen := true
  outputBuffer := []
  writing := false
  flushTimer := false
  closeAfterWrite := false
  fileSending := none
  ledger := .start []

def enableWriting (s : Sender) : Sender := if s.isOpen then { s with writing := true } else s

def disableWriting (s : Sender) : Sender := { s with writing := false }

/-- The timer is set once, and there are no writable events before it. -/
def createFlushTimerTask (s : Sender) : Sender :=
  if s.flushTimer then s else { s with writing := false, flushTimer := true }

/-- `DoClose(false)`: the events and the timer are deleted, and the file is given up. -/
def doClose (s : Sender) : Sender :=
  { s with isOpen := false, writing := false, flushTimer := false, fileSending := none }

def handleIOError (s : Sender) : Sender × ℤ := (s.doClose, -1)

/-- `HandleExceptionEvent(CHANNEL_EVENT_EOF)`. -/
def handleEof (s : Sender) : Sender × ℤ := if s.socket then s.handleIOError else (s, 0)

/-- `Buffer::WriteFD`: the kernel is not asked about an empty buffer, and refuses `fd` -1. -/
def writeFd (s : Sender) (k : Outcome) (buffer : Bytes) : Outcome :=
  if buffer = [] then .took 0
  else if s.isOpen then
    match k with
    | .took n => .took (min n buffer.length)
    | k => k
  else .error

/-- `DoFlush`: -1 of `HandleIOError` counts as `true`. -/
def doFlush (k : Outcome) (s : Sender) : Sender × Bool :=
  if s.outputBuffer = [] then (s, true)
  else
    match s.writeFd k s.outputBuffer with
    | .took 0 => (s.handleEof.1, s.handleEof.2 ≠ 0)
    | .took n => ({ s with
        outputBuffer := s.outputBuffer.drop n
        ledger := s.ledger.takeOut (s.outputBuffer.take n) }, true)
    | .again | .interrupted => (s, true)
    | .error => (s.doClose, true)

/-- `Flush`: a channel with writable events is left to them. -/
def flush (k : Outcome) (s : Sender) : Sender × Bool :=
  if s.writing then (s, false) else s.doFlush k

/-- The flush timer. -/
def run (k : Outcome) (s : Sender) : Sender := ({ s with flushTimer := false }.flush k).1

/-- There is no room for so many bytes behind what is in the buffer already. -/
def exceedsLimit (s : Sender) (bufLen : ℕ) : Bool :=
  let limit := s.options.maxWriteBufferSize
  let writeBufferSize := UInt32.ofNat s.outputBuffer.length
  0 < limit ∧ (limit.toUInt32 < writeBufferSize ∨
    limit.toUInt32 < writeBufferSize + UInt32.ofNat bufLen)

/-- `WriteNow` behind a buffer that is not empty: who will send it. -/
def waitBehind (k : Outcome) (s : Sender) : Sender :=
  if 0 < s.options.userWriteBufferWaterMark ∧
      s.outputBuffer.length < s.options.userWriteBufferWaterMark.toNat then
    s.createFlushTimerTask
  else if s.options.asyncWrite then s.enableWriting
  else (s.flush k).1

/-- `WriteNow` where the output buffer is not empty. -/
def writeBehind (buffer : Message) (k : Outcome) (s : Sender) : Sender × ℤ :=
  if s.exceedsLimit buffer.1.length then (s, 0)
  else ({ s with outputBuffer := s.outputBuffer ++ buffer.1 }.waitBehind k, buffer.1.length)

/-- `WriteNow` into the buffer. -/
def writeBuffered (buffer : Message) (s : Sender) : Sender × ℤ :=
  let s := { s with outputBuffer := s.outputBuffer ++ buffer.1 }
  (if s.writing then s
  else if s.options.asyncWrite then s.enableWriting.createFlushTimerTask
  else s.createFlushTimerTask, buffer.1.length)

/-- `WriteNow` straight to the socket. -/
def writeDirect (buffer : Message) (k : Outcome) (s : Sender) : Sender × ℤ :=
  match s.writeFd k buffer.1 with
  | .took 0 => s.handleEof
  | .took n =>
    let s := { s with ledger := s.ledger.takeOut (buffer.1.take n) }
    (if n < buffer.1.length then
      { s with outputBuffer := s.outputBuffer ++ buffer.1.drop n }.enableWriting
    else s, buffer.1.length)
  | .again | .interrupted =>
    if s.options.maxWriteBufferSize = 0 then (s, 0)
    else ({ s with outputBuffer := s.outputBuffer ++ buffer.1 }.enableWriting, buffer.1.length)
  | .error => s.handleIOError

def writeNow (buffer : Message) (k : Outcome) (s : Sender) : Sender × ℤ :=
  if s.fileSending.isSome then (s, 0)
  else if s.outputBuffer ≠ [] then s.writeBehind buffer k
  else if buffer.1.length < s.options.userWriteBufferWaterMark.toNat ∨ s.writing ∨
      s.options.asyncWrite then
    s.writeBuffered buffer
  else s.writeDirect buffer k

/-- `Close`: deferred while there is something in the buffer. -/
def close (s : Sender) : Sender :=
  if s.outputBuffer ≠ [] ∧ s.isOpen then { s.enableWriting with closeAfterWrite := true }
  else s.doClose

def sendFile (file : SendFileSetting) (s : Sender) : Sender :=
  { s with fileSending := some file }.enableWriting

end Sender

/-- Where an event is while a handler runs. -/
inductive Phase
  | idle
  /-- In `on_complete` of a file. -/
  | completing
  /-- In `fire_channel_writable`. -/
  | firing
deriving DecidableEq

namespace Sender

/-- `OnWrite`, where the file has been written from: up to the first handler. -/
def fileSent (file : SendFileSetting) (s : Sender) : Sender × Phase :=
  if file.rest = [] then
    if file.onComplete then ({ s with fileSending := none }, .completing)
    else ({ s with fileSending := some file }, .firing)
  else ({ s with fileSending := some file }, .idle)

/-- `OnWrite` from `sendfile` on. `err != EAGAIN && ret != EINTR` is true of `EINTR`. -/
def sendRange (k : Outcome) (file : SendFileSetting) (s : Sender) : Sender × Phase :=
  match k with
  | .took n =>
    { s with ledger := s.ledger.takeOut (file.rest.take n) }.fileSent
      { file with rest := file.rest.drop n }
  | .again => s.fileSent file
  | .interrupted | .error => (s.close, .idle)

/-- `OnWrite` up to the first handler. -/
def onWrite (k k' : Outcome) (s : Sender) : Sender × Phase :=
  let (s, flushed) := s.doFlush k
  if !flushed then (s, .idle)
  else if s.closeAfterWrite then (s.close, .idle)
  else if s.outputBuffer ≠ [] then (s, .idle)
  else
    match s.fileSending with
    | none => (s, .firing)
    | some file => s.enableWriting.sendRange k' file

/-- `OnWrite` behind `fire_channel_writable`. -/
def onWritten (s : Sender) : Sender :=
  if s.outputBuffer = [] ∧ s.options.autoDisableWriting then s.disableWriting else s

/-- `WriteNow`, and what it accepted. -/
def accept (buffer : Message) (k : Outcome) (s : Sender) : Sender :=
  let (s', ret) := s.writeNow buffer k
  if ret = buffer.1.length then { s' with ledger := s'.ledger.putIn buffer.1 } else s'

/-- `SendFile`, and what it accepted. -/
def acceptFile (file : SendFileSetting) (s : Sender) : Sender :=
  let s' := s.sendFile file
  { s' with ledger := s'.ledger.putIn file.rest }

end Sender

/-- A channel, and the event whose handlers run. -/
structure Loop where
  channel : Sender
  phase : Phase
deriving DecidableEq

namespace Loop

/-- What happens to a channel. -/
inductive Act
  | writeNow (buffer : Message) (k : Outcome)
  | sendFile (file : SendFileSetting)
  | close
  | flush (k : Outcome)
  | enableWriting
  | disableWriting
  | setOptions (options : ChannelOptions)
  /-- A writable event: what the kernel makes of the buffer, and of the file. -/
  | writable (k k' : Outcome)
  /-- `on_complete` returns. -/
  | completed
  /-- `fire_channel_writable` returns. -/
  | fired
  | timer (k : Outcome)

def init (options : ChannelOptions) (socket : Bool) : Loop := ⟨.init options socket, .idle⟩

/-- Calls come at any time, from the handlers of an event too; events one after the other. -/
def step (s : Loop) : Act → Option Loop
  | .writeNow buffer k => some { s with channel := s.channel.accept buffer k }
  | .sendFile file => some { s with channel := s.channel.acceptFile file }
  | .close => some { s with channel := s.channel.close }
  | .flush k => some { s with channel := (s.channel.flush k).1 }
  | .enableWriting => some { s with channel := s.channel.enableWriting }
  | .disableWriting => some { s with channel := s.channel.disableWriting }
  | .setOptions options => some { s with channel := { s.channel with options := options } }
  | .writable k k' =>
    if s.phase = .idle ∧ s.channel.isOpen then
      some { channel := (s.channel.onWrite k k').1, phase := (s.channel.onWrite k k').2 }
    else none
  | .completed => if s.phase = .completing then some { s with phase := .firing } else none
  | .fired =>
    if s.phase = .firing then some { channel := s.channel.onWritten, phase := .idle } else none
  | .timer k =>
    if s.phase = .idle ∧ s.channel.flushTimer then some { s with channel := s.channel.run k }
    else none

end Loop

namespace Sender

/-! ### What each function can do -/

/-- What is left of the announced file. -/
def fileRest (s : Sender) : Bytes :=
  match s.fileSending with
  | none => []
  | some file => file.rest

/-- The kernel takes `n` bytes of `m_outputBuffer`. -/
def takeBuffer (n : ℕ) (s : Sender) : Sender :=
  { s with
    outputBuffer := s.outputBuffer.drop n
    ledger := s.ledger.takeOut (s.outputBuffer.take n) }

/-- A buffer is accepted behind what is there, and the kernel takes `n` bytes of it all. -/
def queue (buffer : Bytes) (n : ℕ) (w t : Bool) (s : Sender) : Sender :=
  { s with
    outputBuffer := (s.outputBuffer ++ buffer).drop n
    writing := w
    flushTimer := t
    ledger := (s.ledger.takeOut ((s.outputBuffer ++ buffer).take n)).putIn buffer }

/-- An outcome that closes the channel. -/
def Fatal (k : Outcome) (s : Sender) : Prop := k = .error ∨ k = .took 0 ∧ s.socket = true

instance (k : Outcome) (s : Sender) : Decidable (s.Fatal k) := inferInstanceAs (Decidable (_ ∨ _))

variable {s t : Sender} {k k' : Outcome} {buffer : Message} {file : SendFileSetting}

theorem take_min_length (n : ℕ) (bs : Bytes) : bs.take (min n bs.length) = bs.take n := by
  rcases le_total n bs.length with hle | hle
  · rw [Nat.min_eq_left hle]
  · rw [Nat.min_eq_right hle, List.take_length, List.take_of_length_le hle]

theorem drop_min_length (n : ℕ) (bs : Bytes) : bs.drop (min n bs.length) = bs.drop n := by
  rcases le_total n bs.length with hle | hle
  · rw [Nat.min_eq_left hle]
  · rw [Nat.min_eq_right hle, List.drop_length, List.drop_of_length_le hle]

theorem handleEof_cases (s : Sender) :
    (s.socket = true ∧ s.handleEof = (s.doClose, -1)) ∨
    (s.socket = false ∧ s.handleEof = (s, 0)) := by
  unfold handleEof handleIOError
  cases s.socket <;> simp

/-- `DoFlush` does nothing, closes the channel, or takes something. -/
theorem doFlush_cases (k : Outcome) (s : Sender) :
    (∃ b, s.doFlush k = (s, b) ∧
      (s.outputBuffer = [] ∨ ¬ s.Fatal k ∧ ∀ n, k = .took n → n = 0)) ∨
    (s.outputBuffer ≠ [] ∧ (s.isOpen = true → s.Fatal k) ∧ s.doFlush k = (s.doClose, true)) ∨
    ∃ n, s.outputBuffer ≠ [] ∧ s.isOpen = true ∧ 0 < n ∧ k = .took n ∧
      s.doFlush k = (s.takeBuffer n, true) := by
  by_cases hout : s.outputBuffer = []
  · exact .inl ⟨true, by simp [doFlush, hout], .inl hout⟩
  cases hopen : s.isOpen
  · exact .inr (.inl ⟨hout, by simp, by simp [doFlush, writeFd, hout, hopen]⟩)
  have hpos : 0 < s.outputBuffer.length := List.length_pos_iff.mpr hout
  cases k with
  | took n =>
    rcases Nat.eq_zero_or_pos n with rfl | hn
    · -- the kernel takes nothing: the end of a socket
      have heq : s.doFlush (.took 0) = (s.handleEof.1, decide (s.handleEof.2 ≠ 0)) := by
        simp [doFlush, writeFd, hout, hopen]
      rcases handleEof_cases s with ⟨hsocket, h⟩ | ⟨hsocket, h⟩
      · exact .inr (.inl ⟨hout, fun _ => .inr ⟨rfl, hsocket⟩, by simp [heq, h]⟩)
      · exact .inl ⟨false, by simp [heq, h], .inr ⟨by simp [Fatal, hsocket], by simp⟩⟩
    · refine .inr (.inr ⟨n, hout, rfl, hn, rfl, ?_⟩)
      obtain ⟨m, hm⟩ : ∃ m, min n s.outputBuffer.length = m + 1 :=
        ⟨min n s.outputBuffer.length - 1, by omega⟩
      have htake : s.outputBuffer.take (m + 1) = s.outputBuffer.take n := by
        rw [← hm, take_min_length]
      have hdrop : s.outputBuffer.drop (m + 1) = s.outputBuffer.drop n := by
        rw [← hm, drop_min_length]
      simp [doFlush, writeFd, hout, hopen, hm, takeBuffer, htake, hdrop]
  | again =>
    exact .inl ⟨true, by simp [doFlush, writeFd, hout, hopen], .inr ⟨by simp [Fatal], by simp⟩⟩
  | interrupted =>
    exact .inl ⟨true, by simp [doFlush, writeFd, hout, hopen], .inr ⟨by simp [Fatal], by simp⟩⟩
  | error =>
    exact .inr (.inl ⟨hout, fun _ => .inl rfl, by simp [doFlush, writeFd, hout, hopen]⟩)

/-- `Flush`. -/
theorem flush_cases (k : Outcome) (s : Sender) :
    (∃ b, s.flush k = (s, b) ∧
      (s.writing = true ∨ s.outputBuffer = [] ∨ ¬ s.Fatal k ∧ ∀ n, k = .took n → n = 0)) ∨
    (s.writing = false ∧ s.outputBuffer ≠ [] ∧ (s.isOpen = true → s.Fatal k) ∧
      s.flush k = (s.doClose, true)) ∨
    ∃ n, s.writing = false ∧ s.outputBuffer ≠ [] ∧ s.isOpen = true ∧ 0 < n ∧ k = .took n ∧
      s.flush k = (s.takeBuffer n, true) := by
  unfold flush
  cases hw : s.writing
  · rcases doFlush_cases k s with ⟨b, h, hwhy⟩ | ⟨hout, hk, h⟩ | ⟨n, hout, hopen, hn, hk, h⟩
    · exact .inl ⟨b, by simpa using h, .inr hwhy⟩
    · exact .inr (.inl ⟨rfl, hout, hk, by simpa using h⟩)
    · exact .inr (.inr ⟨n, rfl, hout, hopen, hn, hk, by simpa using h⟩)
  · exact .inl ⟨false, by simp, .inl rfl⟩

/-- A buffer that is accepted waits for an event, if the ones before it did. -/
def Waits (s t : Sender) : Prop :=
  s.isOpen = true → (s.outputBuffer ≠ [] → s.writing = true ∨ s.flushTimer = true) →
    t.outputBuffer ≠ [] → t.writing = true ∨ t.flushTimer = true

theorem accept_of_length {s' : Sender} (h : s.writeNow buffer k = (s', (buffer.1.length : ℤ))) :
    s.accept buffer k = { s' with ledger := s'.ledger.putIn buffer.1 } := by
  simp [accept, h]

/-- Nothing is accepted: a buffer of no bytes is, but this changes nothing. -/
theorem accept_of_zero (h : s.writeNow buffer k = (s, 0)) : s.accept buffer k = s := by
  unfold accept
  rw [h]
  rcases eq_or_ne buffer.1 [] with hnil | hne
  · simp [hnil]
  · exact if_neg fun h0 => hne (List.length_eq_zero_iff.mp (by exact_mod_cast h0.symm))

theorem accept_of_neg {s' : Sender} (h : s.writeNow buffer k = (s', -1)) :
    s.accept buffer k = s' := by
  unfold accept
  rw [h]
  exact if_neg (by omega)

/-- A call that is refused, or closes the channel, or accepts the buffer. -/
def Accepts (buffer : Message) (k : Outcome) (s t : Sender) : Prop :=
  t = s ∨ (s.outputBuffer = [] ∧ t = s.doClose) ∨
  (∃ n w f, (s.isOpen = true ∨ n = 0) ∧ Waits s (s.queue buffer.1 n w f) ∧
    t = s.queue buffer.1 n w f) ∨
  ∃ w f, s.outputBuffer ≠ [] ∧ (s.isOpen = true → s.Fatal k) ∧
    t = (s.queue buffer.1 0 w f).doClose

theorem queue_zero (buffer : Bytes) (w f : Bool) (s : Sender) :
    s.queue buffer 0 w f =
      { s with
        outputBuffer := s.outputBuffer ++ buffer
        writing := w
        flushTimer := f
        ledger := s.ledger.putIn buffer } := by
  simp [queue]

/-- A buffer that is accepted, of which the kernel takes `n` bytes. -/
theorem accepts_queue (n : ℕ) {s' : Sender} (w f : Bool)
    (h : s.writeNow buffer k = (s', (buffer.1.length : ℤ)))
    (heq : { s' with ledger := s'.ledger.putIn buffer.1 } = s.queue buffer.1 n w f)
    (hn : s.isOpen = true ∨ n = 0) (hw : Waits s (s.queue buffer.1 n w f)) :
    Accepts buffer k s (s.accept buffer k) :=
  .inr (.inr (.inl ⟨n, w, f, hn, hw, (accept_of_length h).trans heq⟩))

/-- Behind a buffer that is not empty. -/
theorem writeBehind_accepts (hout : s.outputBuffer ≠ []) (hfile : s.fileSending = none) :
    Accepts buffer k s (s.accept buffer k) := by
  have hnow : s.writeNow buffer k = s.writeBehind buffer k := by simp [writeNow, hfile, hout]
  cases hlimit : s.exceedsLimit buffer.1.length
  swap
  · exact .inl (accept_of_zero (by simp [hnow, writeBehind, hlimit]))
  set s' := { s with outputBuffer := s.outputBuffer ++ buffer.1 } with hs'
  have hlen : s.writeNow buffer k = (s'.waitBehind k, (buffer.1.length : ℤ)) := by
    simp [hnow, writeBehind, hlimit, hs']
  -- where the events stay as they are, the bytes behind wait as those in front do
  have hwaits (n : ℕ) : Waits s (s.queue buffer.1 n s.writing s.flushTimer) := fun _ h _ => h hout
  by_cases hmark : 0 < s'.options.userWriteBufferWaterMark ∧
      s'.outputBuffer.length < s'.options.userWriteBufferWaterMark.toNat
  · have hwait : s'.waitBehind k = s'.createFlushTimerTask := if_pos hmark
    rw [hwait] at hlen
    cases hf : s.flushTimer
    · exact accepts_queue 0 false true hlen (by simp [queue_zero, createFlushTimerTask, hs', hf])
        (.inr rfl) fun _ _ _ => .inr rfl
    · exact accepts_queue 0 s.writing s.flushTimer hlen
        (by simp [queue_zero, createFlushTimerTask, hs', hf]) (.inr rfl) (hwaits 0)
  cases hasync : s.options.asyncWrite
  · have hwait : s'.waitBehind k = (s'.flush k).1 := (if_neg hmark).trans (by simp [hasync, hs'])
    rw [hwait] at hlen
    rcases flush_cases k s' with ⟨b, h, -⟩ | ⟨-, -, hk, h⟩ | ⟨n, -, -, hopen, -, -, h⟩
    · rw [h] at hlen
      exact accepts_queue 0 s.writing s.flushTimer hlen (by rw [queue_zero]) (.inr rfl) (hwaits 0)
    · refine .inr (.inr (.inr ⟨s.writing, s.flushTimer, hout, hk, ?_⟩))
      rw [accept_of_length hlen, h, queue_zero]
      rfl
    · rw [h] at hlen
      exact accepts_queue n s.writing s.flushTimer hlen rfl (.inl hopen) (hwaits n)
  · have hwait : s'.waitBehind k = s'.enableWriting :=
      (if_neg hmark).trans (by simp [hasync, hs'])
    rw [hwait] at hlen
    refine accepts_queue 0 (s.writing || s.isOpen) s.flushTimer hlen ?_ (.inr rfl) ?_
    · rw [queue_zero]
      unfold enableWriting
      cases hopen : s.isOpen <;> simp [hs', hopen]
    · exact fun hopen _ _ => .inl (by simp [queue, hopen])

/-- Into the buffer. -/
theorem writeBuffered_accepts (hnow : s.writeNow buffer k = s.writeBuffered buffer) :
    Accepts buffer k s (s.accept buffer k) := by
  set s' := { s with outputBuffer := s.outputBuffer ++ buffer.1 } with hs'
  cases hw : s.writing
  · -- the timer is set in any case, and an earlier one leaves the event that was asked for
    have hlen : s.writeNow buffer k =
        ({ s' with
            writing := s.options.asyncWrite && s.isOpen && s.flushTimer
            flushTimer := true }, (buffer.1.length : ℤ)) := by
      rw [hnow, writeBuffered]
      cases hf : s.flushTimer <;> cases ha : s.options.asyncWrite <;> cases ho : s.isOpen <;>
        simp [hw, hf, ho, hs', createFlushTimerTask, enableWriting]
    exact accepts_queue 0 _ true hlen (by rw [queue_zero]) (.inr rfl) fun _ _ _ => .inr rfl
  · have hlen : s.writeNow buffer k = (s', (buffer.1.length : ℤ)) := by
      simp [hnow, writeBuffered, hw, hs']
    exact accepts_queue 0 s.writing s.flushTimer hlen (by rw [queue_zero]) (.inr rfl)
      fun _ _ _ => .inl hw

/-- Straight to the socket. -/
theorem writeDirect_accepts (hout : s.outputBuffer = [])
    (hnow : s.writeNow buffer k = s.writeDirect buffer k) :
    Accepts buffer k s (s.accept buffer k) := by
  have heof (h : s.writeNow buffer k = s.handleEof) : Accepts buffer k s (s.accept buffer k) := by
    rcases handleEof_cases s with ⟨-, heq⟩ | ⟨-, heq⟩
    · exact .inr (.inl ⟨hout, accept_of_neg (h.trans heq)⟩)
    · exact .inl (accept_of_zero (h.trans heq))
  by_cases hnil : buffer.1 = []
  · exact heof (by simp [hnow, writeDirect, writeFd, hnil])
  have hpos : 0 < buffer.1.length := List.length_pos_iff.mpr hnil
  cases hopen : s.isOpen
  · refine .inr (.inl ⟨hout, accept_of_neg ?_⟩)
    simp [hnow, writeDirect, writeFd, hnil, hopen, handleIOError]
  -- a kernel that takes nothing may be asked again
  have hretry (hk : k = .again ∨ k = .interrupted) : Accepts buffer k s (s.accept buffer k) := by
    by_cases hmax : s.options.maxWriteBufferSize = 0
    · refine .inl (accept_of_zero ?_)
      rcases hk with rfl | rfl <;> simp [hnow, writeDirect, writeFd, hnil, hopen, hmax]
    · have hlen : s.writeNow buffer k =
          ({ s with outputBuffer := s.outputBuffer ++ buffer.1, writing := true },
            (buffer.1.length : ℤ)) := by
        rcases hk with rfl | rfl <;>
          simp [hnow, writeDirect, writeFd, hnil, hopen, hmax, enableWriting]
      exact accepts_queue 0 true s.flushTimer hlen (by rw [queue_zero]) (.inr rfl)
        fun _ _ _ => .inl rfl
  cases k with
  | took n =>
    rcases Nat.eq_zero_or_pos n with rfl | hn
    · exact heof (by simp [hnow, writeDirect, writeFd, hnil, hopen])
    obtain ⟨m, hm⟩ : ∃ m, min n buffer.1.length = m + 1 :=
      ⟨min n buffer.1.length - 1, by omega⟩
    have htook : s.writeFd (.took n) buffer.1 = .took (m + 1) := by
      simp [writeFd, hnil, hopen, hm]
    by_cases hall : m + 1 < buffer.1.length
    · have hlen : s.writeNow buffer (.took n) =
          ({ s with
              outputBuffer := s.outputBuffer ++ buffer.1.drop (m + 1)
              writing := true
              ledger := s.ledger.takeOut (buffer.1.take (m + 1)) }, (buffer.1.length : ℤ)) := by
        simp [hnow, writeDirect, htook, hall, enableWriting, hopen]
      exact accepts_queue (m + 1) true s.flushTimer hlen (by simp [queue, hout]) (.inl hopen)
        fun _ _ _ => .inl rfl
    · have hlen : s.writeNow buffer (.took n) =
          ({ s with ledger := s.ledger.takeOut (buffer.1.take (m + 1)) },
            (buffer.1.length : ℤ)) := by
        simp [hnow, writeDirect, htook, hall]
      have hdrop : buffer.1.drop (m + 1) = [] := List.drop_of_length_le (not_lt.mp hall)
      exact accepts_queue (m + 1) s.writing s.flushTimer hlen (by simp [queue, hout, hdrop])
        (.inl hopen) fun _ _ h => absurd (by simp [queue, hout, hdrop]) h
  | again => exact hretry (.inl rfl)
  | interrupted => exact hretry (.inr rfl)
  | error =>
    refine .inr (.inl ⟨hout, accept_of_neg ?_⟩)
    simp [hnow, writeDirect, writeFd, hnil, hopen, handleIOError]

/-- **One call of `WriteNow`**: it is refused; the channel is closed; or the buffer is accepted,
and the kernel takes a part of what waits; or an error closes the channel behind that. -/
theorem accept_cases (buffer : Message) (k : Outcome) (s : Sender) :
    s.accept buffer k = s ∨ s.fileSending = none ∧ Accepts buffer k s (s.accept buffer k) := by
  cases hfile : s.fileSending with
  | some file => exact .inl (accept_of_zero (by simp [writeNow, hfile]))
  | none =>
    refine .inr ⟨rfl, ?_⟩
    by_cases hout : s.outputBuffer = []
    · by_cases hbuffered : buffer.1.length < s.options.userWriteBufferWaterMark.toNat ∨
          s.writing = true ∨ s.options.asyncWrite = true
      · exact writeBuffered_accepts (by simp only [writeNow, hfile, hout, hbuffered]; simp)
      · exact writeDirect_accepts hout (by simp only [writeNow, hfile, hout, hbuffered]; simp)
    · exact writeBehind_accepts hout hfile

/-- `Close` waits for the buffer, or closes the channel. -/
theorem close_cases (s : Sender) :
    (s.outputBuffer ≠ [] ∧ s.isOpen = true ∧
      s.close = { s with writing := true, closeAfterWrite := true }) ∨
    ((s.outputBuffer = [] ∨ s.isOpen = false) ∧ s.close = s.doClose) := by
  unfold close
  by_cases h : s.outputBuffer ≠ [] ∧ s.isOpen = true
  · exact .inl ⟨h.1, h.2, by simp [h, enableWriting]⟩
  · refine .inr ⟨?_, if_neg h⟩
    cases hopen : s.isOpen
    · exact .inr rfl
    · exact .inl (by simpa [hopen] using h)

theorem fileSent_cases (file : SendFileSetting) (s : Sender) :
    (s.fileSent file).1 = { s with fileSending := some file } ∨
    file.rest = [] ∧ (s.fileSent file).1 = { s with fileSending := none } := by
  unfold fileSent
  by_cases hrest : file.rest = []
  · cases file.onComplete <;> simp [hrest]
  · simp [hrest]

theorem acceptFile_eq (file : SendFileSetting) (s : Sender) :
    s.acceptFile file = { s with
      fileSending := some file
      writing := s.writing || s.isOpen
      ledger := s.ledger.putIn file.rest } := by
  unfold acceptFile sendFile enableWriting
  cases s.isOpen <;> simp

/-- A flush that leaves nothing did not close the channel. -/
theorem isOpen_of_doFlush (h : (s.doFlush k).1.outputBuffer = []) :
    (s.doFlush k).1.isOpen = s.isOpen := by
  rcases doFlush_cases k s with ⟨b, heq, -⟩ | ⟨hout, -, heq⟩ | ⟨n, -, hopen, -, -, heq⟩
  · rw [heq]
  · rw [heq] at h
    exact absurd h hout
  · rw [heq]
    rfl

/-- **A writable event** up to its first handler: the buffer is written; then the channel closes, or
keeps what is left; or the buffer is empty, and the file is written too. -/
theorem onWrite_cases (k k' : Outcome) (s : Sender) :
    ((s.onWrite k k').1 = (s.doFlush k).1.close ∧ (s.doFlush k).1.closeAfterWrite = true) ∨
    ((s.onWrite k k').1 = (s.doFlush k).1 ∧
      ((s.doFlush k).2 = false ∨ (s.doFlush k).1.outputBuffer ≠ [] ∨
        (s.doFlush k).1.fileSending = none)) ∨
    ∃ file, (s.doFlush k).1.outputBuffer = [] ∧ (s.doFlush k).1.closeAfterWrite = false ∧
      (s.doFlush k).1.fileSending = some file ∧
      (s.onWrite k k').1 = ((s.doFlush k).1.enableWriting.sendRange k' file).1 := by
  unfold onWrite
  obtain ⟨t, flushed⟩ := s.doFlush k
  cases flushed with
  | false => simp
  | true =>
    cases hclose : t.closeAfterWrite with
    | true => simp [hclose]
    | false =>
      by_cases hout : t.outputBuffer = []
      · cases hfile : t.fileSending with
        | none => simp [hclose, hout, hfile]
        | some file => simp [hclose, hout, hfile]
      · simp [hclose, hout]

/-! ### What was accepted is sent in order -/

/-- What the kernel has taken is the first part of what was accepted, and while the channel is open
the rest is in the buffer and in the file. -/
structure Stream (s : Sender) : Prop where
  sent : s.ledger.taken <+: s.ledger.put
  left : s.isOpen = true → s.ledger.Holds (s.outputBuffer ++ s.fileRest)

theorem fileRest_of_some (h : s.fileSending = some file) : s.fileRest = file.rest := by
  simp [fileRest, h]

theorem Stream.congr (h : s.Stream) (hledger : t.ledger = s.ledger) (hopen : t.isOpen = s.isOpen)
    (hout : t.outputBuffer = s.outputBuffer) (hfile : t.fileRest = s.fileRest) : t.Stream where
  sent := hledger ▸ h.sent
  left ho := by
    rw [hledger, hout, hfile]
    exact h.left (hopen ▸ ho)

theorem Stream.doClose (h : s.Stream) : s.doClose.Stream where
  sent := h.sent
  left ho := by cases ho

theorem Stream.enableWriting (h : s.Stream) : s.enableWriting.Stream := by
  unfold Sender.enableWriting
  split_ifs
  · exact h.congr rfl rfl rfl rfl
  · exact h

theorem Stream.close (h : s.Stream) : s.close.Stream := by
  rcases close_cases s with ⟨-, -, heq⟩ | ⟨-, heq⟩
  · exact heq ▸ h.congr rfl rfl rfl rfl
  · exact heq ▸ h.doClose

/-- What the kernel takes off the front is sent. -/
theorem Stream.take (h : s.Stream) (hopen : s.isOpen = true) (n : ℕ) :
    (s.takeBuffer n).Stream := by
  have hleft : s.ledger.Holds
      (s.outputBuffer.take n ++ (s.outputBuffer.drop n ++ s.fileRest)) := by
    rw [← List.append_assoc, List.take_append_drop]
    exact h.left hopen
  exact ⟨hleft.takeOut.isPrefix, fun _ => hleft.takeOut⟩

theorem Stream.doFlush (h : s.Stream) (k : Outcome) : (s.doFlush k).1.Stream := by
  rcases doFlush_cases k s with ⟨b, heq, -⟩ | ⟨-, -, heq⟩ | ⟨n, -, hopen, -, -, heq⟩
  · rw [heq]
    exact h
  · rw [heq]
    exact h.doClose
  · rw [heq]
    exact h.take hopen n

theorem Stream.flush (h : s.Stream) (k : Outcome) : (s.flush k).1.Stream := by
  unfold Sender.flush
  split_ifs
  · exact h
  · exact h.doFlush k

/-- A buffer that is accepted goes behind what is there: there is no file. -/
theorem Stream.queue (h : s.Stream) (hfile : s.fileSending = none) (buffer : Bytes) (n : ℕ)
    (w f : Bool) (hn : s.isOpen = true ∨ n = 0) : (s.queue buffer n w f).Stream := by
  have hrest : s.fileRest = [] := by simp [fileRest, hfile]
  have hleft (hopen : s.isOpen = true) : (s.ledger.putIn buffer).Holds
      ((s.outputBuffer ++ buffer).take n ++ (s.outputBuffer ++ buffer).drop n) := by
    rw [List.take_append_drop]
    have := h.left hopen
    rw [hrest, List.append_nil] at this
    exact this.putIn buffer
  refine ⟨?_, fun hopen => ?_⟩
  · rcases hn with hopen | rfl
    · exact (hleft hopen).takeOut.isPrefix
    · rw [queue_zero]
      exact h.sent.trans (List.prefix_append _ _)
  · have hrest' : (s.queue buffer n w f).fileRest = [] := hrest
    rw [hrest', List.append_nil]
    exact (hleft hopen).takeOut

theorem Stream.accept (h : s.Stream) (buffer : Message) (k : Outcome) :
    (s.accept buffer k).Stream := by
  rcases accept_cases buffer k s with heq | ⟨hfile, hcase⟩
  · rw [heq]
    exact h
  rcases hcase with heq | ⟨-, heq⟩ | ⟨n, w, f, hn, -, heq⟩ | ⟨w, f, -, -, heq⟩
  · rw [heq]
    exact h
  · rw [heq]
    exact h.doClose
  · rw [heq]
    exact h.queue hfile buffer.1 n w f hn
  · rw [heq]
    exact (h.queue hfile buffer.1 0 w f (.inr rfl)).doClose

/-- An announced file goes behind the buffer. -/
theorem Stream.acceptFile (h : s.Stream) (hrest : s.fileRest = []) (file : SendFileSetting) :
    (s.acceptFile file).Stream := by
  rw [acceptFile_eq]
  refine ⟨h.sent.trans (List.prefix_append _ _), fun hopen => ?_⟩
  have hleft := h.left hopen
  rw [hrest, List.append_nil] at hleft
  exact hleft.putIn file.rest

theorem Stream.fileSent (h : Stream { s with fileSending := some file }) :
    (s.fileSent file).1.Stream := by
  rcases fileSent_cases file s with heq | ⟨hrest, heq⟩
  · exact heq ▸ h
  · exact heq ▸ h.congr rfl rfl rfl hrest.symm

/-- The file is written when the buffer is empty. -/
theorem Stream.sendRange (h : s.Stream) (hopen : s.isOpen = true) (hout : s.outputBuffer = [])
    (hfile : s.fileSending = some file) (k : Outcome) : (s.sendRange k file).1.Stream := by
  have hrest : s.fileRest = file.rest := fileRest_of_some hfile
  cases k with
  | took n =>
    refine Stream.fileSent ?_
    have hleft : s.ledger.Holds (file.rest.take n ++ file.rest.drop n) := by
      have := h.left hopen
      rw [hout, hrest] at this
      rwa [List.take_append_drop]
    refine ⟨hleft.takeOut.isPrefix, fun _ => ?_⟩
    have hleft' := hleft.takeOut
    rw [← List.nil_append (file.rest.drop n), ← hout] at hleft'
    exact hleft'
  | again => exact Stream.fileSent (h.congr rfl rfl rfl hrest.symm)
  | interrupted => exact h.close
  | error => exact h.close

theorem Stream.onWrite (h : s.Stream) (hopen : s.isOpen = true) (k k' : Outcome) :
    (s.onWrite k k').1.Stream := by
  have hflush := h.doFlush k
  rcases onWrite_cases k k' s with ⟨heq, -⟩ | ⟨heq, -⟩ | ⟨file, hout, -, hfile, heq⟩
  · exact heq ▸ hflush.close
  · exact heq ▸ hflush
  · rw [heq]
    have hopen' : (s.doFlush k).1.isOpen = true := (isOpen_of_doFlush hout).trans hopen
    have hwriting : (s.doFlush k).1.enableWriting = { (s.doFlush k).1 with writing := true } :=
      if_pos hopen'
    rw [hwriting]
    have hflush' : Stream { (s.doFlush k).1 with writing := true } :=
      hflush.congr rfl rfl rfl rfl
    exact hflush'.sendRange hopen' hout hfile k'

theorem Stream.onWritten (h : s.Stream) : s.onWritten.Stream := by
  unfold Sender.onWritten
  split_ifs
  · exact h.congr rfl rfl rfl rfl
  · exact h

theorem Stream.run (h : s.Stream) (k : Outcome) : (s.run k).Stream := by
  have h' : Stream { s with flushTimer := false } := h.congr rfl rfl rfl rfl
  exact h'.flush k

end Sender

namespace Loop

open Sender

variable {s t : Loop} {a : Act} {as : List Act} {options : ChannelOptions} {socket : Bool}

/-- No file is announced while another one is pending. -/
def Alone (s : Loop) : Act → Prop
  | .sendFile _ => s.channel.fileRest = []
  | _ => True

theorem stream_init (options : ChannelOptions) (socket : Bool) :
    (init options socket).channel.Stream :=
  ⟨List.prefix_rfl, fun _ => Ledger.holds_start []⟩

theorem stream_step (h : s.channel.Stream) (halone : s.Alone a) (hstep : s.step a = some t) :
    t.channel.Stream := by
  cases a with
  | writeNow buffer k =>
    obtain rfl := Option.some.inj hstep
    exact h.accept buffer k
  | sendFile file =>
    obtain rfl := Option.some.inj hstep
    exact h.acceptFile halone file
  | close =>
    obtain rfl := Option.some.inj hstep
    exact h.close
  | flush k =>
    obtain rfl := Option.some.inj hstep
    exact h.flush k
  | enableWriting =>
    obtain rfl := Option.some.inj hstep
    exact h.enableWriting
  | disableWriting =>
    obtain rfl := Option.some.inj hstep
    exact h.congr rfl rfl rfl rfl
  | setOptions options =>
    obtain rfl := Option.some.inj hstep
    exact h.congr rfl rfl rfl rfl
  | writable k k' =>
    obtain ⟨⟨-, hopen⟩, heq⟩ := Option.ite_none_right_eq_some.mp hstep
    obtain rfl := Option.some.inj heq
    exact h.onWrite hopen k k'
  | completed =>
    obtain ⟨-, heq⟩ := Option.ite_none_right_eq_some.mp hstep
    obtain rfl := Option.some.inj heq
    exact h
  | fired =>
    obtain ⟨-, heq⟩ := Option.ite_none_right_eq_some.mp hstep
    obtain rfl := Option.some.inj heq
    exact h.onWritten
  | timer k =>
    obtain ⟨-, heq⟩ := Option.ite_none_right_eq_some.mp hstep
    obtain rfl := Option.some.inj heq
    exact h.run k

/-- **What is sent.** Whatever the options, the calls, the events and the kernel do: the bytes that
the kernel has taken are the first of those that were accepted, in order, and while the channel is
open the rest is in its buffer, and behind that in its file. -/
theorem run_stream (halone : Run.Along step Alone (init options socket) as)
    (hrun : Run.steps step (init options socket) as = some s) :
    s.channel.ledger.taken <+: s.channel.ledger.put ∧
    (s.channel.isOpen = true →
      s.channel.ledger.put =
        s.channel.ledger.taken ++ (s.channel.outputBuffer ++ s.channel.fileRest)) := by
  have h := Run.invariant (fun _ _ _ => stream_step) (stream_init options socket) halone hrun
  exact ⟨h.sent, h.left⟩

instance decidableAlone : ∀ s a, Decidable (Alone s a) := fun s a => by
  unfold Alone
  split <;> infer_instance

def threeBytes : Message := ⟨[1, 2, 3], by decide⟩

/-- Three bytes of which the kernel takes two, and then a file: two writable events, of which the
second one comes to the end of the file. -/
def writeAndFile : List Act :=
  [.writeNow threeBytes (.took 2), .sendFile ⟨[4, 5], true⟩,
    .writable (.took 9) (.took 1), .writable .again (.took 1)]

theorem run_stream_writeAndFile : ∃ s, Run.steps step (init .default true) writeAndFile = some s ∧
      s.phase = .completing ∧ s.channel.ledger.taken = [1, 2, 3, 4, 5] ∧
      s.channel.ledger.taken <+: s.channel.ledger.put :=
  have halone : Run.Along step Alone (init .default true) writeAndFile := by decide
  ⟨_, rfl, rfl, rfl, (run_stream halone rfl).1⟩

end Loop

end Channel
end Comms
