import Comms.Codec.DumpChunk
import Comms.Codec.HeapBuffer
import Comms.Command.Transaction
import Comms.Lib.Run

/-!
# Snapshot transfers over many connections

The slave's `RedisMessageDecoder` reads the replies of the handshake, then the snapshot, then the
commands, and goes through this again with every new connection. This module follows it over all
its connections: the two buffers, the loop of `CallDecode`, the switches between the decoders,
`Cleanup` when the connection is closed, and the reconnect.

* `Link.step` — what happens to the link to the master, one round of the loop at a time;
* `Link.Ok` — what holds between the steps, and `Link.Ok.step`, which keeps it;
* `Framed` — the chunks of a transfer are framed as the transfer is;
* `transfers_framed` — the run.

`m_waiting_chunk_len` belongs to the decoder, not to the connection: neither `ConnectMaster` nor
`ChannelClosed` sets it back. What the reply and the command decoder do is not followed here: they
move the read index of the buffer they are called with, as far as they like.
-/

namespace Comms

namespace HeapBuffer

theorem zero_fits (h : HeapBuffer) : 0 ≤ h.mem.length := Nat.zero_le _

/-- `Clear`. -/
def clear (h : HeapBuffer) : HeapBuffer :=
  { h with readIdx := 0, writeIdx := 0, fits := h.zero_fits }

theorem readable_clear (h : HeapBuffer) : h.clear.readable = [] := Circular.slice_zero _ _

theorem readable_ne_nil {h : HeapBuffer} (hr : h.Readable) : h.readable ≠ [] := by
  rw [← List.length_pos_iff, h.readable_length]
  unfold Readable at hr
  unfold readableBytes
  omega

theorem readable_eq_nil {h : HeapBuffer} (hr : ¬ h.Readable) : h.readable = [] := by
  rw [← List.length_eq_zero_iff, h.readable_length]
  unfold Readable at hr
  unfold readableBytes
  omega

theorem reads_readable {h : HeapBuffer} (hle : h.readIdx ≤ h.writeIdx) : h.Reads h.readable where
  idx := by
    rw [h.readable_length]
    unfold readableBytes
    omega
  readable := rfl

/-- `DiscardReadedBytes` also brings a read index back that is past the write index. -/
theorem discardReadedBytes_reads_readable (h : HeapBuffer) :
    h.discardReadedBytes.Reads h.readable := by
  by_cases hle : h.readIdx ≤ h.writeIdx
  · exact discardReadedBytes_reads (reads_readable hle)
  · have hno : ¬ h.Readable := fun hr => hle (le_of_lt hr)
    unfold discardReadedBytes
    rw [if_pos (by omega), if_neg hno, readable_eq_nil hno]
    exact ⟨rfl, Circular.slice_zero _ _⟩

end HeapBuffer

namespace Dump

/-! ### The link to the master -/

/-- `m_decoder_type`. -/
inductive DecoderType
  | command
  | reply
  | dump
deriving DecidableEq, Repr

/-- Where the link is in `MessageReceived` or `ChannelClosed` of the decoder. -/
inductive Phase
  | idle
  /-- The loop of `CallDecode`. -/
  | decoding (source : Source)
  /-- Behind the loop. -/
  | ending (source : Source)
  /-- The loop that `Cleanup` calls. -/
  | cleanup
  /-- `DecodeLast`, and `Clear` after it. -/
  | decodeLast
deriving DecidableEq, Repr

/-- The buffer that is being decoded. -/
def Phase.source : Phase → Option Source
  | .decoding source => some source
  | .cleanup => some .cumulation
  | _ => none

/-- The slave's end of the link. `transfer`, `stream`, `chunks` and `left` are history: the transfer
the master has begun, the bytes read since then, the chunks handed on, and what was not decoded yet
when the dump decoder was left. -/
structure Link where
  connected : Bool
  input : HeapBuffer
  cumulation : HeapBuffer
  phase : Phase
  decoderType : DecoderType
  dump : RedisDumpFileChunkDecoder
  transfer : Option Transfer
  stream : Bytes
  chunks : List RedisDumpFileChunk
  left : Bytes
deriving DecidableEq

/-- What happens to the link. -/
inductive LinkAct
  /-- `ConnectMaster`. -/
  | connect
  /-- A read of the socket that delivers `chunk`. -/
  | read (chunk : Bytes)
  /-- A round of the loop with the reply or the command decoder, which moves the read index. -/
  | other (n : ℕ)
  /-- The loop ends with the reply or the command decoder. -/
  | otherDone
  /-- The handler of a reply switches to the dump decoder; the transfer follows. -/
  | switchToDump (n : ℕ) (transfer : Transfer)
  /-- A round of the loop with the dump decoder. -/
  | decode
  /-- What comes behind the loop. -/
  | finish
  /-- The connection is closed. -/
  | drop
  /-- A loop in which the connection was closed comes to its end with a rest. -/
  | residue (rest : Bytes)

namespace Link

/-- A slave that has not connected yet. -/
def init : Link :=
  { connected := false, input := .empty, cumulation := .empty, phase := .idle
    decoderType := .command, dump := ⟨0, 0⟩, transfer := none, stream := [], chunks := [], left := [] }

def bufferOf (s : Link) : Source → HeapBuffer
  | .input => s.input
  | .cumulation => s.cumulation

def setReadIndex (s : Link) (source : Source) (idx : ℕ) : Link :=
  match source with
  | .input => { s with input := s.input.setReadIndex idx }
  | .cumulation => { s with cumulation := s.cumulation.setReadIndex idx }

/-- The bytes that were read and not decoded yet. -/
def pending (s : Link) : Bytes :=
  match s.phase with
  | .decoding source | .ending source => (s.bufferOf source).readable
  | .idle | .cleanup | .decodeLast => s.cumulation.readable

/-- `ConnectMaster`: a new channel, and `m_decoder.Clear()`. -/
def connect (s : Link) : Link :=
  { s with
    connected := true, input := .empty, cumulation := s.cumulation.clear, phase := .idle
    decoderType := .reply, transfer := none, stream := [], chunks := [], left := [] }

/-- `OnRead`, and `MessageReceived` of the decoder up to the loop. -/
def receive (s : Link) (chunk : Bytes) : Link :=
  let input := s.input.discardReadedBytes.readFD chunk
  let s := if s.decoderType = .dump then { s with stream := s.stream ++ chunk } else s
  if s.cumulation.Readable then
    { s with
      input := input.drained
      cumulation := s.cumulation.discardReadedBytes.writeFrom input
      phase := .decoding .cumulation }
  else { s with input := input, phase := .decoding .input }

/-- The loop is left. -/
def endLoop (s : Link) : Link :=
  match s.phase with
  | .decoding source => { s with phase := .ending source }
  | .cleanup => { s with phase := .decodeLast }
  | _ => s

/-- `HandleRedisDumpChunk`, as far as the decoder goes: the last chunk switches to the command
decoder. -/
def messageReceived (s : Link) (msg : RedisDumpFileChunk) : Link :=
  let s := { s with chunks := s.chunks ++ [msg] }
  if msg.IsLastChunk then { s with decoderType := .command, left := s.pending } else s

/-- One round of the loop in `CallDecode` with the dump decoder. -/
def callDecode (s : Link) (source : Source) : Link :=
  let buffer := s.bufferOf source
  if buffer.Readable then
    let (msg, d, b) := s.dump.decode buffer.buffer
    let next := { s.setReadIndex source b.readIdx with dump := d }
    match msg with
    | some msg => next.messageReceived msg
    -- `oldReadableBytes` is a `uint32`
    | none => if buffer.readableBytes % 2 ^ 32 = b.readableBytes then next.endLoop else next
  else s.endLoop

/-- `m_decoder.Clear()` at the end of `ChannelClosed`. What is left of a transfer is lost. -/
def closed (s : Link) : Link :=
  { s with
    connected := false, cumulation := s.cumulation.clear, phase := .idle
    left := if s.decoderType = .dump then s.pending else s.left }

/-- `DecodeLast` is `Decode` once more. -/
def decodeLast (s : Link) : Link :=
  if s.decoderType = .dump then
    let (msg, d, b) := s.dump.decode s.cumulation.buffer
    let next := { s.setReadIndex .cumulation b.readIdx with dump := d }
    match msg with
    | some msg => next.messageReceived msg
    | none => next
  else s

/-- What comes behind the loop: the rest of the input goes to the cumulation buffer. -/
def finish (s : Link) : Option Link :=
  match s.phase with
  | .ending .cumulation => some { s with phase := .idle }
  | .ending .input =>
    if s.input.Readable then
      some { s with
        input := s.input.drained, cumulation := s.cumulation.writeFrom s.input, phase := .idle }
    else some { s with phase := .idle }
  | .decodeLast => some s.decodeLast.closed
  | _ => none

/-- One step. The master sends the transfer it has begun. The handler of a chunk does not close the
connection before the last one. -/
def step (s : Link) : LinkAct → Option Link
  | .connect => if s.connected then none else some s.connect
  | .read chunk =>
    if s.connected ∧ s.phase = .idle ∧ chunk ≠ [] ∧
        chunk.length ≤ s.input.discardReadedBytes.readLimit ∧
        (s.decoderType = .dump → ∀ t ∈ s.transfer, t.Sent (s.stream ++ chunk)) then
      some (s.receive chunk)
    else none
  | .other n =>
    match s.phase.source with
    | some source =>
      if s.decoderType ≠ .dump then
        some (s.setReadIndex source ((s.bufferOf source).readIdx + n))
      else none
    | none => none
  | .otherDone =>
    if s.decoderType ≠ .dump ∧ s.phase.source.isSome then some s.endLoop else none
  | .switchToDump n t =>
    match s.phase.source with
    | some source =>
      let next := s.setReadIndex source ((s.bufferOf source).readIdx + n)
      if s.decoderType = .reply ∧ t.Sent next.pending then
        some { next with
          decoderType := .dump, transfer := some t, stream := next.pending, chunks := [] }
      else none
    | none => none
  | .decode =>
    match s.phase.source with
    | some source => if s.decoderType = .dump then some (s.callDecode source) else none
    | none => none
  | .finish => s.finish
  | .drop =>
    if s.connected ∧ (s.phase = .idle ∨ s.decoderType ≠ .dump) then
      if s.cumulation.Readable then some { s with phase := .cleanup } else some s.closed
    else none
  | .residue rest =>
    if s.connected then none else some { s with cumulation := s.cumulation.write rest }

end Link

/-! ### What holds between the steps -/

theorem SameBlock.unread {h : HeapBuffer} {b : Buffer} (hs : SameBlock h.buffer b) :
    (h.setReadIndex b.readIdx).readable = b.unread := by
  unfold HeapBuffer.readable HeapBuffer.readableBytes Buffer.unread Buffer.readableBytes
  rw [hs.mem, hs.writeIdx]
  rfl

/-- Nothing more can be decoded: the header is not all there, or every byte was delivered. -/
def Stuck (t : Transfer) (chunks : List RedisDumpFileChunk) (stream pending : Bytes) : Prop :=
  (chunks = [] ∧ stream.length < t.opening.length) ∨ (chunks ≠ [] ∧ pending = [])

/-- **Framing.** The first chunk and no other is marked as the first, the one that completes the
payload and no other is marked as the last, and what was read of the transfer is its opening, what
the chunks carry, and the rest. -/
structure Framed (t : Transfer) (chunks : List RedisDumpFileChunk) (stream rest : Bytes) : Prop where
  first : ∀ (i : ℕ) c, chunks[i]? = some c → (c.IsFirstChunk ↔ i = 0)
  last : ∀ (i : ℕ) c, chunks[i]? = some c →
    (c.IsLastChunk ↔ i + 1 = chunks.length ∧ bodies chunks = t.payload)
  delivered : bodies chunks <+: t.payload
  bytes : chunks ≠ [] → stream = t.opening ++ bodies chunks ++ rest

theorem Delivering.framed {t : Transfer} {d : RedisDumpFileChunkDecoder}
    {chunks : List RedisDumpFileChunk} {stream pending : Bytes}
    (h : Delivering t d chunks stream pending) : Framed t chunks stream pending :=
  ⟨h.first, h.last, h.delivered, fun _ => h.bytes⟩

theorem Framed.nil (t : Transfer) (stream rest : Bytes) : Framed t [] stream rest where
  first := fun _ _ h => by cases h
  last := fun _ _ h => by cases h
  delivered := List.nil_prefix
  bytes := fun h => absurd rfl h

theorem Progress.framed {t : Transfer} {d : RedisDumpFileChunkDecoder}
    {chunks : List RedisDumpFileChunk} {stream pending : Bytes}
    (h : Progress t d chunks stream pending) : Framed t chunks stream pending := by
  cases h with
  | header j hj hd hchunks hstream =>
    rw [hchunks]
    exact Framed.nil t stream pending
  | body hpos h => exact h.framed

/-- A transfer in progress is not complete. -/
theorem Progress.incomplete {t : Transfer} {d : RedisDumpFileChunkDecoder}
    {chunks : List RedisDumpFileChunk} {stream pending : Bytes}
    (h : Progress t d chunks stream pending) : bodies chunks ≠ t.payload := by
  intro hfull
  cases h with
  | header j hj hd hchunks hstream =>
    rw [hchunks] at hfull
    exact t.nonempty hfull.symm
  | body hpos h =>
    have hw := h.waiting
    rw [hfull, sub_self] at hw
    exact hpos.ne' hw

/-- More of the stream has arrived. -/
theorem Progress.more {t : Transfer} {d : RedisDumpFileChunkDecoder}
    {chunks : List RedisDumpFileChunk} {stream pending : Bytes}
    (h : Progress t d chunks stream pending) (chunk : Bytes) :
    Progress t d chunks (stream ++ chunk) (pending ++ chunk) := by
  cases h with
  | header j hj hd hchunks hstream =>
    exact .header j hj hd hchunks (by rw [hstream, List.append_assoc])
  | body hpos h =>
    exact .body hpos { h with bytes := by rw [h.bytes]; simp only [List.append_assoc] }

/-- A transfer that is stuck has not been read to its end. -/
theorem Stuck.short {t : Transfer} {d : RedisDumpFileChunkDecoder}
    {chunks : List RedisDumpFileChunk} {stream pending : Bytes}
    (h : Progress t d chunks stream pending) (hs : Stuck t chunks stream pending) :
    ¬ t.bytes <+: stream := by
  intro hpre
  have hle := hpre.length_le
  rw [Transfer.bytes, List.length_append] at hle
  rcases hs with ⟨-, hlt⟩ | ⟨hne, hnil⟩
  · omega
  · cases h with
    | header j hj hd hchunks hstream => exact hne hchunks
    | body hpos h =>
      have hlen := congrArg List.length h.bytes
      have hw := h.waiting
      rw [hnil, List.append_nil, List.length_append] at hlen
      omega

namespace Link

variable {s s' : Link}

/-- The input buffer is being decoded. -/
def UsesInput (s : Link) : Prop := s.phase = .decoding .input ∨ s.phase = .ending .input

/-- The loop is over. -/
def AtRest (s : Link) : Prop := s.phase = .idle ∨ ∃ source, s.phase = .ending source

/-- Where the transfer is: in progress, or over and done, or broken off. -/
structure Tracks (s : Link) : Prop where
  running : s.connected → s.decoderType = .dump → ∃ t, s.transfer = some t ∧ t.Sent s.stream ∧
    Progress t s.dump s.chunks s.stream s.pending ∧
    (s.AtRest → Stuck t s.chunks s.stream s.pending)
  ended : ¬ (s.connected ∧ s.decoderType = .dump) → ∀ t, s.transfer = some t →
    Framed t s.chunks s.stream s.left ∧ (s.connected → bodies s.chunks = t.payload)

/-- What holds between the steps. -/
structure Ok (s : Link) : Prop where
  busy : s.phase ≠ .idle → s.connected
  input : s.connected → ¬ s.UsesInput → ¬ s.input.Readable
  cumulation : s.UsesInput → ¬ s.cumulation.Readable
  tracks : s.Tracks

/-- A step that changes neither the decoder nor the history keeps track. -/
theorem Tracks.congr (h : s.Tracks) (hconn : s'.connected = s.connected)
    (htype : s'.decoderType = s.decoderType) (hdump : s'.dump = s.dump)
    (htransfer : s'.transfer = s.transfer) (hstream : s'.stream = s.stream)
    (hchunks : s'.chunks = s.chunks) (hleft : s'.left = s.left)
    (hpending : s.decoderType = .dump → s'.pending = s.pending)
    (hrest : s.decoderType = .dump → s'.AtRest → s.AtRest ∨ s.pending = [] ∨
      ∀ t, s.transfer = some t → s.stream.length < t.opening.length ∧ s.chunks = []) :
    s'.Tracks where
  running := by
    intro hc hd
    rw [hconn] at hc
    rw [htype] at hd
    obtain ⟨t, ht, hsent, hprog, hstuck⟩ := h.running hc hd
    rw [htransfer, hstream, hdump, hchunks, hpending hd]
    refine ⟨t, ht, hsent, hprog, fun hr => ?_⟩
    rcases hrest hd hr with hr | hnil | hshort
    · exact hstuck hr
    · cases hprog with
      | header j hj _ hchunks hstream =>
        refine .inl ⟨hchunks, ?_⟩
        rw [hstream, hnil, List.append_nil, List.length_replicate]
        exact lt_of_le_of_lt hj t.newlines_lt
      | body _ h => exact .inr ⟨h.begun, hnil⟩
    · exact .inl ⟨(hshort t ht).2, (hshort t ht).1⟩
  ended := by
    rw [hconn, htype, htransfer, hchunks, hstream, hleft]
    exact h.ended

/-! ### The steps -/

@[simp] theorem bufferOf_setReadIndex (s : Link) (source : Source) (idx : ℕ) :
    (s.setReadIndex source idx).bufferOf source = (s.bufferOf source).setReadIndex idx := by
  cases source <;> rfl

/-- What is pending while a buffer is being decoded. -/
theorem pending_of_source {source : Source} (h : s.phase.source = some source) :
    s.pending = (s.bufferOf source).readable := by
  unfold pending
  cases hp : s.phase with
  | decoding source' =>
    rw [hp] at h
    obtain rfl := Option.some.inj h
    rfl
  | cleanup =>
    rw [hp] at h
    obtain rfl := Option.some.inj h
    rfl
  | _ =>
    rw [hp] at h
    cases h

theorem phase_setReadIndex (s : Link) (source : Source) (idx : ℕ) :
    (s.setReadIndex source idx).phase = s.phase := by
  cases source <;> rfl

/-- Moving the read index of the buffer that is being decoded. -/
theorem Ok.setReadIndex_buffers (h : s.Ok) {source : Source} (hsource : s.phase.source = some source)
    (idx : ℕ) :
    (s.connected → ¬ (s.setReadIndex source idx).UsesInput →
      ¬ (s.setReadIndex source idx).input.Readable) ∧
    ((s.setReadIndex source idx).UsesInput → ¬ (s.setReadIndex source idx).cumulation.Readable) := by
  unfold UsesInput
  rw [phase_setReadIndex]
  cases source with
  | input =>
    have hphase : s.phase = .decoding .input := by
      cases hp : s.phase <;> rw [hp] at hsource <;> cases hsource
      rfl
    exact ⟨fun _ hno => absurd (.inl hphase) hno, h.cumulation⟩
  | cumulation =>
    refine ⟨h.input, fun hin => ?_⟩
    rcases hin with hin | hin <;> rw [hin] at hsource <;> cases hsource

theorem Ok.connected_of_source (h : s.Ok) {source : Source} (hsource : s.phase.source = some source) :
    s.connected = true := by
  refine h.busy fun hidle => ?_
  rw [hidle] at hsource
  cases hsource

theorem Ok.connected_setReadIndex (h : s.Ok) {source : Source}
    (hsource : s.phase.source = some source) (idx : ℕ) :
    (s.setReadIndex source idx).connected = true := by
  have hconn := h.connected_of_source hsource
  cases source <;> exact hconn

theorem Ok.connect (s : Link) : s.connect.Ok where
  busy := fun _ => rfl
  input := fun _ _ => by
    change ¬ (HeapBuffer.empty.readIdx < HeapBuffer.empty.writeIdx)
    decide
  cumulation := fun h => by rcases h with h | h <;> cases h
  tracks := ⟨fun _ h => by (cases h), fun _ t ht => by (cases ht)⟩

/-- Reading appends to what is pending. -/
theorem receive_pending (hphase : s.phase = .idle) (hin : ¬ s.input.Readable) (chunk : Bytes) :
    (s.receive chunk).pending = s.pending ++ chunk ∧ ¬ (s.receive chunk).AtRest ∧
      (¬ (s.receive chunk).UsesInput → ¬ (s.receive chunk).input.Readable) ∧
      ((s.receive chunk).UsesInput → ¬ (s.receive chunk).cumulation.Readable) := by
  have hread : (s.input.discardReadedBytes.readFD chunk).Reads chunk := by
    have h := HeapBuffer.readFD_reads s.input.discardReadedBytes_reads_readable chunk
    rwa [HeapBuffer.readable_eq_nil hin] at h
  have hidle : s.pending = s.cumulation.readable := by
    unfold pending
    rw [hphase]
  have hcum : (if s.decoderType = .dump then { s with stream := s.stream ++ chunk } else s).cumulation
      = s.cumulation := by
    split <;> rfl
  unfold receive
  dsimp only
  rw [hcum]
  by_cases hr : s.cumulation.Readable
  · rw [if_pos hr, hidle]
    have hwrite := HeapBuffer.write_reads s.cumulation.discardReadedBytes_reads_readable
      (s.input.discardReadedBytes.readFD chunk).readable
    rw [hread.readable] at hwrite
    refine ⟨?_, ?_, fun _ => ?_, ?_⟩
    · change (HeapBuffer.writeFrom _ _).readable = _
      unfold HeapBuffer.writeFrom
      rw [hread.readable]
      exact hwrite.readable
    · rintro (h | ⟨source, h⟩) <;> cases h
    · have hnil := HeapBuffer.drained_reads hread
      exact fun hr' => hnil.readable_iff.mp hr' rfl
    · rintro (h | h) <;> cases h
  · rw [if_neg hr, hidle, HeapBuffer.readable_eq_nil hr]
    refine ⟨hread.readable, ?_, ?_, fun _ => hr⟩
    · rintro (h | ⟨source, h⟩) <;> cases h
    · exact fun h => absurd (.inl rfl) h

theorem receive_history (s : Link) (chunk : Bytes) :
    (s.receive chunk).connected = s.connected ∧ (s.receive chunk).decoderType = s.decoderType ∧
      (s.receive chunk).dump = s.dump ∧ (s.receive chunk).transfer = s.transfer ∧
      (s.receive chunk).chunks = s.chunks ∧ (s.receive chunk).left = s.left ∧
      (s.receive chunk).stream = if s.decoderType = .dump then s.stream ++ chunk else s.stream := by
  unfold receive
  dsimp only
  by_cases hd : s.decoderType = .dump
  · rw [if_pos hd, if_pos hd]
    split <;> exact ⟨rfl, rfl, rfl, rfl, rfl, rfl, rfl⟩
  · rw [if_neg hd, if_neg hd]
    split <;> exact ⟨rfl, rfl, rfl, rfl, rfl, rfl, rfl⟩

theorem Ok.receive (h : s.Ok) {chunk : Bytes} (hconn : s.connected) (hphase : s.phase = .idle)
    (hsent : s.decoderType = .dump → ∀ t ∈ s.transfer, t.Sent (s.stream ++ chunk)) :
    (s.receive chunk).Ok := by
  have hno : ¬ s.UsesInput := by
    rintro (hin | hin) <;> rw [hphase] at hin <;> cases hin
  obtain ⟨hpending, hbusy, hinput, hcum⟩ := receive_pending hphase (h.input hconn hno) chunk
  obtain ⟨hc, htype, hdump, htransfer, hchunks, hleft, hstream⟩ := receive_history s chunk
  refine ⟨fun _ => hc.trans hconn, fun _ => hinput, hcum, ⟨fun _ hd => ?_, fun hover t ht => ?_⟩⟩
  · rw [htype] at hd
    obtain ⟨t, ht, -, hprog, -⟩ := h.tracks.running hconn hd
    rw [htransfer, hstream, hdump, hchunks, hpending, if_pos hd]
    exact ⟨t, ht, hsent hd t ht, hprog.more chunk, fun hr => absurd hr hbusy⟩
  · rw [hc, htype] at hover
    have hd : s.decoderType ≠ .dump := fun hd => hover ⟨hconn, hd⟩
    rw [hchunks, hstream, hleft, if_neg hd, hc]
    exact h.tracks.ended (fun hover' => hd hover'.2) t (htransfer.symm.trans ht)

/-- The other decoders. -/
theorem Ok.other (h : s.Ok) {source : Source} (hsource : s.phase.source = some source)
    (hd : s.decoderType ≠ .dump) (idx : ℕ) : (s.setReadIndex source idx).Ok := by
  obtain ⟨hin, hcum⟩ := h.setReadIndex_buffers hsource idx
  refine ⟨fun _ => h.connected_setReadIndex hsource idx, fun hc => hin (by cases source <;> exact hc),
    hcum, ?_⟩
  cases source <;> exact h.tracks.congr rfl rfl rfl rfl rfl rfl rfl (fun h => absurd h hd)
    (fun h => absurd h hd)

theorem usesInput_endLoop (s : Link) : s.endLoop.UsesInput ↔ s.UsesInput := by
  unfold endLoop UsesInput
  cases hp : s.phase <;> simp [hp]

theorem endLoop_fields (s : Link) : s.endLoop = { s with phase := s.endLoop.phase } := by
  unfold endLoop
  split <;> rfl

theorem pending_endLoop (s : Link) : s.endLoop.pending = s.pending := by
  unfold endLoop pending
  cases hp : s.phase with
  | cleanup => rfl
  | decoding source => cases source <;> rfl
  | _ => simp [hp]

/-- Leaving the loop. With the dump decoder there is nothing to decode. -/
theorem Ok.endLoop (h : s.Ok) (hstuck : s.decoderType = .dump → s.pending = [] ∨
    ∀ t, s.transfer = some t → s.stream.length < t.opening.length ∧ s.chunks = []) :
    s.endLoop.Ok := by
  have heq := endLoop_fields s
  refine ⟨fun hne => ?_, fun hc hno => ?_, fun hin => ?_, ?_⟩
  · rw [heq]
    refine h.busy fun hidle => hne ?_
    unfold Link.endLoop
    rw [hidle]
    exact hidle
  · rw [usesInput_endLoop] at hno
    rw [heq] at hc ⊢
    exact h.input hc hno
  · rw [usesInput_endLoop] at hin
    rw [heq]
    exact h.cumulation hin
  · refine h.tracks.congr ?_ ?_ ?_ ?_ ?_ ?_ ?_ (fun _ => pending_endLoop s)
      (fun hd _ => .inr (hstuck hd)) <;> rw [heq]

theorem Ok.switchToDump (h : s.Ok) {source : Source} (hsource : s.phase.source = some source)
    {idx : ℕ} {t : Transfer} (hwaiting : s.dump.waitingChunkLen = 0)
    (hsent : t.Sent (s.setReadIndex source idx).pending) :
    Ok { s.setReadIndex source idx with
      decoderType := .dump, transfer := some t, stream := (s.setReadIndex source idx).pending
      chunks := [] } := by
  obtain ⟨hin, hcum⟩ := h.setReadIndex_buffers hsource idx
  have hdump : (s.setReadIndex source idx).dump = s.dump := by cases source <;> rfl
  refine ⟨fun _ => h.connected_setReadIndex hsource idx, fun hc => hin (by cases source <;> exact hc),
    hcum, ⟨fun _ _ => ?_, fun hover t' ht' => ?_⟩⟩
  · refine ⟨t, rfl, hsent, .header 0 (Nat.zero_le _) (by rw [← hwaiting, ← hdump]) rfl ?_, ?_⟩
    · exact (List.nil_append _).symm
    · have hphase : (s.setReadIndex source idx).phase.source = some source := by
        rw [phase_setReadIndex, hsource]
      rintro (hr | ⟨src, hr⟩)
      · change (s.setReadIndex source idx).phase = .idle at hr
        rw [hr] at hphase
        cases hphase
      · change (s.setReadIndex source idx).phase = .ending src at hr
        rw [hr] at hphase
        cases hphase
  · obtain rfl := Option.some.inj ht'
    refine ⟨Framed.nil t _ _, fun hc => absurd ⟨hc, rfl⟩ hover⟩

/-- A chunk that goes on with the transfer is handed on. -/
theorem Tracks.messageReceived {t : Transfer} {c : RedisDumpFileChunk} (hconn : s.connected)
    (htype : s.decoderType = .dump) (ht : s.transfer = some t) (hsent : t.Sent s.stream)
    (hbusy : ¬ s.AtRest)
    (hdel : Delivering t s.dump (s.chunks ++ [c]) s.stream s.pending) :
    (s.messageReceived c).Tracks := by
  have hlast := hdel.last s.chunks.length c (by simp)
  have hdone : s.dump.waitingChunkLen = 0 ↔ bodies (s.chunks ++ [c]) = t.payload := by
    have hw := hdel.waiting
    constructor
    · intro h0
      exact hdel.delivered.eq_of_length (by omega)
    · intro hfull
      rw [hw, hfull, sub_self]
  unfold Link.messageReceived
  dsimp only
  by_cases hc : c.IsLastChunk
  · rw [if_pos hc]
    refine ⟨fun _ h => (by cases h), fun _ t' ht' => ?_⟩
    obtain rfl := Option.some.inj (ht.symm.trans ht')
    exact ⟨hdel.framed, fun _ => (hlast.mp hc).2⟩
  · rw [if_neg hc]
    refine ⟨fun _ _ => ⟨t, ht, hsent, .body ?_ hdel, fun hr => absurd hr hbusy⟩,
      fun hover => absurd ⟨hconn, htype⟩ hover⟩
    have hne : s.dump.waitingChunkLen ≠ 0 := fun h0 => hc (hlast.mpr ⟨by simp, hdone.mp h0⟩)
    have hlen := hdel.delivered.length_le
    have hw := hdel.waiting
    change 0 < s.dump.waitingChunkLen
    omega

/-- A round of the loop with the dump decoder. -/
theorem Ok.callDecode (h : s.Ok) {source : Source} (hsource : s.phase.source = some source)
    (hd : s.decoderType = .dump) : (s.callDecode source).Ok := by
  have hconn := h.connected_of_source hsource
  obtain ⟨t, ht, hsent, hprog, -⟩ := h.tracks.running hconn hd
  have hpend := pending_of_source hsource
  unfold Link.callDecode
  dsimp only
  by_cases hr : (s.bufferOf source).Readable
  swap
  · rw [if_neg hr]
    exact h.endLoop fun _ => .inl (by rw [hpend, HeapBuffer.readable_eq_nil hr])
  rw [if_pos hr]
  rw [hpend] at hprog
  have hbusy : ¬ s.AtRest := by
    rintro (hrest | ⟨src, hrest⟩) <;> rw [hrest] at hsource <;> cases hsource
  -- the step moves the read index, and changes no other buffer
  have hmoved : ∀ (b : Buffer) (d : RedisDumpFileChunkDecoder),
      SameBlock (s.bufferOf source).buffer b →
      ({ s.setReadIndex source b.readIdx with dump := d } : Link).pending = b.unread := by
    intro b d hb
    have hsrc : (s.setReadIndex source b.readIdx).phase.source = some source := by
      rw [phase_setReadIndex, hsource]
    have h' := pending_of_source hsrc
    rw [bufferOf_setReadIndex, hb.unread] at h'
    exact h'
  rcases decode_progress (b := (s.bufferOf source).buffer)
    (s.bufferOf source).fits hsent hprog with
    ⟨c, d', b', heq, hblock, hdel⟩ | ⟨b', heq, hblock, hprog', hshort, hchunks⟩
  · -- a chunk goes to the slave
    rw [heq]
    dsimp only
    obtain ⟨hin, hcum⟩ := h.setReadIndex_buffers hsource b'.readIdx
    rw [← hmoved b' d' hblock] at hdel
    have htracks := Tracks.messageReceived (s := { s.setReadIndex source b'.readIdx with dump := d' })
      (c := c) (by cases source <;> exact hconn) (by cases source <;> exact hd)
      (by cases source <;> exact ht) (by cases source <;> exact hsent)
      (by cases source <;> exact hbusy) (by cases source <;> exact hdel)
    have hconn' := h.connected_setReadIndex hsource b'.readIdx
    refine ⟨fun _ => ?_, fun _ hno => ?_, fun hyes => ?_, htracks⟩
    · unfold Link.messageReceived
      split <;> exact hconn'
    · unfold Link.messageReceived at hno ⊢
      split
      · next hl =>
        rw [if_pos hl] at hno
        exact hin hconn hno
      · next hl =>
        rw [if_neg hl] at hno
        exact hin hconn hno
    · unfold Link.messageReceived at hyes ⊢
      split
      · next hl =>
        rw [if_pos hl] at hyes
        exact hcum hyes
      · next hl =>
        rw [if_neg hl] at hyes
        exact hcum hyes
  · -- the header is not all there
    rw [heq]
    dsimp only
    obtain ⟨hin, hcum⟩ := h.setReadIndex_buffers hsource b'.readIdx
    have hconn' := h.connected_setReadIndex hsource b'.readIdx
    rw [← hmoved b' s.dump hblock] at hprog'
    have hok : Ok { s.setReadIndex source b'.readIdx with dump := s.dump } := by
      refine ⟨fun _ => hconn', fun _ => hin hconn, hcum, ⟨fun _ _ => ⟨t, ?_, ?_, ?_, ?_⟩, fun hover => ?_⟩⟩
      · cases source <;> exact ht
      · cases source <;> exact hsent
      · cases source <;> exact hprog'
      · cases source <;> exact fun hr => absurd hr hbusy
      · cases source <;> exact absurd ⟨hconn, hd⟩ hover
    split
    · refine hok.endLoop fun _ => .inr fun t' ht' => ?_
      have htt : s.transfer = some t' := by cases source <;> exact ht'
      obtain rfl := Option.some.inj (ht.symm.trans htt)
      cases source <;> exact ⟨hshort, hchunks⟩
    · exact hok

/-- `Clear`: what is left of a transfer is broken off. -/
theorem Ok.closed (h : s.Tracks) (hconn : s.connected) : s.closed.Ok where
  busy := fun hne => absurd rfl hne
  input := fun hc => by cases hc
  cumulation := fun hin => by rcases hin with hin | hin <;> cases hin
  tracks := by
    refine ⟨fun hc => (by cases hc), fun _ t ht => ?_⟩
    unfold Link.closed
    dsimp only
    refine ⟨?_, fun hc => (by cases hc)⟩
    by_cases hd : s.decoderType = .dump
    · obtain ⟨t', ht', -, hprog, -⟩ := h.running hconn hd
      obtain rfl := Option.some.inj (ht.symm.trans ht')
      rw [if_pos hd]
      exact hprog.framed
    · rw [if_neg hd]
      exact (h.ended (fun hover => hd hover.2) t ht).1

/-- `DecodeLast` goes on with the transfer too. -/
theorem Tracks.decodeLast (h : s.Ok) (hphase : s.phase = .decodeLast) :
    s.decodeLast.Tracks ∧ s.decodeLast.connected = true := by
  have hconn : s.connected = true := h.busy (by rw [hphase]; exact fun h => by cases h)
  unfold Link.decodeLast
  by_cases hd : s.decoderType = .dump
  swap
  · rw [if_neg hd]
    exact ⟨h.tracks, hconn⟩
  rw [if_pos hd]
  obtain ⟨t, ht, hsent, hprog, -⟩ := h.tracks.running hconn hd
  have hpend : s.pending = s.cumulation.readable := by
    unfold pending
    rw [hphase]
  rw [hpend] at hprog
  have hbusy : ¬ s.AtRest := by
    rintro (hrest | ⟨src, hrest⟩) <;> rw [hrest] at hphase <;> cases hphase
  have hmoved : ∀ (b : Buffer) (d : RedisDumpFileChunkDecoder), SameBlock s.cumulation.buffer b →
      ({ s.setReadIndex .cumulation b.readIdx with dump := d } : Link).pending = b.unread := by
    intro b d hb
    unfold pending setReadIndex
    rw [hphase]
    exact hb.unread
  rcases decode_progress (b := s.cumulation.buffer) s.cumulation.fits hsent hprog with
    ⟨c, d', b', heq, hblock, hdel⟩ | ⟨b', heq, hblock, hprog', hshort, hchunks⟩
  · rw [heq]
    dsimp only
    rw [← hmoved b' d' hblock] at hdel
    refine ⟨Tracks.messageReceived (s := { s.setReadIndex .cumulation b'.readIdx with dump := d' })
      hconn hd ht hsent hbusy hdel, ?_⟩
    unfold Link.messageReceived
    split <;> exact hconn
  · rw [heq]
    dsimp only
    rw [← hmoved b' s.dump hblock] at hprog'
    exact ⟨⟨fun _ _ => ⟨t, ht, hsent, hprog', fun hr => absurd hr hbusy⟩,
      fun hover => absurd ⟨hconn, hd⟩ hover⟩, hconn⟩

/-- What comes behind the loop, when the cumulation buffer can take the rest. -/
theorem Ok.finish (h : s.Ok) (hfin : s.finish = some s')
    (hclean : s.phase = .ending .input → s.input.Readable →
      s.cumulation.readIdx ≤ s.cumulation.writeIdx) : s'.Ok := by
  unfold Link.finish at hfin
  cases hphase : s.phase with
  | idle => rw [hphase] at hfin; cases hfin
  | decoding source => rw [hphase] at hfin; cases hfin
  | cleanup => rw [hphase] at hfin; cases hfin
  | decodeLast =>
    rw [hphase] at hfin
    -- `Cleanup` has decoded what the decoder held, and the connection is closed
    obtain rfl := Option.some.inj hfin
    obtain ⟨htracks, hconn⟩ := Tracks.decodeLast h hphase
    exact Ok.closed htracks hconn
  | ending source =>
    have hrest : s.AtRest := .inr ⟨source, hphase⟩
    have hpend : s.pending = (s.bufferOf source).readable := by
      unfold pending
      rw [hphase]
    rw [hphase] at hfin
    cases source with
    | cumulation =>
      -- what is left stays where it is
      obtain rfl := Option.some.inj hfin
      have hno : ¬ s.UsesInput := by
        rintro (hin | hin) <;> rw [hphase] at hin <;> cases hin
      refine ⟨fun hne => absurd rfl hne, fun hc _ => h.input hc hno, fun hin => ?_, ?_⟩
      · rcases hin with hin | hin <;> cases hin
      · exact h.tracks.congr rfl rfl rfl rfl rfl rfl rfl (fun _ => hpend.symm) (fun _ _ => .inl hrest)
    | input =>
      have hcum := h.cumulation (.inr hphase)
      dsimp only at hfin
      split at hfin
      · next hr =>
        -- what is left goes from the channel to the decoder, whose buffer is empty
        obtain rfl := Option.some.inj hfin
        have hreads := HeapBuffer.reads_readable (hclean hphase hr)
        have hwrite := HeapBuffer.write_reads hreads s.input.readable
        rw [HeapBuffer.readable_eq_nil hcum, List.nil_append] at hwrite
        refine ⟨fun hne => absurd rfl hne, fun _ _ => ?_, fun hin => ?_, ?_⟩
        · have hin := HeapBuffer.drained_reads (HeapBuffer.reads_readable (le_of_lt hr))
          exact fun hr' => hin.readable_iff.mp hr' rfl
        · rcases hin with hin | hin <;> cases hin
        · exact h.tracks.congr rfl rfl rfl rfl rfl rfl rfl
            (fun _ => hwrite.readable.trans hpend.symm) (fun _ _ => .inl hrest)
      · next hr =>
        obtain rfl := Option.some.inj hfin
        refine ⟨fun hne => absurd rfl hne, fun _ _ => hr, fun hin => ?_, ?_⟩
        · rcases hin with hin | hin <;> cases hin
        · refine h.tracks.congr rfl rfl rfl rfl rfl rfl rfl (fun _ => ?_) (fun _ _ => .inl hrest)
          rw [hpend]
          change s.cumulation.readable = s.input.readable
          rw [HeapBuffer.readable_eq_nil hr, HeapBuffer.readable_eq_nil hcum]

/-- The connection is closed. -/
theorem Ok.drop (h : s.Ok) (hconn : s.connected) (hphase : s.phase = .idle ∨ s.decoderType ≠ .dump) :
    (if s.cumulation.Readable then { s with phase := .cleanup } else s.closed).Ok := by
  split
  swap
  · exact Ok.closed h.tracks hconn
  next hr =>
  have hno : ¬ s.UsesInput := fun hin => h.cumulation hin hr
  refine ⟨fun _ => hconn, fun hc _ => h.input hc hno, fun hin => ?_, ?_⟩
  · rcases hin with hin | hin <;> cases hin
  · refine h.tracks.congr rfl rfl rfl rfl rfl rfl rfl (fun hd => ?_) (fun _ hrest => ?_)
    · have hidle := hphase.resolve_right (not_not.mpr hd)
      unfold pending
      rw [hidle]
    · rcases hrest with hrest | ⟨src, hrest⟩ <;> cases hrest

/-- What a loop leaves behind after the connection was closed. -/
theorem Ok.residue (h : s.Ok) (hconn : ¬ s.connected) (rest : Bytes) :
    Ok { s with cumulation := s.cumulation.write rest } := by
  have hidle : s.phase = .idle := by
    by_contra hne
    exact hconn (h.busy hne)
  refine ⟨h.busy, fun hc => absurd hc hconn, fun hin => ?_, ⟨fun hc => absurd hc hconn, h.tracks.ended⟩⟩
  rcases hin with hin | hin <;> exact absurd (hin.symm.trans hidle) (by simp)

/-! ### The run -/

/-- **When framing is safe.** A transfer is begun by a decoder that does not wait for the rest of an
earlier one; and the rest of the input goes to a cumulation buffer whose read index has not been
moved past its write index. -/
def Clean (s : Link) : LinkAct → Prop
  | .switchToDump _ _ => s.dump.waitingChunkLen = 0
  | .finish => s.phase = .ending .input → s.input.Readable →
      s.cumulation.readIdx ≤ s.cumulation.writeIdx
  | _ => True

instance (s : Link) (a : LinkAct) : Decidable (s.Clean a) := by
  cases a <;> unfold Clean <;> infer_instance

theorem Ok.init : Link.init.Ok where
  busy := fun hne => absurd rfl hne
  input := fun hc => by cases hc
  cumulation := fun hin => by rcases hin with hin | hin <;> cases hin
  tracks := ⟨fun hc => (by cases hc), fun _ t ht => (by cases ht)⟩

/-- **One step.** A safe step keeps track of the transfer. -/
theorem Ok.step (h : s.Ok) {a : LinkAct} (hclean : s.Clean a) (hstep : s.step a = some s') : s'.Ok := by
  cases a with
  | connect =>
    dsimp only [Link.step] at hstep
    split at hstep
    · cases hstep
    · obtain rfl := Option.some.inj hstep
      exact Ok.connect s
  | read chunk =>
    dsimp only [Link.step] at hstep
    split at hstep
    · next hr =>
      obtain rfl := Option.some.inj hstep
      exact h.receive hr.1 hr.2.1 hr.2.2.2.2
    · cases hstep
  | other n =>
    dsimp only [Link.step] at hstep
    split at hstep
    · next source hsource =>
      split at hstep
      · next hd =>
        obtain rfl := Option.some.inj hstep
        exact h.other hsource hd _
      · cases hstep
    · cases hstep
  | otherDone =>
    dsimp only [Link.step] at hstep
    split at hstep
    · next hd =>
      obtain rfl := Option.some.inj hstep
      -- the dump decoder is not the one in charge
      exact h.endLoop fun hdump => absurd hdump hd.1
    · cases hstep
  | switchToDump n t =>
    dsimp only [Link.step] at hstep
    split at hstep
    · next source hsource =>
      split at hstep
      · next hd =>
        obtain rfl := Option.some.inj hstep
        exact h.switchToDump hsource hclean hd.2
      · cases hstep
    · cases hstep
  | decode =>
    dsimp only [Link.step] at hstep
    split at hstep
    · next source hsource =>
      split at hstep
      · next hd =>
        obtain rfl := Option.some.inj hstep
        exact h.callDecode hsource hd
      · cases hstep
    · cases hstep
  | finish => exact h.finish hstep hclean
  | drop =>
    dsimp only [Link.step] at hstep
    split at hstep
    · next hd =>
      -- `Cleanup` runs once more if the decoder has bytes left
      have hdrop := h.drop hd.1 hd.2
      split at hstep
      · next hr =>
        rw [if_pos hr] at hdrop
        exact Option.some.inj hstep ▸ hdrop
      · next hr =>
        rw [if_neg hr] at hdrop
        exact Option.some.inj hstep ▸ hdrop
    · cases hstep
  | residue rest =>
    dsimp only [Link.step] at hstep
    split at hstep
    · cases hstep
    · next hconn =>
      obtain rfl := Option.some.inj hstep
      exact h.residue hconn rest

/-- What was read of the transfer and is not in a chunk: not decoded yet, or left for the command
decoder, or lost with the connection. -/
def rest (s : Link) : Bytes := if s.connected ∧ s.decoderType = .dump then s.pending else s.left

theorem Ok.framed (h : s.Ok) {t : Transfer} (ht : s.transfer = some t) :
    Framed t s.chunks s.stream s.rest := by
  unfold rest
  split
  · next hrun =>
    obtain ⟨t', ht', -, hprog, -⟩ := h.tracks.running hrun.1 hrun.2
    obtain rfl := Option.some.inj (ht.symm.trans ht')
    exact hprog.framed
  · next hover => exact (h.tracks.ended hover t ht).1

/-- Between two reads a transfer that has arrived is complete. -/
theorem Ok.complete (h : s.Ok) {t : Transfer} (ht : s.transfer = some t) (hconn : s.connected)
    (hphase : s.phase = .idle) (hall : t.bytes <+: s.stream) : bodies s.chunks = t.payload := by
  by_cases hd : s.decoderType = .dump
  · obtain ⟨t', ht', -, hprog, hstuck⟩ := h.tracks.running hconn hd
    obtain rfl := Option.some.inj (ht.symm.trans ht')
    exact absurd hall (Stuck.short hprog (hstuck (.inl hphase)))
  · exact (h.tracks.ended (fun hrun => hd hrun.2) t ht).2 hconn

/-- A complete transfer is followed by commands. -/
theorem Ok.switched (h : s.Ok) {t : Transfer} (ht : s.transfer = some t) (hconn : s.connected)
    (hfull : bodies s.chunks = t.payload) : s.decoderType ≠ .dump := by
  intro hd
  obtain ⟨t', ht', -, hprog, -⟩ := h.tracks.running hconn hd
  obtain rfl := Option.some.inj (ht.symm.trans ht')
  exact hprog.incomplete hfull

end Link

/-- A mark that one place of a list has and no other, is counted once. -/
theorem countP_eq_one {α : Type} {p : α → Bool} {k : ℕ} :
    ∀ {xs : List α}, k < xs.length → (∀ (i : ℕ) x, xs[i]? = some x → (p x = true ↔ i = k)) →
      xs.countP p = 1
  | [], hk, _ => absurd hk (Nat.not_lt_zero k)
  | x :: xs, hk, h => by
    have hx := h 0 x rfl
    cases k with
    | zero =>
      have hrest : xs.countP p = 0 := by
        rw [List.countP_eq_zero]
        intro y hy hp
        obtain ⟨i, hi⟩ := List.mem_iff_getElem?.mp hy
        exact absurd ((h (i + 1) y hi).mp hp) (Nat.succ_ne_zero i)
      rw [List.countP_cons, hrest, if_pos (hx.mpr rfl)]
    | succ k =>
      have hrest := countP_eq_one (p := p) (k := k) (Nat.lt_of_succ_lt_succ hk)
        fun i y hi => (h (i + 1) y hi).trans Nat.succ_inj
      rw [List.countP_cons, hrest, if_neg fun hp => absurd (hx.mp hp) (Nat.succ_ne_zero k).symm]

/-- A transfer that is complete has exactly one first and one last chunk. -/
theorem Framed.counts {t : Transfer} {chunks : List RedisDumpFileChunk} {stream rest : Bytes}
    (h : Framed t chunks stream rest) (hfull : bodies chunks = t.payload) :
    chunks.countP (fun c => decide c.IsFirstChunk) = 1 ∧
      chunks.countP (fun c => decide c.IsLastChunk) = 1 ∧ stream = t.bytes ++ rest := by
  have hne : chunks ≠ [] := fun hnil => by
    rw [hnil] at hfull
    exact t.nonempty hfull.symm
  have hpos := List.length_pos_iff.mpr hne
  refine ⟨countP_eq_one hpos fun i c hi => ?_, countP_eq_one (Nat.sub_lt hpos Nat.one_pos) fun i c hi => ?_, ?_⟩
  · rw [decide_eq_true_iff]
    exact h.first i c hi
  · rw [decide_eq_true_iff, h.last i c hi, and_iff_left hfull]
    omega
  · rw [h.bytes hne, hfull, Transfer.bytes]

/-- **Snapshot transfers.** A slave connects to its master any number of times, and is sent a
transfer on a connection that may be dropped anywhere. In every run whose steps are `Clean`, the
chunks of the transfer are framed as the transfer is; between two reads a transfer that has arrived
is complete; and a complete transfer has one first and one last chunk, and what was read behind its
payload is left for the command decoder. -/
theorem transfers_framed {acts : List LinkAct}
    (hclean : Run.Along Link.step Link.Clean Link.init acts) {s : Link}
    (hrun : Run.steps Link.step Link.init acts = some s) {t : Transfer} (ht : s.transfer = some t) :
    Framed t s.chunks s.stream s.rest ∧
      (s.connected → s.phase = .idle → t.bytes <+: s.stream → bodies s.chunks = t.payload) ∧
      (bodies s.chunks = t.payload →
        s.chunks.countP (fun c => decide c.IsFirstChunk) = 1 ∧
          s.chunks.countP (fun c => decide c.IsLastChunk) = 1 ∧ s.stream = t.bytes ++ s.rest ∧
          (s.connected → s.decoderType ≠ .dump)) := by
  have hok : s.Ok := Run.invariant (fun _ _ _ h hc hs => h.step hc hs) Link.Ok.init hclean hrun
  have hframed := hok.framed ht
  refine ⟨hframed, fun hconn hphase => hok.complete ht hconn hphase, fun hfull => ?_⟩
  obtain ⟨hfirst, hlast, hbytes⟩ := hframed.counts hfull
  exact ⟨hfirst, hlast, hbytes, fun hconn => hok.switched ht hconn hfull⟩

/-! ### A transfer that is broken off -/

/-- `+FULLRESYNC r 0` with its line end. -/
def fullResyncReply : Bytes :=
  [43, 70, 85, 76, 76, 82, 69, 83, 89, 78, 67, 32, 114, 32, 48, 13, 10]

/-- Two bytes, without newlines in front. -/
def twoBytes : Transfer := ⟨0, [97, 98], by decide, by decide⟩

/-- One byte. -/
def oneByte : Transfer := ⟨0, [99], by decide, by decide⟩

/-- The first connection is lost with one byte of two delivered; on the second a snapshot of one byte
is sent. -/
def brokenOff : List LinkAct :=
  [.connect, .read (fullResyncReply ++ [36, 50, 13, 10, 97]), .switchToDump 17 twoBytes, .decode,
    .decode, .finish, .drop, .connect, .read (fullResyncReply ++ [36, 49, 13, 10, 99]),
    .switchToDump 17 oneByte, .decode]

/-- The `$` of the second header is taken for the byte that is missing: it is the only chunk, marked
as the last and not as the first, and the command decoder gets the rest of the header. -/
theorem brokenOff_misframed :
    ∃ s, Run.steps Link.step Link.init brokenOff = some s ∧ s.transfer = some oneByte ∧
      s.stream = oneByte.bytes ∧ s.chunks = [⟨2, lastChunkFlag, [36]⟩] ∧
      s.decoderType = .command ∧ s.left = [49, 13, 10, 99] ∧
      ¬ Framed oneByte s.chunks s.stream s.rest := by
  refine ⟨_, rfl, rfl, rfl, rfl, rfl, rfl, fun h => ?_⟩
  have hfirst := (h.first 0 ⟨2, lastChunkFlag, [36]⟩ rfl).mpr rfl
  revert hfirst
  decide

/-- The same two bytes behind a newline, in four reads, and a byte of the next command. -/
def newlineTransfer : Transfer := ⟨1, [97, 98], by decide, by decide⟩

def fourReads : List LinkAct :=
  [.connect, .read fullResyncReply, .switchToDump 17 newlineTransfer, .decode, .finish,
    .read [10, 36], .decode, .decode, .finish, .read [50, 13, 10, 97], .decode, .decode, .finish,
    .read [98, 42], .decode]

theorem transfers_framed_fourReads :
    ∃ s, Run.steps Link.step Link.init fourReads = some s ∧ s.transfer = some newlineTransfer ∧
      bodies s.chunks = newlineTransfer.payload ∧
      Framed newlineTransfer s.chunks s.stream s.rest ∧
      (s.connected → s.phase = .idle → newlineTransfer.bytes <+: s.stream →
        bodies s.chunks = newlineTransfer.payload) ∧
      (bodies s.chunks = newlineTransfer.payload →
        s.chunks.countP (fun c => decide c.IsFirstChunk) = 1 ∧
          s.chunks.countP (fun c => decide c.IsLastChunk) = 1 ∧
          s.stream = newlineTransfer.bytes ++ s.rest ∧ (s.connected → s.decoderType ≠ .dump)) :=
  ⟨_, rfl, rfl, rfl, @transfers_framed fourReads (by decide) _ rfl _ rfl⟩

end Dump
end Comms
