import Comms.Codec.CommandStream
import Comms.Codec.HeapBuffer

/-!
# Decoding a stream of frames

`StackFrameDecoder` of `channel/codec/stack_frame_decoder.hpp`, for any `Decode`. What a channel
reads goes to its input buffer; frames are decoded from there while nothing waits in the cumulation
buffer, and from the cumulation buffer otherwise.

* `callDecode` — the loop of `CallDecode`; it counts the readable bytes in a `uint32`;
* `Receiver.messageReceived` — one read of the socket, and `MessageReceived`;
* `Piece` — a stretch of the stream that one call of `Decode` takes, wherever the reads cut it;
* `Receiver.Tracks.messageReceived` — a read of such a stream fires the frames it completes;
* `callDecode_endless` — the loop does not end while 2^32 bytes of one frame wait for the rest;
* `Receiver.receiveAll_fires` — whatever follows such a stretch, its frames are the first to be
  fired.

A pointer into a buffer reads on behind the write index. What it finds there is a parameter of
every read.
-/

namespace Comms

/-- What a call of `Decode` does. -/
inductive Answer (τ : Type)
  /-- `true`, with the message and the buffer behind it. -/
  | frame (msg : τ) (buffer : Buffer)
  /-- `false`. -/
  | none (buffer : Buffer)
  /-- An exception leaves the function. -/
  | fault
deriving DecidableEq

namespace Answer

variable {τ κ : Type}

/-- The answer with its message read as something else. -/
def map (f : τ → κ) : Answer τ → Answer κ
  | .frame msg buffer => .frame (f msg) buffer
  | .none buffer => .none buffer
  | .fault => .fault

/-- The answer that moves on, with a message or without one. -/
def of : Option τ → Buffer → Answer τ
  | some msg, buffer => .frame msg buffer
  | Option.none, buffer => .none buffer

end Answer

section Decoder

variable {τ : Type} (decode : Buffer → Answer τ)

/-! ### The loop -/

/-- `CallDecode`, in at most `fuel` rounds, with the messages fired so far. `oldReadableBytes` is a
`uint32`; what it is compared with is a `size_t`. -/
def callDecode : ℕ → Buffer → List τ → Option (List τ × Buffer)
  | 0, _, _ => none
  | fuel + 1, cumulation, fired =>
    if cumulation.Readable then
      let oldReadableBytes := cumulation.readableBytes % 2 ^ 32
      match decode cumulation with
      | .none buffer =>
        -- more data is required, or previous data has been discarded
        if oldReadableBytes = buffer.readableBytes then some (fired, buffer)
        else callDecode fuel buffer fired
      | .frame msg buffer => callDecode fuel buffer (fired ++ [msg])
      | .fault => none
    else some (fired, cumulation)

/-- One read of the socket. `ReadFD` returns the number of bytes as an `int`. -/
structure Delivery where
  chunk : Bytes
  small : chunk.length < 2 ^ 31
  /-- What lies behind the write index of the input buffer. -/
  behindInput : Bytes
  /-- What lies behind the write index of the cumulation buffer. -/
  behindCumulation : Bytes

/-- The buffer as `Decode` sees it, when `behind` lies behind its write index. -/
def HeapBuffer.seen (h : HeapBuffer) (behind : Bytes) : Buffer :=
  { mem := h.mem.take h.writeIdx ++ behind, bufferLen := h.mem.length, writeIdx := h.writeIdx
    readIdx := h.readIdx, inHeap := true }

/-- A channel's input buffer, the decoder's `m_cumulation`, and the messages fired so far. -/
structure Receiver (τ : Type) where
  input : HeapBuffer
  cumulation : HeapBuffer
  fired : List τ

namespace Receiver

/-- A new channel. -/
def init : Receiver τ := ⟨.empty, .empty, []⟩

/-- `OnRead` when `readv` delivers the chunk, and `MessageReceived`. -/
def messageReceived (fuel : ℕ) (r : Receiver τ) (d : Delivery) : Option (Receiver τ) :=
  let input := r.input.discardReadedBytes.readFD d.chunk
  if r.cumulation.Readable then
    let cumulation := r.cumulation.discardReadedBytes.writeFrom input
    match callDecode decode fuel (cumulation.seen d.behindCumulation) r.fired with
    | none => none
    | some (fired, buffer) =>
      some ⟨input.drained, cumulation.setReadIndex buffer.readIdx, fired⟩
  else
    match callDecode decode fuel (input.seen d.behindInput) r.fired with
    | none => none
    | some (fired, buffer) =>
      let input := input.setReadIndex buffer.readIdx
      if input.Readable then some ⟨input.drained, r.cumulation.writeFrom input, fired⟩
      else some ⟨input, r.cumulation, fired⟩

/-- One read after the other. -/
def receiveAll (fuel : ℕ) (r : Receiver τ) (ds : List Delivery) : Option (Receiver τ) :=
  ds.foldlM (messageReceived decode fuel) r

end Receiver

/-- The bytes of a list of reads. -/
def delivered (ds : List Delivery) : Bytes := ds.flatMap (·.chunk)

theorem HeapBuffer.Reads.seen {h : HeapBuffer} {bs : Bytes} (hr : h.Reads bs) (behind : Bytes) :
    (h.seen behind).Reads bs where
  idx := hr.idx
  mem := by
    have hidx := hr.idx
    have hbytes : (h.mem.drop h.readIdx).take bs.length = bs := by
      have := hr.readable
      rwa [HeapBuffer.readable, hr.readableBytes] at this
    refine ⟨behind, ?_⟩
    change (h.mem.take h.writeIdx ++ behind).drop h.readIdx = bs ++ behind
    rw [List.drop_append_of_le_length (by rw [List.length_take]; have := h.fits; omega),
      List.drop_take, show h.writeIdx - h.readIdx = bs.length by omega, hbytes]

/-- `Decode`, where no other call counts than those that meet the condition. -/
def guarded (ok : Buffer → Prop) [DecidablePred ok] (b : Buffer) : Answer τ :=
  if ok b then decode b else .fault

section Loop

variable {decode}

/-- The messages fired so far stay. -/
theorem callDecode_fired {fuel : ℕ} {b : Buffer} {fired : List τ} {r : List τ × Buffer}
    (h : callDecode decode fuel b fired = some r) : fired <+: r.1 := by
  induction fuel generalizing b fired with
  | zero => cases h
  | succ fuel ih =>
    unfold callDecode at h
    split at h
    swap
    · obtain rfl := Option.some.inj h
      exact List.prefix_rfl
    dsimp only at h
    split at h
    · split at h
      · obtain rfl := Option.some.inj h
        exact List.prefix_rfl
      · exact ih h
    · exact (List.prefix_append _ _).trans (ih h)
    · cases h

/-- A loop that has ended is not changed by more fuel. -/
theorem callDecode_mono {fuel : ℕ} (k : ℕ) {b : Buffer} {fired : List τ} {r : List τ × Buffer}
    (h : callDecode decode fuel b fired = some r) :
    callDecode decode (k + fuel) b fired = some r := by
  induction fuel generalizing b fired with
  | zero => cases h
  | succ fuel ih =>
    rw [← Nat.add_assoc]
    unfold callDecode at h ⊢
    split at h
    swap
    · next hr => rwa [if_neg hr]
    next hr =>
    rw [if_pos hr]
    dsimp only at h ⊢
    split at h
    · split at h
      · next heq => rwa [if_pos heq]
      · next hne =>
        rw [if_neg hne]
        exact ih h
    · exact ih h
    · cases h

/-- A loop whose calls all meet the condition is the loop itself. -/
theorem callDecode_guarded {ok : Buffer → Prop} [DecidablePred ok] {fuel : ℕ} {b : Buffer}
    {fired : List τ} {r : List τ × Buffer}
    (h : callDecode (guarded decode ok) fuel b fired = some r) :
    callDecode decode fuel b fired = some r := by
  induction fuel generalizing b fired with
  | zero => cases h
  | succ fuel ih =>
    unfold callDecode at h ⊢
    split at h
    swap
    · next hr => rwa [if_neg hr]
    next hr =>
    rw [if_pos hr]
    unfold guarded at h
    by_cases hok : ok b
    · rw [if_pos hok] at h
      dsimp only at h ⊢
      split at h
      · split at h
        · next heq => rwa [if_pos heq]
        · next hne =>
          rw [if_neg hne]
          exact ih h
      · exact ih h
      · cases h
    · rw [if_neg hok] at h
      cases h

/-! ### Messages read as something else -/

variable {κ : Type} (f : τ → κ)

theorem callDecode_map (fuel : ℕ) (b : Buffer) (fired : List τ) :
    callDecode (fun b => (decode b).map f) fuel b (fired.map f) =
      (callDecode decode fuel b fired).map (Prod.map (List.map f) id) := by
  induction fuel generalizing b fired with
  | zero => rfl
  | succ fuel ih =>
    unfold callDecode
    split
    swap
    · rfl
    dsimp only
    cases hd : decode b with
    | none buffer =>
      dsimp only [Answer.map]
      split
      · rfl
      · exact ih buffer fired
    | frame msg buffer =>
      have hstep := ih buffer (fired ++ [msg])
      rw [List.map_append] at hstep
      exact hstep
    | fault => rfl

/-- The receiver with its messages read as something else. -/
def Receiver.map (r : Receiver τ) : Receiver κ := ⟨r.input, r.cumulation, r.fired.map f⟩

theorem Receiver.messageReceived_map (fuel : ℕ) (r : Receiver τ) (d : Delivery) :
    (r.map f).messageReceived (fun b => (decode b).map f) fuel d =
      (r.messageReceived decode fuel d).map (Receiver.map f) := by
  unfold Receiver.messageReceived Receiver.map
  dsimp only
  split
  · rw [callDecode_map]
    cases callDecode decode fuel _ r.fired with
    | none => rfl
    | some result => rfl
  · rw [callDecode_map]
    cases callDecode decode fuel _ r.fired with
    | none => rfl
    | some result =>
      dsimp only [Option.map_some, Prod.map, id]
      rw [apply_ite (Option.map _)]
      rfl

theorem Receiver.receiveAll_map (fuel : ℕ) (r : Receiver τ) (ds : List Delivery) :
    (r.map f).receiveAll (fun b => (decode b).map f) fuel ds =
      (r.receiveAll decode fuel ds).map (Receiver.map f) := by
  induction ds generalizing r with
  | nil => rfl
  | cons d ds ih =>
    change ((r.map f).messageReceived (fun b => (decode b).map f) fuel d).bind
        (·.receiveAll (fun b => (decode b).map f) fuel ds) =
      ((r.messageReceived decode fuel d).bind (·.receiveAll decode fuel ds)).map (Receiver.map f)
    rw [Receiver.messageReceived_map]
    cases r.messageReceived decode fuel d with
    | none => rfl
    | some r₁ => exact ih r₁

end Loop

/-! ### Pieces of a stream -/

/-- A stretch of the stream that one call of `Decode` takes, with or without firing a message,
whatever lies behind it. Of a part of it nothing is taken. -/
structure Piece where
  bytes : Bytes
  fires : Option τ
  ne : bytes ≠ []
  whole : ∀ {b : Buffer} {rest : Bytes}, b.Reads (bytes ++ rest) →
    decode b = .of fires (b.advanceReadIndex bytes.length)
  part : ∀ {b : Buffer} {p : Bytes}, b.Reads p → p ≠ [] → ProperPrefix p bytes →
    decode b = .none b
  /-- The loop notices that something was skipped. -/
  short : fires = none → bytes.length < 2 ^ 32

namespace Piece

variable {decode}

/-- The bytes of a list of pieces. -/
def stream (ps : List (Piece decode)) : Bytes := ps.flatMap Piece.bytes

/-- The messages of a list of pieces. -/
def messages (ps : List (Piece decode)) : List τ := ps.filterMap Piece.fires

/-- What is readable is empty or a part of the next piece. -/
def Waits : List (Piece decode) → Bytes → Prop
  | [], p => p = []
  | piece :: _, p => ProperPrefix p piece.bytes

theorem waits_nil (ps : List (Piece decode)) : Waits ps [] := by
  cases ps with
  | nil => rfl
  | cons piece ps => exact ⟨List.nil_prefix, piece.ne.symm⟩

theorem stream_cons (piece : Piece decode) (ps : List (Piece decode)) :
    stream (piece :: ps) = piece.bytes ++ stream ps := rfl

theorem stream_singleton (piece : Piece decode) : stream [piece] = piece.bytes :=
  List.append_nil _

theorem stream_append (ps qs : List (Piece decode)) : stream (ps ++ qs) = stream ps ++ stream qs :=
  List.flatMap_append

theorem messages_append (ps qs : List (Piece decode)) :
    messages (ps ++ qs) = messages ps ++ messages qs :=
  List.filterMap_append

theorem length_le_stream (ps : List (Piece decode)) : ps.length ≤ (stream ps).length := by
  induction ps with
  | nil => exact Nat.le_refl 0
  | cons piece ps ih =>
    have hpos := List.length_pos_iff.mpr piece.ne
    rw [stream_cons, List.length_append, List.length_cons]
    omega

/-- A front of a stream of pieces consists of pieces and a part of the next one, or it is all of
them and more. -/
theorem front_cases (ps : List (Piece decode)) {q tail : Bytes} (h : q <+: stream ps ++ tail) :
    (∃ done left p, ps = done ++ left ∧ q = stream done ++ p ∧ Waits left p) ∨
      ∃ t, q = stream ps ++ t := by
  induction ps generalizing q with
  | nil => exact .inr ⟨q, rfl⟩
  | cons piece ps ih =>
    rw [stream_cons, List.append_assoc] at h
    by_cases hp : ProperPrefix q piece.bytes
    · exact .inl ⟨[], piece :: ps, q, rfl, rfl, hp⟩
    -- the piece is all there
    have hpiece : piece.bytes <+: q := by
      rcases List.prefix_or_prefix_of_prefix h (List.prefix_append _ _) with hq | hq
      · have heq : q = piece.bytes := not_not.mp fun hne => hp ⟨hq, hne⟩
        exact heq ▸ List.prefix_rfl
      · exact hq
    obtain ⟨q', rfl⟩ := hpiece
    rcases ih ((List.prefix_append_right_inj _).mp h) with ⟨done, left, p, hps, hq, hw⟩ | ⟨t, ht⟩
    · refine .inl ⟨piece :: done, left, p, by rw [hps, List.cons_append], ?_, hw⟩
      rw [hq, stream_cons, List.append_assoc]
    · refine .inr ⟨t, ?_⟩
      rw [ht, stream_cons, List.append_assoc]

/-- The loop takes whole pieces, one in each round. -/
theorem callDecode_stream (ps : List (Piece decode)) {b : Buffer} {rest : Bytes} (fuel : ℕ)
    (fired : List τ) (h : b.Reads (stream ps ++ rest)) :
    callDecode decode (ps.length + fuel) b fired =
      callDecode decode fuel (b.advanceReadIndex (stream ps).length) (fired ++ messages ps) := by
  induction ps generalizing b fired with
  | nil =>
    change callDecode decode (0 + fuel) b fired =
      callDecode decode fuel (b.advanceReadIndex 0) (fired ++ [])
    rw [Nat.zero_add, Buffer.advanceReadIndex_zero, List.append_nil]
  | cons piece ps ih =>
    rw [stream_cons, List.append_assoc] at h
    have hidx := h.idx
    have hlen := List.length_pos_iff.mpr piece.ne
    rw [List.length_append] at hidx
    have hreadable : b.Readable := by
      show b.readIdx < b.writeIdx
      omega
    have hround : callDecode decode (ps.length + fuel + 1) b fired =
        callDecode decode (ps.length + fuel) (b.advanceReadIndex piece.bytes.length)
          (fired ++ messages [piece]) := by
      rw [callDecode, if_pos hreadable, piece.whole h]
      have hout : messages [piece] = piece.fires.toList := by
        cases hf : piece.fires <;> simp [messages, hf]
      rw [hout]
      cases hf : piece.fires with
      | some msg => rfl
      | none =>
        -- fewer bytes are readable, and too few were skipped for a `uint32` to miss them
        have hshort := piece.short hf
        have hne : b.readableBytes % 2 ^ 32 ≠
            (b.advanceReadIndex piece.bytes.length).readableBytes := by
          rw [h.readableBytes, h.advance.readableBytes, List.length_append]
          omega
        change (if b.readableBytes % 2 ^ 32 =
          (b.advanceReadIndex piece.bytes.length).readableBytes then _ else _) = _
        rw [if_neg hne, Option.toList_none, List.append_nil]
    rw [List.length_cons, Nat.add_right_comm, hround, ih _ h.advance,
      Buffer.advanceReadIndex_advance, stream_cons, List.length_append, List.append_assoc]
    rw [← messages_append, List.singleton_append]

/-- A part of a piece is left alone, and the loop ends. -/
theorem callDecode_waits {ps : List (Piece decode)} {b : Buffer} {p : Bytes} (hw : Waits ps p)
    (h : b.Reads p) (hsmall : p.length < 2 ^ 32) (fuel : ℕ) (fired : List τ) :
    callDecode decode (fuel + 1) b fired = some (fired, b) := by
  rw [callDecode]
  by_cases hp : p = []
  · rw [if_neg (h.readable.not.mpr (not_not.mpr hp))]
  cases ps with
  | nil => exact absurd hw hp
  | cons piece ps =>
    rw [if_pos (h.readable.mpr hp), piece.part h hp hw]
    change (if b.readableBytes % 2 ^ 32 = b.readableBytes then _ else _) = _
    rw [h.readableBytes, if_pos (Nat.mod_eq_of_lt hsmall)]

/-- **An endless loop.** While 2^32 bytes of a piece or more wait for its rest, the loop takes the
`uint32` for progress. -/
theorem callDecode_endless {ps : List (Piece decode)} {b : Buffer} {p : Bytes} (hw : Waits ps p)
    (h : b.Reads p) (hlarge : 2 ^ 32 ≤ p.length) (fuel : ℕ) (fired : List τ) :
    callDecode decode fuel b fired = none := by
  have hp : p ≠ [] := List.length_pos_iff.mp (by omega)
  cases ps with
  | nil => exact absurd hw hp
  | cons piece ps =>
    induction fuel with
    | zero => rfl
    | succ fuel ih =>
      rw [callDecode, if_pos (h.readable.mpr hp), piece.part h hp hw]
      change (if b.readableBytes % 2 ^ 32 = b.readableBytes then _ else _) = _
      rw [h.readableBytes, if_neg (by omega)]
      exact ih

end Piece

/-! ### Reads -/

section Reads

variable {decode}

open Piece

/-- Behind the read so many bytes of the next frame are there: `n` bytes came, of these frames. -/
def unfinished : List Bytes → ℕ → ℕ
  | [], n => n
  | frame :: frames, n =>
    if frame.length ≤ n then unfinished frames (n - frame.length) else n

theorem unfinished_eq {ps done left : List (Piece decode)} {p : Bytes} (hps : ps = done ++ left)
    (hw : Waits left p) :
    unfinished (ps.map Piece.bytes) (stream done ++ p).length = p.length := by
  subst hps
  induction done with
  | nil =>
    cases left with
    | nil => rfl
    | cons piece left =>
      change unfinished (piece.bytes :: left.map Piece.bytes) p.length = p.length
      rw [unfinished, if_neg (not_le.mpr hw.length_lt)]
  | cons piece done ih =>
    rw [List.cons_append, List.map_cons, unfinished, stream_cons, List.append_assoc, List.length_append,
      if_pos (Nat.le_add_right _ _), Nat.add_sub_cancel_left, ih]

namespace Receiver

/-- **Keeping track.** Of a stream of pieces these bytes have been received: the frames that are
complete have been fired, and the rest waits in the cumulation buffer. -/
structure Tracks (ps : List (Piece decode)) (received : Bytes) (r : Receiver τ) : Prop where
  input : r.input.Reads []
  pending : ∃ done left p, ps = done ++ left ∧ received = stream done ++ p ∧ Waits left p ∧
    r.fired = messages done ∧ r.cumulation.Reads p

theorem tracks_init (ps : List (Piece decode)) : Tracks ps [] (init : Receiver τ) where
  input := ⟨rfl, rfl⟩
  pending := ⟨[], ps, [], rfl, rfl, waits_nil ps, rfl, ⟨rfl, rfl⟩⟩

/-- The buffer the loop decodes from. -/
def loopBuffer (r : Receiver τ) (d : Delivery) : Buffer :=
  let input := r.input.discardReadedBytes.readFD d.chunk
  if r.cumulation.Readable then
    (r.cumulation.discardReadedBytes.writeFrom input).seen d.behindCumulation
  else input.seen d.behindInput

/-- It holds what was waiting and what was read. -/
theorem loopBuffer_reads {r : Receiver τ} {p : Bytes} (hin : r.input.Reads [])
    (hcum : r.cumulation.Reads p) (d : Delivery) : (r.loopBuffer d).Reads (p ++ d.chunk) := by
  have hread : (r.input.discardReadedBytes.readFD d.chunk).Reads d.chunk :=
    HeapBuffer.readFD_reads (HeapBuffer.discardReadedBytes_reads hin) d.chunk
  unfold loopBuffer
  dsimp only
  split
  · have hwrite : (r.cumulation.discardReadedBytes.writeFrom
        (r.input.discardReadedBytes.readFD d.chunk)).Reads (p ++ d.chunk) := by
      unfold HeapBuffer.writeFrom
      rw [hread.readable]
      exact HeapBuffer.write_reads (HeapBuffer.discardReadedBytes_reads hcum) d.chunk
    exact hwrite.seen _
  · next hr =>
    have hnil : p = [] := not_not.mp (hcum.readable_iff.not.mp hr)
    rw [hnil, List.nil_append]
    exact hread.seen _

theorem messageReceived_none {r : Receiver τ} {d : Delivery} {fuel : ℕ}
    (h : callDecode decode fuel (r.loopBuffer d) r.fired = none) :
    r.messageReceived decode fuel d = none := by
  unfold loopBuffer at h
  unfold messageReceived
  dsimp only at h ⊢
  split at h
  · next hr => rw [if_pos hr, h]
  · next hr => rw [if_neg hr, h]

theorem messageReceived_some {r r' : Receiver τ} {d : Delivery} {fuel : ℕ}
    (h : r.messageReceived decode fuel d = some r') :
    ∃ buffer, callDecode decode fuel (r.loopBuffer d) r.fired = some (r'.fired, buffer) := by
  unfold messageReceived at h
  unfold loopBuffer
  dsimp only at h ⊢
  split at h
  · next hr =>
    rw [if_pos hr]
    split at h
    · cases h
    · next fired buffer heq =>
      obtain rfl := Option.some.inj h
      exact ⟨buffer, heq⟩
  · next hr =>
    rw [if_neg hr]
    split at h
    · cases h
    · next fired buffer heq =>
      refine ⟨buffer, heq.trans ?_⟩
      split at h <;> rw [← Option.some.inj h]

/-- What a read does is decided by its loop. -/
theorem messageReceived_congr {decode' : Buffer → Answer τ} {r r' : Receiver τ} {d : Delivery}
    {fuel fuel' : ℕ} (hloop : ∀ x, callDecode decode fuel (r.loopBuffer d) r.fired = some x →
      callDecode decode' fuel' (r.loopBuffer d) r.fired = some x)
    (h : r.messageReceived decode fuel d = some r') :
    r.messageReceived decode' fuel' d = some r' := by
  unfold loopBuffer at hloop
  unfold messageReceived at h ⊢
  dsimp only at h hloop ⊢
  split at h
  · next hr =>
    rw [if_pos hr] at hloop ⊢
    split at h
    · cases h
    · next heq =>
      rw [hloop _ heq]
      exact h
  · next hr =>
    rw [if_neg hr] at hloop ⊢
    split at h
    · cases h
    · next heq =>
      rw [hloop _ heq]
      exact h

/-- A read that has come to an end is not changed by more fuel. -/
theorem messageReceived_mono {r r' : Receiver τ} {d : Delivery} {fuel : ℕ} (k : ℕ)
    (h : r.messageReceived decode fuel d = some r') :
    r.messageReceived decode (k + fuel) d = some r' :=
  messageReceived_congr (fun _ hx => callDecode_mono k hx) h

/-- A read whose calls of `Decode` all meet the condition is the read itself. -/
theorem messageReceived_guarded {ok : Buffer → Prop} [DecidablePred ok] {r r' : Receiver τ}
    {d : Delivery} {fuel : ℕ} (h : r.messageReceived (guarded decode ok) fuel d = some r') :
    r.messageReceived decode fuel d = some r' :=
  messageReceived_congr (fun _ hx => callDecode_guarded hx) h

/-- The loop takes `xs`; the rest waits in the cumulation buffer. -/
theorem messageReceived_reads {r : Receiver τ} {d : Delivery} {fuel : ℕ} {p xs ys : Bytes}
    {fired : List τ} (hin : r.input.Reads []) (hcum : r.cumulation.Reads p)
    (hbytes : p ++ d.chunk = xs ++ ys)
    (h : callDecode decode fuel (r.loopBuffer d) r.fired =
      some (fired, (r.loopBuffer d).advanceReadIndex xs.length)) :
    ∃ r', r.messageReceived decode fuel d = some r' ∧ r'.fired = fired ∧ r'.input.Reads [] ∧
      r'.cumulation.Reads ys := by
  have hread : (r.input.discardReadedBytes.readFD d.chunk).Reads d.chunk :=
    HeapBuffer.readFD_reads (HeapBuffer.discardReadedBytes_reads hin) d.chunk
  unfold loopBuffer at h
  unfold messageReceived
  dsimp only at h ⊢
  generalize r.input.discardReadedBytes.readFD d.chunk = input at hread h ⊢
  split at h
  · next hr =>
    rw [if_pos hr, h]
    have hwrite : (r.cumulation.discardReadedBytes.writeFrom input).Reads (xs ++ ys) := by
      unfold HeapBuffer.writeFrom
      rw [hread.readable, ← hbytes]
      exact HeapBuffer.write_reads (HeapBuffer.discardReadedBytes_reads hcum) d.chunk
    exact ⟨_, rfl, rfl, HeapBuffer.drained_reads hread, hwrite.advance⟩
  · next hr =>
    have hnil : p = [] := not_not.mp (hcum.readable_iff.not.mp hr)
    subst hnil
    rw [List.nil_append] at hbytes
    rw [hbytes] at hread
    have hrest := hread.advance
    rw [if_neg hr, h]
    dsimp only
    -- what is left of the input moves to the cumulation buffer, if anything is left
    split
    · refine ⟨_, rfl, rfl, HeapBuffer.drained_reads hrest, ?_⟩
      have hwrite := HeapBuffer.write_reads hcum ys
      rw [List.nil_append] at hwrite
      unfold HeapBuffer.writeFrom
      exact hrest.readable.symm ▸ hwrite
    · next hnot =>
      have hys : ys = [] := not_not.mp (hrest.readable_iff.not.mp hnot)
      subst hys
      exact ⟨_, rfl, rfl, hrest, hcum⟩

/-- What the loop finds behind a read: the next pieces and a part of one. -/
theorem Tracks.next {ps : List (Piece decode)} {received : Bytes} {r : Receiver τ}
    (h : Tracks ps received r) (d : Delivery) (hfront : received ++ d.chunk <+: stream ps) :
    ∃ done next left p p', ps = (done ++ next) ++ left ∧
      received ++ d.chunk = stream (done ++ next) ++ p' ∧ Waits left p' ∧
      r.fired = messages done ∧ r.cumulation.Reads p ∧ p ++ d.chunk = stream next ++ p' := by
  obtain ⟨done, left, p, hps, hrec, hw, hfired, hcum⟩ := h.pending
  rw [hps, stream_append, hrec, List.append_assoc, List.prefix_append_right_inj] at hfront
  have hsplit : ∃ next left' p', left = next ++ left' ∧ p ++ d.chunk = stream next ++ p' ∧
      Waits left' p' := by
    have hfront' : p ++ d.chunk <+: stream left ++ [] := by rwa [List.append_nil]
    rcases front_cases left hfront' with hcase | ⟨t, ht⟩
    · exact hcase
    · refine ⟨left, [], [], (List.append_nil _).symm, ?_, rfl⟩
      rw [ht] at hfront
      obtain rfl : t = [] := by
        have hlen := hfront.length_le
        rw [List.length_append] at hlen
        exact List.length_eq_zero_iff.mp (by omega)
      exact ht
  obtain ⟨next, left', p', hleft, hbytes, hw'⟩ := hsplit
  refine ⟨done, next, left', p, p', ?_, ?_, hw', hfired, hcum, hbytes⟩
  · rw [hps, hleft, List.append_assoc]
  · rw [hrec, List.append_assoc, hbytes, stream_append, List.append_assoc]

/-- **One read.** A stream of pieces is tracked on with the bytes read, as long as less than 2^32
bytes of an unfinished piece wait. -/
theorem Tracks.messageReceived {ps : List (Piece decode)} {received : Bytes} {r : Receiver τ}
    (h : Tracks ps received r) (d : Delivery) (hfront : received ++ d.chunk <+: stream ps)
    (hsmall : unfinished (ps.map Piece.bytes) (received ++ d.chunk).length < 2 ^ 32) {fuel : ℕ}
    (hfuel : (received ++ d.chunk).length < fuel) :
    ∃ r', r.messageReceived decode fuel d = some r' ∧ Tracks ps (received ++ d.chunk) r' := by
  obtain ⟨done, next, left, p, p', hps, hrec, hw, hfired, hcum, hbytes⟩ := h.next d hfront
  have hreads := loopBuffer_reads h.input hcum d
  rw [hrec, unfinished_eq hps hw] at hsmall
  rw [hbytes] at hreads
  have hloop : callDecode decode fuel (r.loopBuffer d) r.fired = some
      (messages (done ++ next), (r.loopBuffer d).advanceReadIndex (stream next).length) := by
    have hle := length_le_stream next
    have hlen : (stream next).length ≤ (received ++ d.chunk).length := by
      rw [hrec, stream_append]
      simp only [List.length_append]
      omega
    obtain ⟨k, rfl⟩ : ∃ k, fuel = next.length + (k + 1) := ⟨fuel - next.length - 1, by omega⟩
    rw [callDecode_stream next _ _ hreads, callDecode_waits hw hreads.advance hsmall, hfired,
      messages_append]
  obtain ⟨r', hr', hf, hin', hcum'⟩ := messageReceived_reads h.input hcum hbytes hloop
  exact ⟨r', hr', hin', done ++ next, left, p', hps, hrec, hw, hf, hcum'⟩

/-- With more bytes waiting the read does not come to an end. -/
theorem Tracks.endless {ps : List (Piece decode)} {received : Bytes} {r : Receiver τ}
    (h : Tracks ps received r) (d : Delivery) (hfront : received ++ d.chunk <+: stream ps)
    (hlarge : 2 ^ 32 ≤ unfinished (ps.map Piece.bytes) (received ++ d.chunk).length) (fuel : ℕ) :
    r.messageReceived decode fuel d = none := by
  obtain ⟨done, next, left, p, p', hps, hrec, hw, hfired, hcum, hbytes⟩ := h.next d hfront
  have hreads := loopBuffer_reads h.input hcum d
  rw [hrec, unfinished_eq hps hw] at hlarge
  rw [hbytes] at hreads
  apply messageReceived_none
  have hnone : callDecode decode (next.length + fuel) (r.loopBuffer d) r.fired = none := by
    rw [callDecode_stream next _ _ hreads]
    exact callDecode_endless hw hreads.advance hlarge _ _
  cases hr : callDecode decode fuel (r.loopBuffer d) r.fired with
  | none => rfl
  | some result =>
    rw [callDecode_mono next.length hr] at hnone
    cases hnone

/-- A read that comes to an end tracks the stream on. -/
theorem Tracks.of_messageReceived {ps : List (Piece decode)} {received : Bytes}
    {r r' : Receiver τ} (h : Tracks ps received r) {d : Delivery} {fuel : ℕ}
    (hfront : received ++ d.chunk <+: stream ps)
    (hr : r.messageReceived decode fuel d = some r') : Tracks ps (received ++ d.chunk) r' := by
  have hsmall : unfinished (ps.map Piece.bytes) (received ++ d.chunk).length < 2 ^ 32 := by
    by_contra hlarge
    rw [h.endless d hfront (not_lt.mp hlarge) fuel] at hr
    cases hr
  have hfuel : (received ++ d.chunk).length < (received ++ d.chunk).length + 1 + fuel := by omega
  obtain ⟨r₁, hr₁, h₁⟩ := h.messageReceived d hfront hsmall hfuel
  rw [messageReceived_mono _ hr] at hr₁
  exact Option.some.inj hr₁ ▸ h₁

/-- The messages fired so far stay. -/
theorem messageReceived_fired {r r' : Receiver τ} {d : Delivery} {fuel : ℕ}
    (h : r.messageReceived decode fuel d = some r') : r.fired <+: r'.fired := by
  obtain ⟨buffer, hloop⟩ := messageReceived_some h
  exact callDecode_fired hloop

theorem receiveAll_cons (r : Receiver τ) (d : Delivery) (ds : List Delivery) (fuel : ℕ) :
    r.receiveAll decode fuel (d :: ds) =
      (r.messageReceived decode fuel d).bind (·.receiveAll decode fuel ds) := rfl

theorem receiveAll_fired {ds : List Delivery} {r r' : Receiver τ} {fuel : ℕ}
    (h : r.receiveAll decode fuel ds = some r') : r.fired <+: r'.fired := by
  induction ds generalizing r with
  | nil =>
    obtain rfl := Option.some.inj h
    exact List.prefix_rfl
  | cons d ds ih =>
    rw [receiveAll_cons] at h
    obtain ⟨r₁, h₁, h₂⟩ := Option.bind_eq_some_iff.mp h
    exact (messageReceived_fired h₁).trans (ih h₂)

/-- Reads whose calls of `Decode` all meet the condition are the reads themselves. -/
theorem receiveAll_guarded {ok : Buffer → Prop} [DecidablePred ok] {ds : List Delivery}
    {r r' : Receiver τ} {fuel : ℕ} (h : r.receiveAll (guarded decode ok) fuel ds = some r') :
    r.receiveAll decode fuel ds = some r' := by
  induction ds generalizing r with
  | nil => exact h
  | cons d ds ih =>
    rw [receiveAll_cons] at h ⊢
    obtain ⟨r₁, h₁, h₂⟩ := Option.bind_eq_some_iff.mp h
    rw [messageReceived_guarded h₁]
    exact ih h₂

/-- **Any number of reads.** Enough fuel is one round for each byte, and one to end the loop. -/
theorem Tracks.receiveAll {ps : List (Piece decode)} {received : Bytes} {r : Receiver τ}
    (h : Tracks ps received r) (ds : List Delivery)
    (hfront : received ++ delivered ds <+: stream ps)
    (hsmall : ∀ n, unfinished (ps.map Piece.bytes)
      (received ++ delivered (ds.take n)).length < 2 ^ 32) {fuel : ℕ}
    (hfuel : (received ++ delivered ds).length < fuel) :
    ∃ r', r.receiveAll decode fuel ds = some r' ∧ Tracks ps (received ++ delivered ds) r' := by
  induction ds generalizing received r with
  | nil =>
    refine ⟨r, rfl, ?_⟩
    rwa [show delivered [] = [] from rfl, List.append_nil]
  | cons d ds ih =>
    have hcons : received ++ delivered (d :: ds) = received ++ d.chunk ++ delivered ds :=
      (List.append_assoc _ _ _).symm
    rw [hcons] at hfront hfuel
    have hpre : received ++ d.chunk <+: received ++ d.chunk ++ delivered ds :=
      List.prefix_append _ _
    have hone : unfinished (ps.map Piece.bytes) (received ++ d.chunk).length < 2 ^ 32 := by
      have h1 := hsmall 1
      rwa [List.take_succ_cons, List.take_zero, show delivered [d] = d.chunk from
        List.append_nil _] at h1
    obtain ⟨r₁, hr₁, h₁⟩ := h.messageReceived d (hpre.trans hfront) hone
      (lt_of_le_of_lt hpre.length_le hfuel)
    obtain ⟨r', hr', h'⟩ := ih h₁ hfront (fun n => by
      have hn := hsmall (n + 1)
      rwa [List.take_succ_cons, show delivered (d :: ds.take n) = d.chunk ++ delivered (ds.take n)
        from rfl, ← List.append_assoc] at hn) hfuel
    refine ⟨r', ?_, hcons ▸ h'⟩
    rw [receiveAll_cons, hr₁]
    exact hr'

/-- Reads that come to an end never left 2^32 bytes of a piece waiting. -/
theorem Tracks.small {ps : List (Piece decode)} {received : Bytes} {r r' : Receiver τ}
    (h : Tracks ps received r) {ds : List Delivery} {fuel : ℕ}
    (hfront : received ++ delivered ds <+: stream ps)
    (hr : r.receiveAll decode fuel ds = some r')
    (hfirst : unfinished (ps.map Piece.bytes) received.length < 2 ^ 32) (n : ℕ) :
    unfinished (ps.map Piece.bytes) (received ++ delivered (ds.take n)).length < 2 ^ 32 := by
  induction ds generalizing received r n with
  | nil => rwa [List.take_nil, show delivered [] = [] from rfl, List.append_nil]
  | cons d ds ih =>
    cases n with
    | zero => rwa [List.take_zero, show delivered [] = [] from rfl, List.append_nil]
    | succ n =>
      have hcons : received ++ delivered (d :: ds) = received ++ d.chunk ++ delivered ds :=
        (List.append_assoc _ _ _).symm
      rw [hcons] at hfront
      have hpre := (List.prefix_append (received ++ d.chunk) (delivered ds)).trans hfront
      rw [receiveAll_cons] at hr
      obtain ⟨r₁, hr₁, hr₂⟩ := Option.bind_eq_some_iff.mp hr
      -- the first read has come to an end, so it left less
      have hone : unfinished (ps.map Piece.bytes) (received ++ d.chunk).length < 2 ^ 32 := by
        by_contra hlarge
        rw [h.endless d hpre (not_lt.mp hlarge) fuel] at hr₁
        cases hr₁
      have h₁ := h.of_messageReceived hpre hr₁
      rw [List.take_succ_cons, show delivered (d :: ds.take n) = d.chunk ++ delivered (ds.take n)
        from rfl, ← List.append_assoc]
      exact ih h₁ hfront hr₂ hone n

/-- Nothing waits for a piece when nothing was received. -/
theorem unfinished_zero (ps : List (Piece decode)) : unfinished (ps.map Piece.bytes) 0 = 0 := by
  cases ps with
  | nil => rfl
  | cons piece ps =>
    have hpos := List.length_pos_iff.mpr piece.ne
    rw [List.map_cons, unfinished, if_neg (by omega)]

/-- **A whole stream.** The messages of the pieces are fired, and nothing is left, in whatever reads
the stream arrives, if and only if no read leaves 2^32 bytes of a piece waiting for its rest. -/
theorem receiveAll_pieces {ps : List (Piece decode)} {ds : List Delivery}
    (hds : delivered ds = stream ps) :
    (∃ fuel r, (init : Receiver τ).receiveAll decode fuel ds = some r ∧ r.fired = messages ps ∧
      r.input.readableBytes = 0 ∧ r.cumulation.readableBytes = 0) ↔
    ∀ n, unfinished (ps.map Piece.bytes) (delivered (ds.take n)).length < 2 ^ 32 := by
  have hall : [] ++ delivered ds = stream ps := by rw [List.nil_append, hds]
  constructor
  · rintro ⟨fuel, r, hr, -⟩ n
    exact (tracks_init ps).small (hall ▸ List.prefix_rfl) hr
      (by rw [List.length_nil, unfinished_zero]; decide) n
  · intro hsmall
    obtain ⟨r, hr, htracks⟩ := (tracks_init ps).receiveAll ds (hall ▸ List.prefix_rfl) hsmall
      (Nat.lt_succ_self _)
    -- the bytes received are all the pieces, so that nothing waits
    obtain ⟨done, left, p, hps, hrec, hw, hfired, hcum⟩ := htracks.pending
    rw [hall, hps, stream_append, List.append_cancel_left_eq] at hrec
    have hleft : left = [] ∧ p = [] := by
      cases left with
      | nil => exact ⟨rfl, hw⟩
      | cons piece left =>
        have hlt := hw.length_lt
        rw [← hrec, stream_cons, List.length_append] at hlt
        omega
    obtain ⟨rfl, rfl⟩ := hleft
    rw [List.append_nil] at hps
    exact ⟨_, r, hr, by rw [hfired, hps], htracks.input.readableBytes, hcum.readableBytes⟩

/-- **The first frames.** Whatever follows a stream of pieces, their messages are the first to be
fired. -/
theorem Tracks.receiveAll_fires {ps : List (Piece decode)} {received tail : Bytes}
    {r r' : Receiver τ} (h : Tracks ps received r) {ds : List Delivery} {fuel : ℕ}
    (hall : received ++ delivered ds = stream ps ++ tail)
    (hr : r.receiveAll decode fuel ds = some r') : messages ps <+: r'.fired := by
  induction ds generalizing received r with
  | nil =>
    -- everything has been received, so nothing waits for a piece of the stream
    obtain rfl := Option.some.inj hr
    obtain ⟨done, left, p, hps, hrec, hw, hfired, -⟩ := h.pending
    rw [show delivered [] = [] from rfl, List.append_nil, hrec, hps, stream_append,
      List.append_assoc, List.append_cancel_left_eq] at hall
    cases left with
    | nil =>
      have hall : messages ps = r.fired := by rw [hps, List.append_nil, hfired]
      exact hall ▸ List.prefix_rfl
    | cons piece left =>
      have hlt := hw.length_lt
      rw [hall, stream_cons] at hlt
      simp only [List.length_append] at hlt
      omega
  | cons d ds ih =>
    have hcons : received ++ delivered (d :: ds) = received ++ d.chunk ++ delivered ds :=
      (List.append_assoc _ _ _).symm
    rw [hcons] at hall
    rw [receiveAll_cons] at hr
    obtain ⟨r₁, hr₁, hr₂⟩ := Option.bind_eq_some_iff.mp hr
    have hpre : received ++ d.chunk <+: stream ps ++ tail := hall ▸ List.prefix_append _ _
    rcases List.prefix_or_prefix_of_prefix hpre (List.prefix_append _ _) with hfront | ⟨t, ht⟩
    · exact ih (h.of_messageReceived hfront hr₁) hall hr₂
    -- the read goes beyond the stream: the loop takes what is left of it
    obtain ⟨done, left, p, hps, hrec, hw, hfired, hcum⟩ := h.pending
    have hreads := loopBuffer_reads h.input hcum d
    have hbytes : p ++ d.chunk = stream left ++ t := by
      rwa [hrec, hps, stream_append, List.append_assoc, List.append_assoc,
        List.append_cancel_left_eq, eq_comm] at ht
    rw [hbytes] at hreads
    obtain ⟨buffer, hloop⟩ := messageReceived_some hr₁
    have hloop' := callDecode_mono left.length hloop
    rw [callDecode_stream left _ _ hreads] at hloop'
    have hpre₁ := callDecode_fired hloop'
    rw [hfired, ← messages_append, ← hps] at hpre₁
    exact hpre₁.trans (receiveAll_fired hr₂)

end Receiver
end Reads
end Decoder
end Comms
