import Comms.Codec.Encoder
import Comms.Command.Args
import Mathlib.Data.List.Basic

/-!
# Receiving a snapshot

After `+FULLRESYNC` a master sends its snapshot: any number of newlines while it is still being
written, then `$n\r\n` and the `n` bytes of the file, and behind them the commands.
`RedisDumpFileChunkDecoder` hands the file on in chunks as they arrive.

* `RedisDumpFileChunkDecoder.decode` — one call of `Decode`;
* `Transfer.sent_cases` — where what was read of a transfer ends;
* `Delivering` — the chunks so far are marked as they should be, and are what the payload starts
  with;
* `decode_progress` — one call goes on with a transfer, or the header is not all there;
* `decode_waiting` — a decoder that waits for the rest of a payload takes what comes for it.
-/

namespace Comms

/-! ### The readable bytes of a buffer -/

/-- The readable bytes; none when the read index has run past the write index. -/
def Buffer.unread (b : Buffer) : Bytes := Circular.slice b.mem b.readIdx b.readableBytes

theorem Buffer.Reads.unread {b : Buffer} {bs : Bytes} (h : b.Reads bs) : b.unread = bs := by
  obtain ⟨behind, hb⟩ := h.mem
  unfold Buffer.unread
  rw [h.readableBytes]
  change (b.rawReadBuffer).take bs.length = bs
  rw [hb, List.take_left]

theorem Buffer.unread_eq_nil {b : Buffer} (h : ¬ b.Readable) : b.unread = [] := by
  have h0 : b.readableBytes = 0 := by
    unfold Buffer.Readable at h
    unfold Buffer.readableBytes
    omega
  rw [Buffer.unread, h0, Circular.slice_zero]

namespace Dump

/-! ### The decoder -/

/-- `RedisDumpFileChunk`. -/
structure RedisDumpFileChunk where
  len : ℤ
  flag : UInt32
  chunk : Bytes
deriving DecidableEq, Repr

/-- `FIRST_CHUNK_FLAG`. -/
def firstChunkFlag : UInt32 := 1

/-- `LAST_CHUNK_FLAG`. -/
def lastChunkFlag : UInt32 := 2

namespace RedisDumpFileChunk

/-- `RedisDumpFileChunk()`. -/
def empty : RedisDumpFileChunk := ⟨0, 0, []⟩

/-- The message behind a header: the length, and `FIRST_CHUNK_FLAG`. -/
def withHeader (len : ℤ) : RedisDumpFileChunk := ⟨len, empty.flag ||| firstChunkFlag, []⟩

/-- `IsFirstChunk`. -/
def IsFirstChunk (c : RedisDumpFileChunk) : Prop := c.flag &&& firstChunkFlag = firstChunkFlag

/-- `IsLastChunk`. -/
def IsLastChunk (c : RedisDumpFileChunk) : Prop := c.flag &&& lastChunkFlag = lastChunkFlag

instance (c : RedisDumpFileChunk) : Decidable c.IsFirstChunk := inferInstanceAs (Decidable (_ = _))

instance (c : RedisDumpFileChunk) : Decidable c.IsLastChunk := inferInstanceAs (Decidable (_ = _))

end RedisDumpFileChunk

/-- The fields of `RedisDumpFileChunkDecoder`. -/
structure RedisDumpFileChunkDecoder where
  waitingChunkLen : ℤ
  allChunkLen : ℤ
deriving DecidableEq, Repr

/-- The loop over the newlines in front of a header. It looks at the memory, not at the readable
bytes. -/
def skipNewlines (b : Buffer) : Buffer :=
  b.advanceReadIndex (b.rawReadBuffer.takeWhile (· = 10)).length

/-- What `Decode` finds in front of the chunk. -/
inductive Header
  /-- No line yet. -/
  | more (buffer : Buffer)
  /-- A line that is no number; `return -1` is `true`. -/
  | bad (buffer : Buffer)
  | found (len : ℤ) (buffer : Buffer)
deriving DecidableEq

/-- The branch `m_waiting_chunk_len == 0`. The type byte is not checked. -/
def decodeHeader (buffer : Buffer) : Header :=
  let buffer := skipNewlines buffer
  match buffer.indexOf kCRLF buffer.readIdx buffer.writeIdx with
  | none => .more buffer
  | some crlf =>
    -- `ReadByte(type)`; a line has been found, so there is a byte
    let buffer := buffer.advanceReadIndex 1
    match rawToInt64 (Circular.slice buffer.mem buffer.readIdx (crlf - buffer.readIdx)) with
    | none => .bad buffer
    | some len => .found len (buffer.setReadIndex (crlf + 2))

namespace RedisDumpFileChunkDecoder

/-- The branch `buffer.Readable()`. The length is signed and compared with an unsigned one. -/
def decodeChunk (d : RedisDumpFileChunkDecoder) (b : Buffer) (msg : RedisDumpFileChunk) :
    RedisDumpFileChunk × RedisDumpFileChunkDecoder × Buffer :=
  if b.Readable then
    let chunklen : ℕ :=
      if d.waitingChunkLen < 0 ∨ (b.readableBytes : ℤ) < d.waitingChunkLen then b.readableBytes
      else d.waitingChunkLen.toNat
    let waiting := d.waitingChunkLen - chunklen
    ({ len := d.allChunkLen
       flag := if waiting = 0 then msg.flag ||| lastChunkFlag else msg.flag
       chunk := Circular.slice b.mem b.readIdx chunklen },
      { d with waitingChunkLen := waiting },
      b.advanceReadIndex chunklen)
  else (msg, d, b)

/-- `Decode`: the chunk, if it returns `true`, and what is left of the decoder and the buffer. -/
def decode (d : RedisDumpFileChunkDecoder) (b : Buffer) :
    Option RedisDumpFileChunk × RedisDumpFileChunkDecoder × Buffer :=
  if d.waitingChunkLen = 0 then
    match decodeHeader b with
    | .more b => (none, d, b)
    | .bad b => (some .empty, d, b)
    | .found len b =>
      let (msg, d, b) := decodeChunk ⟨len, len⟩ b (.withHeader len)
      (some msg, d, b)
  else
    let (msg, d, b) := decodeChunk d b .empty
    (some msg, d, b)

end RedisDumpFileChunkDecoder

/-! ### A transfer -/

/-- A snapshot as the master sends it. Its length is an `int64`. -/
structure Transfer where
  newlines : ℕ
  payload : Bytes
  nonempty : payload ≠ []
  small : payload.length < 2 ^ 63
deriving DecidableEq

/-- One is the start of the other. -/
def Comparable (xs ys : Bytes) : Prop := xs <+: ys ∨ ys <+: xs

instance (xs ys : Bytes) : Decidable (Comparable xs ys) := inferInstanceAs (Decidable (_ ∨ _))

namespace Transfer

/-- `$n\r\n`. -/
def header (t : Transfer) : Bytes := 36 :: (decimal t.payload.length ++ kCRLF)

/-- What stands in front of the payload. -/
def opening (t : Transfer) : Bytes := List.replicate t.newlines 10 ++ t.header

/-- The transfer as a whole. -/
def bytes (t : Transfer) : Bytes := t.opening ++ t.payload

/-- The bytes are the start of the transfer, or all of it and what the master sends after it. -/
def Sent (t : Transfer) (stream : Bytes) : Prop := Comparable stream t.bytes

instance (t : Transfer) (stream : Bytes) : Decidable (t.Sent stream) :=
  inferInstanceAs (Decidable (Comparable _ _))

end Transfer

/-! ### The header -/

theorem Comparable.of_append {ps xs ys : Bytes} (h : Comparable (ps ++ xs) (ps ++ ys)) :
    Comparable xs ys :=
  h.imp (List.prefix_append_right_inj ps).mp (List.prefix_append_right_inj ps).mp

/-- Bytes that are comparable with `xs ++ ys` end inside `xs`, or go on behind it. -/
theorem Comparable.append_cases {ps xs ys : Bytes} (h : Comparable ps (xs ++ ys)) :
    (ps <+: xs ∧ ps.length < xs.length) ∨ ∃ rest, ps = xs ++ rest ∧ Comparable rest ys := by
  have hxs : xs <+: xs ++ ys := List.prefix_append xs ys
  by_cases hlen : xs.length ≤ ps.length
  · have hpre : xs <+: ps := by
      rcases h with h | h
      · exact List.prefix_of_prefix_length_le hxs h hlen
      · exact hxs.trans h
    obtain ⟨rest, rfl⟩ := hpre
    exact .inr ⟨rest, rfl, h.of_append⟩
  · refine .inl ⟨?_, not_le.mp hlen⟩
    rcases h with h | h
    · exact List.prefix_of_prefix_length_le h hxs (le_of_lt (not_le.mp hlen))
    · exact absurd (hxs.trans h).length_le hlen

/-- A printed number does not start with a zero. -/
theorem decimalLoop_headD {fuel n : ℕ} (h0 : 0 < n) (hn : n < fuel) :
    49 ≤ (decimalLoop fuel n).headD 0 ∧ (decimalLoop fuel n).headD 0 ≤ 57 := by
  induction fuel generalizing n with
  | zero => exact absurd hn (Nat.not_lt_zero n)
  | succ fuel ih =>
    rw [decimalLoop]
    split
    · next hlt =>
      have hdigit := toNat_digit (Nat.mod_lt n (by decide : 0 < 10))
      rw [Nat.mod_eq_of_lt hlt] at hdigit ⊢
      simp only [List.nil_append, List.headD_cons, UInt8.le_iff_toNat_le, hdigit]
      exact ⟨by simp; omega, by simp; omega⟩
    · next hge =>
      obtain ⟨hlo, hhi⟩ := ih (n := n / 10) (by omega) (by omega)
      cases hl : decimalLoop fuel (n / 10) with
      | nil =>
        rw [hl] at hlo
        exact absurd hlo (by decide)
      | cons d ds =>
        rw [hl] at hlo hhi
        exact ⟨hlo, hhi⟩

/-- `raw_toint64` takes a printed number for one. -/
theorem decimal_digits {n : ℕ} (h0 : 0 < n) :
    ¬ ((decimal n).headD 0 < 49 ∨ 57 < (decimal n).headD 0 ∨ !(decimal n).all isdigit) := by
  obtain ⟨hlo, hhi⟩ := decimalLoop_headD h0 (Nat.lt_succ_self n)
  have hall : (decimal n).all isdigit = true := List.all_eq_true.mpr isdigit_decimalLoop
  rw [hall]
  rintro (h | h | h)
  · exact UInt8.not_lt.mpr hlo h
  · exact UInt8.not_lt.mpr hhi h
  · cases h

/-- `raw_toint64` reads back what `%d` prints. -/
theorem rawToInt64_decimal {n : ℕ} (h0 : 0 < n) (hn : n < 2 ^ 63) :
    rawToInt64 (decimal n) = some (n : ℤ) := by
  have hvalue : digitsValue (decimal n) = n := digitsValue_decimalLoop (Nat.lt_succ_self n)
  obtain ⟨hlo, -⟩ := decimalLoop_headD h0 (Nat.lt_succ_self n)
  change 49 ≤ (decimal n).headD 0 at hlo
  have hne : decimal n ≠ [48] := fun h => by
    rw [h] at hlo
    exact absurd hlo (by decide)
  have hsign : (decimal n).headD 0 ≠ 45 := fun h => by
    rw [h] at hlo
    exact absurd hlo (by decide)
  unfold rawToInt64
  rw [if_neg hne]
  simp only [hsign, if_false, hvalue]
  rw [if_neg (decimal_digits h0), if_neg (by omega)]

/-- The same for a number with a minus sign. -/
theorem rawToInt64_minus {n : ℕ} (h0 : 0 < n) (hn : n ≤ 2 ^ 63) :
    rawToInt64 (45 :: decimal n) = some (-(n : ℤ)) := by
  have hvalue : digitsValue (decimal n) = n := digitsValue_decimalLoop (Nat.lt_succ_self n)
  have hne : 45 :: decimal n ≠ [48] := fun h => absurd (List.cons.inj h).1 (by decide)
  unfold rawToInt64
  rw [if_neg hne]
  simp only [List.headD_cons, if_true, List.drop_succ_cons, List.drop_zero, hvalue]
  rw [if_neg (decimal_digits h0), if_neg (by omega)]

namespace Transfer

variable (t : Transfer)

theorem payload_pos : 0 < t.payload.length := List.length_pos_iff.mpr t.nonempty

/-- The line without its end. -/
def line : Bytes := 36 :: decimal t.payload.length

theorem header_eq : t.header = t.line ++ kCRLF := rfl

theorem line_no_cr : (13 : UInt8) ∉ t.line := by
  intro h
  rcases List.mem_cons.mp h with h | h
  · cases h
  · exact absurd (isdigit_decimalLoop _ h) (by decide)

theorem newlines_lt : t.newlines < t.opening.length := by
  simp [opening, header]

/-- What was read of a transfer when `j` newlines have been skipped: newlines only, or a part of the
header, or the header and what follows. -/
theorem sent_cases {j : ℕ} {pending : Bytes} (hj : j ≤ t.newlines)
    (h : t.Sent (List.replicate j 10 ++ pending)) :
    (∃ m, j + m ≤ t.newlines ∧ pending = List.replicate m 10) ∨
    (∃ part, part <+: t.header ∧ part.length < t.header.length ∧ part ≠ [] ∧
      pending = List.replicate (t.newlines - j) 10 ++ part) ∨
    (∃ rest, pending = List.replicate (t.newlines - j) 10 ++ (t.header ++ rest) ∧
      Comparable rest t.payload) := by
  have hbytes : t.bytes = List.replicate j 10 ++
      (List.replicate (t.newlines - j) 10 ++ (t.header ++ t.payload)) := by
    have hsplit : List.replicate t.newlines (10 : UInt8)
        = List.replicate j 10 ++ List.replicate (t.newlines - j) 10 := by
      rw [← List.replicate_add, Nat.add_sub_cancel' hj]
    simp only [bytes, opening, hsplit, List.append_assoc]
  unfold Sent at h
  rw [hbytes] at h
  rcases h.of_append.append_cases with ⟨hpre, hlt⟩ | ⟨rest, rfl, hrest⟩
  · rw [List.length_replicate] at hlt
    exact .inl ⟨pending.length, by omega, (List.prefix_replicate_iff.mp hpre).2⟩
  rcases hrest.append_cases with ⟨hpre, hlt⟩ | ⟨rest, rfl, hpayload⟩
  · by_cases hnil : rest = []
    · subst hnil
      exact .inl ⟨t.newlines - j, by omega, List.append_nil _⟩
    · exact .inr (.inl ⟨rest, hpre, hlt, hnil, rfl⟩)
  · exact .inr (.inr ⟨rest, rfl, hpayload⟩)

end Transfer

/-! ### One call of the decoder -/

/-- The bytes that were delivered. -/
def bodies (chunks : List RedisDumpFileChunk) : Bytes := chunks.flatMap (·.chunk)

@[simp] theorem bodies_concat (chunks : List RedisDumpFileChunk) (c : RedisDumpFileChunk) :
    bodies (chunks ++ [c]) = bodies chunks ++ c.chunk := by
  simp [bodies]

/-- A buffer is where another one was, but for the read index. -/
structure SameBlock (b b' : Buffer) : Prop where
  mem : b'.mem = b.mem
  writeIdx : b'.writeIdx = b.writeIdx

/-- A buffer with something to read. -/
theorem reads_unread {b : Buffer} (hfits : b.writeIdx ≤ b.mem.length) (h : b.unread ≠ []) :
    b.Reads b.unread := by
  have hr : b.Readable := by
    by_contra hno
    exact h (Buffer.unread_eq_nil hno)
  unfold Buffer.Readable at hr
  have hlen : b.unread.length = b.readableBytes :=
    Circular.slice_length (by unfold Buffer.readableBytes; omega)
  refine ⟨by rw [hlen]; unfold Buffer.readableBytes; omega, b.rawReadBuffer.drop b.readableBytes, ?_⟩
  exact (List.take_append_drop _ _).symm

/-- Newlines that something else follows. -/
theorem skipNewlines_of_reads {b : Buffer} {n : ℕ} {c : UInt8} {rest : Bytes} (hc : c ≠ 10)
    (hr : b.Reads (List.replicate n 10 ++ c :: rest)) :
    skipNewlines b = b.advanceReadIndex n ∧ (skipNewlines b).Reads (c :: rest) := by
  obtain ⟨behind, hb⟩ := hr.mem
  have htake : (b.rawReadBuffer.takeWhile (· = 10)).length = n := by
    rw [hb, List.append_assoc, List.takeWhile_append_of_pos (by simp)]
    simp [hc]
  have hadv := hr.advance
  rw [List.length_replicate] at hadv
  have heq : skipNewlines b = b.advanceReadIndex n := by rw [skipNewlines, htake]
  exact ⟨heq, heq ▸ hadv⟩

/-- Nothing but newlines: the loop stops behind them or later. -/
theorem skipNewlines_unread {b : Buffer} (hfits : b.writeIdx ≤ b.mem.length) {n : ℕ}
    (h : b.unread = List.replicate n 10) : ¬ (skipNewlines b).Readable := by
  have hreach : b.readableBytes ≤ (b.rawReadBuffer.takeWhile (· = 10)).length := by
    by_cases hnil : b.unread = []
    · have hlen : b.unread.length = b.readableBytes := by
        unfold Buffer.unread Circular.slice Buffer.readableBytes
        simp only [List.length_take, List.length_drop]
        omega
      rw [← hlen, hnil]
      exact Nat.zero_le _
    · obtain ⟨behind, hb⟩ := (reads_unread hfits hnil).mem
      have hlen := (reads_unread hfits hnil).readableBytes
      rw [hb, hlen, h, List.takeWhile_append_of_pos (by simp)]
      simp
  unfold skipNewlines Buffer.Readable
  unfold Buffer.readableBytes at hreach
  rw [Buffer.advanceReadIndex_ofNat, Buffer.advanceReadIndex_writeIdx]
  omega

theorem indexOf_of_not_readable {b : Buffer} (h : ¬ b.Readable) :
    b.indexOf kCRLF b.readIdx b.writeIdx = none := by
  unfold Buffer.Readable at h
  unfold Buffer.indexOf
  rw [if_neg (by decide), if_pos (.inl (by simp [kCRLF]; omega))]

namespace Transfer

variable {t : Transfer}

/-- A part of the header has no line end. -/
theorem indexOf_part {b : Buffer} {part : Bytes} (hpre : part <+: t.header)
    (hlt : part.length < t.header.length) (hr : b.Reads part) :
    b.indexOf kCRLF b.readIdx b.writeIdx = none := by
  rw [header_eq] at hpre
  have hlen : part.length ≤ t.line.length + 1 := by
    rw [header_eq, List.length_append] at hlt
    have h2 : kCRLF.length = 2 := rfl
    omega
  by_cases hline : part.length ≤ t.line.length
  · have hsub : part <+: t.line :=
      List.prefix_of_prefix_length_le hpre (List.prefix_append _ _) hline
    have hno : (13 : UInt8) ∉ part := fun h => t.line_no_cr (hsub.subset h)
    have hr' : b.Reads (part ++ []) := by rwa [List.append_nil]
    have hnone := @Buffer.Reads.indexOf_none b part [] [10] 13 hr' hno
    rwa [hr.idx] at hnone
  · have hwhole : part = t.line ++ [13] := by
      obtain ⟨rest, hrest⟩ := hpre
      have htake := congrArg (List.take part.length) hrest
      rw [List.take_left, show part.length = t.line.length + 1 by omega, List.take_append,
        List.take_of_length_le (by omega), Nat.add_sub_cancel_left] at htake
      exact htake
    rw [hwhole] at hr
    exact hr.indexOf_cr t.line_no_cr

/-- A header that is all there. -/
theorem decodeHeader_whole {b : Buffer} {n : ℕ} {rest : Bytes}
    (hr : b.Reads (List.replicate n 10 ++ (t.header ++ rest))) :
    ∃ b', decodeHeader b = .found t.payload.length b' ∧ SameBlock b b' ∧ b'.Reads rest := by
  have hshape : t.header ++ rest = 36 :: (decimal t.payload.length ++ 13 :: 10 :: rest) := by
    simp [header, kCRLF]
  rw [hshape] at hr
  obtain ⟨heq, hskip⟩ := skipNewlines_of_reads (by decide) hr
  have hline : (skipNewlines b).Reads (t.line ++ 13 :: 10 :: rest) := hskip
  have hindex := hline.indexOf_crlf t.line_no_cr
  obtain ⟨-, hdigits⟩ := hskip.readByte
  -- the digits lie between the type byte and the line end
  have hslice : Circular.slice (skipNewlines b).mem ((skipNewlines b).readIdx + 1)
      (decimal t.payload.length).length = decimal t.payload.length := by
    have h := hline.slice (i := 1) (n := (decimal t.payload.length).length) (by simp [line]; omega)
    rw [h]
    simp [Circular.slice, line]
  have hafter : ((skipNewlines b).advanceReadIndex (t.line ++ kCRLF).length).Reads rest := by
    apply Buffer.Reads.advance
    rwa [List.append_assoc]
  refine ⟨(skipNewlines b).advanceReadIndex (t.line ++ kCRLF).length, ?_, ?_, hafter⟩
  · unfold decodeHeader
    change (match (skipNewlines b).indexOf kCRLF _ _ with | none => _ | some crlf => _) = _
    rw [show kCRLF = [13, 10] from rfl, hindex]
    change (match rawToInt64 (Circular.slice (skipNewlines b).mem ((skipNewlines b).readIdx + 1)
      ((skipNewlines b).readIdx + t.line.length - ((skipNewlines b).readIdx + 1))) with
      | none => _ | some len => _) = _
    have hwidth : (skipNewlines b).readIdx + t.line.length - ((skipNewlines b).readIdx + 1)
        = (decimal t.payload.length).length := by
      simp [line]
      omega
    rw [hwidth, hslice, rawToInt64_decimal t.payload_pos t.small]
    have hidx : (skipNewlines b).readIdx + t.line.length + 2
        = (skipNewlines b).readIdx + (t.line ++ kCRLF).length := by
      rw [List.length_append]
      rfl
    exact congrArg (fun i => Header.found _ ((skipNewlines b).setReadIndex i)) hidx
  · rw [heq]
    exact ⟨rfl, rfl⟩

end Transfer

/-- The chunks of a transfer whose payload is being delivered. -/
structure Delivering (t : Transfer) (d : RedisDumpFileChunkDecoder)
    (chunks : List RedisDumpFileChunk) (stream pending : Bytes) : Prop where
  begun : chunks ≠ []
  bytes : stream = t.opening ++ bodies chunks ++ pending
  delivered : bodies chunks <+: t.payload
  waiting : d.waitingChunkLen = (t.payload.length : ℤ) - (bodies chunks).length
  first : ∀ (i : ℕ) c, chunks[i]? = some c → (c.IsFirstChunk ↔ i = 0)
  last : ∀ (i : ℕ) c, chunks[i]? = some c →
    (c.IsLastChunk ↔ i + 1 = chunks.length ∧ bodies chunks = t.payload)

/-- How far a transfer is that is not complete. -/
inductive Progress (t : Transfer) (d : RedisDumpFileChunkDecoder)
    (chunks : List RedisDumpFileChunk) (stream pending : Bytes) : Prop
  | header (j : ℕ) (hj : j ≤ t.newlines) (hd : d.waitingChunkLen = 0) (hchunks : chunks = [])
      (hstream : stream = List.replicate j 10 ++ pending)
  | body (hpos : 0 < d.waitingChunkLen) (h : Delivering t d chunks stream pending)

/-- What a chunk is made of that follows the message `msg`. -/
structure ChunkOf (d : RedisDumpFileChunkDecoder) (b : Buffer) (msg c : RedisDumpFileChunk)
    (d' : RedisDumpFileChunkDecoder) (b' : Buffer) : Prop where
  block : SameBlock b b'
  bytes : c.chunk ++ b'.unread = b.unread
  waiting : d'.waitingChunkLen = d.waitingChunkLen - c.chunk.length
  fits : 0 ≤ d'.waitingChunkLen
  first : c.IsFirstChunk ↔ msg.IsFirstChunk
  last : c.IsLastChunk ↔ d'.waitingChunkLen = 0

theorem isFirstChunk_withHeader (len : ℤ) : (RedisDumpFileChunk.withHeader len).IsFirstChunk := by
  change (RedisDumpFileChunk.empty.flag ||| firstChunkFlag) &&& firstChunkFlag = firstChunkFlag
  decide

/-- Setting `LAST_CHUNK_FLAG` leaves the other flag alone. -/
theorem flag_last {flag : UInt32} (h : flag = 0 ∨ flag = firstChunkFlag) :
    (flag &&& lastChunkFlag ≠ lastChunkFlag) ∧
      (flag ||| lastChunkFlag) &&& lastChunkFlag = lastChunkFlag ∧
      ((flag ||| lastChunkFlag) &&& firstChunkFlag = firstChunkFlag ↔
        flag &&& firstChunkFlag = firstChunkFlag) := by
  rcases h with rfl | rfl <;> decide

theorem chunkOf_decodeChunk {d : RedisDumpFileChunkDecoder} {b : Buffer} {msg : RedisDumpFileChunk}
    (hfits : b.writeIdx ≤ b.mem.length) (hpos : 0 < d.waitingChunkLen) (hmsg : msg.chunk = [])
    (hflag : msg.flag = 0 ∨ msg.flag = firstChunkFlag) :
    ∃ c d' b', d.decodeChunk b msg = (c, d', b') ∧ ChunkOf d b msg c d' b' := by
  obtain ⟨hnolast, hlast, hfirst⟩ := flag_last hflag
  unfold RedisDumpFileChunkDecoder.decodeChunk
  split
  swap
  · refine ⟨msg, d, b, rfl, ⟨rfl, rfl⟩, by rw [hmsg, List.nil_append], ?_, hpos.le, Iff.rfl, ?_⟩
    · rw [hmsg, List.length_nil, Nat.cast_zero, sub_zero]
    · exact iff_of_false hnolast hpos.ne'
  next hr =>
  have hlen : ∀ n, n ≤ b.readableBytes → (Circular.slice b.mem b.readIdx n).length = n := by
    intro n hn
    unfold Buffer.Readable at hr
    unfold Buffer.readableBytes at hn
    exact Circular.slice_length (by omega)
  -- the chunk is no longer than what is readable
  generalize hn : (if d.waitingChunkLen < 0 ∨ (b.readableBytes : ℤ) < d.waitingChunkLen
    then b.readableBytes else d.waitingChunkLen.toNat) = n
  have hle : n ≤ b.readableBytes ∧ (n : ℤ) ≤ d.waitingChunkLen := by
    split at hn <;> omega
  refine ⟨_, _, _, rfl, ⟨rfl, rfl⟩, ?_, ?_, ?_, ?_, ?_⟩
  · have hrest : (b.advanceReadIndex n).unread
        = Circular.slice b.mem (b.readIdx + n) (b.readableBytes - n) := by
      unfold Buffer.unread Buffer.readableBytes
      rw [Buffer.advanceReadIndex_ofNat, Buffer.advanceReadIndex_mem, Buffer.advanceReadIndex_writeIdx,
        Nat.sub_add_eq]
    rw [hrest, Circular.slice_append, Nat.add_sub_cancel' hle.1]
    rfl
  · simp only [hlen n hle.1]
  · simpa using hle.2
  · unfold RedisDumpFileChunk.IsFirstChunk
    dsimp only
    split
    · exact hfirst
    · exact Iff.rfl
  · unfold RedisDumpFileChunk.IsLastChunk
    dsimp only
    split
    · next h0 => exact iff_of_true hlast h0
    · next h0 => exact iff_of_false hnolast h0

/-- The flags of the chunks go on with the next one. -/
theorem flags_concat {P : RedisDumpFileChunk → ℕ → Prop} {chunks : List RedisDumpFileChunk}
    {c : RedisDumpFileChunk} (h : ∀ (i : ℕ) c, chunks[i]? = some c → P c i)
    (hc : P c chunks.length) : ∀ (i : ℕ) c', (chunks ++ [c])[i]? = some c' → P c' i := by
  intro i c' hi
  by_cases hlt : i < chunks.length
  · rw [List.getElem?_append_left hlt] at hi
    exact h i c' hi
  · rw [List.getElem?_append_right (not_lt.mp hlt)] at hi
    obtain ⟨h0, rfl⟩ := List.getElem?_eq_some_iff.mp hi
    rw [List.length_singleton] at h0
    obtain rfl : i = chunks.length := by omega
    simpa using hc

/-- A chunk goes on with a transfer that has been delivered up to it. `hmsg` says whether it is the
first one. -/
theorem Delivering.concat {t : Transfer} {d d' : RedisDumpFileChunkDecoder} {b b' : Buffer}
    {msg c : RedisDumpFileChunk} {chunks : List RedisDumpFileChunk} {stream : Bytes}
    (hsent : t.Sent stream) (hbytes : stream = t.opening ++ bodies chunks ++ b.unread)
    (hwaiting : d.waitingChunkLen = (t.payload.length : ℤ) - (bodies chunks).length)
    (hfirst : ∀ (i : ℕ) c, chunks[i]? = some c → (c.IsFirstChunk ↔ i = 0))
    (hlast : ∀ (i : ℕ) c, chunks[i]? = some c → ¬ c.IsLastChunk)
    (hmsg : msg.IsFirstChunk ↔ chunks = []) (hc : ChunkOf d b msg c d' b') :
    Delivering t d' (chunks ++ [c]) stream b'.unread := by
  have hwait' : d'.waitingChunkLen = (t.payload.length : ℤ) - (bodies (chunks ++ [c])).length := by
    rw [hc.waiting, hwaiting, bodies_concat, List.length_append]
    push_cast
    ring
  have hstream : stream = t.opening ++ bodies (chunks ++ [c]) ++ b'.unread := by
    rw [hbytes, bodies_concat, ← hc.bytes]
    simp only [List.append_assoc]
  -- what was delivered is no longer than the payload, and stands where the payload stands
  have hdel : bodies (chunks ++ [c]) <+: t.payload := by
    have hfit := hc.fits
    unfold Transfer.Sent Transfer.bytes at hsent
    rw [hstream, List.append_assoc] at hsent
    have hle : (bodies (chunks ++ [c])).length ≤ t.payload.length := by omega
    rcases hsent.of_append with h | h
    · exact (List.prefix_append _ _).trans h
    · exact List.prefix_of_prefix_length_le (List.prefix_append _ _) h hle
  have hdone : d'.waitingChunkLen = 0 ↔ bodies (chunks ++ [c]) = t.payload := by
    constructor
    · intro h0
      exact hdel.eq_of_length (by omega)
    · intro h
      rw [hwait', h, sub_self]
  refine ⟨by simp, hstream, hdel, hwait', ?_, ?_⟩
  · refine flags_concat hfirst ?_
    rw [hc.first, hmsg, List.length_eq_zero_iff]
  · refine flags_concat (fun i c' hi => ?_) ?_
    · have hlt := (List.getElem?_eq_some_iff.mp hi).1
      refine iff_of_false (hlast i c' hi) ?_
      rw [List.length_append, List.length_singleton]
      omega
    · rw [hc.last, hdone, List.length_append, List.length_singleton]
      simp

section Calls

variable {t : Transfer} {d : RedisDumpFileChunkDecoder} {b : Buffer}
  {chunks : List RedisDumpFileChunk} {stream : Bytes}

/-- A call in the middle of the file hands on what is there. -/
theorem decode_body (hfits : b.writeIdx ≤ b.mem.length) (hsent : t.Sent stream)
    (hpos : 0 < d.waitingChunkLen) (h : Delivering t d chunks stream b.unread) :
    ∃ c d' b', d.decode b = (some c, d', b') ∧ SameBlock b b' ∧
      Delivering t d' (chunks ++ [c]) stream b'.unread := by
  obtain ⟨c, d', b', heq, hc⟩ := @chunkOf_decodeChunk d b .empty hfits hpos rfl (.inl rfl)
  refine ⟨c, d', b', ?_, hc.block, ?_⟩
  · rw [RedisDumpFileChunkDecoder.decode, if_neg hpos.ne', heq]
  · refine Delivering.concat hsent h.bytes h.waiting h.first ?_ ?_ hc
    · -- no chunk before was the last one, since some of the file is missing
      intro i c' hi hlast
      have hfull := ((h.last i c' hi).mp hlast).2
      have hw := h.waiting
      rw [hfull, sub_self] at hw
      exact hpos.ne' hw
    · exact iff_of_false (by decide) h.begun

/-- A call that finds newlines only skips them. -/
theorem decode_newlines (hfits : b.writeIdx ≤ b.mem.length) (hd : d.waitingChunkLen = 0)
    (hchunks : chunks = []) {j m : ℕ} (hm : j + m ≤ t.newlines)
    (hstream : stream = List.replicate j 10 ++ b.unread)
    (hpend : b.unread = List.replicate m 10) :
    ∃ b', d.decode b = (none, d, b') ∧ SameBlock b b' ∧ Progress t d chunks stream b'.unread ∧
      stream.length < t.opening.length := by
  have hno := skipNewlines_unread hfits hpend
  refine ⟨skipNewlines b, ?_, ⟨rfl, rfl⟩, .header (j + m) hm hd hchunks ?_, ?_⟩
  · rw [RedisDumpFileChunkDecoder.decode, if_pos hd, decodeHeader, indexOf_of_not_readable hno]
  · rw [hstream, hpend, Buffer.unread_eq_nil hno, List.append_nil, List.replicate_add]
  · rw [hstream, hpend, ← List.replicate_add, List.length_replicate]
    exact lt_of_le_of_lt hm t.newlines_lt

/-- A call that finds a part of the header waits in front of it. -/
theorem decode_part (hfits : b.writeIdx ≤ b.mem.length) (hd : d.waitingChunkLen = 0)
    (hchunks : chunks = []) {j : ℕ} (hj : j ≤ t.newlines)
    (hstream : stream = List.replicate j 10 ++ b.unread) {part : Bytes} (hpre : part <+: t.header)
    (hlt : part.length < t.header.length) (hne : part ≠ [])
    (hpend : b.unread = List.replicate (t.newlines - j) 10 ++ part) :
    ∃ b', d.decode b = (none, d, b') ∧ SameBlock b b' ∧ Progress t d chunks stream b'.unread ∧
      stream.length < t.opening.length := by
  obtain ⟨c, cs, rfl⟩ := List.exists_cons_of_ne_nil hne
  have hc : c ≠ 10 := by
    obtain ⟨tail, htail⟩ := hpre
    obtain rfl : c = 36 := (List.cons.inj htail).1
    decide
  have hr : b.Reads (List.replicate (t.newlines - j) 10 ++ c :: cs) := by
    rw [← hpend]
    exact reads_unread hfits (by rw [hpend]; simp)
  obtain ⟨-, hskip⟩ := skipNewlines_of_reads hc hr
  -- the CRLF behind the length has not come
  have hnone := Transfer.indexOf_part hpre hlt hskip
  refine ⟨skipNewlines b, ?_, ⟨rfl, rfl⟩, .header t.newlines le_rfl hd hchunks ?_, ?_⟩
  · rw [RedisDumpFileChunkDecoder.decode, if_pos hd, decodeHeader, hnone]
  · rw [hstream, hpend, hskip.unread, ← List.append_assoc, ← List.replicate_add,
      Nat.add_sub_cancel' hj]
  · rw [hstream, hpend, ← List.append_assoc, ← List.replicate_add, Nat.add_sub_cancel' hj,
      Transfer.opening, List.length_append, List.length_append]
    omega

/-- A call that finds the header hands on the first chunk. -/
theorem decode_first (hfits : b.writeIdx ≤ b.mem.length) (hsent : t.Sent stream)
    (hd : d.waitingChunkLen = 0) {j : ℕ} (hj : j ≤ t.newlines)
    (hstream : stream = List.replicate j 10 ++ b.unread) {rest : Bytes}
    (hpend : b.unread = List.replicate (t.newlines - j) 10 ++ (t.header ++ rest)) :
    ∃ c d' b', d.decode b = (some c, d', b') ∧ SameBlock b b' ∧
      Delivering t d' [c] stream b'.unread := by
  have hr : b.Reads (List.replicate (t.newlines - j) 10 ++ (t.header ++ rest)) := by
    rw [← hpend]
    exact reads_unread hfits (by rw [hpend]; simp [Transfer.header])
  obtain ⟨b₁, hheader, hblock, hrest⟩ := Transfer.decodeHeader_whole hr
  have hfits₁ : b₁.writeIdx ≤ b₁.mem.length := by rw [hblock.mem, hblock.writeIdx]; exact hfits
  have hpos : (0 : ℤ) < t.payload.length := by
    exact_mod_cast t.payload_pos
  obtain ⟨c, d', b', heq, hc⟩ := @chunkOf_decodeChunk ⟨t.payload.length, t.payload.length⟩ b₁
    (.withHeader t.payload.length) hfits₁ hpos rfl (.inr rfl)
  have hblock' : SameBlock b b' :=
    ⟨hc.block.mem.trans hblock.mem, hc.block.writeIdx.trans hblock.writeIdx⟩
  refine ⟨c, d', b', ?_, hblock', ?_⟩
  · rw [RedisDumpFileChunkDecoder.decode, if_pos hd, hheader]
    dsimp only
    rw [heq]
  · rw [← List.nil_append [c]]
    refine Delivering.concat hsent ?_ ?_ ?_ ?_ ?_ hc
    · rw [hstream, hpend, hrest.unread, ← List.append_assoc, ← List.replicate_add,
        Nat.add_sub_cancel' hj]
      simp [Transfer.opening, bodies]
    · simp [bodies]
    · intro i c hi
      cases hi
    · intro i c hi
      cases hi
    · exact iff_of_true (isFirstChunk_withHeader _) rfl

/-- **One call.** Of a transfer that is not complete, `Decode` hands on the next chunk, or it asks
for more because the header is not all there. -/
theorem decode_progress (hfits : b.writeIdx ≤ b.mem.length) (hsent : t.Sent stream)
    (h : Progress t d chunks stream b.unread) :
    (∃ c d' b', d.decode b = (some c, d', b') ∧ SameBlock b b' ∧
      Delivering t d' (chunks ++ [c]) stream b'.unread) ∨
    (∃ b', d.decode b = (none, d, b') ∧ SameBlock b b' ∧
      Progress t d chunks stream b'.unread ∧ stream.length < t.opening.length ∧ chunks = []) := by
  cases h with
  | body hpos h => exact .inl (decode_body hfits hsent hpos h)
  | header j hj hd hchunks hstream =>
    have hsent' := hsent
    rw [hstream] at hsent'
    rcases t.sent_cases hj hsent' with ⟨m, hm, hpend⟩ | ⟨part, hpre, hlt, hne, hpend⟩ |
      ⟨rest, hpend, -⟩
    · obtain ⟨b', hdec, hblock, hprog, hlt⟩ := decode_newlines hfits hd hchunks hm hstream hpend
      exact .inr ⟨b', hdec, hblock, hprog, hlt, hchunks⟩
    · obtain ⟨b', hdec, hblock, hprog, hlt⟩ :=
        decode_part hfits hd hchunks hj hstream hpre hlt hne hpend
      exact .inr ⟨b', hdec, hblock, hprog, hlt, hchunks⟩
    · subst hchunks
      exact .inl (decode_first hfits hsent hd hj hstream hpend)

end Calls

/-- A chunk has the flags of the message, and maybe `LAST_CHUNK_FLAG`. -/
theorem decodeChunk_flag (d : RedisDumpFileChunkDecoder) (b : Buffer) (msg : RedisDumpFileChunk) :
    (d.decodeChunk b msg).1.flag = msg.flag ∨
      (d.decodeChunk b msg).1.flag = msg.flag ||| lastChunkFlag := by
  unfold RedisDumpFileChunkDecoder.decodeChunk
  by_cases hr : b.Readable
  · rw [if_pos hr]
    exact (ite_eq_or_eq _ _ _).symm
  · rw [if_neg hr]
    exact .inl rfl

/-- A decoder that still waits for a payload does not mark a chunk as the first one. -/
theorem decode_waiting {d : RedisDumpFileChunkDecoder} {b : Buffer} (h : d.waitingChunkLen ≠ 0) :
    ∃ c, (d.decode b).1 = some c ∧ ¬ c.IsFirstChunk := by
  refine ⟨(d.decodeChunk b .empty).1, by rw [RedisDumpFileChunkDecoder.decode, if_neg h], ?_⟩
  rw [RedisDumpFileChunk.IsFirstChunk]
  rcases decodeChunk_flag d b .empty with hflag | hflag <;> rw [hflag] <;> decide

end Dump
end Comms
