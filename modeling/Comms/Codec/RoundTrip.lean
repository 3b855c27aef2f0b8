import Comms.Codec.Encoder
import Comms.Codec.StackFrameDecoder

/-!
# Commands, encoded and decoded again

What `RedisCommandEncoder::Encode` writes for a list of commands is read in pieces and decoded by
`StackFrameDecoder<RedisCommandFrame>`.

* `decodeCommand` — `Decode`, with the words of the frame;
* `encode_pieces` — commands within the limits of the decoder are pieces of the stream;
* `encode_wide` — of a command with too many words the decoder makes another one first;
* `roundTrip_iff` — the commands come out as they went in exactly when none has too many words and
  no read leaves 2^32 bytes of an incomplete command waiting.
-/

namespace Comms

/-- `RedisCommandDecoder::Decode(ctx, channel, buffer, msg)`. The exception it fires for a protocol
error does not touch the buffers. -/
def redisCommandDecode (b : Buffer) : Answer RedisCommandFrame :=
  match decode b with
  | .frame msg buffer => .frame msg buffer
  | .none _ buffer => .none buffer
  | .fault => .fault

/-- `Decode`, with the words of the frame. -/
def decodeCommand (b : Buffer) : Answer Command :=
  (redisCommandDecode b).map RedisCommandFrame.command

/-! ### Commands as pieces of the stream -/

/-- A well-formed command is a piece of the stream. -/
def CommandFrame.piece (f : CommandFrame) : Piece decodeCommand where
  bytes := f.bytes
  fires := some f.frame.command
  ne := List.length_pos_iff.mp f.length_pos
  whole := by
    intro b rest h
    unfold decodeCommand redisCommandDecode
    rw [decode_frame f h]
    rfl
  part := by
    intro b p h hne hp
    unfold decodeCommand redisCommandDecode
    rw [decode_more f h hne hp]
    rfl
  short := by
    intro h
    cases h

/-- Commands within the limits are pieces of the stream. -/
theorem encode_pieces {cmds : List Command} (h : ∀ c ∈ cmds, c.Fits) :
    ∃ ps : List (Piece decodeCommand), ps.map Piece.bytes = cmds.map encode ∧
      Piece.messages ps = cmds := by
  induction cmds with
  | nil => exact ⟨[], rfl, rfl⟩
  | cons c cmds ih =>
    obtain ⟨ps, hbytes, hmsgs⟩ := ih fun c' hc' => h c' (List.mem_cons_of_mem c hc')
    obtain ⟨f, hf, hc⟩ := encode_frame (h c List.mem_cons_self)
    refine ⟨f.piece :: ps, ?_, ?_⟩
    · rw [List.map_cons, List.map_cons, hbytes, ← hf]
      rfl
    · rw [← hc]
      exact congrArg (f.frame.command :: ·) hmsgs

theorem stream_eq {ps : List (Piece decodeCommand)} {cmds : List Command}
    (h : ps.map Piece.bytes = cmds.map encode) : Piece.stream ps = cmds.flatMap encode := by
  rw [Piece.stream, List.flatMap_def, h, ← List.flatMap_def]

/-! ### The count of a request -/

/-- `strtol` on a number behind a minus sign. -/
theorem strtol_neg {ds tail : Bytes} (hne : ds ≠ []) (hd : ∀ d ∈ ds, isdigit d = true) :
    strtol (45 :: ds ++ tail) =
      (max (-2 ^ 63) (min (2 ^ 63 - 1) (-(digitsValue (ds ++ tail.takeWhile isdigit) : ℤ))),
        1 + (ds.length + (tail.takeWhile isdigit).length)) := by
  have hblank : (45 :: (ds ++ tail)).takeWhile isspace = [] := by
    rw [List.takeWhile_cons, if_neg (by decide)]
  have htake : (ds ++ tail).takeWhile isdigit = ds ++ tail.takeWhile isdigit :=
    List.takeWhile_append_of_pos hd
  have hne' : ds ++ tail.takeWhile isdigit ≠ [] := List.append_ne_nil_of_left_ne_nil hne _
  unfold strtol
  simp only [List.cons_append, hblank, List.length_nil, List.drop_zero, List.headD_cons, or_true,
    if_true, Nat.zero_add, List.drop_succ_cons, htake, hne', if_false, List.length_append]

/-- A number as `%d` prints it: it is read as an `int`. -/
theorem decimalInt_cases (n : ℕ) :
    (∃ m : Numeral, decimalInt n = m.digits ∧ (m.value : ℤ) = (n : ℤ).bmod (2 ^ 32)) ∨
      ∃ m : Numeral, decimalInt n = 45 :: m.digits ∧ -(m.value : ℤ) = (n : ℤ).bmod (2 ^ 32) := by
  unfold decimalInt
  generalize (n : ℤ).bmod (2 ^ 32) = v
  dsimp only
  split
  · refine .inr ⟨.ofNat v.natAbs, rfl, ?_⟩
    rw [Numeral.ofNat_value]
    omega
  · refine .inl ⟨.ofNat v.natAbs, rfl, ?_⟩
    rw [Numeral.ofNat_value]
    omega

theorem decimalInt_length_pos (n : ℕ) : 0 < (decimalInt n).length := by
  rcases decimalInt_cases n with ⟨m, hm, -⟩ | ⟨m, hm, -⟩
  · rw [hm]
    exact List.length_pos_iff.mpr m.ne
  · rw [hm, List.length_cons]
    exact Nat.succ_pos _

/-- `strtol` reads the count back. -/
theorem strtol_decimalInt {n : ℕ} {tail : Bytes} (htail : tail.takeWhile isdigit = []) :
    strtol (decimalInt n ++ tail) = ((n : ℤ).bmod (2 ^ 32), (decimalInt n).length) := by
  have hlo : -(2 ^ 32 / 2 : ℤ) ≤ (n : ℤ).bmod (2 ^ 32) := Int.le_bmod (by decide)
  have hhi : (n : ℤ).bmod (2 ^ 32) < (2 ^ 32 + 1) / 2 := Int.bmod_lt (by decide)
  rcases decimalInt_cases n with ⟨m, hm, hv⟩ | ⟨m, hm, hv⟩
  · unfold Numeral.value at hv
    rw [hm, strtol_eq m.ne m.isdigit, htail, List.append_nil, List.length_nil, Nat.add_zero, hv,
      Prod.mk.injEq]
    exact ⟨by omega, rfl⟩
  · unfold Numeral.value at hv
    rw [hm, strtol_neg m.ne m.isdigit, htail, List.append_nil, List.length_nil, Nat.add_zero, hv,
      List.length_cons, Nat.add_comm 1, Prod.mk.injEq]
    exact ⟨by omega, rfl⟩

/-- A part of a line with a count: `strtol` comes to its last byte. -/
theorem strtol_decimalInt_part {n : ℕ} {p behind : Bytes} (h2 : 2 ≤ p.length)
    (hp : ProperPrefix p (decimalInt n ++ kCRLF)) : p.length - 1 ≤ (strtol (p ++ behind)).2 := by
  rcases decimalInt_cases n with ⟨m, hm, -⟩ | ⟨m, hm, -⟩
  · rw [hm] at hp
    obtain ⟨ds, rest, rfl, hds, hdigit, hrest⟩ :=
      m.part_cases (List.length_pos_iff.mp (by omega)) hp
    rw [List.append_assoc, strtol_eq hds hdigit, List.length_append]
    dsimp only
    omega
  · obtain ⟨c, q, rfl⟩ := List.exists_cons_of_ne_nil (List.length_pos_iff.mp (by omega) : p ≠ [])
    rw [hm] at hp
    obtain ⟨hpre, hne⟩ := hp
    obtain ⟨rfl, hpre'⟩ := List.cons_prefix_cons.mp hpre
    have hq : ProperPrefix q (m.digits ++ kCRLF) :=
      ⟨hpre', fun he => hne (congrArg (45 :: ·) he)⟩
    rw [List.length_cons] at h2
    obtain ⟨ds, rest, rfl, hds, hdigit, hrest⟩ :=
      m.part_cases (List.length_pos_iff.mp (by omega)) hq
    rw [show 45 :: (ds ++ rest) ++ behind = 45 :: ds ++ (rest ++ behind) by simp,
      strtol_neg hds hdigit, List.length_cons, List.length_append]
    dsimp only
    omega

/-- The line of a request that holds its count. -/
def countLine (n : ℕ) : Bytes := 42 :: (decimalInt n ++ kCRLF)

theorem readBulkLen_count {b : Buffer} {n : ℕ} {rest : Bytes}
    (h : b.Reads (decimalInt n ++ kCRLF ++ rest)) :
    readBulkLen b =
      .done ((n : ℤ).bmod (2 ^ 32)) (b.advanceReadIndex (decimalInt n ++ kCRLF).length) := by
  obtain ⟨behind, hb⟩ := h.mem
  have hstr : strtol b.rawReadBuffer = ((n : ℤ).bmod (2 ^ 32), (decimalInt n).length) := by
    rw [hb, show decimalInt n ++ kCRLF ++ rest ++ behind
      = decimalInt n ++ (kCRLF ++ rest ++ behind) by simp]
    exact strtol_decimalInt (by simp [kCRLF, isdigit])
  rw [readBulkLen_line h hstr]
  rw [Int.bmod_bmod]

/-- What the decoder does behind a line with a count that is read as `v`, when no bulk strings are
to follow or it is too large. -/
theorem decode_count {n : ℕ} {b : Buffer} {rest : Bytes} (h : b.Reads (countLine n ++ rest)) :
    (maxBulk < (n : ℤ).bmod (2 ^ 32) →
      decodeCommand b = .none (b.advanceReadIndex (countLine n).length)) ∧
    ((n : ℤ).bmod (2 ^ 32) ≤ 0 →
      decodeCommand b = .frame ⟨[], []⟩ (b.advanceReadIndex (countLine n).length)) := by
  have h' : b.Reads (42 :: (decimalInt n ++ kCRLF ++ rest)) := by
    rwa [countLine, List.cons_append] at h
  have h₁ : (b.advanceReadIndex (1 : ℕ)).Reads (decimalInt n ++ kCRLF ++ rest) := h'.readByte.2
  have hcount := readBulkLen_count h₁
  have hpos := decimalInt_length_pos n
  have hroom : ¬ (b.advanceReadIndex (1 : ℕ)).readableBytes < 3 := by
    rw [h₁.readableBytes]
    simp only [List.length_append, kCRLF, List.length_cons]
    omega
  have hmulti : ∀ frame, processMultibulkBuffer (b.advanceReadIndex (1 : ℕ)) frame =
      if maxBulk < (n : ℤ).bmod (2 ^ 32) then
        .error "Protocol error: invalid multibulk length"
          (b.advanceReadIndex (countLine n).length)
      else bulkLoop ((n : ℤ).bmod (2 ^ 32)).toNat (b.advanceReadIndex (countLine n).length)
        frame := by
    intro frame
    unfold processMultibulkBuffer
    rw [if_neg hroom, hcount]
    dsimp only
    rw [Buffer.advanceReadIndex_advance, Nat.add_comm, ← List.length_cons]
    rfl
  have hbranch : processBuffer b 42 (b.advanceReadIndex 1) =
      processMultibulkBuffer (b.advanceReadIndex (1 : ℕ))
        { RedisCommandFrame.empty with isInline := false } := if_pos rfl
  unfold decodeCommand redisCommandDecode
  rw [decode_noSkip h' (by decide), hbranch, hmulti]
  constructor
  · intro hlarge
    rw [if_pos hlarge]
    rfl
  · intro hneg
    have hsmall : ¬ maxBulk < (n : ℤ).bmod (2 ^ 32) := not_lt.mpr (hneg.trans (by decide))
    rw [if_neg hsmall, Int.toNat_of_nonpos hneg]
    rfl

/-- A part of the line is left alone. -/
theorem decode_count_part {n : ℕ} {b : Buffer} {p : Bytes} (h : b.Reads p) (hne : p ≠ [])
    (hp : ProperPrefix p (countLine n)) : decodeCommand b = .none b := by
  obtain ⟨c, q, rfl⟩ := List.exists_cons_of_ne_nil hne
  obtain ⟨hpre, hne'⟩ := hp
  obtain ⟨rfl, hpre'⟩ := List.cons_prefix_cons.mp hpre
  have hq : ProperPrefix q (decimalInt n ++ kCRLF) :=
    ⟨hpre', fun he => hne' (congrArg (42 :: ·) he)⟩
  have h₁ : (b.advanceReadIndex (1 : ℕ)).Reads q := h.readByte.2
  obtain ⟨behind, hb⟩ := h₁.mem
  have hmore : ∀ frame, processMultibulkBuffer (b.advanceReadIndex (1 : ℕ)) frame = .more := by
    intro frame
    unfold processMultibulkBuffer
    rw [h₁.readableBytes]
    by_cases h3 : q.length < 3
    · rw [if_pos h3]
    · rw [if_neg h3, readBulkLen_short h₁ (by omega)
        (hb ▸ strtol_decimalInt_part (by omega) hq)]
  have hbranch : processBuffer b 42 (b.advanceReadIndex 1) =
      processMultibulkBuffer (b.advanceReadIndex (1 : ℕ))
        { RedisCommandFrame.empty with isInline := false } := if_pos rfl
  unfold decodeCommand redisCommandDecode
  rw [decode_noSkip h (by decide), hbranch, hmore]
  rfl

/-! ### Commands with too many words -/

theorem decimalLoop_length {fuel n k : ℕ} (h : n < 10 ^ (k + 1)) :
    (decimalLoop fuel n).length ≤ k + 1 := by
  induction fuel generalizing n k with
  | zero => exact Nat.zero_le _
  | succ fuel ih =>
    rw [decimalLoop, List.length_append, List.length_singleton]
    split
    · rw [List.length_nil]
      omega
    · next hge =>
      cases k with
      | zero =>
        rw [Nat.zero_add, Nat.pow_one] at h
        omega
      | succ k =>
        have hrec := ih (n := n / 10) (k := k) (by rw [Nat.pow_succ] at h; omega)
        omega

theorem decimalInt_length_le (n : ℕ) : (decimalInt n).length ≤ 11 := by
  have hlo : -(2 ^ 32 / 2 : ℤ) ≤ (n : ℤ).bmod (2 ^ 32) := Int.le_bmod (by decide)
  have hhi : (n : ℤ).bmod (2 ^ 32) < (2 ^ 32 + 1) / 2 := Int.bmod_lt (by decide)
  unfold decimalInt
  generalize (n : ℤ).bmod (2 ^ 32) = v at hlo hhi ⊢
  have hdigits : (decimal v.natAbs).length ≤ 10 := by
    refine decimalLoop_length (k := 9) ?_
    norm_num at hlo hhi ⊢
    omega
  dsimp only
  split
  · rw [List.length_cons]
    omega
  · omega

theorem countLine_length (n : ℕ) : (countLine n).length = (decimalInt n).length + 3 := by
  have hcrlf : kCRLF.length = 2 := rfl
  rw [countLine, List.length_cons, List.length_append, hcrlf]

theorem countLine_ne (n : ℕ) : countLine n ≠ [] := by
  rw [countLine]
  exact List.cons_ne_nil _ _

/-- The line with the count of a command, when the count is read as too large a number. -/
def countError (n : ℕ) (h : maxBulk < (n : ℤ).bmod (2 ^ 32)) : Piece decodeCommand where
  bytes := countLine n
  fires := none
  ne := countLine_ne n
  whole := fun hr => (decode_count hr).1 h
  part := decode_count_part
  short := by
    intro _
    have hle := decimalInt_length_le n
    rw [countLine_length]
    omega

/-- The line with the count of a command, when the count is read as zero or less. -/
def countEmpty (n : ℕ) (h : (n : ℤ).bmod (2 ^ 32) ≤ 0) : Piece decodeCommand where
  bytes := countLine n
  fires := some ⟨[], []⟩
  ne := countLine_ne n
  whole := fun hr => (decode_count hr).2 h
  part := decode_count_part
  short := by
    intro h
    cases h

/-- `$<len>` as an inline line. -/
def dollarLine (n : ℕ) : InlineLine where
  line := 36 :: (Numeral.ofNat n).digits
  ne := List.cons_ne_nil _ _
  head := by simp
  noBreak := by
    intro c hc
    rcases List.mem_cons.mp hc with rfl | hc
    · decide
    · have hdigit := (Numeral.ofNat n).isdigit c hc
      have hspace := not_isspace_of_isdigit hdigit
      unfold isLineBreak
      rw [Bool.or_eq_false_iff, decide_eq_false_iff_not, decide_eq_false_iff_not]
      constructor
      · rintro rfl
        cases hspace
      · rintro rfl
        cases hspace

/-- The line has no space in it: it is read as the name of a command without arguments. -/
theorem dollarLine_command (n : ℕ) :
    (CommandFrame.inline (dollarLine n)).frame.command = ⟨(dollarLine n).line, []⟩ := by
  apply CommandFrame.command_eq
  refine inlineWords_word (dollarLine n).ne ?_
  intro hmem
  rcases List.mem_cons.mp hmem with h | h
  · cases h
  · have hdigit := (Numeral.ofNat n).isdigit 32 h
    cases hdigit

/-- What the encoder writes depends on the count as an `int` only. -/
theorem decimalInt_congr {m n : ℕ} (h : (m : ℤ).bmod (2 ^ 32) = (n : ℤ).bmod (2 ^ 32)) :
    decimalInt m = decimalInt n := by
  unfold decimalInt
  rw [h]

theorem encode_eq (c : Command) :
    encode c = countLine (c.args.length + 1) ++ (c.name :: c.args).flatMap encodeBulk := by
  unfold encode countLine
  rw [List.cons_append]

/-- **Too many words.** What the decoder makes of such a command first is another command. -/
theorem encode_wide {c : Command} (hwide : maxBulk < c.words.length)
    (hwords : ∀ w ∈ c.words, (w.length : ℤ) ≤ maxBulk) :
    ∃ (ps : List (Piece decodeCommand)) (tail : Bytes) (wrong : Command),
      encode c = Piece.stream ps ++ tail ∧ Piece.messages ps = [wrong] ∧ wrong ≠ c := by
  have hlen : c.words.length = c.args.length + 1 := rfl
  rw [hlen] at hwide
  have hargs : c.args ≠ [] := by
    intro h
    rw [h] at hwide
    exact absurd hwide (by decide)
  by_cases hneg : ((c.args.length + 1 : ℕ) : ℤ).bmod (2 ^ 32) ≤ 0
  · -- an empty request
    refine ⟨[countEmpty _ hneg], (c.name :: c.args).flatMap encodeBulk, ⟨[], []⟩, ?_, rfl, ?_⟩
    · rw [encode_eq, Piece.stream_singleton]
      rfl
    · intro h
      exact hargs (congrArg Command.args h).symm
  by_cases hlarge : maxBulk < ((c.args.length + 1 : ℕ) : ℤ).bmod (2 ^ 32)
  · -- an error, and the rest is read on as an inline line
    have hname := hwords c.name List.mem_cons_self
    refine ⟨[countError _ hlarge, (CommandFrame.inline (dollarLine c.name.length)).piece],
      c.name ++ kCRLF ++ c.args.flatMap encodeBulk, ⟨(dollarLine c.name.length).line, []⟩, ?_, ?_,
      ?_⟩
    · have hbulk : encodeBulk c.name =
          (dollarLine c.name.length).bytes ++ (c.name ++ kCRLF) := by
        unfold encodeBulk InlineLine.bytes dollarLine
        rw [decimalInt_eq hname]
        simp only [List.cons_append, List.append_assoc]
      have hstream : Piece.stream [countError _ hlarge,
          (CommandFrame.inline (dollarLine c.name.length)).piece] =
          countLine (c.args.length + 1) ++ (dollarLine c.name.length).bytes := by
        rw [Piece.stream_cons, Piece.stream_singleton]
        rfl
      rw [encode_eq, hstream, List.flatMap_cons, hbulk]
      simp only [List.append_assoc]
    · change [(CommandFrame.inline (dollarLine c.name.length)).frame.command] = _
      rw [dollarLine_command]
    · intro h
      exact hargs (congrArg Command.args h).symm
  · -- a request for fewer words
    obtain ⟨k, hk⟩ := Int.eq_ofNat_of_zero_le (not_le.mp hneg).le
    rw [hk] at hneg hlarge
    have hkpos : 0 < k := by omega
    have hklt : k < c.args.length + 1 := by omega
    have hshort : (c.args.take (k - 1)).length = k - 1 := by
      rw [List.length_take]
      omega
    have hfits : Command.Fits ⟨c.name, c.args.take (k - 1)⟩ := by
      refine ⟨?_, ?_⟩
      · change ((((c.args.take (k - 1)).length + 1 : ℕ) : ℤ)) ≤ maxBulk
        rw [hshort]
        omega
      · intro w hw
        rcases List.mem_cons.mp hw with rfl | hw
        · exact hwords _ List.mem_cons_self
        · exact hwords w (List.mem_cons_of_mem _ (List.mem_of_mem_take hw))
    obtain ⟨f, hf, hcmd⟩ := encode_frame hfits
    refine ⟨[f.piece], (c.args.drop (k - 1)).flatMap encodeBulk, ⟨c.name, c.args.take (k - 1)⟩, ?_,
      ?_, ?_⟩
    · have hcount : countLine (k - 1 + 1) = countLine (c.args.length + 1) := by
        unfold countLine
        rw [decimalInt_congr]
        rw [hk, Nat.sub_add_cancel hkpos, ← hk, Int.bmod_bmod]
      have hsplit : c.args.flatMap encodeBulk = (c.args.take (k - 1)).flatMap encodeBulk ++
          (c.args.drop (k - 1)).flatMap encodeBulk := by
        rw [← List.flatMap_append, List.take_append_drop]
      have hstream : Piece.stream [f.piece] = f.bytes := Piece.stream_singleton _
      rw [hstream, hf, encode_eq, encode_eq, hshort, hcount, List.flatMap_cons, List.flatMap_cons,
        hsplit]
      simp only [List.append_assoc]
    · change [f.frame.command] = _
      rw [hcmd]
    · intro h
      have hargs' := congrArg (fun c => c.args.length) h
      dsimp only at hargs'
      rw [hshort] at hargs'
      omega

/-! ### The round trip -/

/-- The reads come to an end, the frames fired are the commands, and nothing is left in the
buffers. -/
def RoundTrip (cmds : List Command) (ds : List Delivery) : Prop :=
  ∃ fuel r, Receiver.receiveAll redisCommandDecode fuel .init ds = some r ∧
    r.fired.map RedisCommandFrame.command = cmds ∧
    r.input.readableBytes = 0 ∧ r.cumulation.readableBytes = 0

/-- The round trip with the words of the frames only. -/
theorem roundTrip_words {cmds : List Command} {ds : List Delivery} :
    RoundTrip cmds ds ↔ ∃ fuel r, Receiver.receiveAll decodeCommand fuel .init ds = some r ∧
      r.fired = cmds ∧ r.input.readableBytes = 0 ∧ r.cumulation.readableBytes = 0 := by
  have hmap : ∀ fuel, Receiver.receiveAll decodeCommand fuel .init ds =
      (Receiver.receiveAll redisCommandDecode fuel .init ds).map
        (Receiver.map RedisCommandFrame.command) :=
    fun fuel => Receiver.receiveAll_map RedisCommandFrame.command fuel .init ds
  constructor
  · rintro ⟨fuel, r, hr, hfired, hin, hcum⟩
    refine ⟨fuel, r.map RedisCommandFrame.command, ?_, hfired, hin, hcum⟩
    rw [hmap, hr]
    rfl
  · rintro ⟨fuel, r, hr, hfired, hin, hcum⟩
    rw [hmap] at hr
    obtain ⟨r', hr', rfl⟩ := Option.map_eq_some_iff.mp hr
    exact ⟨fuel, r', hr', hfired, hin, hcum⟩

/-- The first command with too many words. -/
theorem exists_first_wide {cmds : List Command}
    (hwords : ∀ c ∈ cmds, ∀ w ∈ c.words, (w.length : ℤ) ≤ maxBulk)
    (h : ¬ ∀ c ∈ cmds, (c.words.length : ℤ) ≤ maxBulk) :
    ∃ before c after, cmds = before ++ c :: after ∧ (∀ c ∈ before, c.Fits) ∧
      maxBulk < c.words.length := by
  induction cmds with
  | nil => exact absurd (fun c hc => absurd hc List.not_mem_nil) h
  | cons c cmds ih =>
    by_cases hc : (c.words.length : ℤ) ≤ maxBulk
    · have hcmds : ¬ ∀ c ∈ cmds, (c.words.length : ℤ) ≤ maxBulk := by
        intro hall
        exact h (List.forall_mem_cons.mpr ⟨hc, hall⟩)
      obtain ⟨before, c', after, rfl, hbefore, hwide⟩ :=
        ih (fun c' hc' => hwords c' (List.mem_cons_of_mem c hc')) hcmds
      exact ⟨c :: before, c', after, rfl,
        List.forall_mem_cons.mpr ⟨⟨hc, hwords c List.mem_cons_self⟩, hbefore⟩, hwide⟩
    · exact ⟨[], c, cmds, rfl, fun c hc => absurd hc List.not_mem_nil, not_le.mp hc⟩

section RoundTrip

variable {cmds : List Command} {ds : List Delivery}

/-- A round trip needs commands whose words can be counted. -/
theorem RoundTrip.narrow (hwords : ∀ c ∈ cmds, ∀ w ∈ c.words, (w.length : ℤ) ≤ maxBulk)
    (hds : delivered ds = cmds.flatMap encode) (h : RoundTrip cmds ds) :
    ∀ c ∈ cmds, (c.words.length : ℤ) ≤ maxBulk := by
  by_contra hnot
  obtain ⟨fuel, r, hr, hfired, -⟩ := roundTrip_words.mp h
  obtain ⟨before, c, after, rfl, hbefore, hwide⟩ := exists_first_wide hwords hnot
  obtain ⟨ps, hbytes, hmsgs⟩ := encode_pieces hbefore
  obtain ⟨qs, tail, wrong, henc, hwrong, hne⟩ :=
    encode_wide hwide (hwords c (List.mem_append_right _ List.mem_cons_self))
  -- in the place of the command another one is fired
  have hall : [] ++ delivered ds = Piece.stream (ps ++ qs) ++ (tail ++ after.flatMap encode) := by
    rw [List.nil_append, hds, List.flatMap_append, List.flatMap_cons, henc, Piece.stream_append,
      stream_eq hbytes]
    simp only [List.append_assoc]
  have hfires := (Receiver.tracks_init (ps ++ qs)).receiveAll_fires hall hr
  rw [Piece.messages_append, hmsgs, hwrong, hfired, List.prefix_append_right_inj,
    List.cons_prefix_cons] at hfires
  exact hne hfires.1

/-- Commands within the limits make the round trip when no read leaves too much of one waiting. -/
theorem roundTrip_iff_unfinished (hfits : ∀ c ∈ cmds, c.Fits)
    (hds : delivered ds = cmds.flatMap encode) : RoundTrip cmds ds ↔
      ∀ n, unfinished (cmds.map encode) (delivered (ds.take n)).length < 2 ^ 32 := by
  obtain ⟨ps, hbytes, hmsgs⟩ := encode_pieces hfits
  have hstream : delivered ds = Piece.stream ps := by rw [hds, stream_eq hbytes]
  rw [roundTrip_words, ← hbytes, ← Receiver.receiveAll_pieces hstream, hmsgs]

theorem unfinished_le (frames : List Bytes) (n : ℕ) : unfinished frames n ≤ n := by
  induction frames generalizing n with
  | nil => exact Nat.le_refl n
  | cons frame frames ih =>
    unfold unfinished
    split
    · exact (ih _).trans (Nat.sub_le _ _)
    · exact Nat.le_refl n

theorem delivered_take_le (n : ℕ) : (delivered (ds.take n)).length ≤ (delivered ds).length := by
  have hsplit : delivered ds = delivered (ds.take n) ++ delivered (ds.drop n) := by
    unfold delivered
    rw [← List.flatMap_append, List.take_append_drop]
  rw [hsplit, List.length_append]
  exact Nat.le_add_right _ _

/-- Streams of less than 2^32 bytes come out as they went in. -/
theorem roundTrip_of_small (hfits : ∀ c ∈ cmds, c.Fits) (hds : delivered ds = cmds.flatMap encode)
    (hsmall : (delivered ds).length < 2 ^ 32) : RoundTrip cmds ds := by
  refine (roundTrip_iff_unfinished hfits hds).mpr fun n => ?_
  exact lt_of_le_of_lt ((unfinished_le _ _).trans (delivered_take_le n)) hsmall

/-- **The round trip.** Commands of any words of at most 512 MB, encoded one after the other, come
out of the decoder as they went in, in whatever reads they arrive, if and only if none of them has
more than 512 * 1024 * 1024 words and no read leaves 2^32 bytes or more of a command waiting for
its rest. -/
theorem roundTrip_iff (hwords : ∀ c ∈ cmds, ∀ w ∈ c.words, (w.length : ℤ) ≤ maxBulk)
    (hds : delivered ds = cmds.flatMap encode) :
    RoundTrip cmds ds ↔ (∀ c ∈ cmds, (c.words.length : ℤ) ≤ maxBulk) ∧
      ∀ n, unfinished (cmds.map encode) (delivered (ds.take n)).length < 2 ^ 32 := by
  constructor
  · intro h
    have hnarrow := h.narrow hwords hds
    exact ⟨hnarrow, (roundTrip_iff_unfinished (fun c hc => ⟨hnarrow c hc, hwords c hc⟩) hds).mp h⟩
  · rintro ⟨hnarrow, hsmall⟩
    exact (roundTrip_iff_unfinished (fun c hc => ⟨hnarrow c hc, hwords c hc⟩) hds).mpr hsmall

end RoundTrip

/-- `set "" "\r"`, read in two parts, with other bytes in the memory behind them. -/
theorem roundTrip_iff_set : ∃ ds : List Delivery, ds.length = 2 ∧
    RoundTrip [⟨[115, 101, 116], [[], [13]]⟩] ds := by
  let ds : List Delivery :=
    [⟨[42, 51, 13, 10, 36, 51, 13, 10, 115, 101, 116, 13], by decide, [10, 36], []⟩,
      ⟨[10, 36, 48, 13, 10, 13, 10, 36, 49, 13, 10, 13, 13, 10], by decide, [], [49, 10]⟩]
  refine ⟨ds, rfl, (roundTrip_iff (by decide) (by decide)).mpr ⟨by decide, fun n => ?_⟩⟩
  have hle := (unfinished_le ([(⟨[115, 101, 116], [[], [13]]⟩ : Command)].map encode) _).trans
    (@delivered_take_le ds n)
  exact lt_of_le_of_lt hle (by decide)

/-! ### A command of more than 4 GB -/

/-- A command with eight arguments of 512 MB. -/
def largeCommand : Command := ⟨[120], List.replicate 8 (List.replicate 536870912 0)⟩

/-- Four reads of 1 GB. -/
def gigabytes (bytes : Bytes) : List Delivery :=
  (List.range 4).map fun i =>
    { chunk := (bytes.drop (i * 2 ^ 30)).take (2 ^ 30)
      small := lt_of_le_of_lt (List.length_take_le _ _) (by norm_num)
      behindInput := []
      behindCumulation := [] }

/-- Reads of one byte. -/
def singleBytes (bytes : Bytes) : List Delivery :=
  bytes.map fun c =>
    { chunk := [c]
      small := by rw [List.length_singleton]; norm_num
      behindInput := []
      behindCumulation := [] }

theorem flatMap_take_drop (bytes : Bytes) (n k : ℕ) :
    (List.range k).flatMap (fun i => (bytes.drop (i * n)).take n) = bytes.take (k * n) := by
  induction k with
  | zero => rw [Nat.zero_mul]; rfl
  | succ k ih =>
    rw [List.range_succ, List.flatMap_append, ih, List.flatMap_singleton, Nat.succ_mul,
      List.take_add]

theorem delivered_gigabytes (bytes : Bytes) :
    delivered (gigabytes bytes) = bytes.take (4 * 2 ^ 30) := by
  rw [delivered, gigabytes, List.flatMap_map]
  exact flatMap_take_drop bytes (2 ^ 30) 4

theorem delivered_singleBytes (bytes : Bytes) : delivered (singleBytes bytes) = bytes := by
  rw [delivered, singleBytes, List.flatMap_map]
  exact List.flatMap_singleton' bytes

theorem length_lt_encodeBulk (word : Bytes) : word.length < (encodeBulk word).length := by
  have hcrlf : kCRLF.length = 2 := rfl
  rw [encodeBulk, List.length_append, List.length_append, hcrlf]
  omega

theorem length_le_flatMap_replicate (n : ℕ) (word : Bytes) :
    n * word.length ≤ ((List.replicate n word).flatMap encodeBulk).length := by
  induction n with
  | zero =>
    rw [Nat.zero_mul]
    exact Nat.zero_le _
  | succ n ih =>
    have hword := length_lt_encodeBulk word
    rw [List.replicate_succ, List.flatMap_cons, List.length_append, Nat.succ_mul]
    omega

theorem lt_encode_largeCommand : 4 * 2 ^ 30 < (encode largeCommand).length := by
  have hargs := length_le_flatMap_replicate 8 (List.replicate 536870912 0)
  have hname := length_lt_encodeBulk largeCommand.name
  rw [List.length_replicate] at hargs
  rw [encode_eq, List.length_append, List.flatMap_cons, List.length_append]
  change 8 * 536870912 ≤ (largeCommand.args.flatMap encodeBulk).length at hargs
  omega

/-- **No round trip.** After 2^32 bytes of such a command the decoder does not come back. -/
theorem no_roundTrip_largeCommand : ∃ cmds ds,
    (∀ c ∈ cmds, ∀ w ∈ c.words, (w.length : ℤ) ≤ maxBulk) ∧
      delivered ds = cmds.flatMap encode ∧ ¬ RoundTrip cmds ds := by
  have hlt := lt_encode_largeCommand
  have hwords : ∀ w ∈ largeCommand.words, (w.length : ℤ) ≤ maxBulk := by
    intro w hw
    rcases List.mem_cons.mp hw with rfl | hw
    · decide
    · rw [List.eq_of_mem_replicate hw, List.length_replicate]
      norm_num [maxBulk]
  have hfits : ∀ c ∈ [largeCommand], c.Fits := by
    intro c hc
    obtain rfl := List.mem_singleton.mp hc
    exact ⟨by decide, hwords⟩
  have hds : delivered (gigabytes (encode largeCommand) ++
      singleBytes ((encode largeCommand).drop (4 * 2 ^ 30))) = [largeCommand].flatMap encode := by
    rw [delivered, List.flatMap_append, ← delivered, ← delivered, delivered_gigabytes,
      delivered_singleBytes, List.take_append_drop, List.flatMap_singleton]
  refine ⟨[largeCommand], _, fun c hc => (hfits c hc).2, hds, fun h => ?_⟩
  have hsmall := (roundTrip_iff_unfinished hfits hds).mp h 4
  rw [List.take_left' (by rw [gigabytes, List.length_map, List.length_range]), delivered_gigabytes,
    List.length_take, Nat.min_eq_left hlt.le, List.map_singleton, unfinished,
    if_neg (not_le.mpr hlt)] at hsmall
  norm_num at hsmall

end Comms
