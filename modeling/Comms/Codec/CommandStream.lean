import Comms.Codec.RedisCommand

/-!
# Well-formed commands and what the decoder makes of them

A command on the wire is a multibulk request with plain decimal sizes, or an inline line ended by
CRLF (the log itself contains the lines `select <db>` and `ping`). The structures carry their
well-formedness, so a `CommandFrame` is always a complete command.

* `decode_frame` — the decoder takes exactly one command off the front of the readable bytes,
  whatever follows them;
* `decode_more` — a part of a command that is not all of it is left alone;
* `decode_ahead` — on any bytes, what the decoder takes lies in the readable range.
-/

namespace Comms

/-- `p` is the front of `full`, but not all of it. -/
def ProperPrefix (p full : Bytes) : Prop := p <+: full ∧ p ≠ full

/-- A front of two parts ends inside the first part or inside the second. -/
theorem ProperPrefix.append {p xs ys : Bytes} (h : ProperPrefix p (xs ++ ys)) :
    ProperPrefix p xs ∨ ∃ p', p = xs ++ p' ∧ ProperPrefix p' ys := by
  obtain ⟨hp, hne⟩ := h
  rcases List.prefix_or_prefix_of_prefix hp (List.prefix_append xs ys) with hx | ⟨p', rfl⟩
  · by_cases he : p = xs
    · subst he
      refine .inr ⟨[], by simp, List.nil_prefix, ?_⟩
      rintro rfl
      exact hne (by simp)
    · exact .inl ⟨hx, he⟩
  · refine .inr ⟨p', rfl, (List.prefix_append_right_inj xs).mp hp, ?_⟩
    rintro rfl
    exact hne rfl

theorem ProperPrefix.length_lt {p full : Bytes} (h : ProperPrefix p full) :
    p.length < full.length :=
  lt_of_le_of_ne h.1.length_le fun he => h.2 (h.1.eq_of_length he)

/-! ### Numbers -/

/-- A plain decimal number. -/
structure Numeral where
  digits : Bytes
  ne : digits ≠ []
  isdigit : ∀ d ∈ digits, Comms.isdigit d = true

/-- The number a numeral stands for. -/
def Numeral.value (n : Numeral) : ℕ := digitsValue n.digits

theorem not_isspace_of_isdigit {c : UInt8} (h : isdigit c = true) : isspace c = false := by
  simp only [isdigit, isspace, Bool.and_eq_true, decide_eq_true_eq, UInt8.le_iff_toNat_le] at h ⊢
  simp only [Bool.or_eq_false_iff, decide_eq_false_iff_not, Bool.and_eq_false_iff]
  have h48 : (48 : UInt8).toNat = 48 := rfl
  refine ⟨?_, .inr ?_⟩
  · rintro rfl
    simp at h
  · have h13 : (13 : UInt8).toNat = 13 := rfl
    omega

/-- `strtol` on bytes that start with a digit reads the digits they start with. -/
theorem strtol_eq {ds tail : Bytes} (hne : ds ≠ []) (hd : ∀ d ∈ ds, isdigit d = true) :
    strtol (ds ++ tail) =
      (max (-2 ^ 63) (min (2 ^ 63 - 1) (digitsValue (ds ++ tail.takeWhile isdigit) : ℤ)),
        ds.length + (tail.takeWhile isdigit).length) := by
  obtain ⟨c, cs, rfl⟩ := List.exists_cons_of_ne_nil hne
  have hc : isdigit c = true := hd c (by simp)
  have hblank : (c :: (cs ++ tail)).takeWhile isspace = [] := by
    rw [List.takeWhile_cons, if_neg (by simp [not_isspace_of_isdigit hc])]
  have htake : (c :: (cs ++ tail)).takeWhile isdigit = c :: (cs ++ tail.takeWhile isdigit) := by
    rw [← List.cons_append, List.takeWhile_append_of_pos hd, List.cons_append]
  have h43 : c ≠ 43 := by rintro rfl; simp [isdigit] at hc
  have h45 : c ≠ 45 := by rintro rfl; simp [isdigit] at hc
  unfold strtol
  simp only [List.cons_append, hblank, List.length_nil, List.drop_zero, List.headD_cons, h43, h45,
    or_self, if_false, Nat.zero_add, htake, reduceCtorEq, List.length_cons, List.length_append]
  rw [Nat.add_right_comm]

/-- A line that `strtol` reads to its end. -/
theorem readBulkLen_line {b : Buffer} {line rest : Bytes} {v : ℤ}
    (h : b.Reads (line ++ kCRLF ++ rest)) (hv : strtol b.rawReadBuffer = (v, line.length)) :
    readBulkLen b = .done (v.bmod (2 ^ 32)) (b.advanceReadIndex (line ++ kCRLF).length) := by
  have h0 : b.rawAt line.length = 13 := by
    rw [h.rawAt (by simp [kCRLF])]
    simp [kCRLF]
  have h1 : b.rawAt ((line.length : ℤ) + 1) = 10 := by
    rw [show (line.length : ℤ) + 1 = ((line.length + 1 : ℕ) : ℤ) by simp,
      h.rawAt (by simp [kCRLF])]
    simp [kCRLF]
  unfold readBulkLen
  rw [hv, h.readableBytes]
  simp only [h0, h1]
  rw [if_neg (by simp [kCRLF]; omega), if_neg (by simp)]
  simp [kCRLF]

/-- A line that `strtol` reads to the end of the readable bytes, or to the byte before. -/
theorem readBulkLen_short {b : Buffer} {p : Bytes} (h : b.Reads p) (h2 : 2 ≤ p.length)
    (hstop : p.length - 1 ≤ (strtol b.rawReadBuffer).2) : readBulkLen b = .more := by
  unfold readBulkLen
  rw [h.readableBytes]
  dsimp only
  rw [if_pos (by omega)]

/-- A size line: the number and the buffer behind its CRLF. -/
theorem readBulkLen_done {b : Buffer} {n : Numeral} {rest : Bytes}
    (h : b.Reads (n.digits ++ kCRLF ++ rest)) (hn : (n.value : ℤ) ≤ maxBulk) :
    readBulkLen b = .done n.value (b.advanceReadIndex (n.digits ++ kCRLF).length) := by
  obtain ⟨behind, hb⟩ := h.mem
  have htake : (kCRLF ++ rest ++ behind).takeWhile isdigit = [] := by
    simp [kCRLF, isdigit]
  have hstr : strtol b.rawReadBuffer = ((n.value : ℤ), n.digits.length) := by
    rw [hb, show n.digits ++ kCRLF ++ rest ++ behind = n.digits ++ (kCRLF ++ rest ++ behind) by
      simp, strtol_eq n.ne n.isdigit, htake]
    simp only [List.append_nil, List.length_nil, Nat.add_zero]
    change (_, _) = ((digitsValue n.digits : ℤ), _)
    unfold maxBulk Numeral.value at hn
    rw [Prod.mk.injEq]
    exact ⟨by omega, rfl⟩
  have hmod : (n.value : ℤ).bmod (2 ^ 32) = n.value := by
    unfold maxBulk at hn
    rw [Int.bmod_eq_of_le] <;> omega
  rw [readBulkLen_line h hstr, hmod]

/-- A part of a size line consists of digits, but for its last byte at most. -/
theorem Numeral.part_cases {n : Numeral} {p : Bytes} (hne : p ≠ [])
    (hp : ProperPrefix p (n.digits ++ kCRLF)) :
    ∃ ds rest, p = ds ++ rest ∧ ds ≠ [] ∧ (∀ d ∈ ds, Comms.isdigit d = true) ∧ rest.length ≤ 1 := by
  have hlt := hp.length_lt
  have htake := List.prefix_iff_eq_take.mp hp.1
  by_cases hle : p.length ≤ n.digits.length
  · rw [List.take_append_of_le_length hle] at htake
    refine ⟨p, [], (List.append_nil p).symm, hne, ?_, Nat.zero_le 1⟩
    intro d hd
    rw [htake] at hd
    exact n.isdigit d (List.mem_of_mem_take hd)
  · have hlen : p.length = n.digits.length + 1 := by
      simp only [List.length_append, kCRLF, List.length_cons, List.length_nil] at hlt
      omega
    refine ⟨n.digits, [13], ?_, n.ne, n.isdigit, Nat.le_refl 1⟩
    rw [htake, hlen, List.take_length_add_append]
    rfl

/-- A part of a size line that is not all of it. -/
theorem readBulkLen_more {b : Buffer} {n : Numeral} {p : Bytes} (h : b.Reads p)
    (hp : ProperPrefix p (n.digits ++ kCRLF)) (h2 : 2 ≤ p.length) : readBulkLen b = .more := by
  obtain ⟨behind, hb⟩ := h.mem
  obtain ⟨ds, rest, rfl, hds, hdigit, hrest⟩ := n.part_cases (List.length_pos_iff.mp (by omega)) hp
  apply readBulkLen_short h h2
  rw [hb, List.append_assoc, strtol_eq hds hdigit, List.length_append]
  dsimp only
  omega

/-! ### Bulk strings -/

/-- A bulk string on the wire. -/
structure Bulk where
  len : Numeral
  body : Bytes
  len_eq : len.value = body.length
  small : (body.length : ℤ) ≤ maxBulk

/-- `$<len>\r\n<body>\r\n`. -/
def Bulk.bytes (bulk : Bulk) : Bytes := 36 :: (bulk.len.digits ++ kCRLF) ++ bulk.body ++ kCRLF

theorem fillNextArgument_reads {b : Buffer} {xs ys : Bytes} (h : b.Reads (xs ++ ys))
    (frame : RedisCommandFrame) :
    frame.fillNextArgument b xs.length = some (frame.pushWord xs, b.advanceReadIndex xs.length) := by
  have hslice := h.slice (i := 0) (n := xs.length) (by simp)
  rw [Nat.add_zero] at hslice
  unfold RedisCommandFrame.fillNextArgument
  rw [if_neg (by omega), Int.toNat_natCast, hslice]
  simp [Circular.slice]

/-- One bulk string. -/
theorem processBulk_done {b : Buffer} {bulk : Bulk} {rest : Bytes} (h : b.Reads (bulk.bytes ++ rest))
    (frame : RedisCommandFrame) :
    processBulk b frame = .done (frame.pushWord bulk.body) (b.advanceReadIndex bulk.bytes.length) := by
  have hds : 0 < bulk.len.digits.length := List.length_pos_iff.mpr bulk.len.ne
  have hsmall : (bulk.len.value : ℤ) ≤ maxBulk := by rw [bulk.len_eq]; exact bulk.small
  have hcons : bulk.bytes ++ rest
      = 36 :: (bulk.len.digits ++ kCRLF ++ (bulk.body ++ (kCRLF ++ rest))) := by
    simp [Bulk.bytes]
  rw [hcons] at h
  have hread := h.readByte.1
  have h₁ := h.readByte.2
  have hlen := readBulkLen_done h₁ hsmall
  have h₂ := h₁.advance
  have hfill := fillNextArgument_reads h₂ frame
  -- the two bytes behind the body
  have h13 : (b.advanceReadIndex 1 |>.advanceReadIndex (bulk.len.digits ++ kCRLF).length).rawAt
      bulk.body.length = 13 := by
    rw [h₂.rawAt (by simp [kCRLF])]
    simp [kCRLF]
  have h10 : (b.advanceReadIndex 1 |>.advanceReadIndex (bulk.len.digits ++ kCRLF).length).rawAt
      ((bulk.body.length : ℤ) + 1) = 10 := by
    rw [show (bulk.body.length : ℤ) + 1 = ((bulk.body.length + 1 : ℕ) : ℤ) by simp,
      h₂.rawAt (by simp [kCRLF])]
    simp [kCRLF]
  unfold processBulk
  rw [h.readableBytes, hread, if_neg (by simp [kCRLF]; omega)]
  dsimp only
  rw [if_neg (by simp), hlen]
  dsimp only
  rw [bulk.len_eq] at hsmall ⊢
  rw [if_neg (by omega), h₂.readableBytes,
    if_neg (by simp only [List.length_append, kCRLF, List.length_cons]; omega), h13, h10,
    if_neg (by simp), hfill]
  dsimp only
  congr 1
  rw [show b.advanceReadIndex 1 = b.advanceReadIndex (1 : ℕ) from rfl]
  show _ = _
  rw [Buffer.advanceReadIndex_advance, Buffer.advanceReadIndex_advance]
  rw [show (2 : ℤ) = ((2 : ℕ) : ℤ) from rfl, Buffer.advanceReadIndex_advance]
  congr 2
  simp only [Bulk.bytes, kCRLF, List.length_append, List.length_cons, List.length_nil]
  omega

/-- A part of a bulk string that is not all of it. -/
theorem processBulk_more {b : Buffer} {bulk : Bulk} {p : Bytes} (h : b.Reads p)
    (hp : ProperPrefix p bulk.bytes) (frame : RedisCommandFrame) :
    processBulk b frame = .more := by
  have hsmall : (bulk.len.value : ℤ) ≤ maxBulk := by rw [bulk.len_eq]; exact bulk.small
  unfold processBulk
  rw [h.readableBytes]
  by_cases h4 : p.length < 4
  · rw [if_pos h4]
  rw [if_neg h4]
  have hbytes : bulk.bytes = [36] ++ (bulk.len.digits ++ kCRLF ++ (bulk.body ++ kCRLF)) := by
    simp [Bulk.bytes]
  rw [hbytes] at hp
  rcases hp.append with hfst | ⟨q, rfl, hq⟩
  · have := hfst.length_lt
    simp only [List.length_singleton] at this
    omega
  rw [List.length_append, List.length_singleton] at h4
  rw [h.readByte.1]
  have h₁ : (b.advanceReadIndex 1).Reads q := h.readByte.2
  dsimp only
  rw [if_neg (by simp)]
  rcases hq.append with hsize | ⟨body, rfl, hbody⟩
  · rw [readBulkLen_more h₁ hsize (by omega)]
  · -- the size line is there, the body or its line end is not
    have hlt := hbody.length_lt
    simp only [List.length_append, kCRLF, List.length_cons, List.length_nil] at hlt
    rw [readBulkLen_done h₁ hsmall]
    dsimp only
    rw [bulk.len_eq] at hsmall ⊢
    rw [if_neg (by omega), h₁.advance.readableBytes, if_pos (by omega)]

/-! ### Multibulk requests -/

/-- The frame after the words of a request. -/
def RedisCommandFrame.pushWords (frame : RedisCommandFrame) (words : List Bytes) :
    RedisCommandFrame :=
  words.foldl pushWord frame

/-- The bulk strings of a request. -/
theorem bulkLoop_done {bulks : List Bulk} {b : Buffer} {rest : Bytes}
    (h : b.Reads (bulks.flatMap Bulk.bytes ++ rest)) (frame : RedisCommandFrame) :
    bulkLoop bulks.length b frame = .done (frame.pushWords (bulks.map Bulk.body))
      (b.advanceReadIndex (bulks.flatMap Bulk.bytes).length) := by
  induction bulks generalizing b frame with
  | nil =>
    simp only [List.flatMap_nil, List.length_nil, Nat.cast_zero, Buffer.advanceReadIndex_zero]
    rfl
  | cons bulk bulks ih =>
    rw [List.flatMap_cons, List.append_assoc] at h
    rw [List.length_cons, bulkLoop, processBulk_done h]
    dsimp only
    rw [ih h.advance, Buffer.advanceReadIndex_advance, List.flatMap_cons, List.length_append]
    rfl

/-- A part of them that is not all. -/
theorem bulkLoop_more {bulks : List Bulk} {b : Buffer} {p : Bytes} (h : b.Reads p)
    (hp : ProperPrefix p (bulks.flatMap Bulk.bytes)) (frame : RedisCommandFrame) :
    bulkLoop bulks.length b frame = .more := by
  induction bulks generalizing b p frame with
  | nil =>
    have := hp.length_lt
    simp at this
  | cons bulk bulks ih =>
    rw [List.flatMap_cons] at hp
    rw [List.length_cons, bulkLoop]
    rcases hp.append with hfst | ⟨q, rfl, hq⟩
    · rw [processBulk_more h hfst]
    · rw [processBulk_done h]
      exact ih h.advance hq _

/-- A multibulk request on the wire: the count, the name of the command, the arguments. -/
structure Multibulk where
  count : Numeral
  cmd : Bulk
  args : List Bulk
  count_eq : count.value = (cmd :: args).length
  small : (count.value : ℤ) ≤ maxBulk

/-- `*<count>\r\n` and the bulk strings. -/
def Multibulk.bytes (request : Multibulk) : Bytes :=
  42 :: (request.count.digits ++ kCRLF ++ (request.cmd :: request.args).flatMap Bulk.bytes)

/-- The words of a request. -/
def Multibulk.words (request : Multibulk) : List Bytes :=
  (request.cmd :: request.args).map Bulk.body

theorem processMultibulkBuffer_done {b : Buffer} {request : Multibulk} {rest : Bytes}
    (h : b.Reads (request.count.digits ++ kCRLF ++
      ((request.cmd :: request.args).flatMap Bulk.bytes ++ rest))) (frame : RedisCommandFrame) :
    processMultibulkBuffer b frame = .done (frame.pushWords request.words)
      (b.advanceReadIndex (request.count.digits ++ kCRLF ++
        (request.cmd :: request.args).flatMap Bulk.bytes).length) := by
  have hds : 0 < request.count.digits.length := List.length_pos_iff.mpr request.count.ne
  have hsmall := request.small
  unfold processMultibulkBuffer
  rw [h.readableBytes, if_neg (by simp [kCRLF]; omega), readBulkLen_done h hsmall]
  dsimp only
  rw [if_neg (by omega), request.count_eq, Int.toNat_natCast, bulkLoop_done h.advance,
    Buffer.advanceReadIndex_advance, ← List.length_append]
  rfl

theorem processMultibulkBuffer_more {b : Buffer} {request : Multibulk} {p : Bytes} (h : b.Reads p)
    (hp : ProperPrefix p (request.count.digits ++ kCRLF ++
      (request.cmd :: request.args).flatMap Bulk.bytes)) (frame : RedisCommandFrame) :
    processMultibulkBuffer b frame = .more := by
  unfold processMultibulkBuffer
  rw [h.readableBytes]
  by_cases h3 : p.length < 3
  · rw [if_pos h3]
  rw [if_neg h3]
  rcases hp.append with hcount | ⟨q, rfl, hq⟩
  · rw [readBulkLen_more h hcount (by omega)]
  · have hsmall := request.small
    rw [readBulkLen_done h hsmall]
    dsimp only
    rw [if_neg (by omega), request.count_eq, Int.toNat_natCast]
    exact bulkLoop_more h.advance hq _

/-! ### Inline lines -/

/-- An inline line on the wire: it does not start like a multibulk request and holds no line
break. -/
structure InlineLine where
  line : Bytes
  ne : line ≠ []
  head : line.head? ≠ some 42
  noBreak : ∀ c ∈ line, isLineBreak c = false

/-- The line and its CRLF. -/
def InlineLine.bytes (l : InlineLine) : Bytes := l.line ++ kCRLF

/-- The words of a line: what stands between its spaces. -/
def inlineWords (line : Bytes) : List Bytes := (line.splitOn 32).filter (· ≠ [])

theorem inlineWords_space (line : Bytes) : inlineWords (32 :: line) = inlineWords line := by
  have h := @List.splitOn_append_cons_self_of_not_mem _ [] _ _ (32 : UInt8) (by simp) line
  rw [List.nil_append] at h
  simp [inlineWords, h]

theorem inlineWords_word {word : Bytes} (hne : word ≠ []) (h : (32 : UInt8) ∉ word) :
    inlineWords word = [word] := by
  simp [inlineWords, List.splitOn_eq_singleton h, hne]

theorem inlineWords_append {word : Bytes} (hne : word ≠ []) (h : (32 : UInt8) ∉ word)
    (line : Bytes) : inlineWords (word ++ 32 :: line) = word :: inlineWords line := by
  simp [inlineWords, List.splitOn_append_cons_self_of_not_mem h, hne]

section InlineLoop

variable {b : Buffer} {index fuel : ℕ} {frame : RedisCommandFrame}

/-- A round at a space. -/
theorem inlineLoop_space {bs : Bytes} (h : b.Reads (32 :: bs)) :
    inlineLoop index (fuel + 1) b frame = inlineLoop index fuel (b.advanceReadIndex 1) frame := by
  rw [inlineLoop, h.readByte.1]
  rfl

/-- A round at any other byte of the line: up to the next space, or to the end. -/
theorem inlineLoop_word {c : UInt8} {bs : Bytes} (h : b.Reads (c :: bs)) (hc : c ≠ 32)
    (hidx : b.readIdx ≠ index) :
    inlineLoop index (fuel + 1) b frame =
      match b.indexOf [32] b.readIdx index with
      | none => some (frame, b)
      | some spaceIndex =>
        match frame.fillNextArgument b ((spaceIndex : ℤ) - b.readIdx) with
        | none => none
        | some (frame, buffer) => inlineLoop index fuel (buffer.advanceReadIndex 1) frame := by
  rw [inlineLoop, h.readByte.1]
  dsimp only
  rw [if_neg hc, Buffer.advanceReadIndex_back]
  exact if_neg hidx

/-- The round at the end of the line. -/
theorem inlineLoop_end {rest : Bytes} (h : b.Reads (kCRLF ++ rest)) :
    inlineLoop b.readIdx (fuel + 1) b frame = some (frame, b.advanceReadIndex 2) := by
  rw [inlineLoop, h.readByte.1]
  dsimp only
  rw [if_neg (by decide), Buffer.advanceReadIndex_back, if_pos rfl]

end InlineLoop

/-- **The words of a line.** From the front of a line, the loop and the tail behind it push the
words of the line and leave the buffer behind its CRLF. -/
theorem inlineLoop_done {line rest : Bytes} {b : Buffer} (h : b.Reads (line ++ kCRLF ++ rest))
    {fuel : ℕ} (hfuel : line.length < fuel) (frame : RedisCommandFrame) :
    ∃ frame' b', inlineLoop (b.readIdx + line.length) fuel b frame = some (frame', b') ∧
      inlineTail (b.readIdx + line.length) frame' b' = .done (frame.pushWords (inlineWords line))
        (b.advanceReadIndex (line ++ kCRLF).length) := by
  induction fuel generalizing b line frame with
  | zero => omega
  | succ fuel ih =>
  cases line with
  | nil =>
    -- the line is empty: the loop stops at the CRLF and the tail has nothing to add
    refine ⟨frame, b.advanceReadIndex 2, inlineLoop_end h, ?_⟩
    unfold inlineTail
    rw [if_neg (by rw [show (2 : ℤ) = ((2 : ℕ) : ℤ) from rfl, Buffer.advanceReadIndex_ofNat]; simp)]
    rfl
  | cons c line =>
    by_cases hc : c = 32
    · -- a space is skipped
      subst hc
      have h₁ : (b.advanceReadIndex 1).Reads (line ++ kCRLF ++ rest) := h.readByte.2
      have hidx : (b.advanceReadIndex 1).readIdx + line.length
          = b.readIdx + (32 :: line).length := by
        rw [List.length_cons, show (b.advanceReadIndex 1).readIdx = b.readIdx + 1 from rfl]
        omega
      obtain ⟨frame', b', hloop, htail⟩ := ih h₁ (by rw [List.length_cons] at hfuel; omega) frame
      rw [hidx] at hloop htail
      refine ⟨frame', b', (inlineLoop_space h).trans hloop, ?_⟩
      rw [htail, inlineWords_space, show (1 : ℤ) = ((1 : ℕ) : ℤ) from rfl,
        Buffer.advanceReadIndex_advance]
      congr 2
      simp only [List.length_append, List.length_cons]
      omega
    have hcur : b.readIdx ≠ b.readIdx + (c :: line).length := by simp
    have hround := @inlineLoop_word b (b.readIdx + (c :: line).length) fuel frame _ _ h hc hcur
    by_cases hsp : (32 : UInt8) ∈ c :: line
    · -- a word and the space behind it, then the rest of the line
      obtain ⟨word, line', heq, hw⟩ := List.eq_append_cons_of_mem hsp
      have hne : word ≠ [] := by
        rintro rfl
        exact hc (List.cons.inj heq).1
      rw [heq] at h hfuel hround ⊢
      have hline : b.Reads (word ++ 32 :: line' ++ (kCRLF ++ rest)) := by
        rwa [← List.append_assoc]
      have hword : b.Reads (word ++ ([32] ++ (line' ++ kCRLF ++ rest))) := by
        simpa using h
      rw [hline.indexOf_one hw] at hround
      dsimp only at hround
      rw [show ((b.readIdx + word.length : ℕ) : ℤ) - b.readIdx = word.length by omega,
        fillNextArgument_reads hword] at hround
      dsimp only at hround
      have hadv := Buffer.advanceReadIndex_advance b word.length 1
      rw [Nat.cast_one] at hadv
      have h₂ : ((b.advanceReadIndex word.length).advanceReadIndex 1).Reads
          (line' ++ kCRLF ++ rest) := hword.advance.advance
      simp only [List.length_append, List.length_cons] at hfuel
      obtain ⟨frame', b', hloop, htail⟩ := ih h₂ (by omega) (frame.pushWord word)
      have hidx : ((b.advanceReadIndex word.length).advanceReadIndex 1).readIdx + line'.length
          = b.readIdx + (word ++ 32 :: line').length := by
        rw [hadv, Buffer.advanceReadIndex_ofNat]
        simp only [List.length_append, List.length_cons]
        omega
      rw [hidx] at hloop htail
      refine ⟨frame', b', hround.trans hloop, ?_⟩
      have hlen : word.length + 1 + (line' ++ kCRLF).length
          = (word ++ 32 :: line' ++ kCRLF).length := by
        simp only [List.length_append, List.length_cons]
        omega
      rw [htail, inlineWords_append hne hw, hadv, Buffer.advanceReadIndex_advance, hlen]
      rfl
    · -- the last word of the line
      have hline : b.Reads (c :: line ++ (kCRLF ++ rest)) := by rwa [← List.append_assoc]
      rw [hline.indexOf_none hsp] at hround
      refine ⟨frame, b, hround, ?_⟩
      unfold inlineTail
      dsimp only
      rw [if_pos (by simp), show ((b.readIdx + (c :: line).length : ℕ) : ℤ) - b.readIdx
        = (c :: line).length by omega, fillNextArgument_reads hline]
      dsimp only
      rw [inlineWords_word (List.cons_ne_nil _ _) hsp, show (2 : ℤ) = ((2 : ℕ) : ℤ) from rfl,
        Buffer.advanceReadIndex_advance, List.length_append]
      rfl

/-- An inline line. -/
theorem processInlineBuffer_done {b : Buffer} {l : InlineLine} {rest : Bytes}
    (h : b.Reads (l.bytes ++ rest)) (frame : RedisCommandFrame) :
    processInlineBuffer b frame = .done (frame.pushWords (inlineWords l.line))
      (b.advanceReadIndex l.bytes.length) := by
  have hcr : (13 : UInt8) ∉ l.line := fun hmem => by simpa [isLineBreak] using l.noBreak _ hmem
  have hline : b.Reads (l.line ++ 13 :: 10 :: rest) := by simpa [InlineLine.bytes, kCRLF] using h
  have hfuel : l.line.length < b.readableBytes + 1 := by
    rw [hline.readableBytes, List.length_append]
    omega
  obtain ⟨frame', b', hloop, htail⟩ := inlineLoop_done h hfuel frame
  unfold processInlineBuffer
  rw [kCRLF, hline.indexOf_crlf hcr]
  dsimp only
  rw [hloop]
  exact htail

/-- A part of an inline line that is not all of it. -/
theorem processInlineBuffer_more {b : Buffer} {l : InlineLine} {p : Bytes} (h : b.Reads p)
    (hp : ProperPrefix p l.bytes) (frame : RedisCommandFrame) :
    processInlineBuffer b frame = .more := by
  have hcr : (13 : UInt8) ∉ l.line := fun hmem => by simpa [isLineBreak] using l.noBreak _ hmem
  unfold processInlineBuffer
  have hfind : b.indexOf kCRLF b.readIdx b.writeIdx = none := by
    rcases hp.append with hline | ⟨q, rfl, hq⟩
    · have hno : (13 : UInt8) ∉ p := fun hmem => hcr (hline.1.subset hmem)
      have h' : b.Reads (p ++ []) := by rwa [List.append_nil]
      rw [kCRLF, ← h.idx]
      exact h'.indexOf_none hno
    · cases q with
      | nil =>
        rw [List.append_nil] at h
        have h' : b.Reads (l.line ++ []) := by rwa [List.append_nil]
        rw [kCRLF, ← h.idx]
        exact h'.indexOf_none hcr
      | cons c q =>
        have hlt := hq.length_lt
        have hpre := hq.1
        rw [kCRLF, List.cons_prefix_cons] at hpre
        obtain rfl : q = [] := List.length_eq_zero_iff.mp (by
          simp only [kCRLF, List.length_cons, List.length_nil] at hlt
          omega)
        rw [hpre.1] at h
        exact h.indexOf_cr hcr
  rw [hfind]

/-! ### Commands -/

/-- A complete command on the wire. -/
inductive CommandFrame
  | multibulk (request : Multibulk)
  | inline (l : InlineLine)

namespace CommandFrame

/-- The bytes of a command. -/
def bytes : CommandFrame → Bytes
  | .multibulk request => request.bytes
  | .inline l => l.bytes

/-- The words of a command. -/
def words : CommandFrame → List Bytes
  | .multibulk request => request.words
  | .inline l => inlineWords l.line

/-- Whether the command is an inline line. -/
def isInline : CommandFrame → Bool
  | .multibulk _ => false
  | .inline _ => true

/-- The frame the decoder builds, less the raw message. -/
def frame (c : CommandFrame) : RedisCommandFrame :=
  { RedisCommandFrame.empty with isInline := c.isInline }.pushWords c.words

/-- A command is not empty and starts with a byte that `decode` does not skip. -/
theorem exists_cons (c : CommandFrame) : ∃ ch bs, c.bytes = ch :: bs ∧ isLineBreak ch = false := by
  cases c with
  | multibulk request => exact ⟨42, _, rfl, rfl⟩
  | inline l =>
    obtain ⟨ch, line, hline⟩ := List.exists_cons_of_ne_nil l.ne
    exact ⟨ch, line ++ kCRLF, by simp [bytes, InlineLine.bytes, hline],
      l.noBreak ch (by simp [hline])⟩

theorem length_pos (c : CommandFrame) : 0 < c.bytes.length := by
  obtain ⟨ch, bs, h, -⟩ := c.exists_cons
  rw [h]
  exact Nat.succ_pos _

/-- The words of a command, from the branch of the decoder its first byte selects. -/
theorem processBuffer_done (c : CommandFrame) {b : Buffer} {ch : UInt8} {bs rest : Bytes}
    (hbytes : c.bytes = ch :: bs) (h : b.Reads (c.bytes ++ rest)) :
    processBuffer b ch (b.advanceReadIndex 1) = .done c.frame
      (b.advanceReadIndex c.bytes.length) := by
  cases c with
  | multibulk request =>
    obtain ⟨rfl, rfl⟩ := List.cons.inj hbytes
    have h₁ : (b.advanceReadIndex 1).Reads (request.count.digits ++ kCRLF ++
        ((request.cmd :: request.args).flatMap Bulk.bytes ++ rest)) := by
      have h' : b.Reads (42 :: (request.count.digits ++ kCRLF ++
          ((request.cmd :: request.args).flatMap Bulk.bytes ++ rest))) := by
        simpa [bytes, Multibulk.bytes] using h
      exact h'.readByte.2
    unfold processBuffer
    rw [if_pos rfl, processMultibulkBuffer_done h₁, show (1 : ℤ) = ((1 : ℕ) : ℤ) from rfl,
      Buffer.advanceReadIndex_advance, Nat.add_comm]
    rfl
  | inline l =>
    have hch : ch ≠ 42 := by
      rintro rfl
      obtain ⟨c, line, hline⟩ := List.exists_cons_of_ne_nil l.ne
      have hhead := l.head
      simp only [bytes, InlineLine.bytes, hline, List.cons_append, List.cons.injEq] at hbytes
      rw [hline, hbytes.1] at hhead
      simp at hhead
    unfold processBuffer
    rw [if_neg hch, processInlineBuffer_done h]
    rfl

/-- A part of a command that is not all of it. -/
theorem processBuffer_more (c : CommandFrame) {b : Buffer} {ch : UInt8} {p : Bytes}
    (h : b.Reads (ch :: p)) (hp : ProperPrefix (ch :: p) c.bytes) :
    processBuffer b ch (b.advanceReadIndex 1) = .more := by
  cases c with
  | multibulk request =>
    obtain ⟨hpre, hne⟩ := hp
    obtain ⟨rfl, hpre'⟩ := List.cons_prefix_cons.mp hpre
    unfold processBuffer
    rw [if_pos rfl]
    refine processMultibulkBuffer_more h.readByte.2 ⟨hpre', ?_⟩ _
    rintro rfl
    exact hne rfl
  | inline l =>
    have hch : ch ≠ 42 := by
      rintro rfl
      obtain ⟨c, line, hline⟩ := List.exists_cons_of_ne_nil l.ne
      have hhead := l.head
      have hpre := hp.1
      simp only [bytes, InlineLine.bytes, hline, List.cons_append, List.cons_prefix_cons] at hpre
      rw [hline, ← hpre.1] at hhead
      simp at hhead
    unfold processBuffer
    rw [if_neg hch]
    exact processInlineBuffer_more h hp _

end CommandFrame

/-- `decode` skips nothing in front of a byte that is not a line break. -/
theorem decode_noSkip {b : Buffer} {ch : UInt8} {bs : Bytes} (h : b.Reads (ch :: bs))
    (hch : isLineBreak ch = false) :
    decode b = match processBuffer b ch (b.advanceReadIndex 1) with
      | .done msg buffer =>
        .frame { msg with rawMsg := ⟨b.readIdx, buffer.readIdx - b.readIdx⟩ } buffer
      | .more => .none "" b
      | .error err buffer => .none err buffer
      | .fault => .fault := by
  obtain ⟨behind, hb⟩ := h.mem
  have hskip : (b.rawReadBuffer.takeWhile isLineBreak).length = 0 := by
    rw [hb, List.cons_append, List.takeWhile_cons, if_neg (by simp [hch]), List.length_nil]
  unfold decode
  rw [hskip, Nat.cast_zero, Buffer.advanceReadIndex_zero]
  dsimp only
  rw [h.readByte.1]
  dsimp only
  rw [Buffer.advanceReadIndex_back]
  rfl

/-- **One command.** `decode` takes exactly the command in front of the readable bytes. -/
theorem decode_frame (c : CommandFrame) {b : Buffer} {rest : Bytes}
    (h : b.Reads (c.bytes ++ rest)) :
    decode b = .frame { c.frame with rawMsg := ⟨b.readIdx, c.bytes.length⟩ }
      (b.advanceReadIndex c.bytes.length) := by
  obtain ⟨ch, bs, hbytes, hbreak⟩ := c.exists_cons
  have h' : b.Reads (ch :: (bs ++ rest)) := by rwa [hbytes] at h
  rw [decode_noSkip h' hbreak, c.processBuffer_done hbytes h]
  dsimp only
  rw [Buffer.advanceReadIndex_ofNat, Nat.add_sub_cancel_left]

/-- **Part of a command.** `decode` leaves the front of a command alone that is not all of it,
whatever lies behind the readable bytes. -/
theorem decode_more (c : CommandFrame) {b : Buffer} {p : Bytes} (h : b.Reads p) (hne : p ≠ [])
    (hp : ProperPrefix p c.bytes) : decode b = .none "" b := by
  obtain ⟨ch, bs, hbytes, hbreak⟩ := c.exists_cons
  obtain ⟨ch', p, rfl⟩ := List.exists_cons_of_ne_nil hne
  have hch : ch' = ch := by
    have hpre := hp.1
    rw [hbytes] at hpre
    exact (List.cons_prefix_cons.mp hpre).1
  rw [decode_noSkip h (hch ▸ hbreak), c.processBuffer_more h hp]

/-! ### The decoder on any bytes -/

/-- The buffer `b'` is `b` with the read index moved ahead, inside the readable range. -/
structure Buffer.Ahead (b b' : Buffer) : Prop where
  mem : b'.mem = b.mem
  writeIdx : b'.writeIdx = b.writeIdx
  le : b.readIdx ≤ b'.readIdx
  inside : b'.readIdx ≤ b'.writeIdx

theorem Buffer.Ahead.refl {b : Buffer} (h : b.readIdx ≤ b.writeIdx) : b.Ahead b :=
  ⟨rfl, rfl, le_rfl, h⟩

theorem Buffer.Ahead.trans {b b' b'' : Buffer} (h : b.Ahead b') (h' : b'.Ahead b'') :
    b.Ahead b'' :=
  ⟨h'.mem.trans h.mem, h'.writeIdx.trans h.writeIdx, h.le.trans h'.le, h'.inside⟩

theorem Buffer.Ahead.advance {b : Buffer} {n : ℕ} (h : b.readIdx + n ≤ b.writeIdx) :
    b.Ahead (b.advanceReadIndex n) :=
  ⟨rfl, rfl, Nat.le_add_right _ _, h⟩

theorem fillNextArgument_ahead {frame frame' : RedisCommandFrame} {b b' : Buffer} {len : ℤ}
    (h : frame.fillNextArgument b len = some (frame', b')) (hlen : b.readIdx + len ≤ b.writeIdx) :
    b.Ahead b' ∧ (b'.readIdx : ℤ) = b.readIdx + len := by
  unfold RedisCommandFrame.fillNextArgument at h
  split at h
  · cases h
  next hneg =>
  obtain ⟨n, rfl⟩ := Int.eq_ofNat_of_zero_le (Int.not_lt.mp hneg)
  obtain ⟨-, rfl⟩ := Prod.mk.inj (Option.some.inj h)
  exact ⟨.advance (by omega), by simp⟩

theorem readBulkLen_ahead {b b' : Buffer} {n : ℤ} (h : readBulkLen b = .done n b')
    (h2 : 2 ≤ b.readableBytes) : b.Ahead b' := by
  unfold readBulkLen at h
  dsimp only at h
  split at h
  · cases h
  split at h
  · cases h
  next hle _ =>
  obtain ⟨-, rfl⟩ := Parsed.done.inj h
  unfold Buffer.readableBytes at h2 hle
  exact .advance (by omega)

/-- A number that was read is followed by its two line-break bytes. -/
theorem processBulk_ahead {b b' : Buffer} {frame frame' : RedisCommandFrame}
    (h : processBulk b frame = .done frame' b') : b.Ahead b' := by
  unfold processBulk at h
  split at h
  · cases h
  next h4 =>
  split at h
  · cases h
  next ch b₁ hread =>
  obtain ⟨hlt, rfl⟩ := Buffer.readByte_eq_some hread
  have hinside : b.Ahead (b.advanceReadIndex (1 : ℕ)) := .advance (by omega)
  split at h
  · cases h
  split at h
  · cases h
  · cases h
  · cases h
  next arglen b₂ hlen =>
  have h₂ := hinside.trans (readBulkLen_ahead hlen (by
    unfold Buffer.readableBytes at h4 ⊢
    rw [Buffer.advanceReadIndex_writeIdx, Buffer.advanceReadIndex_ofNat]
    omega))
  split at h
  · cases h
  split at h
  · cases h
  next hroom =>
  split at h
  · cases h
  split at h
  · cases h
  next frame₃ b₃ hfill =>
  obtain ⟨-, rfl⟩ := Parsed.done.inj h
  unfold Buffer.readableBytes at hroom
  have hin₂ := h₂.inside
  obtain ⟨h₃, hidx⟩ := fillNextArgument_ahead hfill (by omega)
  refine (h₂.trans h₃).trans (Buffer.Ahead.advance (n := 2) ?_)
  rw [h₃.writeIdx]
  omega

theorem bulkLoop_ahead {n : ℕ} {b b' : Buffer} {frame frame' : RedisCommandFrame}
    (h : bulkLoop n b frame = .done frame' b') (hb : b.readIdx ≤ b.writeIdx) : b.Ahead b' := by
  induction n generalizing b frame with
  | zero =>
    obtain ⟨-, rfl⟩ := Parsed.done.inj h
    exact .refl hb
  | succ n ih =>
    rw [bulkLoop] at h
    split at h
    · next frame₁ b₁ hbulk =>
      have h₁ := processBulk_ahead hbulk
      exact h₁.trans (ih h h₁.inside)
    · next hother => exact absurd h (hother _ _)

theorem processMultibulkBuffer_ahead {b b' : Buffer} {frame frame' : RedisCommandFrame}
    (h : processMultibulkBuffer b frame = .done frame' b') : b.Ahead b' := by
  unfold processMultibulkBuffer at h
  split at h
  · cases h
  next h3 =>
  split at h
  · cases h
  · cases h
  · cases h
  next n b₁ hlen =>
  have h₁ := readBulkLen_ahead hlen (by omega)
  split at h
  · cases h
  exact h₁.trans (bulkLoop_ahead h h₁.inside)

theorem inlineLoop_ahead {index fuel : ℕ} {b b' : Buffer} {frame frame' : RedisCommandFrame}
    (h : inlineLoop index fuel b frame = some (frame', b')) (hb : b.readIdx ≤ b.writeIdx)
    (hindex : index + 2 ≤ b.writeIdx) : b.Ahead b' := by
  induction fuel generalizing b frame with
  | zero =>
    obtain ⟨-, rfl⟩ := Prod.mk.inj (Option.some.inj h)
    exact .refl hb
  | succ fuel ih =>
    rw [inlineLoop] at h
    split at h
    · obtain ⟨-, rfl⟩ := Prod.mk.inj (Option.some.inj h)
      exact .refl hb
    next ch b₁ hread =>
    obtain ⟨hlt, rfl⟩ := Buffer.readByte_eq_some hread
    have h₁ : b.Ahead (b.advanceReadIndex (1 : ℕ)) := .advance (by omega)
    split at h
    · exact h₁.trans (ih h h₁.inside hindex)
    rw [Nat.cast_one, Buffer.advanceReadIndex_back] at h
    dsimp only at h
    split at h
    · next heq =>
      obtain ⟨-, rfl⟩ := Prod.mk.inj (Option.some.inj h)
      exact Buffer.Ahead.advance (n := 2) (by omega)
    split at h
    · obtain ⟨-, rfl⟩ := Prod.mk.inj (Option.some.inj h)
      exact .refl hb
    next p hp =>
    obtain ⟨-, hp₂, -⟩ := Buffer.indexOf_bounds hp
    rw [List.length_singleton] at hp₂
    split at h
    · cases h
    next frame₂ b₂ hfill =>
    obtain ⟨h₂, hidx⟩ := fillNextArgument_ahead hfill (by omega)
    have h₃ : b₂.Ahead (b₂.advanceReadIndex (1 : ℕ)) := .advance (by
      rw [h₂.writeIdx]
      omega)
    refine (h₂.trans h₃).trans (ih h h₃.inside ?_)
    rw [h₃.writeIdx, h₂.writeIdx]
    exact hindex

theorem processInlineBuffer_ahead {b b' : Buffer} {frame frame' : RedisCommandFrame}
    (h : processInlineBuffer b frame = .done frame' b') (hb : b.readIdx ≤ b.writeIdx) :
    b.Ahead b' := by
  unfold processInlineBuffer at h
  split at h
  · cases h
  next index hindex =>
  obtain ⟨-, hindex, -⟩ := Buffer.indexOf_bounds hindex
  simp only [kCRLF, List.length_cons, List.length_nil] at hindex
  split at h
  · cases h
  next frame₁ b₁ hloop =>
  have h₁ := inlineLoop_ahead hloop hb hindex
  unfold inlineTail at h
  dsimp only at h
  split at h
  · split at h
    · cases h
    next frame₂ b₂ hfill =>
    obtain ⟨-, rfl⟩ := Parsed.done.inj h
    have hw := h₁.writeIdx
    obtain ⟨h₂, hidx⟩ := fillNextArgument_ahead hfill (by omega)
    refine (h₁.trans h₂).trans (Buffer.Ahead.advance (n := 2) ?_)
    rw [h₂.writeIdx]
    omega
  · obtain ⟨-, rfl⟩ := Parsed.done.inj h
    exact h₁

/-- **What a command takes.** On any bytes, the raw message of a decoded command lies between the
old and the new read index, and the new read index in the readable range. -/
theorem decode_ahead {b b' : Buffer} {msg : RedisCommandFrame} (h : decode b = .frame msg b') :
    b.Ahead b' ∧ b.readIdx ≤ msg.rawMsg.off ∧ msg.rawMsg.off + msg.rawMsg.len = b'.readIdx := by
  unfold decode at h
  dsimp only at h
  split at h
  · cases h
  next ch next hread =>
  obtain ⟨hlt, rfl⟩ := Buffer.readByte_eq_some hread
  rw [Nat.cast_one, Buffer.advanceReadIndex_back] at h
  rw [Buffer.advanceReadIndex_ofNat, Buffer.advanceReadIndex_writeIdx] at hlt
  generalize hskip : (b.rawReadBuffer.takeWhile isLineBreak).length = skip at h hlt
  have h₀ : b.Ahead (b.advanceReadIndex skip) := .advance (by omega)
  split at h
  · next msg₁ b₁ hdone =>
    obtain ⟨rfl, rfl⟩ := Decoded.frame.inj h
    have h₁ : (b.advanceReadIndex skip).Ahead b₁ := by
      unfold processBuffer at hdone
      split at hdone
      · have hone : (b.advanceReadIndex skip).Ahead ((b.advanceReadIndex skip).advanceReadIndex
            (1 : ℕ)) := .advance (by
          rw [Buffer.advanceReadIndex_ofNat, Buffer.advanceReadIndex_writeIdx]
          omega)
        exact hone.trans (processMultibulkBuffer_ahead hdone)
      · exact processInlineBuffer_ahead hdone h₀.inside
    refine ⟨h₀.trans h₁, h₀.le, ?_⟩
    have := h₁.le
    dsimp only
    omega
  · cases h
  · cases h
  · cases h

end Comms
