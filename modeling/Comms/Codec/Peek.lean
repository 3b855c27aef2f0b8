import Comms.Codec.RequestGrammar

/-!
# What the command decoder looks at

`RedisCommandDecoder::Decode` gets a pointer to the readable bytes and may read on behind them:
`strtol` does not know where they end. This module says when that matters.

* `strtol_append` — a number is in the received bytes, unless they are blanks and a sign only;
* `Settles` — a parsing function answers the same for every buffer with these readable bytes;
* `Peeks` — a size line of blanks only, where the parser gives an answer without its number;
* `processMultibulkBuffer_settles` — the multibulk parser looks at what was received only, unless it
  peeks;
* `processInlineBuffer_settles` — the inline parser does anyway;
* `ReceivedOnly` — a decoder has one result for all buffers with these readable bytes, and does not
  move behind them;
* `commandOutcome_receivedOnly_iff` — when `Decode` is such a decoder.
-/

namespace Comms

/-! ### Numbers at the end of the received bytes -/

/-- Blanks, and a sign behind them at most. -/
def BlankSign (q : Bytes) : Prop :=
  q.dropWhile isspace = [] ∨ q.dropWhile isspace = [43] ∨ q.dropWhile isspace = [45]

instance (q : Bytes) : Decidable (BlankSign q) := inferInstanceAs (Decidable (_ ∨ _))

/-- The length of the sign that the bytes start with. -/
def signLength (t : Bytes) : ℕ := if t.headD 0 = 43 ∨ t.headD 0 = 45 then 1 else 0

/-- `strtol` from the first byte on that is not a blank. -/
def signedNumber (blanks : ℕ) (t : Bytes) : ℤ × ℕ :=
  if (t.drop (signLength t)).takeWhile isdigit = [] then (0, 0)
  else
    (max (-2 ^ 63) (min (2 ^ 63 - 1)
      (if t.headD 0 = 45 then -(digitsValue ((t.drop (signLength t)).takeWhile isdigit) : ℤ)
        else digitsValue ((t.drop (signLength t)).takeWhile isdigit))),
      blanks + signLength t + ((t.drop (signLength t)).takeWhile isdigit).length)

theorem drop_takeWhile {p : UInt8 → Bool} (xs : Bytes) :
    xs.drop (xs.takeWhile p).length = xs.dropWhile p := by
  have h := congrArg (List.drop (xs.takeWhile p).length) (List.takeWhile_append_dropWhile (p := p) (l := xs))
  rw [List.drop_left] at h
  exact h.symm

theorem strtol_signed (raw : Bytes) :
    strtol raw = signedNumber (raw.takeWhile isspace).length (raw.dropWhile isspace) := by
  unfold strtol signedNumber signLength
  dsimp only
  rw [← List.drop_drop, drop_takeWhile]

theorem takeWhile_append_cases {p : UInt8 → Bool} (xs ys : Bytes) :
    (xs ++ ys).takeWhile p = xs.takeWhile p ∨
      (xs.takeWhile p = xs ∧ xs.length ≤ ((xs ++ ys).takeWhile p).length) := by
  induction xs with
  | nil => exact .inr ⟨rfl, Nat.zero_le _⟩
  | cons x xs ih =>
    rw [List.cons_append, List.takeWhile_cons, List.takeWhile_cons]
    split
    · rcases ih with h | ⟨h, hle⟩
      · exact .inl (congrArg (x :: ·) h)
      · exact .inr ⟨congrArg (x :: ·) h, Nat.succ_le_succ hle⟩
    · exact .inl rfl

/-- Where a number starts with bytes of `q`, `strtol` stops in them, or comes to their end. -/
theorem signedNumber_append {c : UInt8} {t : Bytes} (hne : (c :: t).drop (signLength (c :: t)) ≠ [])
    (blanks : ℕ) (behind : Bytes) :
    signedNumber blanks (c :: t ++ behind) = signedNumber blanks (c :: t) ∨
      (blanks + (c :: t).length ≤ (signedNumber blanks (c :: t ++ behind)).2 ∧
        blanks + (c :: t).length ≤ (signedNumber blanks (c :: t)).2) := by
  have hsign : signLength (c :: t ++ behind) = signLength (c :: t) := rfl
  have hle : signLength (c :: t) ≤ (c :: t).length := by
    by_contra hlt
    exact hne (List.drop_eq_nil_of_le (not_le.mp hlt).le)
  have hdrop : (c :: t ++ behind).drop (signLength (c :: t)) =
      (c :: t).drop (signLength (c :: t)) ++ behind := List.drop_append_of_le_length hle
  have hlen := List.length_drop (i := signLength (c :: t)) (l := c :: t)
  unfold signedNumber
  rw [hsign, hdrop]
  rcases takeWhile_append_cases (p := isdigit) ((c :: t).drop (signLength (c :: t))) behind with
    h | ⟨h, hge⟩
  · left
    rw [h]
    rfl
  · right
    have hne' : ((c :: t).drop (signLength (c :: t)) ++ behind).takeWhile isdigit ≠ [] := by
      intro hnil
      rw [hnil] at hge
      exact hne (List.length_eq_zero_iff.mp (Nat.le_zero.mp hge))
    rw [h, if_neg hne', if_neg hne]
    dsimp only
    omega

/-- **Numbers in the received bytes.** Unless there are only blanks and a sign, `strtol` reads the
same whatever lies behind, or comes to the end of the received bytes. -/
theorem strtol_append {q : Bytes} (h : ¬ BlankSign q) (behind : Bytes) :
    strtol (q ++ behind) = strtol q ∨
      (q.length ≤ (strtol (q ++ behind)).2 ∧ q.length ≤ (strtol q).2) := by
  unfold BlankSign at h
  push Not at h
  obtain ⟨hnil, hplus, hminus⟩ := h
  obtain ⟨c, t, ht⟩ := List.exists_cons_of_ne_nil hnil
  have hq : q.takeWhile isspace ++ (c :: t) = q := by
    rw [← ht]
    exact List.takeWhile_append_dropWhile
  have hlen := congrArg List.length hq
  rw [List.length_append] at hlen
  have hempty : (q.dropWhile isspace).isEmpty = false := by rw [ht]; rfl
  have hdrop : (q ++ behind).dropWhile isspace = c :: t ++ behind := by
    rw [List.dropWhile_append, hempty, ht]
    rfl
  have htake : (q ++ behind).takeWhile isspace = q.takeWhile isspace := by
    rw [List.takeWhile_append, if_neg]
    rw [← hlen, List.length_cons]
    omega
  have hsign : (c :: t).drop (signLength (c :: t)) ≠ [] := by
    rw [ht] at hplus hminus
    unfold signLength
    split
    · next hc =>
      rintro rfl
      rcases hc with hc | hc
      · exact hplus (congrArg (fun c => [c]) hc)
      · exact hminus (congrArg (fun c => [c]) hc)
    · exact List.cons_ne_nil c t
  rw [strtol_signed, strtol_signed, hdrop, htake, ht, ← hlen]
  exact signedNumber_append hsign _ behind

theorem signedNumber_zero_or (blanks : ℕ) (t : Bytes) :
    signedNumber blanks t = (0, 0) ∨ blanks + signLength t < (signedNumber blanks t).2 := by
  unfold signedNumber
  split
  · exact .inl rfl
  · next hne =>
    have hpos := List.length_pos_iff.mpr hne
    refine .inr ?_
    dsimp only
    omega

/-- Behind blanks and a sign the number is looked for behind the received bytes. -/
theorem strtol_blankSign {q : Bytes} (h : BlankSign q) (behind : Bytes) :
    strtol (q ++ behind) = (0, 0) ∨ q.length < (strtol (q ++ behind)).2 := by
  have hq := congrArg List.length (@List.takeWhile_append_dropWhile _ isspace q)
  rw [List.length_append] at hq
  rw [strtol_signed, List.takeWhile_append, List.dropWhile_append]
  by_cases hnil : q.dropWhile isspace = []
  · rw [hnil, List.length_nil, Nat.add_zero] at hq
    rw [if_pos hq, hnil, List.length_append]
    rcases signedNumber_zero_or (q.length + (behind.takeWhile isspace).length)
      (behind.dropWhile isspace) with hzero | hlt
    · exact .inl hzero
    · refine .inr ?_
      change q.length < (signedNumber _ (behind.dropWhile isspace)).2
      omega
  · have hone : (q.dropWhile isspace).length = 1 ∧
        ∀ ys, signLength (q.dropWhile isspace ++ ys) = 1 := by
      rcases h.resolve_left hnil with hs | hs
      · rw [hs]
        exact ⟨rfl, fun ys => rfl⟩
      · rw [hs]
        exact ⟨rfl, fun ys => rfl⟩
    obtain ⟨hlen, hsign⟩ := hone
    have hempty : (q.dropWhile isspace).isEmpty = false := by
      rwa [← Bool.not_eq_true, List.isEmpty_iff]
    rw [if_neg (by omega), hempty]
    have hor := signedNumber_zero_or (q.takeWhile isspace).length (q.dropWhile isspace ++ behind)
    rw [hsign] at hor
    refine hor.imp id fun hlt => ?_
    change q.length < (signedNumber _ (q.dropWhile isspace ++ behind)).2
    omega

/-- Without a digit behind them there is no number. -/
theorem strtol_blankSign_nil {q : Bytes} (h : BlankSign q) : strtol q = (0, 0) := by
  rw [strtol_signed]
  unfold BlankSign at h
  rcases h with h | h | h <;> rw [h] <;> rfl

/-- With a digit behind them there is one. -/
theorem strtol_blankSign_digit {q : Bytes} (h : BlankSign q) :
    q.length < (strtol (q ++ [48])).2 := by
  have hq := congrArg List.length (@List.takeWhile_append_dropWhile _ isspace q)
  rw [List.length_append] at hq
  rw [strtol_signed, List.takeWhile_append, List.dropWhile_append]
  by_cases hnil : q.dropWhile isspace = []
  · rw [hnil, List.length_nil, Nat.add_zero] at hq
    rw [if_pos hq, hnil, List.length_append]
    change q.length < q.length + 0 + 0 + 1
    omega
  · have hempty : (q.dropWhile isspace).isEmpty = false := by
      rwa [← Bool.not_eq_true, List.isEmpty_iff]
    rw [hempty]
    rcases h.resolve_left hnil with hs | hs <;> rw [hs] at hq ⊢ <;> rw [List.length_singleton] at hq
    · rw [if_neg (by omega)]
      change q.length < (q.takeWhile isspace).length + 1 + 1
      omega
    · rw [if_neg (by omega)]
      change q.length < (q.takeWhile isspace).length + 1 + 1
      omega

/-! ### Size lines -/

section Lines

variable {q : Bytes}

/-- A size line whose number ends in the received bytes. -/
structure PlainLine (q : Bytes) (value : ℤ) (rest : Bytes) : Prop where
  loose : LooseLine q [] value rest
  plain : ¬ BlankSign q

/-- It is one whatever lies behind. -/
theorem PlainLine.looseLine {value : ℤ} {rest : Bytes} (h : PlainLine q value rest)
    (behind : Bytes) : LooseLine q behind value rest := by
  obtain ⟨line, number, hq, hstr, hvalue⟩ := h.loose.line
  rw [List.append_nil] at hstr
  have hlen := congrArg List.length hq
  rw [List.length_append, List.length_append] at hlen
  have hcrlf : kCRLF.length = 2 := rfl
  refine ⟨h.loose.room, line, number, hq, ?_, hvalue⟩
  rcases strtol_append h.plain behind with heq | ⟨-, hle⟩
  · rw [heq, hstr]
  · rw [hstr] at hle
    change q.length ≤ line.length at hle
    omega

/-- A line that does not consist of blanks is what it is whatever lies behind. -/
theorem plain_cases (h3 : 3 ≤ q.length) (hq : ¬ BlankSign q) :
    (∃ value rest, PlainLine q value rest) ∨ (∀ behind, BadLine q behind) ∨
      ∀ behind, q.length - 1 ≤ (strtol (q ++ behind)).2 := by
  rcases @line_cases q [] h3 with ⟨value, rest, hline⟩ | hbad | hshort
  · exact .inl ⟨value, rest, hline, hq⟩
  · refine .inr (.inl fun behind => ?_)
    have hin := hbad.inside
    have hend := hbad.noEnd
    rw [List.append_nil] at hin hend
    rcases strtol_append hq behind with heq | ⟨-, hle⟩
    · exact ⟨h3, by rw [heq]; exact hin, by rw [heq]; exact hend⟩
    · omega
  · refine .inr (.inr fun behind => ?_)
    rw [List.append_nil] at hshort
    rcases strtol_append hq behind with heq | ⟨hle, -⟩
    · rw [heq]
      exact hshort
    · omega

end Lines

/-! ### Answers that depend on the received bytes only -/

/-- What a parsing function answers, with the number of bytes it moves ahead. -/
inductive Moved (α : Type)
  | done (value : α) (n : ℕ)
  | more
  | error (err : String) (n : ℕ)
  | fault

namespace Moved

variable {α : Type}

/-- How far the read index moves. -/
def length : Moved α → ℕ
  | done _ n => n
  | error _ n => n
  | _ => 0

/-- The answer on a buffer. -/
def answer (b : Buffer) : Moved α → Parsed α
  | done value n => .done value (b.advanceReadIndex n)
  | more => .more
  | error err n => .error err (b.advanceReadIndex n)
  | fault => .fault

end Moved

/-- **Received bytes only.** On every buffer whose readable bytes are `r` the function gives this
answer, and it does not move behind them. -/
structure Settles {α : Type} (parse : Buffer → Parsed α) (r : Bytes) (result : Moved α) : Prop where
  inside : result.length ≤ r.length
  same : ∀ b, b.Reads r → parse b = result.answer b

theorem Buffer.Reads.exists_sees {b : Buffer} {r : Bytes} (h : b.Reads r) :
    ∃ behind, b.Sees r behind := by
  obtain ⟨behind, hraw⟩ := h.mem
  exact ⟨behind, h.idx, hraw⟩

/-- A bulk string whose size ends in the received bytes. -/
structure PlainBulk (r word rest : Bytes) : Prop where
  line : ∃ q, r = 36 :: q ∧ PlainLine q word.length (word ++ kCRLF ++ rest)
  small : (word.length : ℤ) ≤ maxBulk

theorem PlainBulk.looseBulk {r word rest : Bytes} (h : PlainBulk r word rest) (behind : Bytes) :
    LooseBulk r behind word rest := by
  obtain ⟨q, rfl, hline⟩ := h.line
  exact ⟨⟨q, rfl, hline.looseLine behind⟩, h.small⟩

/-- Behind a plain size line: a plain bulk string, or an answer. -/
theorem processBulk_plainLine {q rest : Bytes} {value : ℤ} (hline : PlainLine q value rest)
    (frame : RedisCommandFrame) :
    (∃ word rest, PlainBulk (36 :: q) word rest) ∨
      ∃ result, Settles (processBulk · frame) (36 :: q) result ∧
        ∀ value n, result ≠ .done value n := by
  -- the parser at every buffer, behind the line
  have hbulk : ∀ b : Buffer, b.Reads (36 :: q) → ∃ b₂,
      b₂ = b.advanceReadIndex (q.length - rest.length + 1 : ℕ) ∧ b₂.rawAt (-2) = 13 ∧
      b₂.rawAt (-1) = 10 ∧ b₂.Reads rest ∧ processBulk b frame =
        if maxBulk < value then .error "Protocol error: invalid bulk length" b₂
        else if value + 2 < 0 ∨ (rest.length : ℤ) < value + 2 then .more
        else if b₂.rawAt value ≠ 13 ∨ b₂.rawAt (value + 1) ≠ 10 then
          .error "Protocol error: expected CRLF at bulk length end" b₂
        else
          (frame.fillNextArgument b₂ value).elim .fault
            fun next => .done next.1 (next.2.advanceReadIndex 2) := by
    intro b h
    obtain ⟨behind, hs⟩ := h.exists_sees
    obtain ⟨xs, b₂, hq, hb₂, h13, h10, h₂, heq⟩ :=
      processBulk_line hs (hline.looseLine behind) frame
    have hlen := congrArg List.length hq
    rw [List.length_append] at hlen
    refine ⟨b₂, ?_, h13, h10, h₂.reads, heq⟩
    rw [hb₂, show xs.length = q.length - rest.length by omega]
  have hin : q.length - rest.length + 1 ≤ (36 :: q).length := by
    rw [List.length_cons]
    omega
  have herror : ∀ err, (∀ b, b.Reads (36 :: q) → processBulk b frame =
      .error err (b.advanceReadIndex (q.length - rest.length + 1 : ℕ))) →
      ∃ result, Settles (processBulk · frame) (36 :: q) result ∧
        ∀ value n, result ≠ .done value n :=
    fun err h => ⟨.error err _, ⟨hin, h⟩, fun _ _ h => (by cases h)⟩
  by_cases hlarge : maxBulk < value
  · refine .inr (herror "Protocol error: invalid bulk length" fun b h => ?_)
    obtain ⟨b₂, rfl, -, -, -, heq⟩ := hbulk b h
    rw [heq, if_pos hlarge]
  by_cases hroom : value + 2 < 0 ∨ (rest.length : ℤ) < value + 2
  · refine .inr ⟨.more, ⟨Nat.zero_le _, fun b h => ?_⟩, fun _ _ h => (by cases h)⟩
    obtain ⟨b₂, -, -, -, -, heq⟩ := hbulk b h
    change processBulk b frame = .more
    rw [heq, if_neg hlarge, if_pos hroom]
  rcases lt_or_ge value 0 with hneg | hpos
  · by_cases hone : value = -1
    · refine .inr (herror "Protocol error: expected CRLF at bulk length end" fun b h => ?_)
      obtain ⟨b₂, hb₂, -, h10, -, heq⟩ := hbulk b h
      rw [heq, if_neg hlarge, if_neg hroom, hone, if_pos (.inl (by rw [h10]; decide)), hb₂]
    · obtain rfl : value = -2 := by omega
      refine .inr ⟨.fault, ⟨Nat.zero_le _, fun b h => ?_⟩, fun _ _ h => (by cases h)⟩
      obtain ⟨b₂, -, h13, h10, -, heq⟩ := hbulk b h
      change processBulk b frame = .fault
      rw [heq, if_neg hlarge, if_neg hroom,
        if_neg (by rw [h13, show (-2 : ℤ) + 1 = -1 from rfl, h10]; decide),
        RedisCommandFrame.fillNextArgument, if_pos (by decide), Option.elim_none]
  obtain ⟨n, rfl⟩ := Int.eq_ofNat_of_zero_le hpos
  by_cases hend : kCRLF <+: rest.drop n
  · obtain ⟨rest', hrest⟩ := hend
    have hlen : (rest.take n).length = n := by
      rw [List.length_take]
      omega
    refine .inl ⟨rest.take n, rest', ⟨q, rfl, ?_⟩, ?_⟩
    · rw [List.append_assoc, hrest, List.take_append_drop, hlen]
      exact hline
    · rw [hlen]
      omega
  · refine .inr (herror "Protocol error: expected CRLF at bulk length end" fun b h => ?_)
    obtain ⟨b₂, hb₂, -, -, h₂, heq⟩ := hbulk b h
    rw [heq, if_neg hlarge, if_neg hroom, if_pos ((crlf_at h₂ (by omega)).mpr hend), hb₂]

/-- A bulk string whose size line is not blank: a plain one, or an answer. -/
theorem processBulk_settles {r : Bytes}
    (hplain : ∀ q, r = 36 :: q → 3 ≤ q.length → ¬ BlankSign q) (frame : RedisCommandFrame) :
    (∃ word rest, PlainBulk r word rest) ∨
      ∃ result, Settles (processBulk · frame) r result ∧ ∀ value n, result ≠ .done value n := by
  by_cases h4 : r.length < 4
  · refine .inr ⟨.more, ⟨Nat.zero_le _, fun b h => ?_⟩, fun _ _ h => (by cases h)⟩
    change processBulk b frame = .more
    unfold processBulk
    rw [h.readableBytes, if_pos h4]
  obtain ⟨c, q, rfl⟩ := List.exists_cons_of_ne_nil (List.length_pos_iff.mp (by omega) : r ≠ [])
  rw [List.length_cons] at h4
  by_cases hc : c = 36
  swap
  · obtain ⟨d, q, rfl⟩ :=
      List.exists_cons_of_ne_nil (List.length_pos_iff.mp (by omega) : q ≠ [])
    refine .inr ⟨.error (expectedDollar d) 1, ⟨Nat.succ_le_succ (Nat.zero_le _), fun b h => ?_⟩,
      fun _ _ h => (by cases h)⟩
    obtain ⟨hbyte, h₁⟩ := h.readByte
    have hd : (b.advanceReadIndex 1).rawAt 0 = d := h₁.rawAt (i := 0) (Nat.succ_pos _)
    change processBulk b frame = .error _ _
    unfold processBulk
    rw [h.readableBytes, List.length_cons, if_neg (by omega), hbyte]
    dsimp only
    rw [if_pos hc, hd]
    rfl
  subst hc
  rcases plain_cases (by omega) (hplain q rfl (by omega)) with ⟨value, rest, hline⟩ | hbad | hshort
  · exact processBulk_plainLine hline frame
  · refine .inr ⟨.error "Protocol error: bulk length can not be negative" 1,
      ⟨Nat.succ_le_succ (Nat.zero_le _), fun b h => ?_⟩, fun _ _ h => (by cases h)⟩
    obtain ⟨behind, hs⟩ := h.exists_sees
    change processBulk b frame = .error _ _
    unfold processBulk
    rw [h.readableBytes, List.length_cons, if_neg (by omega), hs.tail.1]
    dsimp only
    rw [if_neg (by decide), readBulkLen_bad hs.tail.2 (hbad behind)]
  · refine .inr ⟨.more, ⟨Nat.zero_le _, fun b h => ?_⟩, fun _ _ h => (by cases h)⟩
    obtain ⟨behind, hs⟩ := h.exists_sees
    have h₁ := hs.tail.2
    change processBulk b frame = .more
    unfold processBulk
    rw [h.readableBytes, List.length_cons, if_neg (by omega), hs.tail.1]
    dsimp only
    rw [if_neg (by decide), readBulkLen_short h₁.reads (by omega) (h₁.raw ▸ hshort behind)]

/-! ### Peeking -/

/-- Without a number in a blank size line of a bulk string, with `n` more to come, the parser has
an answer: neither is the CRLF of the empty string missing, nor the next bulk string. -/
def Answers (n : ℕ) (q : Bytes) : Prop :=
  ¬ (q.length = 3 ∧ kCRLF <+: q) ∧ ¬ (0 < n ∧ kCRLF ++ kCRLF <+: q ∧ q.length < 8)

/-- Behind plain bulk strings comes a blank size line that matters. -/
inductive PeeksBulks : ℕ → Bytes → Prop
  | here {n : ℕ} {q : Bytes} (room : 3 ≤ q.length) (h : BlankSign q) (ha : Answers n q) :
    PeeksBulks (n + 1) (36 :: q)
  | next {n : ℕ} {r word rest : Bytes} (h : PlainBulk r word rest) (hs : PeeksBulks n rest) :
    PeeksBulks (n + 1) r

/-- **Peeking.** The count of the request is a blank line, or the size of a bulk string that the
parser comes to is one, and it matters what number lies behind. -/
inductive Peeks : Bytes → Prop
  | count {q : Bytes} (room : 3 ≤ q.length) (h : BlankSign q) : Peeks q
  | bulks {q rest : Bytes} {count : ℤ} (h : PlainLine q count rest) (hc : count ≤ maxBulk)
      (hs : PeeksBulks count.toNat rest) : Peeks q

/-- With a digit behind a blank size line the parser waits for the end of the line. -/
theorem processBulk_digit {q : Bytes} (room : 3 ≤ q.length) (h : BlankSign q) {b : Buffer}
    (hs : b.Sees (36 :: q) [48]) (frame : RedisCommandFrame) : processBulk b frame = .more := by
  have h₁ := hs.tail.2
  have hlt := strtol_blankSign_digit h
  unfold processBulk
  rw [hs.reads.readableBytes, List.length_cons, if_neg (by omega), hs.tail.1]
  dsimp only
  rw [if_neg (by decide), readBulkLen_short h₁.reads (by omega) (by rw [h₁.raw]; omega)]

/-- A blank line without a number is read as `0` when it starts with a CRLF. -/
theorem looseLine_zero {q behind rest : Bytes} (room : 3 ≤ q.length) (hq : q = kCRLF ++ rest)
    (hzero : strtol (q ++ behind) = (0, 0)) : LooseLine q behind 0 rest :=
  ⟨room, [], 0, hq, hzero, rfl⟩

theorem looseBulk_zero {q behind rest : Bytes} (room : 3 ≤ q.length)
    (hq : q = kCRLF ++ (kCRLF ++ rest)) (hzero : strtol (q ++ behind) = (0, 0)) :
    LooseBulk (36 :: q) behind [] rest :=
  ⟨⟨q, rfl, looseLine_zero room hq hzero⟩, by decide⟩

/-- The parser waits at a blank size line that does not matter. -/
theorem bulkLoop_blank_more {n : ℕ} {q : Bytes} (room : 3 ≤ q.length) (hq : BlankSign q)
    (ha : ¬ Answers n q) {b : Buffer} (h : b.Reads (36 :: q)) (frame : RedisCommandFrame) :
    bulkLoop (n + 1) b frame = .more := by
  obtain ⟨behind, hs⟩ := h.exists_sees
  rcases strtol_blankSign hq behind with hzero | hlt
  swap
  · -- the number ends behind the received bytes
    have h₁ := hs.tail.2
    have hmore : processBulk b frame = .more := by
      unfold processBulk
      rw [h.readableBytes, List.length_cons, if_neg (by omega), hs.tail.1]
      dsimp only
      rw [if_neg (by decide), readBulkLen_short h₁.reads (by omega) (by rw [h₁.raw]; omega)]
    rw [bulkLoop, hmore]
  have hcase : (q.length = 3 ∧ kCRLF <+: q) ∨
      (0 < n ∧ kCRLF ++ kCRLF <+: q ∧ q.length < 8) := by
    unfold Answers at ha
    by_contra hnot
    rw [not_or] at hnot
    exact ha hnot
  rcases hcase with ⟨h3, rest, hrest⟩ | ⟨hn, ⟨rest, hrest⟩, h8⟩
  · -- the end of the empty string is missing
    obtain ⟨xs, b₂, -, -, -, -, -, hbulk⟩ :=
      processBulk_line hs (looseLine_zero room hrest.symm hzero) frame
    have hlen : rest.length = 1 := by
      have := congrArg List.length hrest
      rw [List.length_append, h3, show kCRLF.length = 2 from rfl] at this
      omega
    rw [bulkLoop, hbulk, if_neg (by decide), if_pos (.inr (by rw [hlen]; decide))]
  · -- the next bulk string is missing
    have hbulk := looseBulk_zero room (by rw [← hrest, List.append_assoc]) hzero
    have hlen : rest.length < 4 := by
      have := congrArg List.length hrest
      rw [List.length_append, show (kCRLF ++ kCRLF).length = 4 from rfl] at this
      omega
    obtain ⟨n, rfl⟩ := Nat.exists_eq_add_one_of_ne_zero (Nat.ne_zero_of_lt hn)
    obtain ⟨xs, hxs, heq⟩ := processBulk_loose hs hbulk frame
    rw [hxs] at h
    rw [bulkLoop, heq]
    dsimp only
    rw [bulkLoop, processBulk, h.advance.readableBytes, if_pos hlen]

/-- Without a digit behind a blank size line that matters the parser does not wait. -/
theorem bulkLoop_blank_answer {n : ℕ} {q : Bytes} (room : 3 ≤ q.length) (hq : BlankSign q)
    (ha : Answers n q) {b : Buffer} (hs : b.Sees (36 :: q) []) (frame : RedisCommandFrame) :
    bulkLoop (n + 1) b frame ≠ .more := by
  have hzero : strtol (q ++ []) = (0, 0) := by
    rw [List.append_nil]
    exact strtol_blankSign_nil hq
  have hbad : ∀ {b : Buffer} {r : Bytes} {k : ℕ} {frame : RedisCommandFrame}, b.Sees r [] →
      BadBulk [] r → bulkLoop (k + 1) b frame ≠ .more := by
    intro b r k frame hs hbad
    obtain ⟨err, buffer, heq, -⟩ := processBulk_bad hs hbad frame
    rw [bulkLoop, heq]
    exact fun h => (by cases h)
  rcases @line_cases q [] room with ⟨value, rest, hline⟩ | hline | hshort
  · obtain ⟨line, number, hrest, hstr, hvalue⟩ := hline.line
    rw [hzero] at hstr
    obtain ⟨rfl, hnil⟩ := Prod.mk.inj hstr
    obtain rfl : line = [] := List.length_eq_zero_iff.mp hnil.symm
    rw [List.nil_append] at hrest
    have hlen := congrArg List.length hrest
    rw [List.length_append, show kCRLF.length = 2 from rfl] at hlen
    obtain rfl : value = 0 := hvalue
    by_cases h3 : q.length = 3
    · exact absurd ⟨h3, rest, hrest.symm⟩ ha.1
    by_cases hend : kCRLF <+: rest
    swap
    · -- no CRLF behind the empty string
      exact hbad hs (.noEnd (n := 0) hline (by decide) (by omega) hend)
    obtain ⟨t, rfl⟩ := hend
    obtain ⟨xs, hxs, heq⟩ := processBulk_loose hs (looseBulk_zero room hrest hzero) frame
    rw [hxs] at hs
    cases n with
    | zero =>
      rw [bulkLoop, heq]
      exact fun h => (by cases h)
    | succ n =>
      have ht : 4 ≤ t.length := by
        have h8 : ¬ q.length < 8 := fun h8 =>
          ha.2 ⟨Nat.succ_pos n, ⟨t, by rw [hrest, List.append_assoc]⟩, h8⟩
        rw [List.length_append, show kCRLF.length = 2 from rfl] at hlen
        omega
      -- what follows is a blank as well, or a sign alone
      have hhead : t.head? ≠ some 36 := by
        obtain ⟨c, t, rfl⟩ :=
          List.exists_cons_of_ne_nil (List.length_pos_iff.mp (by omega) : t ≠ [])
        intro hc
        obtain rfl := Option.some.inj hc
        have hdrop : q.dropWhile isspace = 36 :: t := by
          rw [hrest]
          rfl
        unfold BlankSign at hq
        rw [hdrop] at hq
        rcases hq with h | h | h <;> cases h
      rw [bulkLoop, heq]
      exact hbad hs.advance (.dollar ht hhead)
  · exact hbad hs (.line hline)
  · rw [hzero] at hshort
    change q.length - 1 ≤ 0 at hshort
    omega

/-- **A blank line that matters.** With a digit behind the received bytes the parser waits, with
nothing behind them it does not. -/
theorem PeeksBulks.differ {n : ℕ} {r : Bytes} (h : PeeksBulks n r) {b b' : Buffer}
    (hb : b.Sees r [48]) (hb' : b'.Sees r []) (frame : RedisCommandFrame) :
    bulkLoop n b frame = .more ∧ bulkLoop n b' frame ≠ .more := by
  induction h generalizing b b' frame with
  | here room hq ha =>
    refine ⟨?_, bulkLoop_blank_answer room hq ha hb' frame⟩
    rw [bulkLoop, processBulk_digit room hq hb]
  | @next n r word rest hword _ ih =>
    obtain ⟨xs, hxs, heq⟩ := processBulk_loose hb (hword.looseBulk _) frame
    obtain ⟨xs', hxs', heq'⟩ := processBulk_loose hb' (hword.looseBulk _) frame
    obtain rfl : xs = xs' := List.append_cancel_right (hxs.symm.trans hxs')
    rw [hxs] at hb hb'
    rw [bulkLoop, bulkLoop, heq, heq']
    exact ih hb.advance hb'.advance _

namespace Moved

variable {α : Type}

/-- The answer of a function that was called `k` bytes further on. -/
def shift (k : ℕ) : Moved α → Moved α
  | done value n => done value (k + n)
  | more => more
  | error err n => error err (k + n)
  | fault => fault

theorem answer_shift (b : Buffer) (k : ℕ) (result : Moved α) :
    result.answer (b.advanceReadIndex k) = (result.shift k).answer b := by
  cases result with
  | done value n => exact congrArg (Parsed.done value) (Buffer.advanceReadIndex_advance b k n)
  | more => rfl
  | error err n => exact congrArg (Parsed.error err) (Buffer.advanceReadIndex_advance b k n)
  | fault => rfl

theorem length_shift_le {k m : ℕ} {result : Moved α} (h : result.length ≤ m) :
    (result.shift k).length ≤ k + m := by
  cases result with
  | done value n => exact Nat.add_le_add_left h k
  | more => exact Nat.zero_le _
  | error err n => exact Nat.add_le_add_left h k
  | fault => exact Nat.zero_le _

end Moved

/-- Unless it peeks, the loop over the bulk strings looks at the received bytes only. -/
theorem bulkLoop_settles {n : ℕ} {r : Bytes} (h : ¬ PeeksBulks n r) (frame : RedisCommandFrame) :
    ∃ result, Settles (bulkLoop n · frame) r result := by
  induction n generalizing r frame with
  | zero =>
    refine ⟨.done frame 0, Nat.zero_le _, fun b _ => ?_⟩
    change Parsed.done frame b = .done frame (b.advanceReadIndex 0)
    rw [Buffer.advanceReadIndex_zero]
  | succ n ih =>
    by_cases hblank : ∃ q, r = 36 :: q ∧ 3 ≤ q.length ∧ BlankSign q
    · obtain ⟨q, rfl, room, hq⟩ := hblank
      have ha : ¬ Answers n q := fun ha => h (.here room hq ha)
      exact ⟨.more, Nat.zero_le _, fun b hb => bulkLoop_blank_more room hq ha hb frame⟩
    have hplain : ∀ q, r = 36 :: q → 3 ≤ q.length → ¬ BlankSign q :=
      fun q hr room hq => hblank ⟨q, hr, room, hq⟩
    rcases processBulk_settles hplain frame with ⟨word, rest, hword⟩ | ⟨result, hsettles, hdone⟩
    · -- a bulk string, and the rest of the loop behind it
      obtain ⟨result, hrest⟩ := ih (fun hs => h (.next hword hs)) (frame.pushWord word)
      obtain ⟨xs, hr⟩ : ∃ xs, r = xs ++ rest := by
        obtain ⟨q, rfl, hline⟩ := hword.line
        obtain ⟨line, number, hq, -⟩ := hline.loose.line
        exact ⟨36 :: (line ++ kCRLF ++ (word ++ kCRLF)), by rw [hq]; simp⟩
      subst hr
      refine ⟨result.shift xs.length, ?_, fun b hb => ?_⟩
      · rw [List.length_append]
        exact Moved.length_shift_le hrest.inside
      · obtain ⟨behind, hs⟩ := hb.exists_sees
        obtain ⟨xs', hxs', heq⟩ := processBulk_loose hs (hword.looseBulk behind) frame
        obtain rfl : xs = xs' := List.append_cancel_right hxs'
        have hsame := hrest.same _ hb.advance
        change bulkLoop (n + 1) b frame = _
        rw [bulkLoop, heq, ← Moved.answer_shift]
        exact hsame
    · refine ⟨result, hsettles.inside, fun b hb => ?_⟩
      have hsame := hsettles.same b hb
      change processBulk b frame = _ at hsame
      change bulkLoop (n + 1) b frame = _
      rw [bulkLoop, hsame]
      cases result with
      | done value n => exact absurd rfl (hdone value n)
      | more => rfl
      | error err n => rfl
      | fault => rfl

/-- The multibulk parser behind its size line. -/
theorem processMultibulkBuffer_plainLine {q rest : Bytes} {count : ℤ}
    (hline : PlainLine q count rest) (h : ¬ Peeks q) (frame : RedisCommandFrame) :
    ∃ result, Settles (processMultibulkBuffer · frame) q result := by
  obtain ⟨xs, hq⟩ : ∃ xs, q = xs ++ rest := by
    obtain ⟨line, number, hq, -⟩ := hline.loose.line
    exact ⟨_, hq⟩
  have hmulti : ∀ b : Buffer, b.Reads q → processMultibulkBuffer b frame =
      if maxBulk < count then
        .error "Protocol error: invalid multibulk length" (b.advanceReadIndex xs.length)
      else bulkLoop count.toNat (b.advanceReadIndex xs.length) frame := by
    intro b hb
    obtain ⟨behind, hs⟩ := hb.exists_sees
    obtain ⟨xs', hxs', heq⟩ := processMultibulkBuffer_line hs (hline.looseLine behind) frame
    obtain rfl : xs = xs' := List.append_cancel_right (hq.symm.trans hxs')
    exact heq
  by_cases hc : maxBulk < count
  · refine ⟨.error "Protocol error: invalid multibulk length" xs.length, ?_, fun b hb => ?_⟩
    · rw [hq, List.length_append]
      exact Nat.le_add_right _ _
    · rw [hmulti b hb, if_pos hc]
      rfl
  · obtain ⟨result, hrest⟩ :=
      bulkLoop_settles (fun hs => h (.bulks hline (not_lt.mp hc) hs)) frame
    refine ⟨result.shift xs.length, ?_, fun b hb => ?_⟩
    · rw [hq, List.length_append]
      exact Moved.length_shift_le hrest.inside
    · rw [hmulti b hb, if_neg hc, ← Moved.answer_shift]
      rw [hq] at hb
      exact hrest.same _ hb.advance

/-- **Multibulk requests.** The parser looks at the received bytes only, unless it peeks. -/
theorem processMultibulkBuffer_settles {q : Bytes} (h : ¬ Peeks q) (frame : RedisCommandFrame) :
    ∃ result, Settles (processMultibulkBuffer · frame) q result := by
  by_cases h3 : q.length < 3
  · refine ⟨.more, Nat.zero_le _, fun b hb => ?_⟩
    change processMultibulkBuffer b frame = .more
    unfold processMultibulkBuffer
    rw [hb.readableBytes, if_pos h3]
  have hplain : ¬ BlankSign q := fun hq => h (.count (not_lt.mp h3) hq)
  rcases plain_cases (not_lt.mp h3) hplain with ⟨count, rest, hline⟩ | hbad | hshort
  · exact processMultibulkBuffer_plainLine hline h frame
  · refine ⟨.error "Protocol error: expected CRLF at bulk length end" 0, Nat.zero_le _,
      fun b hb => ?_⟩
    obtain ⟨behind, hs⟩ := hb.exists_sees
    change processMultibulkBuffer b frame = .error _ (b.advanceReadIndex 0)
    unfold processMultibulkBuffer
    rw [hb.readableBytes, if_neg h3, readBulkLen_bad hs (hbad behind),
      Buffer.advanceReadIndex_zero]
  · refine ⟨.more, Nat.zero_le _, fun b hb => ?_⟩
    obtain ⟨behind, hs⟩ := hb.exists_sees
    change processMultibulkBuffer b frame = .more
    unfold processMultibulkBuffer
    rw [hb.readableBytes, if_neg h3, readBulkLen_short hb (by omega) (hs.raw ▸ hshort behind)]

/-- A request that peeks is waited for with a digit behind it, and not with nothing behind it. -/
theorem Peeks.differ {q : Bytes} (h : Peeks q) {b b' : Buffer} (hb : b.Sees q [48])
    (hb' : b'.Sees q []) (frame : RedisCommandFrame) :
    processMultibulkBuffer b frame = .more ∧ processMultibulkBuffer b' frame ≠ .more := by
  cases h with
  | count room hq =>
    constructor
    · have hlt := strtol_blankSign_digit hq
      unfold processMultibulkBuffer
      rw [hb.reads.readableBytes, if_neg (by omega),
        readBulkLen_short hb.reads (by omega) (by rw [hb.raw]; omega)]
    · have hzero : strtol (q ++ []) = (0, 0) := by
        rw [List.append_nil]
        exact strtol_blankSign_nil hq
      rcases @line_cases q [] room with ⟨value, rest, hline⟩ | hline | hshort
      · obtain ⟨line, number, -, hstr, hvalue⟩ := hline.line
        rw [hzero] at hstr
        obtain ⟨rfl, -⟩ := Prod.mk.inj hstr
        obtain rfl : value = 0 := hvalue
        obtain ⟨xs, -, heq⟩ := processMultibulkBuffer_line hb' hline frame
        rw [heq, if_neg (by decide)]
        exact fun h => (by cases h)
      · obtain ⟨err, buffer, heq, -⟩ := processMultibulkBuffer_rejected hb' (.line hline) frame
        rw [heq]
        exact fun h => (by cases h)
      · rw [hzero] at hshort
        change q.length - 1 ≤ 0 at hshort
        omega
  | bulks hline hc hs =>
    obtain ⟨xs, hxs, heq⟩ := processMultibulkBuffer_line hb (hline.looseLine _) frame
    obtain ⟨xs', hxs', heq'⟩ := processMultibulkBuffer_line hb' (hline.looseLine _) frame
    obtain rfl : xs = xs' := List.append_cancel_right (hxs.symm.trans hxs')
    rw [hxs] at hb hb'
    rw [heq, heq', if_neg (not_lt.mpr hc), if_neg (not_lt.mpr hc)]
    exact hs.differ hb.advance hb'.advance frame

/-! ### Inline lines -/

/-- A search in the readable bytes finds the same place in every buffer. -/
theorem indexOf_settles (r data : Bytes) {i j : ℕ} (hj : j ≤ r.length) :
    ∃ found : Option ℕ, (∀ p ∈ found, i ≤ p ∧ p + data.length ≤ j) ∧
      ∀ b : Buffer, b.Reads r →
        b.indexOf data (b.readIdx + i) (b.readIdx + j) = found.map (b.readIdx + ·) := by
  refine ⟨(Buffer.wrap r 0 r.length).indexOf data i j, ?_, fun b hb => ?_⟩
  · intro p hp
    obtain ⟨h1, h2, -⟩ := Buffer.indexOf_bounds hp
    exact ⟨h1, h2⟩
  have hloop : ∀ fuel start, b.indexOfLoop data (b.readIdx + j) fuel (b.readIdx + start) =
      ((Buffer.wrap r 0 r.length).indexOfLoop data j fuel start).map (b.readIdx + ·) := by
    intro fuel
    induction fuel with
    | zero => exact fun start => rfl
    | succ fuel ih =>
      intro start
      unfold Buffer.indexOfLoop
      by_cases hlt : start < j
      swap
      · rw [if_neg hlt, if_neg (by omega)]
        rfl
      rw [if_pos hlt, if_pos (by omega)]
      have hslice : Circular.slice b.mem (b.readIdx + start) (j - start) =
          Circular.slice (Buffer.wrap r 0 r.length).mem start (j - start) :=
        hb.slice (by omega)
      unfold Buffer.memchr
      rw [show b.readIdx + j - (b.readIdx + start) = j - start by omega, hslice]
      cases (Circular.slice (Buffer.wrap r 0 r.length).mem start (j - start)).findIdx?
        (· == data.headD 0) with
      | none => rfl
      | some k =>
        dsimp only [Option.map_some]
        by_cases hin : start + k + data.length - 1 < j
        swap
        · rw [if_neg hin, if_neg (by omega)]
          rfl
        rw [if_pos hin, if_pos (by omega)]
        by_cases hone : data.length = 1
        · rw [if_pos hone, if_pos hone, Option.map_some, Nat.add_assoc]
        have hpat : Circular.slice b.mem (b.readIdx + (start + k)) data.length =
            Circular.slice (Buffer.wrap r 0 r.length).mem (start + k) data.length :=
          hb.slice (by omega)
        rw [if_neg hone, if_neg hone, Nat.add_assoc b.readIdx start k, hpat]
        split
        · split
          · next h => rw [if_pos (by omega)]; rfl
          · next h => rw [if_neg (by omega)]; rfl
        · have hnext := ih (start + k + data.length)
          rwa [← Nat.add_assoc b.readIdx] at hnext
  have hidx := hb.idx
  unfold Buffer.indexOf
  by_cases hdata : data = []
  · rw [if_pos hdata, if_pos hdata]
    rfl
  rw [if_neg hdata, if_neg hdata]
  by_cases hrange : j < i + data.length
  · rw [if_pos (.inl (by omega)), if_pos (.inl hrange)]
    rfl
  · rw [if_neg (by omega), if_neg (by change ¬ (_ ∨ 0 + r.length < j); omega), ← hloop,
      show b.readIdx + j - (b.readIdx + i) + 1 = j - i + 1 by omega]

/-- What a search finds for a pattern of several bytes is the pattern. -/
theorem indexOf_slice {b : Buffer} {data : Bytes} {start end_ p : ℕ} (hlen : data.length ≠ 1)
    (h : b.indexOf data start end_ = some p) : Circular.slice b.mem p data.length = data := by
  have hloop : ∀ fuel start, b.indexOfLoop data end_ fuel start = some p →
      Circular.slice b.mem p data.length = data := by
    intro fuel
    induction fuel with
    | zero =>
      intro start h
      cases h
    | succ fuel ih =>
      intro start h
      unfold Buffer.indexOfLoop at h
      split at h
      swap
      · cases h
      split at h
      · cases h
      split at h
      swap
      · cases h
      split at h
      · next hslice =>
        split at h
        · cases h
        · rwa [← Option.some.inj h]
      · exact ih _ h
  unfold Buffer.indexOf at h
  split at h
  · cases h
  split at h
  · cases h
  · exact hloop _ _ h

/-- The loop over the words of a line that ends at `i`. -/
theorem inlineLoop_settles (fuel : ℕ) {r : Bytes} {i : ℕ} (hi : i + 2 ≤ r.length)
    (hcr : r[i]? = some 13) (frame : RedisCommandFrame) :
    ∃ result : Option (RedisCommandFrame × ℕ), (∀ p ∈ result, p.2 ≤ r.length) ∧
      ∀ b : Buffer, b.Reads r → inlineLoop (b.readIdx + i) fuel b frame =
        result.map fun p => (p.1, b.advanceReadIndex p.2) := by
  induction fuel generalizing r i frame with
  | zero =>
    refine ⟨some (frame, 0), fun p hp => Option.some.inj hp ▸ Nat.zero_le _, fun b _ => ?_⟩
    rw [Option.map_some, Nat.cast_zero, Buffer.advanceReadIndex_zero]
    rfl
  | succ fuel ih =>
    obtain ⟨c, r', rfl⟩ := List.exists_cons_of_ne_nil (List.length_pos_iff.mp (by omega) : r ≠ [])
    by_cases hc : c = 32
    · -- a space: the line does not end here
      subst hc
      obtain ⟨i, rfl⟩ : ∃ k, i = k + 1 := by
        refine Nat.exists_eq_add_one_of_ne_zero ?_
        rintro rfl
        cases Option.some.inj hcr
      rw [List.length_cons] at hi
      obtain ⟨result, hin, hsame⟩ := ih (r := r') (i := i) (by omega) hcr frame
      refine ⟨result.map fun p => (p.1, 1 + p.2), ?_, fun b hb => ?_⟩
      · intro p hp
        obtain ⟨p', hp', rfl⟩ := Option.map_eq_some_iff.mp hp
        have := hin p' hp'
        dsimp only
        rw [List.length_cons]
        omega
      · have hrest := hsame _ hb.readByte.2
        rw [show (b.advanceReadIndex 1).readIdx = b.readIdx + 1 from rfl, Nat.add_assoc,
          Nat.add_comm 1] at hrest
        rw [inlineLoop_space hb, hrest, Option.map_map]
        refine congrArg (fun f => Option.map f result) (funext fun p => ?_)
        exact congrArg (Prod.mk p.1) (Buffer.advanceReadIndex_advance b 1 p.2)
    by_cases hi0 : i = 0
    · -- the end of the line
      subst hi0
      obtain rfl := Option.some.inj hcr
      refine ⟨some (frame, 2), fun p hp => Option.some.inj hp ▸ hi, fun b hb => ?_⟩
      rw [Nat.add_zero, inlineLoop, hb.readByte.1]
      dsimp only
      rw [if_neg (by decide), Buffer.advanceReadIndex_back, if_pos rfl]
      rfl
    · -- a word
      obtain ⟨found, hfound, hindex⟩ := indexOf_settles (c :: r') [32] (i := 0) (j := i) (by omega)
      have hcur : ∀ b : Buffer, b.readIdx ≠ b.readIdx + i := fun b => by omega
      cases found with
      | none =>
        refine ⟨some (frame, 0), fun p hp => Option.some.inj hp ▸ Nat.zero_le _, fun b hb => ?_⟩
        have hnone := hindex b hb
        rw [Nat.add_zero, Option.map_none] at hnone
        rw [inlineLoop_word hb hc (hcur b), hnone, Option.map_some, Nat.cast_zero,
          Buffer.advanceReadIndex_zero]
      | some p =>
        obtain ⟨-, hp⟩ := hfound p rfl
        rw [List.length_singleton] at hp
        have hword : ((c :: r').take p).length = p := by
          rw [List.length_take]
          omega
        have hspace : ((c :: r').take (p + 1)).length = p + 1 := by
          rw [List.length_take]
          omega
        obtain ⟨result, hin, hsame⟩ := ih (r := (c :: r').drop (p + 1)) (i := i - (p + 1))
          (by rw [List.length_drop]; omega)
          (by rw [List.getElem?_drop, Nat.add_sub_cancel' hp]; exact hcr)
          (frame.pushWord ((c :: r').take p))
        refine ⟨result.map fun q => (q.1, p + 1 + q.2), ?_, fun b hb => ?_⟩
        · intro q hq
          obtain ⟨q', hq', rfl⟩ := Option.map_eq_some_iff.mp hq
          have hle := hin q' hq'
          rw [List.length_drop] at hle
          dsimp only
          omega
        · have hsome := hindex b hb
          rw [Nat.add_zero, Option.map_some] at hsome
          have hreads : b.Reads ((c :: r').take p ++ (c :: r').drop p) := by
            rwa [List.take_append_drop]
          have hreads' : b.Reads ((c :: r').take (p + 1) ++ (c :: r').drop (p + 1)) := by
            rwa [List.take_append_drop]
          have hfill := fillNextArgument_reads hreads frame
          rw [hword] at hfill
          have hnext := hreads'.advance
          rw [hspace] at hnext
          have hrest := hsame _ hnext
          rw [Buffer.advanceReadIndex_ofNat, show b.readIdx + (p + 1) + (i - (p + 1))
            = b.readIdx + i by omega] at hrest
          rw [inlineLoop_word hb hc (hcur b), hsome]
          dsimp only
          rw [show ((b.readIdx + p : ℕ) : ℤ) - b.readIdx = p by omega, hfill]
          dsimp only
          rw [show (1 : ℤ) = ((1 : ℕ) : ℤ) from rfl, Buffer.advanceReadIndex_advance, hrest,
            Option.map_map]
          refine congrArg (fun f => Option.map f result) (funext fun q => ?_)
          exact congrArg (Prod.mk q.1) (Buffer.advanceReadIndex_advance b (p + 1) q.2)

/-- **Inline lines.** The parser looks at the received bytes only. -/
theorem processInlineBuffer_settles (r : Bytes) (frame : RedisCommandFrame) :
    ∃ result, Settles (processInlineBuffer · frame) r result := by
  obtain ⟨found, hfound, hindex⟩ := indexOf_settles r kCRLF (i := 0) (j := r.length) le_rfl
  have hsearch : ∀ b : Buffer, b.Reads r →
      b.indexOf kCRLF b.readIdx b.writeIdx = found.map (b.readIdx + ·) := by
    intro b hb
    have h := hindex b hb
    rwa [Nat.add_zero, hb.idx] at h
  cases found with
  | none =>
    refine ⟨.more, Nat.zero_le _, fun b hb => ?_⟩
    change processInlineBuffer b frame = .more
    unfold processInlineBuffer
    rw [hsearch b hb]
    rfl
  | some i =>
    obtain ⟨-, hi⟩ := hfound i rfl
    change i + 2 ≤ r.length at hi
    have hcr : r[i]? = some 13 := by
      -- what was found is a CRLF, seen in a buffer around the bytes
      have hwrap : (Buffer.wrap r 0 r.length).Reads r := ⟨rfl, [], (List.append_nil r).symm⟩
      have hslice := indexOf_slice (by decide) (hsearch _ hwrap)
      have hget := congrArg (fun l => l[0]?) hslice
      dsimp only at hget
      rw [Circular.slice_getElem? _ _ _ _ (by decide), Nat.add_zero] at hget
      rw [show r[i]? = (Buffer.wrap r 0 r.length).mem[0 + i]? by rw [Nat.zero_add]; rfl]
      exact hget
    obtain ⟨result, hin, hsame⟩ := inlineLoop_settles (r.length + 1) hi hcr frame
    cases result with
    | none =>
      refine ⟨.fault, Nat.zero_le _, fun b hb => ?_⟩
      change processInlineBuffer b frame = .fault
      unfold processInlineBuffer
      rw [hsearch b hb, Option.map_some]
      dsimp only
      rw [hb.readableBytes, hsame b hb]
      rfl
    | some p =>
      obtain ⟨frame', n⟩ := p
      have hn : n ≤ r.length := hin _ rfl
      have hmain : ∀ b : Buffer, b.Reads r → processInlineBuffer b frame =
          inlineTail (b.readIdx + i) frame' (b.advanceReadIndex n) := by
        intro b hb
        unfold processInlineBuffer
        rw [hsearch b hb, Option.map_some]
        dsimp only
        rw [hb.readableBytes, hsame b hb]
        rfl
      by_cases hlt : n < i
      · -- a last word
        refine ⟨.done (frame'.pushWord ((r.drop n).take (i - n))) (i + 2), hi, fun b hb => ?_⟩
        have hlen : (r.take n).length = n := by
          rw [List.length_take]
          omega
        have hb' : b.Reads (r.take n ++ r.drop n) := by rwa [List.take_append_drop]
        have hnext := hb'.advance
        rw [hlen] at hnext
        have hword : ((r.drop n).take (i - n)).length = i - n := by
          rw [List.length_take, List.length_drop]
          omega
        have hnext' : (b.advanceReadIndex n).Reads
            ((r.drop n).take (i - n) ++ (r.drop n).drop (i - n)) := by
          rwa [List.take_append_drop]
        have hfill := fillNextArgument_reads hnext' frame'
        rw [hword] at hfill
        change processInlineBuffer b frame = .done _ (b.advanceReadIndex (i + 2 : ℕ))
        rw [hmain b hb, inlineTail, Buffer.advanceReadIndex_ofNat, if_pos (by omega), show ((b.readIdx + i : ℕ) : ℤ) - ((b.readIdx + n : ℕ) : ℤ)
          = ((i - n : ℕ) : ℤ) by omega, hfill]
        dsimp only
        rw [show (2 : ℤ) = ((2 : ℕ) : ℤ) from rfl, Buffer.advanceReadIndex_advance,
          Buffer.advanceReadIndex_advance, show n + (i - n + 2) = i + 2 by omega]
      · refine ⟨.done frame' n, hn, fun b hb => ?_⟩
        change processInlineBuffer b frame = .done _ (b.advanceReadIndex n)
        rw [hmain b hb, inlineTail, Buffer.advanceReadIndex_ofNat, if_neg (by omega)]

/-! ### One command -/

/-- **A decoder that looks at the received bytes only.** On every buffer whose readable bytes are
`r` it has the same result, and does not move behind them. -/
def ReceivedOnly {α : Type} (decode : Buffer → Option (α × Buffer)) (r : Bytes) : Prop :=
  ∃ result : Option (α × ℕ), (∀ p ∈ result, p.2 ≤ r.length) ∧
    ∀ b, b.Reads r → decode b = result.map fun p => (p.1, b.advanceReadIndex p.2)

/-- The result of `Decode` on `b`: the frame, with its raw message counted from the read index, or
the text of an error, which is empty when more data is needed. An exception is no result. -/
def Decoded.outcome (b : Buffer) : Decoded → Option ((Option RedisCommandFrame × String) × Buffer)
  | .frame msg buffer =>
    some ((some { msg with rawMsg := ⟨msg.rawMsg.off - b.readIdx, msg.rawMsg.len⟩ }, ""), buffer)
  | .none err buffer => some ((Option.none, err), buffer)
  | .fault => Option.none

/-- `RedisCommandDecoder::Decode`, by its result. -/
def commandOutcome (b : Buffer) : Option ((Option RedisCommandFrame × String) × Buffer) :=
  (decode b).outcome b

/-- The line breaks in front of a command are skipped. -/
theorem decode_breaks {b : Buffer} {breaks q : Bytes} {c : UInt8}
    (hbreaks : ∀ c ∈ breaks, isLineBreak c = true) (hc : isLineBreak c = false)
    (h : b.Reads (breaks ++ c :: q)) : decode b = decode (b.advanceReadIndex breaks.length) := by
  obtain ⟨behind, hraw⟩ := h.mem
  obtain ⟨behind', hraw'⟩ := h.advance.mem
  have hnil : (c :: (q ++ behind)).takeWhile isLineBreak = [] := by
    rw [List.takeWhile_cons, if_neg (by rw [hc]; decide)]
  have hskip : (b.rawReadBuffer.takeWhile isLineBreak).length = breaks.length := by
    rw [hraw, List.append_assoc, List.cons_append, List.takeWhile_append_of_pos hbreaks, hnil,
      List.append_nil]
  have hskip' : ((b.advanceReadIndex breaks.length).rawReadBuffer.takeWhile
      isLineBreak).length = 0 := by
    rw [hraw', List.cons_append, List.takeWhile_cons, if_neg (by rw [hc]; decide),
      List.length_nil]
  conv_rhs => rw [decode, hskip', Nat.cast_zero, Buffer.advanceReadIndex_zero]
  rw [decode, hskip]

/-- What the branch of `Decode` answers that the first byte selects. -/
theorem processBuffer_settles {c : UInt8} {q : Bytes} (h : c = 42 → ¬ Peeks q) :
    ∃ result, Settles (fun b => processBuffer b c (b.advanceReadIndex 1)) (c :: q) result := by
  by_cases hc : c = 42
  · subst hc
    obtain ⟨result, hsettles⟩ := processMultibulkBuffer_settles (h rfl)
      { RedisCommandFrame.empty with isInline := false }
    refine ⟨result.shift 1, ?_, fun b hb => ?_⟩
    · rw [List.length_cons, Nat.add_comm]
      exact Moved.length_shift_le hsettles.inside
    · rw [← Moved.answer_shift]
      exact hsettles.same _ hb.readByte.2
  · obtain ⟨result, hsettles⟩ := processInlineBuffer_settles (c :: q)
      { RedisCommandFrame.empty with isInline := true }
    refine ⟨result, hsettles.inside, fun b hb => ?_⟩
    rw [processBuffer, if_neg hc]
    exact hsettles.same b hb

/-- What `Decode` makes of the answer `mark` bytes further on. -/
def Moved.decoded (b : Buffer) (mark : ℕ) : Moved RedisCommandFrame → Decoded
  | done msg n =>
    .frame { msg with rawMsg := ⟨b.readIdx + mark, n⟩ } (b.advanceReadIndex (mark + n : ℕ))
  | more => .none "" (b.advanceReadIndex mark)
  | error err n => .none err (b.advanceReadIndex (mark + n : ℕ))
  | fault => .fault

/-- `Decode` on bytes with a command to look at. -/
theorem decode_settles {breaks q : Bytes} {c : UInt8}
    (hbreaks : ∀ c ∈ breaks, isLineBreak c = true) (hc : isLineBreak c = false)
    {result : Moved RedisCommandFrame}
    (h : Settles (fun b => processBuffer b c (b.advanceReadIndex 1)) (c :: q) result) {b : Buffer}
    (hb : b.Reads (breaks ++ c :: q)) : decode b = result.decoded b breaks.length := by
  have hsame := h.same _ hb.advance
  rw [decode_breaks hbreaks hc hb, decode_noSkip hb.advance hc, hsame]
  cases result with
  | done msg n =>
    dsimp only [Moved.answer, Moved.decoded]
    rw [Buffer.advanceReadIndex_advance, Buffer.advanceReadIndex_ofNat,
      Buffer.advanceReadIndex_ofNat, show b.readIdx + (breaks.length + n)
      - (b.readIdx + breaks.length) = n by omega]
  | more => rfl
  | error err n =>
    dsimp only [Moved.answer, Moved.decoded]
    rw [Buffer.advanceReadIndex_advance]
  | fault => rfl

/-- With a byte that is not a line break, and no peeking, `Decode` looks at the received bytes
only. -/
theorem commandOutcome_receivedOnly {breaks q : Bytes} {c : UInt8}
    (hbreaks : ∀ c ∈ breaks, isLineBreak c = true) (hc : isLineBreak c = false)
    (h : c = 42 → ¬ Peeks q) : ReceivedOnly commandOutcome (breaks ++ c :: q) := by
  obtain ⟨result, hsettles⟩ := processBuffer_settles h
  have hin := hsettles.inside
  have hdec : ∀ b : Buffer, b.Reads (breaks ++ c :: q) →
      decode b = result.decoded b breaks.length :=
    fun b hb => decode_settles hbreaks hc hsettles hb
  cases result with
  | done msg n =>
    refine ⟨some ((some { msg with rawMsg := ⟨breaks.length, n⟩ }, ""), breaks.length + n), ?_,
      fun b hb => ?_⟩
    · intro p hp
      rw [← Option.some.inj hp, List.length_append]
      exact Nat.add_le_add_left hin _
    · rw [commandOutcome, hdec b hb, Moved.decoded, Decoded.outcome, Option.map_some,
        Nat.add_sub_cancel_left]
  | more =>
    refine ⟨some ((none, ""), breaks.length), ?_, fun b hb => ?_⟩
    · intro p hp
      rw [← Option.some.inj hp, List.length_append]
      exact Nat.le_add_right _ _
    · rw [commandOutcome, hdec b hb]
      rfl
  | error err n =>
    refine ⟨some ((none, err), breaks.length + n), ?_, fun b hb => ?_⟩
    · intro p hp
      rw [← Option.some.inj hp, List.length_append]
      exact Nat.add_le_add_left hin _
    · rw [commandOutcome, hdec b hb]
      rfl
  | fault =>
    refine ⟨none, fun p hp => (by cases hp), fun b hb => ?_⟩
    rw [commandOutcome, hdec b hb]
    rfl

/-- When nothing but line breaks was received, line breaks behind them are skipped as well. -/
theorem commandOutcome_breaks {r : Bytes} (hr : ∀ c ∈ r, isLineBreak c = true) :
    ¬ ReceivedOnly commandOutcome r := by
  rintro ⟨result, hin, hsame⟩
  let b := Buffer.wrap (r ++ [10]) 0 r.length
  have hb : b.Reads r := Buffer.reads_wrap r [10]
  have hskip : (b.rawReadBuffer.takeWhile isLineBreak).length = r.length + 1 := by
    change ((r ++ [10]).takeWhile isLineBreak).length = _
    rw [List.takeWhile_append_of_pos hr, List.length_append]
    rfl
  have hnone : (b.advanceReadIndex (r.length + 1 : ℕ)).readByte = none := by
    unfold Buffer.readByte
    rw [if_neg]
    unfold Buffer.Readable
    rw [Buffer.advanceReadIndex_ofNat, Buffer.advanceReadIndex_writeIdx, ← hb.idx]
    omega
  have hout : commandOutcome b = some ((none, ""), b.advanceReadIndex (r.length + 1 : ℕ)) := by
    rw [commandOutcome, decode, hskip, hnone]
    rfl
  have heq := hsame b hb
  rw [hout] at heq
  obtain ⟨p, rfl, hp⟩ := Option.map_eq_some_iff.mp heq.symm
  -- the read index has gone one byte behind the received bytes
  have hidx := congrArg (fun x => x.2.readIdx) hp
  rw [Buffer.advanceReadIndex_ofNat, Buffer.advanceReadIndex_ofNat] at hidx
  have hle := hin p rfl
  omega

/-- The result on bytes that start with `*`. -/
theorem commandOutcome_star {breaks q behind : Bytes}
    (hbreaks : ∀ c ∈ breaks, isLineBreak c = true) {b : Buffer}
    (h : b.Sees (breaks ++ 42 :: q) behind) :
    ∃ (b₁ : Buffer) (frame : RedisCommandFrame), b₁.Sees q behind ∧
      ((∃ buffer, commandOutcome b = some ((none, ""), buffer)) ↔
        processMultibulkBuffer b₁ frame = .more) := by
  have h₁ := h.advance
  have hstar : isLineBreak 42 = false := by decide
  refine ⟨_, { RedisCommandFrame.empty with isInline := false }, h₁.tail.2, ?_⟩
  rw [commandOutcome, decode_breaks hbreaks hstar h.reads, decode_noSkip h₁.reads hstar,
    processBuffer, if_pos rfl, Nat.cast_one]
  cases hm : processMultibulkBuffer ((b.advanceReadIndex breaks.length).advanceReadIndex 1)
    { RedisCommandFrame.empty with isInline := false } with
  | done msg buffer => exact iff_of_false (by rintro ⟨_, heq⟩; cases heq) (by rintro heq; cases heq)
  | more => exact iff_of_true ⟨_, rfl⟩ rfl
  | error err buffer =>
    refine iff_of_false ?_ (by rintro heq; cases heq)
    rintro ⟨_, heq⟩
    -- the text of an error is not empty
    have hrej := processMultibulkBuffer_error h₁.tail.2 hm
    obtain ⟨err', buffer', heq', hne⟩ := processMultibulkBuffer_rejected h₁.tail.2 hrej
      { RedisCommandFrame.empty with isInline := false }
    obtain ⟨rfl, -⟩ := Parsed.error.inj (heq'.symm.trans hm)
    exact hne (congrArg (fun x => x.1.2) (Option.some.inj heq))
  | fault => exact iff_of_false (by rintro ⟨_, heq⟩; cases heq) (by rintro heq; cases heq)

/-- A request that peeks is seen differently with different bytes behind it. -/
theorem commandOutcome_peeks {breaks q : Bytes} (hbreaks : ∀ c ∈ breaks, isLineBreak c = true)
    (h : Peeks q) : ¬ ReceivedOnly commandOutcome (breaks ++ 42 :: q) := by
  rintro ⟨result, -, hsame⟩
  have hb := Buffer.sees_wrap (breaks ++ 42 :: q) [48]
  have hb' := Buffer.sees_wrap (breaks ++ 42 :: q) []
  obtain ⟨b₁, frame, h₁, hiff⟩ := commandOutcome_star hbreaks hb
  obtain ⟨b₁', frame', h₁', hiff'⟩ := commandOutcome_star hbreaks hb'
  obtain ⟨buffer, hout⟩ := hiff.mpr (h.differ h₁ h₁' frame).1
  -- the result with a digit behind is the result with nothing behind
  rw [hsame _ hb.reads] at hout
  obtain ⟨p, rfl, hp⟩ := Option.map_eq_some_iff.mp hout
  have hvalue : p.1 = (none, "") := congrArg Prod.fst hp
  refine (h.differ h₁ h₁' frame').2 (hiff'.mp
    ⟨(Buffer.wrap (breaks ++ 42 :: q ++ []) 0
      (breaks ++ 42 :: q).length).advanceReadIndex p.2, ?_⟩)
  rw [hsame _ hb'.reads, Option.map_some, hvalue]

/-- **The command decoder** looks at the received bytes only, if and only if they are not line
breaks only and the request behind the line breaks, if there is one, does not peek. -/
theorem commandOutcome_receivedOnly_iff (r : Bytes) : ReceivedOnly commandOutcome r ↔
    (∃ c ∈ r, isLineBreak c = false) ∧ ∀ q, r.dropWhile isLineBreak = 42 :: q → ¬ Peeks q := by
  have hsplit := List.takeWhile_append_dropWhile (p := isLineBreak) (l := r)
  have hbreaks : ∀ c ∈ r.takeWhile isLineBreak, isLineBreak c = true :=
    fun c hc => List.mem_takeWhile_imp hc
  constructor
  · intro h
    refine ⟨?_, fun q hq hpeeks => ?_⟩
    · by_contra hno
      refine commandOutcome_breaks (fun c hc => ?_) h
      rw [← Bool.not_eq_false]
      exact fun hfalse => hno ⟨c, hc, hfalse⟩
    · rw [hq] at hsplit
      rw [← hsplit] at h
      exact commandOutcome_peeks hbreaks hpeeks h
  · rintro ⟨⟨c, hc, hno⟩, hpeeks⟩
    cases hq : r.dropWhile isLineBreak with
    | nil =>
      have hall := List.dropWhile_eq_nil_iff.mp hq c hc
      rw [hno] at hall
      cases hall
    | cons d q =>
      have hd : isLineBreak d = false := by
        have hhead := List.head?_dropWhile_not isLineBreak r
        rw [hq] at hhead
        exact hhead
      rw [hq] at hsplit
      rw [← hsplit]
      exact commandOutcome_receivedOnly hbreaks hd fun hstar => hpeeks q (by rw [hq, hstar])

end Comms
