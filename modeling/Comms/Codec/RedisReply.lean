import Comms.Codec.Peek
import Comms.Codec.StackFrameDecoder
import Comms.Command.Args

/-!
# Replies on the wire

`RedisReplyEncoder::Encode` and `RedisReplyDecoder::Decode`. A reply starts with a line; an array
is followed by its members, a string by its bytes, which the decoder takes from the memory behind
the line whether they have been received or not.

* `RedisReply.encode` — a reply, encoded;
* `decodeReply` — `decode_reply` on a buffer, with `readMembers` for the members of an array;
* `readReply` — the same on the received bytes alone, as long as they are all it needs;
* `decodeReply_reads` — then the two agree, whatever lies behind the received bytes;
* `Overruns` — a string that is not all there is what makes the decoder leave them.
-/

namespace Comms

/-! ### Replies -/

/-- `RedisReply` without its pool; `none` is type `0`. An array without elements is one whose
`elements` are empty. -/
inductive RedisReply
  | none
  | nil
  | string (str : Bytes)
  | integer (value : Int64)
  | error (str : Bytes)
  /-- The code is kept in `integer`. -/
  | status (code : Int64) (str : Bytes)
  | array (elements : List RedisReply)

/-- `"%lld"`. -/
def decimalSigned (v : ℤ) : Bytes :=
  if v < 0 then 45 :: decimal v.natAbs else decimal v.natAbs

namespace RedisReply

/-- `REDIS_REPLY_STATUS_OK`. -/
def statusOk : Int64 := 2001

/-- `REDIS_REPLY_STATUS_PONG`. -/
def statusPong : Int64 := 2002

mutual

/-- `RedisReplyEncoder::Encode`. A text is written as a C string, a size as an `int`. -/
def encode : RedisReply → Option Bytes
  | .nil => some ([36, 45, 49] ++ kCRLF)
  | .string str =>
    if str.length = 0 then some ([36, 48] ++ kCRLF ++ kCRLF)
    else some (36 :: (decimalInt str.length ++ kCRLF) ++ str ++ kCRLF)
  | .error str => some (45 :: (cStr str ++ kCRLF))
  | .integer value => some (58 :: (decimalSigned value.toInt ++ kCRLF))
  | .array elements =>
    match encodeAll elements with
    | some bytes => some (42 :: (decimalInt elements.length ++ kCRLF) ++ bytes)
    | Option.none => Option.none
  | .status code str =>
    if code = statusOk then some ([43, 79, 75] ++ kCRLF)
    else if code = statusPong then some ([43, 80, 79, 78, 71] ++ kCRLF)
    else some (43 :: (cStr str ++ kCRLF))
  -- an unexpected type
  | .none => Option.none

/-- The members of an array, one after the other. -/
def encodeAll : List RedisReply → Option Bytes
  | [] => some []
  | element :: elements =>
    match encode element, encodeAll elements with
    | some bytes, some rest => some (bytes ++ rest)
    | _, _ => Option.none

end

end RedisReply

/-! ### The decoder -/

/-- What `decode_reply` does, and where it leaves the read index. -/
inductive Taken (ρ : Type)
  /-- `return 0`. -/
  | more (at_ : ρ)
  /-- `return 1`. -/
  | done (msg : RedisReply) (at_ : ρ)
  /-- `return -1`. -/
  | error (at_ : ρ)
  /-- `std::length_error` leaves the function, or its recursion does not end. -/
  | fault (at_ : ρ)
  /-- Memory outside the block is read, or the read index is moved in front of it. -/
  | wild

namespace Taken

variable {ρ σ : Type}

/-- The same, somewhere else. -/
def map (f : ρ → σ) : Taken ρ → Taken σ
  | more p => more (f p)
  | done msg p => done msg (f p)
  | error p => error (f p)
  | fault p => fault (f p)
  | wild => wild

/-- The read index is left where `P` holds. -/
def All (P : ρ → Prop) : Taken ρ → Prop
  | more p | done _ p | error p | fault p => P p
  | wild => True

end Taken

/-- What the first line of a reply says. -/
inductive FirstLine
  /-- No number where one is due, or no type the decoder knows. -/
  | bad
  | reply (msg : RedisReply)
  | string (len : ℤ)
  | array (len : ℤ)

/-- The `switch` over the type byte. -/
def firstLine (type : UInt8) (text : Bytes) : FirstLine :=
  if type = 36 then
    match rawToInt64 text with
    | none => .bad
    | some len => if len = -1 then .reply .nil else .string len
  else if type = 43 then .reply (.status 0 text)
  else if type = 45 then .reply (.error text)
  else if type = 58 then
    match rawToInt64 text with
    | none => .bad
    | some value => .reply (.integer (Int64.ofInt value))
  else if type = 42 then
    match rawToInt64 text with
    | none => .bad
    | some len => .array len
  else .bad

/-- `str.assign(GetRawReadBuffer(), len)` and `SkipBytes(len + 2)`, which hands its argument on as
an `int`. A negative length is a `size_t` longer than any string. -/
def takeString (b : Buffer) (len : ℤ) : Taken Buffer :=
  if len < 0 then .fault b
  else if b.mem.length < b.readIdx + len.toNat then .wild
  else
    let idx : ℤ := b.readIdx + (len + 2).bmod (2 ^ 32)
    if idx < 0 then .wild
    else .done (.string (Circular.slice b.mem b.readIdx len.toNat)) (b.setReadIndex idx.toNat)

/-- The loop over the members of an array, of which some have been read. It breaks at a member that
needs more data, and keeps the one it has added for it. -/
def readMembers {ρ : Type} (read : ρ → Taken ρ) : ℕ → ρ → List RedisReply → Taken ρ
  | 0, p, members => .done (.array members) p
  | n + 1, p, members =>
    match read p with
    | .more q => .done (.array (members ++ [.none])) q
    | .done msg q => readMembers read n q (members ++ [msg])
    | .error q => .error q
    | .fault q => .fault q
    | .wild => .wild

/-- `decode_reply`, at most `fuel` arrays deep. -/
def decodeReply : ℕ → Buffer → Taken Buffer
  | 0, b => .fault b
  | fuel + 1, b =>
    match b.indexOf kCRLF b.readIdx b.writeIdx with
    | none => .more b
    | some crlf =>
      let text := Circular.slice b.mem (b.readIdx + 1) (crlf - (b.readIdx + 1))
      match firstLine (b.rawAt 0) text with
      | .bad => .error (b.advanceReadIndex 1)
      | .reply msg => .done msg (b.setReadIndex (crlf + 2))
      | .string len => takeString (b.setReadIndex (crlf + 2)) len
      | .array len => readMembers (decodeReply fuel) len.toNat (b.setReadIndex (crlf + 2)) []

/-- The loop over the line breaks in front of a reply. It looks at the memory, not at the readable
bytes. -/
def skipLineBreaks (b : Buffer) : Buffer :=
  b.advanceReadIndex (b.rawReadBuffer.takeWhile isLineBreak).length

/-- `RedisReplyDecoder::Decode`. Every member of an array takes a byte at least, so more fuel than
there are readable bytes is for a recursion that does not end. -/
def replyDecode (b : Buffer) : Taken Buffer :=
  decodeReply ((skipLineBreaks b).readableBytes + 1) (skipLineBreaks b)

/-- What `Decode` returns: a negative result closes the channel, and is `false` as well. -/
def Taken.toAnswer : Taken Buffer → Answer RedisReply
  | .done msg b => .frame msg b
  | .more b | .error b => .none b
  | .fault _ | .wild => .fault

/-! ### The received bytes alone -/

/-- Where the first line of the bytes ends. -/
def crlfAt (bytes : Bytes) : Option ℕ :=
  (Buffer.wrap bytes 0 bytes.length).indexOf kCRLF 0 bytes.length

/-- The line at a place: what it says, and where the next one starts. -/
def lineAt (r : Bytes) (p : ℕ) : Option (FirstLine × ℕ) :=
  (crlfAt (r.drop p)).map fun i =>
    (firstLine ((r.drop p).headD 0) (Circular.slice (r.drop p) 1 (i - 1)), p + (i + 2))

/-- The string at a place, or `wild` when it or the end of it is somewhere else. -/
def readString (r : Bytes) (p : ℕ) (len : ℤ) : Taken ℕ :=
  if len < 0 then .fault p
  else if r.length < p + len.toNat then .wild
  else
    let idx : ℤ := p + (len + 2).bmod (2 ^ 32)
    if idx < 0 ∨ (r.length : ℤ) < idx then .wild
    else .done (.string (Circular.slice r p len.toNat)) idx.toNat

/-- The reply at a place of the received bytes, or `wild` when something else is needed for it. -/
def readReply (r : Bytes) : ℕ → ℕ → Taken ℕ
  | 0, p => .fault p
  | fuel + 1, p =>
    match lineAt r p with
    | none => .more p
    | some (.bad, _) => .error (p + 1)
    | some (.reply msg, q) => .done msg q
    | some (.string len, q) => readString r q len
    | some (.array len, q) => readMembers (readReply r fuel) len.toNat q []

/-! ### The two agree -/

section Members

variable {ρ σ : Type} {read : ρ → Taken ρ} {P : ρ → Prop}

theorem readMembers_all (h : ∀ p, P p → (read p).All P) (n : ℕ) {p : ρ} (hp : P p)
    (members : List RedisReply) : (readMembers read n p members).All P := by
  induction n generalizing p members with
  | zero => exact hp
  | succ n ih =>
    have hread := h p hp
    rw [readMembers]
    cases hr : read p with
    | more q =>
      rw [hr] at hread
      exact hread
    | done msg q =>
      rw [hr] at hread
      exact ih hread _
    | error q =>
      rw [hr] at hread
      exact hread
    | fault q =>
      rw [hr] at hread
      exact hread
    | wild => trivial

/-- Members that are read the same way somewhere else make the same array there. -/
theorem readMembers_map {decode : σ → Taken σ} {f : ρ → σ} (hall : ∀ p, P p → (read p).All P)
    (h : ∀ p, P p → read p ≠ .wild → decode (f p) = (read p).map f) (n : ℕ) {p : ρ} (hp : P p)
    (members : List RedisReply) (hw : readMembers read n p members ≠ .wild) :
    readMembers decode n (f p) members = (readMembers read n p members).map f := by
  induction n generalizing p members with
  | zero => rfl
  | succ n ih =>
    have hread := hall p hp
    rw [readMembers] at hw ⊢
    rw [readMembers]
    cases hr : read p with
    | wild =>
      rw [hr] at hw
      exact absurd rfl hw
    | done msg q =>
      rw [hr] at hread hw
      rw [h p hp (by rw [hr]; nofun), hr]
      exact ih hread _ hw
    | more q =>
      rw [h p hp (by rw [hr]; nofun), hr]
      rfl
    | error q =>
      rw [h p hp (by rw [hr]; nofun), hr]
      rfl
    | fault q =>
      rw [h p hp (by rw [hr]; nofun), hr]
      rfl

end Members

section Received

variable {r : Bytes}

theorem crlfAt_bounds {i : ℕ} (h : crlfAt r = some i) : i + 2 ≤ r.length :=
  (Buffer.indexOf_bounds h).2.1

/-- A search of the readable bytes finds what a search of these bytes alone finds. -/
theorem indexOf_crlfAt {b : Buffer} (h : b.Reads r) :
    b.indexOf kCRLF b.readIdx b.writeIdx = (crlfAt r).map (b.readIdx + ·) := by
  obtain ⟨found, -, hsame⟩ := @indexOf_settles r kCRLF 0 r.length le_rfl
  have hwrap : (Buffer.wrap r 0 r.length).Reads r := ⟨rfl, [], (List.append_nil r).symm⟩
  have hfound : crlfAt r = found := by
    have heq := hsame _ hwrap
    rw [Nat.add_zero, show (Buffer.wrap r 0 r.length).readIdx + r.length = r.length from
      Nat.zero_add _] at heq
    change crlfAt r = found.map (0 + ·) at heq
    rw [heq, show ((0 : ℕ) + ·) = id from funext Nat.zero_add, Option.map_id, id]
  have hb := hsame b h
  rw [Nat.add_zero, h.idx] at hb
  rw [hb, hfound]

theorem Buffer.Reads.drop {b : Buffer} (h : b.Reads r) {p : ℕ} (hp : p ≤ r.length) :
    (b.advanceReadIndex p).Reads (r.drop p) := by
  have hsplit : b.Reads (r.take p ++ r.drop p) := by rwa [List.take_append_drop]
  have hadv := hsplit.advance
  rwa [List.length_take_of_le hp] at hadv

/-- What the decoder does behind the first line of a reply. -/
def takeLine (fuel : ℕ) (b behind : Buffer) : FirstLine → Taken Buffer
  | .bad => .error (b.advanceReadIndex 1)
  | .reply msg => .done msg behind
  | .string len => takeString behind len
  | .array len => readMembers (decodeReply fuel) len.toNat behind []

/-- Without a line more data is needed. -/
theorem decodeReply_none {b : Buffer} (h : b.Reads r) {p : ℕ} (hp : p ≤ r.length)
    (hl : lineAt r p = none) (fuel : ℕ) :
    decodeReply (fuel + 1) (b.advanceReadIndex p) = .more (b.advanceReadIndex p) := by
  have hnone : crlfAt (r.drop p) = none := Option.map_eq_none_iff.mp hl
  rw [decodeReply, indexOf_crlfAt (h.drop hp), hnone]
  rfl

/-- The line is in the received bytes. -/
theorem lineAt_bounds {p q : ℕ} {line : FirstLine} (hp : p ≤ r.length)
    (hl : lineAt r p = some (line, q)) : p + 2 ≤ q ∧ q ≤ r.length := by
  obtain ⟨i, hi, heq⟩ := Option.map_eq_some_iff.mp hl
  have hbounds := crlfAt_bounds hi
  rw [List.length_drop] at hbounds
  obtain ⟨-, rfl⟩ := Prod.mk.inj heq
  omega

/-- With a line the decoder goes on as it says. -/
theorem decodeReply_some {b : Buffer} (h : b.Reads r) {p q : ℕ} {line : FirstLine}
    (hp : p ≤ r.length) (hl : lineAt r p = some (line, q)) (fuel : ℕ) :
    decodeReply (fuel + 1) (b.advanceReadIndex p) =
      takeLine fuel (b.advanceReadIndex p) (b.advanceReadIndex q) line := by
  obtain ⟨i, hi, heq⟩ := Option.map_eq_some_iff.mp hl
  have hreads := h.drop hp
  have hbounds := crlfAt_bounds hi
  have htype : (b.advanceReadIndex p).rawAt 0 = (r.drop p).headD 0 := by
    have hpos : 0 < (r.drop p).length := by omega
    have hat := hreads.rawAt hpos
    rw [Nat.cast_zero] at hat
    rw [hat, List.headD_eq_head?_getD, List.head?_eq_getElem?, List.getElem?_eq_getElem hpos,
      Option.getD_some]
  have htext : Circular.slice (b.advanceReadIndex p).mem ((b.advanceReadIndex p).readIdx + 1)
      ((b.advanceReadIndex p).readIdx + i - ((b.advanceReadIndex p).readIdx + 1)) =
      Circular.slice (r.drop p) 1 (i - 1) := by
    rw [Nat.add_sub_add_left]
    exact hreads.slice (by omega)
  obtain ⟨rfl, rfl⟩ := Prod.mk.inj heq
  have hbehind : (b.advanceReadIndex p).setReadIndex ((b.advanceReadIndex p).readIdx + i + 2) =
      b.advanceReadIndex (p + (i + 2) : ℕ) := by
    rw [← Buffer.advanceReadIndex_advance]
    rfl
  rw [decodeReply, indexOf_crlfAt hreads, hi, Option.map_some]
  dsimp only
  rw [htype, htext, hbehind]
  cases firstLine ((r.drop p).headD 0) (Circular.slice (r.drop p) 1 (i - 1)) <;> rfl

/-- The received bytes are in the block. -/
theorem Buffer.Reads.length_le {b : Buffer} (h : b.Reads r) (hr : r ≠ []) :
    b.readIdx + r.length ≤ b.mem.length := by
  obtain ⟨behind, hraw⟩ := h.mem
  have hlen := congrArg List.length hraw
  have hpos := List.length_pos_iff.mpr hr
  rw [Buffer.rawReadBuffer, List.length_drop, List.length_append] at hlen
  omega

/-- A string that the received bytes hold as a whole. -/
theorem takeString_reads {b : Buffer} (h : b.Reads r) (hr : r ≠ []) {p : ℕ} {len : ℤ}
    (hw : readString r p len ≠ .wild) : takeString (b.advanceReadIndex p) len =
      (readString r p len).map fun q : ℕ => b.advanceReadIndex q := by
  have hmem := h.length_le hr
  unfold readString at hw ⊢
  unfold takeString
  by_cases hneg : len < 0
  · rw [if_pos hneg, if_pos hneg]
    rfl
  rw [if_neg hneg] at hw
  rw [if_neg hneg, if_neg hneg]
  by_cases hout : r.length < p + len.toNat
  · rw [if_pos hout] at hw
    exact absurd rfl hw
  rw [if_neg hout] at hw
  rw [if_neg hout, Buffer.advanceReadIndex_mem, Buffer.advanceReadIndex_ofNat, if_neg (by omega)]
  dsimp only at hw ⊢
  by_cases hidx : (p : ℤ) + (len + 2).bmod (2 ^ 32) < 0 ∨
      (r.length : ℤ) < (p : ℤ) + (len + 2).bmod (2 ^ 32)
  · rw [if_pos hidx] at hw
    exact absurd rfl hw
  rw [if_neg hidx, if_neg (by omega), h.slice (by omega)]
  -- the same place, counted from the start of the block and from the read index
  have hplace : ((b.readIdx + p : ℕ) + (len + 2).bmod (2 ^ 32) : ℤ).toNat =
      b.readIdx + ((p : ℤ) + (len + 2).bmod (2 ^ 32)).toNat := by omega
  rw [hplace]
  rfl

theorem readString_all {p : ℕ} (hp : p ≤ r.length) (len : ℤ) :
    (readString r p len).All (· ≤ r.length) := by
  unfold readString
  dsimp only
  split
  · exact hp
  split
  · trivial
  split
  · trivial
  · next hidx =>
    change ((p : ℤ) + (len + 2).bmod (2 ^ 32)).toNat ≤ r.length
    omega

theorem readReply_all (fuel : ℕ) : ∀ p, p ≤ r.length → (readReply r fuel p).All (· ≤ r.length) := by
  induction fuel with
  | zero => exact fun p hp => hp
  | succ fuel ih =>
    intro p hp
    rw [readReply]
    cases hl : lineAt r p with
    | none => exact hp
    | some found =>
      obtain ⟨line, q⟩ := found
      obtain ⟨hlo, hq⟩ := lineAt_bounds hp hl
      cases line with
      | bad =>
        change p + 1 ≤ r.length
        omega
      | reply msg => exact hq
      | string len => exact readString_all hq len
      | array len => exact readMembers_all ih _ hq []

/-- **The decoder on a buffer.** As long as the received bytes are all it needs, it does what they
say, whatever lies behind them. -/
theorem decodeReply_reads {b : Buffer} (h : b.Reads r) (fuel : ℕ) : ∀ p, p ≤ r.length →
    readReply r fuel p ≠ .wild → decodeReply fuel (b.advanceReadIndex p) =
      (readReply r fuel p).map fun q : ℕ => b.advanceReadIndex q := by
  induction fuel with
  | zero => exact fun p _ _ => rfl
  | succ fuel ih =>
    intro p hp hw
    rw [readReply] at hw ⊢
    cases hl : lineAt r p with
    | none => exact decodeReply_none h hp hl fuel
    | some found =>
      obtain ⟨line, q⟩ := found
      obtain ⟨hlo, hq⟩ := lineAt_bounds hp hl
      rw [decodeReply_some h hp hl]
      rw [hl] at hw
      cases line with
      | bad =>
        rw [takeLine, show (1 : ℤ) = ((1 : ℕ) : ℤ) from rfl, Buffer.advanceReadIndex_advance]
        rfl
      | reply msg => rfl
      | string len => exact takeString_reads h (List.length_pos_iff.mp (by omega)) hw
      | array len => exact readMembers_map (readReply_all fuel) ih _ hq [] hw

/-! ### Leaving the received bytes -/

/-- So many replies stand one after the other. -/
inductive Members (r : Bytes) (depth : ℕ) : ℕ → ℕ → ℕ → Prop
  | none {p : ℕ} : Members r depth 0 p p
  | next {k p q q' : ℕ} {msg : RedisReply} (first : readReply r depth p = .done msg q)
      (rest : Members r depth k q q') : Members r depth (k + 1) p q'

/-- **Overrunning.** A string is announced, and fewer bytes have been received, or the read index
behind it is not among them: the end of the string is missing, or its length does not fit an `int`.
The string may be a member of an array, behind others that are complete. -/
inductive Overruns (r : Bytes) : ℕ → ℕ → Prop
  | string {depth p q : ℕ} {len : ℤ} (line : lineAt r p = some (.string len, q)) (nonneg : 0 ≤ len)
      (out : r.length < q + len.toNat ∨ (q : ℤ) + (len + 2).bmod (2 ^ 32) < 0 ∨
        (r.length : ℤ) < q + (len + 2).bmod (2 ^ 32)) : Overruns r (depth + 1) p
  | array {depth p q q' k : ℕ} {len : ℤ} (line : lineAt r p = some (.array len, q))
      (lt : k < len.toNat) (before : Members r depth k q q') (member : Overruns r depth q') :
      Overruns r (depth + 1) p

theorem readMembers_wild_iff {depth : ℕ} (n p : ℕ) (members : List RedisReply) :
    readMembers (readReply r depth) n p members = .wild ↔
      ∃ k q, k < n ∧ Members r depth k p q ∧ readReply r depth q = .wild := by
  induction n generalizing p members with
  | zero =>
    refine iff_of_false (by nofun) ?_
    rintro ⟨k, q, hk, -⟩
    exact absurd hk (Nat.not_lt_zero k)
  | succ n ih =>
    -- no member stands behind one that is not complete
    have hstop : (∀ msg q, readReply r depth p ≠ .done msg q) → readReply r depth p ≠ .wild →
        ¬ ∃ k q, k < n + 1 ∧ Members r depth k p q ∧ readReply r depth q = .wild := by
      rintro hno hw ⟨k, q, -, hm, hq⟩
      cases hm with
      | none => exact hw hq
      | next first rest => exact hno _ _ first
    rw [readMembers]
    cases hr : readReply r depth p with
    | wild => exact iff_of_true rfl ⟨0, p, Nat.succ_pos n, .none, hr⟩
    | more q => exact iff_of_false (by nofun) (hstop (by rw [hr]; nofun) (by rw [hr]; nofun))
    | error q => exact iff_of_false (by nofun) (hstop (by rw [hr]; nofun) (by rw [hr]; nofun))
    | fault q => exact iff_of_false (by nofun) (hstop (by rw [hr]; nofun) (by rw [hr]; nofun))
    | done msg q =>
      dsimp only
      rw [ih]
      constructor
      · rintro ⟨k, q', hk, hm, hw⟩
        exact ⟨k + 1, q', Nat.succ_lt_succ hk, .next hr hm, hw⟩
      · rintro ⟨k, q', hk, hm, hw⟩
        cases hm with
        | none =>
          rw [hr] at hw
          cases hw
        | next first rest =>
          obtain ⟨-, rfl⟩ := Taken.done.inj (hr.symm.trans first)
          exact ⟨_, q', Nat.lt_of_succ_lt_succ hk, rest, hw⟩

theorem readString_wild_iff (q : ℕ) (len : ℤ) : readString r q len = .wild ↔
    0 ≤ len ∧ (r.length < q + len.toNat ∨ (q : ℤ) + (len + 2).bmod (2 ^ 32) < 0 ∨
      (r.length : ℤ) < q + (len + 2).bmod (2 ^ 32)) := by
  unfold readString
  dsimp only
  split
  · next hneg => exact iff_of_false (by nofun) fun h => not_le.mpr hneg h.1
  next hneg =>
  split
  · next hout => exact iff_of_true rfl ⟨not_lt.mp hneg, .inl hout⟩
  next hin =>
  split
  · next hidx => exact iff_of_true rfl ⟨not_lt.mp hneg, .inr hidx⟩
  · next hidx => exact iff_of_false (by nofun) fun h => h.2.elim hin hidx

/-- The received bytes do not suffice exactly when they overrun. -/
theorem readReply_wild_iff (depth : ℕ) : ∀ p, readReply r depth p = .wild ↔ Overruns r depth p := by
  induction depth with
  | zero => exact fun p => iff_of_false (by nofun) (by nofun)
  | succ depth ih =>
    intro p
    rw [readReply]
    constructor
    · intro h
      cases hl : lineAt r p with
      | none =>
        rw [hl] at h
        cases h
      | some found =>
        obtain ⟨line, q⟩ := found
        rw [hl] at h
        cases line with
        | bad => cases h
        | reply msg => cases h
        | string len =>
          obtain ⟨hnonneg, hout⟩ := (readString_wild_iff q len).mp h
          exact .string hl hnonneg hout
        | array len =>
          obtain ⟨k, q', hk, hm, hw⟩ := (readMembers_wild_iff _ q []).mp h
          exact .array hl hk hm ((ih q').mp hw)
    · intro h
      cases h with
      | string line nonneg out =>
        rw [line]
        exact (readString_wild_iff _ _).mpr ⟨nonneg, out⟩
      | array line lt before member =>
        rw [line]
        exact (readMembers_wild_iff _ _ []).mpr ⟨_, _, lt, before, (ih _).mpr member⟩

end Received

end Comms
