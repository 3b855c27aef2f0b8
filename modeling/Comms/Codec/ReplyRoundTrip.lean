import Comms.Codec.ReceivedBytes

/-!
# Replies, encoded and decoded again

What `RedisReplyEncoder::Encode` writes is decoded by `RedisReplyDecoder`, as a whole and in parts.

* `readReply_encode` — a reply that is there as a whole comes out as it went in, whatever follows;
* `OneLine` — a reply whose encoding is a single line, and whose text a C string can hold;
* `incremental_iff` — of other replies the decoder takes the first line for the whole;
* `replyRoundTrip_iff` — one-line replies are those that can be cut anywhere;
* `yields_iff` — a stream of them comes out reply by reply, in whatever reads it arrives.
-/

namespace Comms

/-! ### Numbers -/

/-- `raw_toint64` reads back what `%lld` prints. -/
theorem rawToInt64_signed {v : ℤ} (hlo : -2 ^ 63 ≤ v) (hhi : v < 2 ^ 63) :
    rawToInt64 (decimalSigned v) = some v := by
  unfold decimalSigned
  by_cases hneg : v < 0
  · rw [if_pos hneg, Dump.rawToInt64_minus (by omega) (by omega)]
    exact congrArg some (by omega)
  rw [if_neg hneg]
  by_cases hzero : v = 0
  · subst hzero
    rfl
  · rw [Dump.rawToInt64_decimal (by omega) (by omega)]
    exact congrArg some (Int.natAbs_of_nonneg (not_lt.mp hneg))

theorem decimalInt_signed {n : ℕ} (hn : n < 2 ^ 31) : decimalInt n = decimalSigned n := by
  have hmod : (n : ℤ).bmod (2 ^ 32) = n := by rw [Int.bmod_eq_of_le] <;> omega
  change decimalSigned ((n : ℤ).bmod (2 ^ 32)) = _
  rw [hmod]

/-- A printed number has no line end. -/
theorem not_mem_decimalSigned (v : ℤ) : (13 : UInt8) ∉ decimalSigned v := by
  have hdigits : (13 : UInt8) ∉ decimal v.natAbs := fun h =>
    absurd (isdigit_decimalLoop _ h) (by decide)
  unfold decimalSigned
  split
  · exact List.not_mem_cons_of_ne_of_not_mem (by decide) hdigits
  · exact hdigits

/-! ### Lines -/

section Lines

variable {c : UInt8} {text : Bytes} (hc : c ≠ 13) (htext : (13 : UInt8) ∉ text)

include hc htext in
/-- A line that is all there, in the middle of the bytes. -/
theorem lineAt_line (pre rest : Bytes) :
    lineAt (pre ++ (c :: (text ++ kCRLF) ++ rest)) pre.length =
      some (firstLine c text, pre.length + (c :: (text ++ kCRLF)).length) := by
  have hno : (13 : UInt8) ∉ c :: text := List.not_mem_cons_of_ne_of_not_mem hc.symm htext
  have hdrop : (pre ++ (c :: (text ++ kCRLF) ++ rest)).drop pre.length =
      (c :: text) ++ 13 :: 10 :: rest := by
    rw [List.drop_left]
    simp [kCRLF]
  have hcrlf : crlfAt ((c :: text) ++ 13 :: 10 :: rest) = some (text.length + 1) := by
    have hwrap : (Buffer.wrap ((c :: text) ++ 13 :: 10 :: rest) 0
        ((c :: text) ++ 13 :: 10 :: rest).length).Reads ((c :: text) ++ 13 :: 10 :: rest) :=
      ⟨rfl, [], (List.append_nil _).symm⟩
    have hfound := hwrap.indexOf_crlf hno
    change Buffer.indexOf _ kCRLF 0 (0 + _) = _ at hfound
    rw [Nat.zero_add] at hfound
    rw [crlfAt, hfound]
    exact congrArg some (Nat.zero_add _)
  rw [lineAt, hdrop, hcrlf, Option.map_some]
  have hslice : Circular.slice ((c :: text) ++ 13 :: 10 :: rest) 1 (text.length + 1 - 1) = text := by
    rw [Nat.add_sub_cancel]
    exact List.take_left
  rw [hslice]
  simp [kCRLF]

include hc htext in
/-- A part of a line is none. -/
theorem lineAt_part {p : Bytes} (hp : ProperPrefix p (c :: (text ++ kCRLF))) : lineAt p 0 = none := by
  have hno : (13 : UInt8) ∉ c :: text := List.not_mem_cons_of_ne_of_not_mem hc.symm htext
  have hwrap : (Buffer.wrap p 0 p.length).Reads p := ⟨rfl, [], (List.append_nil _).symm⟩
  have hline : ProperPrefix p ((c :: text) ++ kCRLF) := hp
  have hnone : (Buffer.wrap p 0 p.length).indexOf kCRLF 0 p.length = none := by
    -- no CR has come yet, or nothing behind it
    have hplain : (13 : UInt8) ∉ p → (Buffer.wrap p 0 p.length).indexOf kCRLF 0 p.length = none := by
      intro hp13
      have hwrap' : (Buffer.wrap p 0 p.length).Reads (p ++ []) := by rwa [List.append_nil]
      have hfound := @Buffer.Reads.indexOf_none _ p [] [10] 13 hwrap' hp13
      change Buffer.indexOf _ kCRLF 0 (0 + _) = _ at hfound
      rwa [Nat.zero_add] at hfound
    rcases hline.append with hp' | ⟨p', rfl, hp'⟩
    · exact hplain fun h => hno (hp'.1.subset h)
    · have hlen := hp'.length_lt
      rcases p' with _ | ⟨d, _ | ⟨d', p'⟩⟩
      · exact hplain (by rwa [List.append_nil])
      · obtain ⟨rfl, -⟩ := List.cons_prefix_cons.mp hp'.1
        have hfound := hwrap.indexOf_cr hno
        change Buffer.indexOf _ kCRLF 0 (0 + _) = _ at hfound
        rwa [Nat.zero_add] at hfound
      · change _ + 1 + 1 < 2 at hlen
        omega
  rw [lineAt, List.drop_zero, crlfAt, hnone]
  rfl

end Lines

/-! ### Replies -/

namespace RedisReply

/-- The text of a status. -/
def statusText (code : Int64) (str : Bytes) : Bytes :=
  if code = statusOk then [79, 75] else if code = statusPong then [80, 79, 78, 71] else str

mutual

/-- The reply with status codes as their text. -/
def asText : RedisReply → RedisReply
  | .status code str => .status 0 (statusText code str)
  | .array elements => .array (asTexts elements)
  | .none => .none
  | .nil => .nil
  | .string str => .string str
  | .integer value => .integer value
  | .error str => .error str

/-- The members of an array. -/
def asTexts : List RedisReply → List RedisReply
  | [] => []
  | element :: elements => asText element :: asTexts elements

end

/-- A reply with a type, whose texts are lines. -/
inductive Plain : RedisReply → Prop
  | nil : Plain .nil
  | string {str : Bytes} : Plain (.string str)
  | integer {value : Int64} : Plain (.integer value)
  | error {str : Bytes} (h : ∀ c ∈ str, isLineBreak c = false) : Plain (.error str)
  | status {code : Int64} {str : Bytes} (h : ∀ c ∈ str, isLineBreak c = false) :
      Plain (.status code str)
  | array {elements : List RedisReply} (h : ∀ m ∈ elements, Plain m) : Plain (.array elements)

/-- A reply within the limits of the decoder: a length fits an `int` with its line end, and a C string
holds the text. -/
inductive Fits : RedisReply → Prop
  | nil : Fits .nil
  | string {str : Bytes} (h : str.length + 2 < 2 ^ 31) : Fits (.string str)
  | integer {value : Int64} : Fits (.integer value)
  | error {str : Bytes} (h : (0 : UInt8) ∉ str) : Fits (.error str)
  | status {code : Int64} {str : Bytes} (h : (0 : UInt8) ∉ statusText code str) :
      Fits (.status code str)
  | array {elements : List RedisReply} (hlen : elements.length < 2 ^ 31)
      (h : ∀ m ∈ elements, Fits m) : Fits (.array elements)

/-- A reply of one line, with a text that a C string holds. -/
def OneLine : RedisReply → Prop
  | .nil | .integer _ => True
  | .error str => (0 : UInt8) ∉ str
  | .status code str => (0 : UInt8) ∉ statusText code str
  | .array elements => elements = []
  | .string _ | .none => False

theorem OneLine.fits {r : RedisReply} (h : r.OneLine) : r.Fits := by
  cases r with
  | none => exact h.elim
  | nil => exact .nil
  | string str => exact h.elim
  | integer value => exact .integer
  | error str => exact .error h
  | status code str => exact .status h
  | array elements =>
    obtain rfl : elements = [] := h
    exact .array (by decide) (by simp)

theorem cStr_eq {str : Bytes} (h : (0 : UInt8) ∉ str) : cStr str = str := by
  refine List.takeWhile_eq_self_iff.mpr fun c hc => ?_
  exact decide_eq_true fun h0 => h (h0 ▸ hc)

/-- A status is written as its text. -/
theorem encode_status (code : Int64) (str : Bytes) :
    encode (.status code str) = some (43 :: (cStr (statusText code str) ++ kCRLF)) := by
  unfold encode statusText
  split
  · rfl
  split <;> rfl

theorem statusText_line {code : Int64} {str : Bytes} (h : ∀ c ∈ str, isLineBreak c = false) :
    ∀ c ∈ statusText code str, isLineBreak c = false := by
  have hall : ∀ text : Bytes, text.all (!isLineBreak ·) = true → ∀ c ∈ text, isLineBreak c = false :=
    fun text ht c hc => (Bool.not_eq_true' _).mp (List.all_eq_true.mp ht c hc)
  unfold statusText
  split
  · exact hall _ rfl
  split
  · exact hall _ rfl
  · exact h

theorem cStr_line {str : Bytes} (h : ∀ c ∈ str, isLineBreak c = false) : (13 : UInt8) ∉ cStr str := by
  intro hmem
  have hline := h 13 (List.takeWhile_sublist _ |>.subset hmem)
  cases hline

/-- A string, written. -/
theorem encode_string (str : Bytes) :
    encode (.string str) = some (36 :: (decimalInt str.length ++ kCRLF) ++ str ++ kCRLF) := by
  rw [encode]
  split
  · next hlen =>
    rw [List.length_eq_zero_iff.mp hlen]
    rfl
  · rfl

end RedisReply

/-! ### As a whole -/

theorem firstLine_size {n : ℕ} (hn : n < 2 ^ 31) :
    firstLine 36 (decimalInt n) = .string n ∧ firstLine 42 (decimalInt n) = .array n := by
  have hread : rawToInt64 (decimalInt n) = some (n : ℤ) := by
    rw [decimalInt_signed hn, rawToInt64_signed (by omega) (by omega)]
  unfold firstLine
  rw [hread]
  refine ⟨?_, rfl⟩
  change (if (n : ℤ) = -1 then FirstLine.reply .nil else .string n) = _
  rw [if_neg (by omega)]

theorem not_mem_decimalInt (n : ℕ) : (13 : UInt8) ∉ decimalInt n := not_mem_decimalSigned _

theorem firstLine_integer (value : Int64) :
    firstLine 58 (decimalSigned value.toInt) = .reply (.integer value) := by
  have hread := rawToInt64_signed (Int64.le_toInt value) (Int64.toInt_lt value)
  unfold firstLine
  rw [if_neg (fun h => by cases h), if_neg (fun h => by cases h), if_pos rfl, hread]
  exact congrArg (fun v => FirstLine.reply (.integer v)) (Int64.ofInt_toInt value)

/-- A reply of one line, in the middle of the bytes. -/
theorem readReply_line {c : UInt8} {text : Bytes} {msg : RedisReply} (hc : c ≠ 13)
    (htext : (13 : UInt8) ∉ text) (hmsg : firstLine c text = .reply msg) (pre rest : Bytes)
    (fuel : ℕ) : readReply (pre ++ (c :: (text ++ kCRLF) ++ rest)) (fuel + 1) pre.length =
      .done msg (pre.length + (c :: (text ++ kCRLF)).length) := by
  rw [readReply, lineAt_line hc htext, hmsg]

/-- A string of the bytes with its line end. -/
theorem readString_whole {r str : Bytes} {q : ℕ} (h : str.length + 2 < 2 ^ 31)
    (hslice : Circular.slice r q str.length = str) (hq : q + (str.length + 2) ≤ r.length) :
    readString r q str.length = .done (.string str) (q + (str.length + 2)) := by
  have hmod : (str.length + 2 : ℤ).bmod (2 ^ 32) = str.length + 2 := by
    rw [Int.bmod_eq_of_le] <;> omega
  unfold readString
  rw [if_neg (by omega), Int.toNat_natCast, hslice, hmod, if_neg (by omega)]
  dsimp only
  rw [if_neg (by omega)]
  have hidx : ((q : ℤ) + (str.length + 2)).toNat = q + (str.length + 2) := by omega
  rw [hidx]

/-- A string, in the middle of the bytes. -/
theorem readReply_string {str : Bytes} (h : str.length + 2 < 2 ^ 31) (pre rest : Bytes) (fuel : ℕ) :
    readReply (pre ++ (36 :: (decimalInt str.length ++ kCRLF) ++ (str ++ (kCRLF ++ rest)))) (fuel + 1)
      pre.length = .done (.string str)
        (pre.length + (36 :: (decimalInt str.length ++ kCRLF)).length + (str.length + 2)) := by
  have hslice : Circular.slice (pre ++ (36 :: (decimalInt str.length ++ kCRLF) ++
      (str ++ (kCRLF ++ rest)))) (pre.length + (36 :: (decimalInt str.length ++ kCRLF)).length)
      str.length = str := by
    rw [← List.append_assoc pre, ← List.length_append, Circular.slice, List.drop_left,
      List.take_left]
  rw [readReply, lineAt_line (by decide) (not_mem_decimalInt _), (firstLine_size (by omega)).1]
  refine readString_whole h hslice ?_
  rw [List.length_append, List.length_append, List.length_append, List.length_append,
    show kCRLF.length = 2 from rfl]
  omega

/-- The first line of an array, in the middle of the bytes. -/
theorem readReply_array {n : ℕ} (h : n < 2 ^ 31) (pre rest : Bytes) (fuel : ℕ) :
    readReply (pre ++ (42 :: (decimalInt n ++ kCRLF) ++ rest)) (fuel + 1) pre.length =
      readMembers (readReply (pre ++ (42 :: (decimalInt n ++ kCRLF) ++ rest)) fuel) n
        (pre.length + (42 :: (decimalInt n ++ kCRLF)).length) [] := by
  rw [readReply, lineAt_line (by decide) (not_mem_decimalInt _), (firstLine_size h).2]
  dsimp only
  rw [Int.toNat_natCast]

section

open RedisReply

/-- Every encoding starts with a type byte. -/
theorem encode_cons {r : RedisReply} {bytes : Bytes} (h : r.encode = some bytes) :
    ∃ c cs, bytes = c :: cs ∧ isLineBreak c = false := by
  cases r with
  | none =>
    rw [RedisReply.encode] at h
    cases h
  | nil =>
    rw [RedisReply.encode] at h
    exact ⟨36, [45, 49, 13, 10], (Option.some.inj h).symm, by decide⟩
  | string str =>
    rw [encode_string, List.cons_append, List.cons_append] at h
    exact ⟨36, _, (Option.some.inj h).symm, by decide⟩
  | integer value =>
    rw [RedisReply.encode] at h
    exact ⟨58, _, (Option.some.inj h).symm, by decide⟩
  | error str =>
    rw [RedisReply.encode] at h
    exact ⟨45, _, (Option.some.inj h).symm, by decide⟩
  | status code str =>
    rw [encode_status] at h
    exact ⟨43, _, (Option.some.inj h).symm, by decide⟩
  | array elements =>
    rw [RedisReply.encode] at h
    split at h
    · rw [List.cons_append] at h
      exact ⟨42, _, (Option.some.inj h).symm, by decide⟩
    · cases h

theorem encode_pos {r : RedisReply} {bytes : Bytes} (h : r.encode = some bytes) :
    0 < bytes.length := by
  obtain ⟨c, cs, rfl, -⟩ := encode_cons h
  exact Nat.succ_pos _

/-- A reply that is no array. -/
theorem readReply_encode_leaf {r : RedisReply} (hleaf : ∀ elements, r ≠ .array elements)
    (hplain : r.Plain) (hfits : r.Fits) {bytes : Bytes} (h : r.encode = some bytes)
    (pre rest : Bytes) {fuel : ℕ} (hfuel : bytes.length ≤ fuel) :
    readReply (pre ++ (bytes ++ rest)) fuel pre.length =
      .done r.asText (pre.length + bytes.length) := by
  have hpos := encode_pos h
  obtain ⟨fuel, rfl⟩ : ∃ k, fuel = k + 1 := ⟨fuel - 1, by omega⟩
  cases hplain with
  | nil =>
    rw [RedisReply.encode] at h
    obtain rfl := Option.some.inj h
    rw [asText]
    exact @readReply_line 36 [45, 49] .nil (by decide) (by decide) rfl pre rest fuel
  | integer =>
    rw [RedisReply.encode] at h
    obtain rfl := Option.some.inj h
    rw [asText]
    exact readReply_line (by decide) (not_mem_decimalSigned _) (firstLine_integer _) pre rest fuel
  | error hline =>
    cases hfits with | error hnul =>
    rw [RedisReply.encode] at h
    obtain rfl := Option.some.inj h
    rw [readReply_line (by decide) (cStr_line hline) rfl, cStr_eq hnul, asText]
  | status hline =>
    cases hfits with | status hnul =>
    rw [encode_status] at h
    obtain rfl := Option.some.inj h
    rw [readReply_line (by decide) (cStr_line (statusText_line hline)) rfl, cStr_eq hnul, asText]
  | @string str =>
    cases hfits with | string hsmall =>
    rw [encode_string] at h
    obtain rfl := Option.some.inj h
    have hlen : (36 :: (decimalInt str.length ++ kCRLF) ++ str ++ kCRLF).length =
        (36 :: (decimalInt str.length ++ kCRLF)).length + (str.length + 2) := by
      rw [List.length_append, List.length_append, Nat.add_assoc]
      rfl
    rw [List.append_assoc _ str kCRLF, List.append_assoc, List.append_assoc str,
      readReply_string hsmall, asText, ← List.append_assoc, hlen, Nat.add_assoc]
  | array hlines => exact absurd rfl (hleaf _)

mutual

/-- **As a whole.** A reply in the middle of the bytes comes out as it went in. -/
theorem readReply_encode : ∀ (r : RedisReply), r.Plain → r.Fits → ∀ {bytes : Bytes},
    r.encode = some bytes → ∀ (pre rest : Bytes) (fuel : ℕ), bytes.length ≤ fuel →
    readReply (pre ++ (bytes ++ rest)) fuel pre.length = .done r.asText (pre.length + bytes.length)
  | .none, hplain, hfits, _, h, pre, rest, _, hfuel =>
    readReply_encode_leaf (by nofun) hplain hfits h pre rest hfuel
  | .nil, hplain, hfits, _, h, pre, rest, _, hfuel =>
    readReply_encode_leaf (by nofun) hplain hfits h pre rest hfuel
  | .integer _, hplain, hfits, _, h, pre, rest, _, hfuel =>
    readReply_encode_leaf (by nofun) hplain hfits h pre rest hfuel
  | .error _, hplain, hfits, _, h, pre, rest, _, hfuel =>
    readReply_encode_leaf (by nofun) hplain hfits h pre rest hfuel
  | .status _ _, hplain, hfits, _, h, pre, rest, _, hfuel =>
    readReply_encode_leaf (by nofun) hplain hfits h pre rest hfuel
  | .string _, hplain, hfits, _, h, pre, rest, _, hfuel =>
    readReply_encode_leaf (by nofun) hplain hfits h pre rest hfuel
  | .array elements, hplain, hfits, bytes, h, pre, rest, fuel, hfuel => by
    cases hplain with | array hlines =>
    cases hfits with | array hlen hfit =>
    rw [RedisReply.encode] at h
    cases hall : RedisReply.encodeAll elements with
    | none =>
      rw [hall] at h
      cases h
    | some inner =>
      rw [hall] at h
      obtain rfl := Option.some.inj h
      have hhead : 0 < (42 :: (decimalInt elements.length ++ kCRLF)).length :=
        List.length_pos_of_ne_nil (List.cons_ne_nil _ _)
      rw [List.length_append] at hfuel
      obtain ⟨fuel, rfl⟩ : ∃ k, fuel = k + 1 := ⟨fuel - 1, by omega⟩
      have hinner := readMembers_encode elements (fun m hm => ⟨hlines m hm, hfit m hm⟩) hall
        (pre ++ (42 :: (decimalInt elements.length ++ kCRLF))) rest [] fuel (by omega)
      rw [List.append_assoc pre, @List.length_append _ pre] at hinner
      rw [List.append_assoc _ inner, readReply_array hlen, hinner, @List.length_append _ _ inner,
        Nat.add_assoc, asText, List.nil_append]

/-- The members of an array, one after the other. -/
theorem readMembers_encode : ∀ (rs : List RedisReply), (∀ m ∈ rs, m.Plain ∧ m.Fits) →
    ∀ {bytes : Bytes}, RedisReply.encodeAll rs = some bytes → ∀ (pre rest : Bytes) (members : List RedisReply)
    (fuel : ℕ), bytes.length ≤ fuel →
    readMembers (readReply (pre ++ (bytes ++ rest)) fuel) rs.length pre.length members =
      .done (.array (members ++ asTexts rs)) (pre.length + bytes.length)
  | [], _, bytes, h, pre, rest, members, fuel, _ => by
    obtain rfl := Option.some.inj h
    rw [asTexts, List.append_nil]
    rfl
  | r :: rs, hrs, bytes, h, pre, rest, members, fuel, hfuel => by
    rw [RedisReply.encodeAll] at h
    cases hone : r.encode with
    | none =>
      rw [hone] at h
      cases h
    | some first =>
      cases hmore : RedisReply.encodeAll rs with
      | none =>
        rw [hone, hmore] at h
        cases h
      | some others =>
        rw [hone, hmore] at h
        obtain rfl := Option.some.inj h
        rw [List.length_append] at hfuel
        obtain ⟨hplain, hfits⟩ := hrs r List.mem_cons_self
        have hread := readReply_encode r hplain hfits hone pre (others ++ rest) fuel (by omega)
        have hothers := readMembers_encode rs (fun m hm => hrs m (List.mem_cons_of_mem _ hm)) hmore
          (pre ++ first) rest (members ++ [r.asText]) fuel (by omega)
        rw [List.append_assoc pre, List.length_append] at hothers
        rw [List.append_assoc, List.length_cons, readMembers, hread]
        dsimp only
        rw [hothers, asTexts, List.append_assoc, List.length_append, Nat.add_assoc]
        rfl

end

/-- **The round trip of one reply.** Whatever follows it, and whatever lies behind the write index. -/
def RedisReply.RoundTrips (r : RedisReply) : Prop :=
  ∃ bytes, r.encode = some bytes ∧ ∀ (b : Buffer) (rest : Bytes), b.Reads (bytes ++ rest) →
    replyDecode b = .done r.asText (b.advanceReadIndex (bytes.length : ℕ))

/-- **Any part of it.** More data is needed, and the read index stays. Of no bytes at all this is asked
when no line break lies behind the write index. -/
def RedisReply.Incremental (r : RedisReply) : Prop :=
  ∀ bytes p, r.encode = some bytes → ProperPrefix p bytes →
    ∀ b : Buffer, b.Reads p → SkipsInside b → replyDecode b = .more b

/-- Bytes that start with a type byte: nothing is skipped. -/
theorem replyDecode_start {b : Buffer} {c : UInt8} {cs : Bytes} (h : b.Reads (c :: cs))
    (hc : isLineBreak c = false) : replyDecode b = decodeReply ((c :: cs).length + 1) b := by
  have hzero : lineBreaks (c :: cs) = 0 := by
    rw [lineBreaks, List.takeWhile_cons, if_neg (by rw [hc]; decide)]
    rfl
  rw [replyDecode_skip h List.mem_cons_self hc, hzero, Nat.sub_zero, Nat.cast_zero,
    Buffer.advanceReadIndex_zero]

/-- Within the limits every reply makes the round trip. -/
theorem RedisReply.Fits.roundTrips {r : RedisReply} (hfits : r.Fits) (hplain : r.Plain)
    {bytes : Bytes} (h : r.encode = some bytes) : r.RoundTrips := by
  refine ⟨bytes, h, fun b rest hb => ?_⟩
  obtain ⟨c, cs, rfl, hc⟩ := encode_cons h
  have hread := readReply_encode r hplain hfits h [] rest ((c :: cs ++ rest).length + 1) (by
    rw [List.length_append]
    omega)
  rw [List.nil_append, List.length_nil, Nat.zero_add] at hread
  have hdec := decodeReply_reads hb ((c :: cs ++ rest).length + 1) 0 (Nat.zero_le _) (by
    rw [hread]
    nofun)
  rw [Nat.cast_zero, Buffer.advanceReadIndex_zero, hread] at hdec
  have hb' : b.Reads (c :: (cs ++ rest)) := hb
  rw [replyDecode_start hb' hc]
  exact hdec

mutual

/-- Every reply of the claim has an encoding. -/
theorem RedisReply.Plain.encodes : ∀ (r : RedisReply), r.Plain → ∃ bytes, r.encode = some bytes
  | .none, h => by cases h
  | .nil, _ => ⟨_, by rw [RedisReply.encode]⟩
  | .string str, _ => ⟨_, encode_string str⟩
  | .integer _, _ => ⟨_, by rw [RedisReply.encode]⟩
  | .error _, _ => ⟨_, by rw [RedisReply.encode]⟩
  | .status code str, _ => ⟨_, encode_status code str⟩
  | .array elements, h => by
    cases h with | array h =>
    obtain ⟨inner, hinner⟩ := encodeAll_some elements h
    exact ⟨_, by rw [RedisReply.encode, hinner]⟩

theorem encodeAll_some : ∀ (rs : List RedisReply), (∀ m ∈ rs, m.Plain) →
    ∃ bytes, RedisReply.encodeAll rs = some bytes
  | [], _ => ⟨[], rfl⟩
  | r :: rs, h => by
    obtain ⟨first, hfirst⟩ := RedisReply.Plain.encodes r (h r List.mem_cons_self)
    obtain ⟨others, hothers⟩ := encodeAll_some rs fun m hm => h m (List.mem_cons_of_mem _ hm)
    exact ⟨first ++ others, by rw [RedisReply.encodeAll, hfirst, hothers]⟩

end

/-! ### In parts -/

/-- Behind a line the decoder does not ask for more. -/
theorem takeLine_ne_more (fuel : ℕ) (b behind b' : Buffer) (line : FirstLine) :
    takeLine fuel b behind line ≠ .more b' := by
  cases line with
  | bad => rintro ⟨⟩
  | reply msg => rintro ⟨⟩
  | string len =>
    unfold takeLine takeString
    dsimp only
    split
    · rintro ⟨⟩
    split
    · rintro ⟨⟩
    split <;> rintro ⟨⟩
  | array len =>
    change readMembers (decodeReply fuel) len.toNat behind [] ≠ .more b'
    generalize ([] : List RedisReply) = members
    generalize len.toNat = n
    induction n generalizing behind members with
    | zero => rintro ⟨⟩
    | succ n ih =>
      rw [readMembers]
      split
      · rintro ⟨⟩
      · exact ih _ _
      · rintro ⟨⟩
      · rintro ⟨⟩
      · rintro ⟨⟩

/-- So a reply with more than a line is not decoded in parts: its first line is taken for the whole. -/
theorem not_incremental {r : RedisReply} {c : UInt8} {text t : Bytes} (hc : isLineBreak c = false)
    (htext : (13 : UInt8) ∉ text) (ht : t ≠ [])
    (h : r.encode = some (c :: (text ++ kCRLF) ++ t)) : ¬ r.Incremental := by
  intro hinc
  have hc13 : c ≠ 13 := fun h13 => by
    rw [h13] at hc
    cases hc
  have hpart : ProperPrefix (c :: (text ++ kCRLF)) (c :: (text ++ kCRLF) ++ t) :=
    ⟨List.prefix_append _ _, fun heq => ht (List.self_eq_append_right.mp heq)⟩
  have hreads : (Buffer.wrap (c :: (text ++ kCRLF)) 0 (c :: (text ++ kCRLF)).length).Reads
      (c :: (text ++ kCRLF)) := ⟨rfl, [], (List.append_nil _).symm⟩
  have hskips : SkipsInside (Buffer.wrap (c :: (text ++ kCRLF)) 0 (c :: (text ++ kCRLF)).length) := by
    unfold SkipsInside
    change ((c :: (text ++ kCRLF)).takeWhile isLineBreak).length ≤ _
    rw [List.takeWhile_cons, if_neg (by rw [hc]; decide)]
    exact Nat.zero_le _
  have hdec := hinc _ _ h hpart _ hreads hskips
  have hline := lineAt_line hc13 htext [] []
  rw [List.nil_append, List.append_nil, List.length_nil] at hline
  have hsome := decodeReply_some hreads (Nat.zero_le _) hline (c :: (text ++ kCRLF)).length
  rw [Nat.cast_zero, Buffer.advanceReadIndex_zero] at hsome
  rw [replyDecode_start hreads hc, hsome] at hdec
  exact takeLine_ne_more _ _ _ _ _ hdec

/-- The line of a one-line reply. -/
theorem RedisReply.OneLine.line {r : RedisReply} (h : r.OneLine) (hplain : r.Plain) :
    ∃ c text, r.encode = some (c :: (text ++ kCRLF)) ∧ isLineBreak c = false ∧ (13 : UInt8) ∉ text := by
  cases hplain with
  | nil => exact ⟨36, [45, 49], by rw [RedisReply.encode]; rfl, by decide, by decide⟩
  | string => exact h.elim
  | integer => exact ⟨58, _, by rw [RedisReply.encode], by decide, not_mem_decimalSigned _⟩
  | error hline => exact ⟨45, _, by rw [RedisReply.encode], by decide, cStr_line hline⟩
  | status hline => exact ⟨43, _, encode_status _ _, by decide, cStr_line (statusText_line hline)⟩
  | array hlines =>
    obtain rfl := h
    refine ⟨42, decimalInt 0, ?_, by decide, not_mem_decimalInt 0⟩
    rw [RedisReply.encode, RedisReply.encodeAll]
    dsimp only
    rw [List.append_nil]
    rfl

/-- A part of a one-line reply is left alone. -/
theorem replyDecode_part {c : UInt8} {text p : Bytes} (hc : isLineBreak c = false)
    (htext : (13 : UInt8) ∉ text) (hp : ProperPrefix p (c :: (text ++ kCRLF))) {b : Buffer}
    (hb : b.Reads p) (hskips : SkipsInside b) : replyDecode b = .more b := by
  rcases p with _ | ⟨d, ds⟩
  · rw [replyDecode_lineBreaks hb (by simp) hskips, List.length_nil, Nat.cast_zero,
      Buffer.advanceReadIndex_zero]
  · obtain ⟨rfl, -⟩ := List.cons_prefix_cons.mp hp.1
    have hc13 : d ≠ 13 := fun h13 => by
      rw [h13] at hc
      cases hc
    have hnone := decodeReply_none hb (Nat.zero_le _) (lineAt_part hc13 htext hp) (d :: ds).length
    rw [Nat.cast_zero, Buffer.advanceReadIndex_zero] at hnone
    rw [replyDecode_start hb hc, hnone]

theorem RedisReply.OneLine.incremental {r : RedisReply} (h : r.OneLine) (hplain : r.Plain) :
    r.Incremental := by
  intro bytes p henc hp b hb hskips
  obtain ⟨c, text, hline, hc, htext⟩ := h.line hplain
  obtain rfl := Option.some.inj (hline.symm.trans henc)
  exact replyDecode_part hc htext hp hb hskips

/-- A text with a NUL does not come back: it is written up to there. -/
theorem cStr_ne {str : Bytes} (h : (0 : UInt8) ∈ str) : cStr str ≠ str := by
  intro heq
  have hmem : (0 : UInt8) ∈ cStr str := by rwa [heq]
  exact absurd (List.mem_takeWhile_imp hmem) (by decide)

/-- A line comes out as it was written. -/
theorem RedisReply.RoundTrips.line {r msg : RedisReply} {c : UInt8} {text : Bytes} (h : r.RoundTrips)
    (hc : isLineBreak c = false) (htext : (13 : UInt8) ∉ text)
    (henc : r.encode = some (c :: (text ++ kCRLF))) (hmsg : firstLine c text = .reply msg) :
    r.asText = msg := by
  obtain ⟨bytes, henc', hdec⟩ := h
  obtain rfl := Option.some.inj (henc.symm.trans henc')
  have hc13 : c ≠ 13 := fun h13 => by
    rw [h13] at hc
    cases hc
  have hreads : (Buffer.wrap (c :: (text ++ kCRLF)) 0 (c :: (text ++ kCRLF)).length).Reads
      (c :: (text ++ kCRLF)) := ⟨rfl, [], (List.append_nil _).symm⟩
  have hread := readReply_line hc13 htext hmsg [] [] (c :: (text ++ kCRLF)).length
  rw [List.nil_append, List.append_nil, List.length_nil, Nat.zero_add] at hread
  have hreply := decodeReply_reads hreads ((c :: (text ++ kCRLF)).length + 1) 0 (Nat.zero_le _) (by
    rw [hread]
    nofun)
  rw [Nat.cast_zero, Buffer.advanceReadIndex_zero, hread] at hreply
  have hwhole := hdec _ [] (by rw [List.append_nil]; exact hreads)
  rw [replyDecode_start hreads hc, hreply] at hwhole
  exact (Taken.done.inj hwhole).1.symm

/-- **The claim for one reply.** It can be decoded as a whole and in any parts exactly when its
encoding is a single line that a C string holds. -/
theorem replyRoundTrip_iff {r : RedisReply} (h : r.Plain) :
    r.RoundTrips ∧ r.Incremental ↔ r.OneLine := by
  constructor
  · rintro ⟨hround, hinc⟩
    cases h with
    | nil => trivial
    | integer => trivial
    | @string str =>
      refine absurd hinc (not_incremental (c := 36) (by decide) (not_mem_decimalInt str.length)
        (t := str ++ kCRLF) (List.append_ne_nil_of_right_ne_nil _ (by decide)) ?_)
      rw [encode_string, List.append_assoc]
    | error hline =>
      intro hnul
      have htext := hround.line (c := 45) (by decide) (cStr_line hline) (by rw [RedisReply.encode]) rfl
      rw [asText] at htext
      exact cStr_ne hnul (RedisReply.error.inj htext).symm
    | status hline =>
      intro hnul
      have htext := hround.line (by decide) (cStr_line (statusText_line hline)) (encode_status _ _) rfl
      rw [asText] at htext
      exact cStr_ne hnul (RedisReply.status.inj htext).2.symm
    | @array elements hlines =>
      cases elements with
      | nil => rfl
      | cons m ms =>
        obtain ⟨first, hfirst⟩ := RedisReply.Plain.encodes m (hlines m List.mem_cons_self)
        obtain ⟨others, hothers⟩ := encodeAll_some ms fun m' hm' => hlines m' (List.mem_cons_of_mem _ hm')
        refine absurd hinc (not_incremental (c := 42) (by decide) (not_mem_decimalInt (m :: ms).length)
          (t := first ++ others) ?_ ?_)
        · exact List.append_ne_nil_of_left_ne_nil (List.length_pos_iff.mp (encode_pos hfirst)) _
        · rw [RedisReply.encode, RedisReply.encodeAll, hfirst, hothers]
  · intro hone
    obtain ⟨bytes, hbytes⟩ := RedisReply.Plain.encodes r h
    exact ⟨hone.fits.roundTrips h hbytes, hone.incremental h⟩

/-! ### Streams -/

theorem skipsInside_start {b : Buffer} {c : UInt8} {cs : Bytes} (h : b.Reads (c :: cs))
    (hc : isLineBreak c = false) : SkipsInside b := by
  obtain ⟨behind, hraw⟩ := h.mem
  unfold SkipsInside
  rw [hraw, List.cons_append, List.takeWhile_cons, if_neg (by rw [hc]; decide)]
  exact Nat.zero_le _

/-- A one-line reply is a piece of the stream. -/
theorem exists_piece {r : RedisReply} (h : r.OneLine) (hplain : r.Plain) {bytes : Bytes}
    (henc : r.encode = some bytes) :
    ∃ piece : Piece replyAnswer, piece.bytes = bytes ∧ piece.fires = some r.asText := by
  obtain ⟨c, cs, hcons, hc⟩ := encode_cons henc
  obtain ⟨bytes', henc', hdec⟩ := h.fits.roundTrips hplain henc
  obtain rfl := Option.some.inj (henc.symm.trans henc')
  refine ⟨⟨bytes, some r.asText, ?_, ?_, ?_, by nofun⟩, rfl, rfl⟩
  · rw [hcons]
    exact List.cons_ne_nil _ _
  · intro b rest hb
    rw [replyAnswer, hdec b rest hb]
    rfl
  · intro b p hb hne hp
    obtain ⟨d, ds, rfl⟩ := List.exists_cons_of_ne_nil hne
    have hd : isLineBreak d = false := by
      have hpre := hp.1
      rw [hcons] at hpre
      rw [(List.cons_prefix_cons.mp hpre).1]
      exact hc
    rw [replyAnswer, h.incremental hplain bytes _ henc hp b hb (skipsInside_start hb hd)]
    rfl

theorem exists_pieces {rs : List RedisReply} (h : ∀ r ∈ rs, r.Plain ∧ r.OneLine)
    {frames : List Bytes} (henc : rs.map RedisReply.encode = frames.map some) :
    ∃ ps : List (Piece replyAnswer), ps.map Piece.bytes = frames ∧ Piece.messages ps = rs.map asText := by
  induction rs generalizing frames with
  | nil =>
    obtain rfl := List.map_eq_nil_iff.mp henc.symm
    exact ⟨[], rfl, rfl⟩
  | cons r rs ih =>
    obtain ⟨bytes, frames, rfl, hbytes, hframes⟩ := List.map_eq_cons_iff.mp henc.symm
    obtain ⟨hplain, hone⟩ := h r List.mem_cons_self
    obtain ⟨piece, rfl, hfires⟩ := exists_piece hone hplain hbytes.symm
    obtain ⟨ps, rfl, hmsgs⟩ := ih (fun r' hr' => h r' (List.mem_cons_of_mem _ hr')) hframes.symm
    refine ⟨piece :: ps, rfl, ?_⟩
    rw [List.map_cons, ← hmsgs, Piece.messages, List.filterMap_cons, hfires]
    rfl

/-- The replies come out of the decoder one after the other, and nothing is left. -/
def Yields (rs : List RedisReply) (ds : List Delivery) : Prop :=
  ∃ fuel r, Receiver.init.receiveAll replyAnswer fuel ds = some r ∧ r.fired = rs.map asText ∧
    r.input.readableBytes = 0 ∧ r.cumulation.readableBytes = 0

/-- One-line replies do, in whatever reads they arrive, when less than 2^32 bytes of one wait for its
rest. -/
theorem yields_iff {rs : List RedisReply} (h : ∀ r ∈ rs, r.Plain ∧ r.OneLine) {frames : List Bytes}
    (henc : rs.map RedisReply.encode = frames.map some) {ds : List Delivery}
    (hds : delivered ds = frames.flatten) :
    Yields rs ds ↔ ∀ n, unfinished frames (delivered (ds.take n)).length < 2 ^ 32 := by
  obtain ⟨ps, rfl, hmsgs⟩ := exists_pieces h henc
  have hstream : delivered ds = Piece.stream ps := by
    rw [hds, Piece.stream, List.flatMap_def]
  rw [← Receiver.receiveAll_pieces hstream, hmsgs]
  rfl

end

end Comms
