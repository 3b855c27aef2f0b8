import Comms.Codec.CommandStream

/-!
# The command encoder

`RedisCommandEncoder::Encode` writes a command as a multibulk request. A command that has no raw
message is logged this way.

* `encode_frame` — within the limits of the decoder, what the encoder writes is a well-formed
  command with the same words;
* `EncodedAs` — the bytes are a complete encoding of a command;
* `EncodedAs.decode` — and then the decoder takes exactly that command off them.
-/

namespace Comms

/-- The words of a command: `m_cmd` and `m_args`. -/
structure Command where
  name : Bytes
  args : List Bytes
deriving DecidableEq, Repr

namespace Command

def words (c : Command) : List Bytes := c.name :: c.args

/-- The limits the decoder puts on a multibulk request. -/
def Fits (c : Command) : Prop :=
  (c.words.length : ℤ) ≤ maxBulk ∧ ∀ w ∈ c.words, (w.length : ℤ) ≤ maxBulk

end Command

/-- The words of a frame. -/
def RedisCommandFrame.command (frame : RedisCommandFrame) : Command := ⟨frame.cmd, frame.args⟩

/-! ### Decimal numbers -/

/-- The digits of `n`, the last one last; `n + 1` rounds are enough. -/
def decimalLoop : ℕ → ℕ → Bytes
  | 0, _ => []
  | fuel + 1, n =>
    (if n < 10 then [] else decimalLoop fuel (n / 10)) ++ [UInt8.ofNat (48 + n % 10)]

/-- `"%u"`. -/
def decimal (n : ℕ) : Bytes := decimalLoop (n + 1) n

/-- `"%d"` of a size: the argument is read as an `int`. -/
def decimalInt (n : ℕ) : Bytes :=
  let value := (n : ℤ).bmod (2 ^ 32)
  if value < 0 then 45 :: decimal value.natAbs else decimal value.natAbs

theorem digitsValue_concat (ds : Bytes) (d : UInt8) :
    digitsValue (ds ++ [d]) = 10 * digitsValue ds + (d.toNat - 48) := by
  simp [digitsValue]

theorem toNat_digit {k : ℕ} (h : k < 10) : (UInt8.ofNat (48 + k)).toNat = 48 + k := by
  rw [UInt8.toNat_ofNat']
  exact Nat.mod_eq_of_lt (by omega)

theorem digitsValue_decimalLoop {fuel n : ℕ} (h : n < fuel) :
    digitsValue (decimalLoop fuel n) = n := by
  induction fuel generalizing n with
  | zero => exact absurd h (Nat.not_lt_zero n)
  | succ fuel ih =>
    have hdigit := toNat_digit (Nat.mod_lt n (by decide : 0 < 10))
    rw [decimalLoop, digitsValue_concat, hdigit]
    split
    · next hlt =>
      simp [digitsValue, Nat.mod_eq_of_lt hlt]
    · rw [ih (by omega)]
      omega

theorem isdigit_decimalLoop {fuel n : ℕ} : ∀ d ∈ decimalLoop fuel n, isdigit d = true := by
  induction fuel generalizing n with
  | zero => simp [decimalLoop]
  | succ fuel ih =>
    intro d hd
    rw [decimalLoop, List.mem_append, List.mem_singleton] at hd
    rcases hd with hd | rfl
    · split at hd
      · cases hd
      · exact ih d hd
    · have hdigit := toNat_digit (Nat.mod_lt n (by decide : 0 < 10))
      have hlt := Nat.mod_lt n (by decide : 0 < 10)
      simp only [isdigit, Bool.and_eq_true, decide_eq_true_eq, UInt8.le_iff_toNat_le, hdigit]
      exact ⟨by simp, by simp; omega⟩

/-- A number as it is printed. -/
def Numeral.ofNat (n : ℕ) : Numeral where
  digits := decimal n
  ne := by
    unfold decimal decimalLoop
    exact List.append_ne_nil_of_right_ne_nil _ (List.cons_ne_nil _ _)
  isdigit := isdigit_decimalLoop

theorem Numeral.ofNat_value (n : ℕ) : (Numeral.ofNat n).value = n :=
  digitsValue_decimalLoop (Nat.lt_succ_self n)

theorem decimalInt_eq {n : ℕ} (h : (n : ℤ) ≤ maxBulk) : decimalInt n = (Numeral.ofNat n).digits := by
  have hmod : (n : ℤ).bmod (2 ^ 32) = n := by
    unfold maxBulk at h
    rw [Int.bmod_eq_of_le] <;> omega
  unfold decimalInt
  rw [hmod]
  dsimp only
  rw [if_neg (by omega), Int.natAbs_natCast]
  rfl

/-! ### The encoder -/

/-- `$<len>\r\n<word>\r\n`. -/
def encodeBulk (word : Bytes) : Bytes := 36 :: (decimalInt word.length ++ kCRLF) ++ word ++ kCRLF

/-- `RedisCommandEncoder::Encode`. -/
def encode (c : Command) : Bytes :=
  42 :: (decimalInt (c.args.length + 1) ++ kCRLF ++ (c.name :: c.args).flatMap encodeBulk)

/-- The bulk string of a word within the limit. -/
def Bulk.ofWord (word : Bytes) (h : (word.length : ℤ) ≤ maxBulk) : Bulk where
  len := Numeral.ofNat word.length
  body := word
  len_eq := Numeral.ofNat_value _
  small := h

theorem encodeBulk_eq {word : Bytes} (h : (word.length : ℤ) ≤ maxBulk) :
    encodeBulk word = (Bulk.ofWord word h).bytes := by
  unfold encodeBulk
  rw [decimalInt_eq h]
  rfl

/-- The bulk strings of a list of words within the limit. -/
theorem exists_bulks {words : List Bytes} (h : ∀ w ∈ words, (w.length : ℤ) ≤ maxBulk) :
    ∃ bulks : List Bulk, bulks.map Bulk.body = words ∧
      bulks.flatMap Bulk.bytes = words.flatMap encodeBulk := by
  induction words with
  | nil => exact ⟨[], rfl, rfl⟩
  | cons w ws ih =>
    obtain ⟨bulks, hbody, hbytes⟩ := ih fun w' hw' => h w' (List.mem_cons_of_mem w hw')
    have hw := h w List.mem_cons_self
    refine ⟨Bulk.ofWord w hw :: bulks, ?_, ?_⟩
    · rw [List.map_cons, hbody]
      rfl
    · rw [List.flatMap_cons, List.flatMap_cons, hbytes, encodeBulk_eq hw]

theorem pushWords_args (frame : RedisCommandFrame) (h : frame.cmdSeted = true)
    (words : List Bytes) :
    (frame.pushWords words).command = ⟨frame.cmd, frame.args ++ words⟩ := by
  induction words generalizing frame with
  | nil => simp [RedisCommandFrame.pushWords, RedisCommandFrame.command]
  | cons w ws ih =>
    have hpush : frame.pushWord w = { frame with args := frame.args ++ [w] } := if_pos h
    have hstep : frame.pushWords (w :: ws) = (frame.pushWord w).pushWords ws := rfl
    rw [hstep, ih _ (by rw [hpush]; exact h), hpush]
    simp

/-- The words of a request are the words of its frame. -/
theorem CommandFrame.command_eq {c : CommandFrame} {name : Bytes} {args : List Bytes}
    (h : c.words = name :: args) : c.frame.command = ⟨name, args⟩ := by
  unfold CommandFrame.frame
  rw [h]
  exact pushWords_args _ rfl args

/-- **The encoder.** A command within the limits is encoded as a well-formed request for it. -/
theorem encode_frame {c : Command} (h : c.Fits) :
    ∃ f : CommandFrame, f.bytes = encode c ∧ f.frame.command = c := by
  obtain ⟨hcount, hwords⟩ := h
  have hname := hwords c.name List.mem_cons_self
  obtain ⟨bulks, hbody, hbytes⟩ :=
    exists_bulks fun w hw => hwords w (List.mem_cons_of_mem c.name hw)
  have hlen : bulks.length = c.args.length := by
    have := congrArg List.length hbody
    rwa [List.length_map] at this
  have hcount' : ((c.args.length + 1 : ℕ) : ℤ) ≤ maxBulk := hcount
  refine ⟨.multibulk
    { count := Numeral.ofNat (c.args.length + 1)
      cmd := Bulk.ofWord c.name hname
      args := bulks
      count_eq := by rw [Numeral.ofNat_value, List.length_cons, hlen]
      small := by rwa [Numeral.ofNat_value] }, ?_, ?_⟩
  · unfold CommandFrame.bytes Multibulk.bytes encode
    dsimp only
    rw [List.flatMap_cons, List.flatMap_cons, hbytes, decimalInt_eq hcount', encodeBulk_eq hname]
  · apply CommandFrame.command_eq
    change c.name :: bulks.map Bulk.body = _
    rw [hbody]

/-! ### Complete encodings -/

/-- **Complete encodings.** The bytes are a well-formed command with the words of `c`, or what the
encoder writes for `c`. -/
inductive EncodedAs (c : Command) : Bytes → Prop
  | frame (f : CommandFrame) (h : f.frame.command = c) : EncodedAs c f.bytes
  | encoded : EncodedAs c (encode c)

/-- The decoder reads a complete encoding as the command, to the last byte. -/
theorem EncodedAs.decode {c : Command} {bytes : Bytes} (h : EncodedAs c bytes) (hfits : c.Fits) :
    ∃ frame, frame.command = c ∧
      Comms.decode (.wrap bytes 0 bytes.length) =
        .frame frame ((Buffer.wrap bytes 0 bytes.length).advanceReadIndex bytes.length) := by
  have hframe : ∃ f : CommandFrame, f.bytes = bytes ∧ f.frame.command = c := by
    cases h with
    | frame f hf => exact ⟨f, rfl, hf⟩
    | encoded => exact encode_frame hfits
  obtain ⟨f, rfl, rfl⟩ := hframe
  have hreads := Buffer.reads_wrap (f.bytes ++ []) []
  rw [List.append_nil, List.append_nil] at hreads
  have hreads' : (Buffer.wrap f.bytes 0 f.bytes.length).Reads (f.bytes ++ []) := by
    rwa [List.append_nil]
  exact ⟨{ f.frame with rawMsg := ⟨0, f.bytes.length⟩ }, rfl, decode_frame f hreads'⟩

end Comms
