import Comms.Codec.RoundTrip
import Comms.Rdb.Save

/-!
# The bytes of a save

What the functions `RedisWrite…` write where no call of `Write` fails, and what they return.

* `Writes` — a program that writes some bytes, and its result;
* `writes_redisWriteLen`, `writes_redisWriteRawString`, `writes_redisWriteDouble` — the bytes are those of
  the length, the string, and the score;
* `Long` — the strings whose size is no `int`;
* `writes_checkAll` — calls in `DUMP_CHECK_WRITE`, of which only the last may be negative.
-/

namespace Comms
namespace Rdb

/-- No call of `Write` fails, and then `p` writes `bs` and gives `a`. -/
def Writes {α : Type} (p : Saving α) (a : α) (bs : Bytes) : Prop :=
  ∀ w, ∃ rets, p.run (perform fun _ => .ok) w = (a, ⟨w.bytes ++ bs, crc64 w.cksm bs, rets⟩)

section Programs

variable {α β : Type} {p : Saving α} {f : α → Saving β} {a : α} {b : β} {bs cs : Bytes}

theorem writes_pure (a : α) : Writes (pure a) a [] := fun w => ⟨w.rets, by
  rw [List.append_nil]
  rfl⟩

theorem writes_write (buf : Bytes) : Writes (write buf) 0 buf := fun w => ⟨w.rets ++ [0], rfl⟩

/-- One program after the other. -/
theorem Writes.bind (hp : Writes p a bs) (hf : Writes (f a) b cs) : Writes (p >>= f) b (bs ++ cs) := by
  intro w
  obtain ⟨rets, hw⟩ := hp w
  obtain ⟨rets', hw'⟩ := hf ⟨w.bytes ++ bs, crc64 w.cksm bs, rets⟩
  refine ⟨rets', ?_⟩
  rw [Prog.run_bind, hw, hw', ← crc64_append, List.append_assoc]

/-- The second program writes nothing. -/
theorem Writes.bindNil (hp : Writes p a bs) (hf : Writes (f a) b []) : Writes (p >>= f) b bs := by
  have h := hp.bind hf
  rw [List.append_nil] at h
  exact h

end Programs

/-! ### Lengths -/

theorem LenBytes.length {n : ℕ} {bs : Bytes} (h : LenBytes n bs) : 1 ≤ bs.length ∧ bs.length ≤ 5 := by
  cases h with
  | six => simp
  | fourteen => simp
  | thirtyTwo => simp [bigEndian]

/-- The first of the two bytes of fourteen bits. -/
theorem highByte {n : ℕ} (h : n < 16384) :
    (UInt32.ofNat n >>> 8).toUInt8 ||| 0x40 = UInt8.ofNat (64 + n / 256) := by
  have hbyte : (UInt32.ofNat n >>> 8).toUInt8 = UInt8.ofNat (n / 256) := by
    apply UInt8.toNat_inj.mp
    rw [UInt32.toNat_toUInt8, UInt32.toNat_shiftRight, UInt32.toNat_ofNat', UInt8.toNat_ofNat',
      Nat.shiftRight_eq_div_pow]
    change n % 2 ^ 32 / 2 ^ 8 % 2 ^ 8 = n / 256 % 2 ^ 8
    omega
  have hor : ∀ k < 64, UInt8.ofNat k ||| 0x40 = UInt8.ofNat (64 + k) := by decide +kernel
  rw [hbyte]
  exact hor (n / 256) (by omega)

/-- **A length.** -/
theorem writes_redisWriteLen {n : ℕ} (h : n < 2 ^ 32 - 1) :
    ∃ bs, LenBytes n bs ∧ Writes (redisWriteLen (UInt32.ofNat n)) (Int32.ofNat bs.length) bs := by
  have hlt (k : UInt32) : UInt32.ofNat n < k ↔ n < k.toNat := by
    rw [UInt32.lt_iff_toNat_lt, UInt32.toNat_ofNat', Nat.mod_eq_of_lt (by omega)]
  have hbyte : (UInt32.ofNat n).toUInt8 = UInt8.ofNat n := by
    apply UInt8.toNat_inj.mp
    rw [UInt32.toNat_toUInt8, UInt32.toNat_ofNat', UInt8.toNat_ofNat']
    omega
  unfold redisWriteLen
  by_cases hsix : n < 64
  · rw [if_pos ((hlt 64).mpr hsix), hbyte]
    exact ⟨_, .six hsix, (writes_write _).bindNil (writes_pure _)⟩
  rw [if_neg (mt (hlt 64).mp hsix)]
  by_cases hfourteen : n < 16384
  · rw [if_pos ((hlt 16384).mpr hfourteen), highByte hfourteen, hbyte]
    exact ⟨_, .fourteen hfourteen, (writes_write _).bindNil (writes_pure _)⟩
  · rw [if_neg (mt (hlt 16384).mp hfourteen), UInt32.toNat_ofNat', Nat.mod_eq_of_lt (by omega)]
    refine ⟨_, .thirtyTwo h (show 0 < 64 by decide), ?_⟩
    exact (writes_write [0x80]).bind ((writes_write (bigEndian n)).bindNil (writes_pure _))

/-! ### Numbers -/

theorem length_littleEndian (size n : ℕ) : (littleEndian size n).length = size := by
  induction size generalizing n with
  | zero => rfl
  | succ size ih => rw [littleEndian, List.length_cons, ih]

theorem ofLittleEndian_littleEndian (size n : ℕ) :
    ofLittleEndian (littleEndian size n) = n % 256 ^ size := by
  induction size generalizing n with
  | zero => rw [Nat.pow_zero, Nat.mod_one]; rfl
  | succ size ih =>
    rw [littleEndian, ofLittleEndian_cons, ih, UInt8.toNat_ofNat',
      show 256 ^ (size + 1) = 256 * 256 ^ size from Nat.pow_succ']
    exact Nat.mod_mul.symm

theorem ofLittleEndian_of_lt {size n : ℕ} (h : n < 256 ^ size) :
    ofLittleEndian (littleEndian size n) = n := by
  rw [ofLittleEndian_littleEndian, Nat.mod_eq_of_lt h]

/-- A number in front of what is no digit is read to its end. -/
theorem strtol_decimalSigned {v : ℤ} (hmin : -2 ^ 63 ≤ v) (hmax : v < 2 ^ 63) {tail : Bytes}
    (htail : tail.takeWhile isdigit = []) :
    strtol (decimalSigned v ++ tail) = (v, (decimalSigned v).length) := by
  have hvalue := (Numeral.ofNat v.natAbs).isdigit
  have hnat : (digitsValue (Numeral.ofNat v.natAbs).digits : ℤ) = v.natAbs :=
    congrArg Nat.cast (Numeral.ofNat_value v.natAbs)
  unfold decimalSigned
  split
  next hneg =>
    refine (strtol_neg (Numeral.ofNat v.natAbs).ne hvalue).trans ?_
    rw [htail, List.append_nil, List.length_nil, Nat.add_zero, hnat, List.length_cons, Nat.add_comm 1,
      Prod.mk.injEq]
    exact ⟨by omega, rfl⟩
  next hpos =>
    refine (strtol_eq (Numeral.ofNat v.natAbs).ne hvalue).trans ?_
    rw [htail, List.append_nil, List.length_nil, Nat.add_zero, hnat, Prod.mk.injEq]
    exact ⟨by omega, rfl⟩

section Integers

variable {lzf : Lzf} {v : ℤ}

theorem stringBytes_int8 (hmin : -2 ^ 7 ≤ v) (hmax : v < 2 ^ 7) :
    StringBytes lzf (decimalSigned v) [0xC0, (Int8.ofInt v).toUInt8] := by
  have hbytes := @StringBytes.int8 lzf (Int8.ofInt v).toUInt8
  rw [ofLittleEndian_cons, show ofLittleEndian [] = 0 from rfl, Nat.mul_zero, Nat.add_zero,
    ← UInt8.toInt8_ofNat', UInt8.ofNat_toNat, Int8.toInt8_toUInt8, Int8.toInt_ofInt_of_le hmin hmax] at hbytes
  exact hbytes

theorem stringBytes_int16 (hmin : -2 ^ 15 ≤ v) (hmax : v < 2 ^ 15) :
    StringBytes lzf (decimalSigned v) (0xC1 :: littleEndian 2 (Int16.ofInt v).toUInt16.toNat) := by
  have hlt : (Int16.ofInt v).toUInt16.toNat < 256 ^ 2 := (Int16.ofInt v).toUInt16.toNat_lt
  have hbytes : StringBytes lzf
      (decimalSigned (Int16.ofNat (ofLittleEndian (littleEndian 2 (Int16.ofInt v).toUInt16.toNat))).toInt)
      (0xC1 :: littleEndian 2 (Int16.ofInt v).toUInt16.toNat) := .int16 _ _
  rw [ofLittleEndian_of_lt hlt, ← UInt16.toInt16_ofNat', UInt16.ofNat_toNat, Int16.toInt16_toUInt16,
    Int16.toInt_ofInt_of_le hmin hmax] at hbytes
  exact hbytes

theorem stringBytes_int32 (hmin : -2 ^ 31 ≤ v) (hmax : v < 2 ^ 31) :
    StringBytes lzf (decimalSigned v) (0xC2 :: littleEndian 4 (Int32.ofInt v).toUInt32.toNat) := by
  have hlt : (Int32.ofInt v).toUInt32.toNat < 256 ^ 4 := (Int32.ofInt v).toUInt32.toNat_lt
  have hbytes : StringBytes lzf
      (decimalSigned (Int32.ofNat (ofLittleEndian (littleEndian 4 (Int32.ofInt v).toUInt32.toNat))).toInt)
      (0xC2 :: littleEndian 4 (Int32.ofInt v).toUInt32.toNat) := .int32 _ _ _ _
  rw [ofLittleEndian_of_lt hlt, ← UInt32.toInt32_ofNat', UInt32.ofNat_toNat, Int32.toInt32_toUInt32,
    Int32.toInt_ofInt_of_le hmin hmax] at hbytes
  exact hbytes

/-- Bytes of an integer are a string that is stored as a number. -/
theorem stringBytes_encodeInteger (h : encodeInteger v ≠ []) :
    StringBytes lzf (decimalSigned v) (encodeInteger v) := by
  unfold encodeInteger at h ⊢
  split
  next hrange => exact stringBytes_int8 hrange.1 (by omega)
  next hnot =>
    rw [if_neg hnot] at h
    split
    next hrange => exact stringBytes_int16 hrange.1 (by omega)
    next hnot' =>
      rw [if_neg hnot'] at h
      split
      next hrange => exact stringBytes_int32 hrange.1 (by omega)
      next hnot'' => exact absurd (if_neg hnot'') h

end Integers

theorem encodeInteger_length (v : ℤ) : (encodeInteger v).length ≤ 5 := by
  unfold encodeInteger
  split
  · simp
  split
  · rw [List.length_cons, length_littleEndian]
    decide
  split
  · rw [List.length_cons, length_littleEndian]
  · simp

theorem stringBytes_tryIntegerEncoding {lzf : Lzf} {s : Bytes} (h : tryIntegerEncoding s ≠ []) :
    StringBytes lzf s (tryIntegerEncoding s) ∧ (tryIntegerEncoding s).length ≤ 5 := by
  unfold tryIntegerEncoding at h ⊢
  dsimp only at h ⊢
  split at h
  · exact absurd rfl h
  next hend =>
    rw [if_neg hend]
    split at h
    · exact absurd rfl h
    next hself =>
      rw [if_neg hself]
      have hbytes := @stringBytes_encodeInteger lzf _ h
      rw [not_not.mp hself] at hbytes
      exact ⟨hbytes, encodeInteger_length _⟩

/-! ### Strings -/

/-- What `lzf_compress` has made, `lzf_decompress` makes the string of again, and it fits the output. -/
def Lzf.Lawful (lzf : Lzf) : Prop :=
  ∀ s n out, lzf.compress s n = some out → out.length ≤ n ∧ lzf.decompress out s.length = some s

/-- A string that is not compressed, and whose size with that of its length is no `int`, but a negative
one. -/
def Long (lzf : Lzf) (s : Bytes) : Prop :=
  lzf.compress s (s.length - 4) = none ∧ 2 ^ 31 ≤ s.length + 5 ∧ s.length + 5 < 2 ^ 32

theorem int32_neg_iff (n : ℕ) : Int32.ofNat n < 0 ↔ 2 ^ 31 ≤ n % 2 ^ 32 := by
  rw [Int32.lt_iff_toInt_lt, Int32.toInt_ofNat', Int32.toInt_zero]
  simp only [Int.bmod, Int32.size]
  split <;> omega

theorem int32_pos {n : ℕ} (hpos : 0 < n) (h : n < 2 ^ 31) : 0 < Int32.ofNat n := by
  rw [Int32.lt_iff_toInt_lt, Int32.toInt_ofNat_of_lt h, Int32.toInt_zero]
  exact Int.natCast_pos.mpr hpos

/-- What `RedisWriteLen` returns is no error. -/
theorem LenBytes.ret_pos {n : ℕ} {bs : Bytes} (h : LenBytes n bs) : 0 < Int32.ofNat bs.length := by
  obtain ⟨hmin, hmax⟩ := h.length
  exact int32_pos hmin (by omega)

theorem LenBytes.ret_ne {n : ℕ} {bs : Bytes} (h : LenBytes n bs) : Int32.ofNat bs.length ≠ -1 := by
  intro heq
  have hpos := h.ret_pos
  rw [heq] at hpos
  exact absurd hpos (by decide)

theorem LenBytes.length_of_ge {n : ℕ} {bs : Bytes} (h : LenBytes n bs) (hn : 16384 ≤ n) : bs.length = 5 := by
  cases h with
  | six h => omega
  | fourteen h => omega
  | thirtyTwo => rfl

section Strings

variable {formats : Formats} {s : Bytes}

/-- A length and the string. -/
theorem writes_writeVerbatim (h : s.length < 2 ^ 32 - 1) :
    ∃ ret bs, StringBytes formats.lzf s bs ∧ Writes (writeVerbatim s) ret bs ∧
      (ret < 0 → 2 ^ 31 ≤ s.length + 5 ∧ s.length + 5 < 2 ^ 32) := by
  obtain ⟨len, hlen, hwrites⟩ := writes_redisWriteLen h
  by_cases hpos : 0 < s.length
  · refine ⟨Int32.ofNat len.length + Int32.ofNat s.length, len ++ s, .raw hlen, hwrites.bind ?_, fun hneg => ?_⟩
    · rw [if_neg hlen.ret_ne, if_pos hpos]
      exact (writes_write s).bindNil (writes_pure _)
    · rw [← Int32.ofNat_add, int32_neg_iff] at hneg
      obtain ⟨-, hmax⟩ := hlen.length
      have hfive := hlen.length_of_ge (by omega)
      omega
  · refine ⟨Int32.ofNat len.length, len ++ s, .raw hlen, ?_, fun hneg => ?_⟩
    · have hnil : s = [] := List.length_eq_zero_iff.mp (by omega)
      subst hnil
      refine hwrites.bind ?_
      rw [if_neg hlen.ret_ne, if_neg hpos]
      exact writes_pure _
    · exact absurd (Int32.lt_trans hneg hlen.ret_pos) (Int32.lt_irrefl)

/-- A compressed string, if it can be compressed. -/
theorem writes_redisWriteLzfStringObject (hlzf : formats.lzf.Lawful) (h : s.length < 2 ^ 32 - 1)
    (hlong : 20 < s.length) :
    (formats.lzf.compress s (s.length - 4) = none ∧ Writes (redisWriteLzfStringObject formats s) 0 []) ∨
      ∃ ret bs, StringBytes formats.lzf s bs ∧ Writes (redisWriteLzfStringObject formats s) ret bs ∧ 0 < ret := by
  unfold redisWriteLzfStringObject
  rw [if_neg (by omega)]
  cases hout : formats.lzf.compress s (s.length - 4) with
  | none => exact .inl ⟨rfl, writes_pure _⟩
  | some out =>
    obtain ⟨hle, hback⟩ := hlzf s _ out hout
    obtain ⟨clen, hclen, hwriteClen⟩ := @writes_redisWriteLen out.length (by omega)
    obtain ⟨len, hlen, hwriteLen⟩ := writes_redisWriteLen h
    refine .inr ⟨0 + Int32.ofNat clen.length + Int32.ofNat len.length + 0, _, .compressed hclen hlen hback, ?_, ?_⟩
    · change Writes _ _ ([0xC3] ++ (clen ++ (len ++ out)))
      refine (writes_write [0xC3]).bind ?_
      rw [if_neg (by decide)]
      refine hwriteClen.bind ?_
      rw [if_neg hclen.ret_ne]
      refine hwriteLen.bind ?_
      rw [if_neg hlen.ret_ne]
      exact (writes_write out).bindNil (writes_pure _)
    · obtain ⟨hmin, hmax⟩ := hclen.length
      obtain ⟨hmin', hmax'⟩ := hlen.length
      rw [Int32.zero_add, Int32.add_zero, ← Int32.ofNat_add]
      exact int32_pos (by omega) (by omega)

/-- **A string.** -/
theorem writes_redisWriteRawString (hlzf : formats.lzf.Lawful) (h : s.length < 2 ^ 32 - 1) :
    ∃ ret bs, StringBytes formats.lzf s bs ∧ Writes (redisWriteRawString formats s) ret bs ∧
      (ret < 0 → Long formats.lzf s) := by
  unfold redisWriteRawString
  dsimp only
  by_cases hint : (if 0 < s.length ∧ s.length ≤ 11 then tryIntegerEncoding s else []) ≠ []
  · have hshort : 0 < s.length ∧ s.length ≤ 11 := by
      by_contra hnot
      exact hint (if_neg hnot)
    rw [if_pos hint]
    rw [if_pos hshort] at hint ⊢
    obtain ⟨hbytes, hlen⟩ := @stringBytes_tryIntegerEncoding formats.lzf s hint
    refine ⟨_, _, hbytes, (writes_write _).bindNil (writes_pure _), fun hneg => ?_⟩
    rw [int32_neg_iff] at hneg
    omega
  rw [if_neg hint]
  by_cases hlong : 20 < s.length
  · rw [if_pos hlong]
    rcases writes_redisWriteLzfStringObject hlzf h hlong with ⟨hnone, hzero⟩ | ⟨ret, bs, hbytes, hwrites, hpos⟩
    · obtain ⟨ret, bs, hbytes, hwrites, hneg⟩ := @writes_writeVerbatim formats s h
      exact ⟨ret, bs, hbytes, hzero.bind hwrites, fun h => ⟨hnone, hneg h⟩⟩
    · refine ⟨ret, bs, hbytes, hwrites.bindNil ?_, fun h => ?_⟩
      · have hne : ret ≠ -1 := by
          rintro rfl
          exact absurd hpos (by decide)
        rw [if_neg hne, if_pos hpos]
        exact writes_pure ret
      · exact absurd (Int32.lt_trans h hpos) Int32.lt_irrefl
  · obtain ⟨ret, bs, hbytes, hwrites, hneg⟩ := @writes_writeVerbatim formats s h
    rw [if_neg hlong]
    exact ⟨ret, bs, hbytes, hwrites, fun h => absurd (hneg h).1 (by omega)⟩

end Strings

/-! ### Scores -/

/-- `"%.17g"` of a whole number of at most 53 bits is the number. -/
def Libc.PrintsWhole (libc : Libc) : Prop := ∀ v : ℤ, v.natAbs ≤ 2 ^ 53 → libc.print v = decimalSigned v

theorem decimalSigned_length {v : ℤ} (h : v.natAbs < 10 ^ 16) : (decimalSigned v).length ≤ 17 := by
  have hdigits : (decimal v.natAbs).length ≤ 16 := decimalLoop_length (k := 15) h
  unfold decimalSigned
  split
  · rw [List.length_cons]
    omega
  · omega

theorem decimalSigned_ne_zero (v : ℤ) : ∀ c ∈ decimalSigned v, c ≠ 0 := by
  have hdigits : ∀ c ∈ decimal v.natAbs, c ≠ 0 := by
    rintro c hc rfl
    exact absurd (isdigit_decimalLoop _ hc) (by decide)
  unfold decimalSigned
  split
  · exact List.forall_mem_cons.mpr ⟨by decide, hdigits⟩
  · exact hdigits

/-- **A score** that is a whole number of less than 52 bits. -/
theorem writes_redisWriteDouble {formats : Formats} (hprint : formats.libc.PrintsWhole) {v : ℤ}
    (h : v.natAbs < 2 ^ 52) :
    ∃ bs, DoubleBytes formats.libc (.fin v) bs ∧ Writes (redisWriteDouble formats (.fin v)) 0 bs := by
  have htext : doubleText formats (.fin v) = UInt8.ofNat (decimalSigned v).length :: decimalSigned v := by
    unfold doubleText
    dsimp only
    rw [hprint v (by omega), Rat.num_intCast, ite_self]
  have hscan : formats.libc.scan ((decimalSigned v).takeWhile (· ≠ 0)) = .fin v := by
    have hall : (decimalSigned v).takeWhile (· ≠ 0) = decimalSigned v :=
      List.takeWhile_eq_self_iff.mpr fun c hc => decide_eq_true (decimalSigned_ne_zero v c hc)
    rw [hall, Libc.scan, wholeNumber, strtol_decimalSigned (by omega) (by omega) rfl, if_pos ⟨rfl, by omega⟩]
  have hbytes := @DoubleBytes.text formats.libc (decimalSigned v)
    (Nat.lt_of_le_of_lt (decimalSigned_length (by omega)) (by decide))
  rw [hscan] at hbytes
  refine ⟨_, hbytes, ?_⟩
  unfold redisWriteDouble
  rw [htext]
  exact writes_write _

/-! ### Calls in a row -/

/-- A call with what it returns and writes. -/
abbrev Written (call : Saving Int32) (p : Int32 × Bytes) : Prop := Writes call p.1 p.2

/-- **`DUMP_CHECK_WRITE`.** All calls are made if none but the last is negative. -/
theorem writes_checkAll {calls : List (Saving Int32)} {ps : List (Int32 × Bytes)}
    (h : List.Forall₂ Written calls ps) (hpos : ∀ p ∈ ps.dropLast, ¬p.1 < 0) (err : Int32) :
    Writes (checkAll calls err) ((ps.map Prod.fst).getLastD err) (ps.flatMap Prod.snd) := by
  induction h generalizing err with
  | nil => exact writes_pure err
  | @cons call p calls ps hcall hrest ih =>
    cases ps with
    | nil =>
      cases hrest
      rw [List.flatMap_cons]
      refine Writes.bind hcall ?_
      by_cases hneg : p.1 < 0
      · rw [if_pos hneg]
        exact writes_pure p.1
      · rw [if_neg hneg]
        exact writes_pure p.1
    | cons q ps =>
      rw [List.dropLast_cons_cons, List.forall_mem_cons] at hpos
      rw [List.flatMap_cons, List.map_cons, List.getLastD_cons]
      refine Writes.bind hcall ?_
      rw [if_neg hpos.1]
      exact ih hpos.2 p.1

end Rdb
end Comms
