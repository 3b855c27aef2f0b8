import Comms.Rdb.Written

/-!
# Ziplists

`ziplistIndex`, `ziplistNext` and `ziplistGet` of `common/redis/ziplist.c`, as a load calls them: from
the first entry to the end. A read outside of the string, and an `assert` that fails, give `none`.

* `zipRawEntryLength`, `zipLoadInteger`, `ziplistGet`, `ziplistNext` — from the source;
* `ziplistLoop` — the loops of `RedisLoadListZipList` and the others;
* `ValueBytes`, `EntryBytes`, `ZiplistBytes` — what a ziplist consists of, in all its encodings;
* `ziplistGet_entry`, `zipRawEntryLength_entry` — an entry, wherever it is;
* `ziplistEntries_eq` — the loop gets the entries of a ziplist, in order, and reads nothing else.
-/

namespace Comms
namespace Rdb

/-- The `n` bytes at `p`. -/
def bytesAt (zl : Bytes) (p n : ℕ) : Option Bytes :=
  if p + n ≤ zl.length then some ((zl.drop p).take n) else none

/-- `ZIP_DECODE_PREVLENSIZE`. -/
def zipPrevLenSize (zl : Bytes) (p : ℕ) : Option ℕ :=
  (zl[p]?).map fun b => if b < 254 then 1 else 5

/-- `zipIntSize`. -/
def zipIntSize (encoding : UInt8) : ℕ :=
  if encoding = 0xFE then 1
  else if encoding = 0xC0 then 2
  else if encoding = 0xF0 then 3
  else if encoding = 0xD0 then 4
  else if encoding = 0xE0 then 8
  else 0

/-- `ZIP_DECODE_LENGTH`: `encoding`, `lensize` and `len`. -/
def zipDecodeLength (zl : Bytes) (p : ℕ) : Option (UInt8 × ℕ × ℕ) := do
  let b ← zl[p]?
  let encoding := if b < 0xC0 then b &&& 0xC0 else b
  if encoding < 0xC0 then
    if encoding = 0x00 then return (encoding, 1, (b &&& 0x3F).toNat)
    else if encoding = 0x40 then
      let b₁ ← zl[p + 1]?
      return (encoding, 2, (b &&& 0x3F).toNat <<< 8 ||| b₁.toNat)
    else if encoding = 0x80 then
      let len ← bytesAt zl (p + 1) 4
      return (encoding, 5, (ntohl len).toNat)
    else none
  else return (encoding, 1, zipIntSize encoding)

/-- `zipRawEntryLength`, an `unsigned int`. -/
def zipRawEntryLength (zl : Bytes) (p : ℕ) : Option ℕ := do
  let prevlensize ← zipPrevLenSize zl p
  let (_, lensize, len) ← zipDecodeLength zl (p + prevlensize)
  return (prevlensize + lensize + len) % 2 ^ 32

/-- `zipLoadInteger`. -/
def zipLoadInteger (zl : Bytes) (p : ℕ) (encoding : UInt8) : Option ℤ :=
  if encoding = 0xFE then (bytesAt zl p 1).map fun bs => (Int8.ofNat (ofLittleEndian bs)).toInt
  else if encoding = 0xC0 then (bytesAt zl p 2).map fun bs => (Int16.ofNat (ofLittleEndian bs)).toInt
  else if encoding = 0xD0 then (bytesAt zl p 4).map fun bs => (Int32.ofNat (ofLittleEndian bs)).toInt
  else if encoding = 0xF0 then
    -- three bytes behind a zero, and back by a shift that keeps the sign
    (bytesAt zl p 3).map fun bs => (Int32.ofNat (ofLittleEndian (0 :: bs)) >>> 8).toInt
  else if encoding = 0xE0 then (bytesAt zl p 8).map fun bs => (Int64.ofNat (ofLittleEndian bs)).toInt
  else if 0xF1 ≤ encoding ∧ encoding ≤ 0xFD then some ((encoding &&& 0x0F).toNat - 1)
  else none

/-- `zipEntry`: `headersize`, `encoding` and `len`. It reads `prevrawlen` as well. -/
def zipEntry (zl : Bytes) (p : ℕ) : Option (ℕ × UInt8 × ℕ) := do
  let prevrawlensize ← zipPrevLenSize zl p
  let _ ← if prevrawlensize = 1 then bytesAt zl p 1 else bytesAt zl (p + 1) 4
  let (encoding, lensize, len) ← zipDecodeLength zl (p + prevrawlensize)
  return (prevrawlensize + lensize, encoding, len)

/-- `ziplistGet`; `none` inside for its `0`. -/
def ziplistGet (zl : Bytes) (p : ℕ) : Option (Option (Bytes ⊕ ℤ)) := do
  if (← zl[p]?) = 255 then return none
  let (headersize, encoding, len) ← zipEntry zl p
  if encoding &&& 0xC0 < 0xC0 then return some (.inl (← bytesAt zl (p + headersize) len))
  else return some (.inr (← zipLoadInteger zl (p + headersize) encoding))

/-- `ziplistIndex(zl, 0)`. -/
def ziplistIndex (zl : Bytes) : Option (Option ℕ) :=
  (zl[10]?).map fun b => if b = 255 then none else some 10

def ziplistNext (zl : Bytes) (p : ℕ) : Option (Option ℕ) := do
  if (← zl[p]?) = 255 then return none
  let p := p + (← zipRawEntryLength zl p)
  if (← zl[p]?) = 255 then return none
  return some p

/-- `while (iter != NULL)`: what the entries are, one after the other. -/
def ziplistLoop (zl : Bytes) : ℕ → Option ℕ → Option (List (Bytes ⊕ ℤ))
  | _, none => some []
  | 0, some _ => none
  | fuel + 1, some iter => do
    let entry ← ziplistGet zl iter
    let entries ← ziplistLoop zl fuel (← ziplistNext zl iter)
    return entry.toList ++ entries

/-- Each round goes on by a byte at least, as long as no length comes near `2 ^ 32`. -/
def ziplistEntries (zl : Bytes) : Option (List (Bytes ⊕ ℤ)) :=
  (ziplistIndex zl).bind (ziplistLoop zl (zl.length + 1))

/-! ### What a ziplist consists of -/

/-- An integer of `k` bytes, lowest byte first. -/
def integerBytes (k : ℕ) (v : ℤ) : Bytes := littleEndian k (v % 2 ^ (8 * k)).toNat

/-- A value behind the length of the entry before it. -/
inductive ValueBytes : Bytes ⊕ ℤ → Bytes → Prop
  | str6 {s : Bytes} (h : s.length < 64) : ValueBytes (.inl s) (UInt8.ofNat s.length :: s)
  | str14 {s : Bytes} (h : s.length < 16384) :
      ValueBytes (.inl s) (UInt8.ofNat (64 + s.length / 256) :: UInt8.ofNat s.length :: s)
  | str32 {s : Bytes} (h : s.length < 2 ^ 32 - 10) {low : ℕ} (hlow : low < 64) :
      ValueBytes (.inl s) (UInt8.ofNat (128 + low) :: (bigEndian s.length ++ s))
  | immediate {v : ℕ} (h : v ≤ 12) : ValueBytes (.inr v) [UInt8.ofNat (0xF1 + v)]
  | int8 {v : ℤ} (hmin : -2 ^ 7 ≤ v) (hmax : v < 2 ^ 7) : ValueBytes (.inr v) (0xFE :: integerBytes 1 v)
  | int16 {v : ℤ} (hmin : -2 ^ 15 ≤ v) (hmax : v < 2 ^ 15) :
      ValueBytes (.inr v) (0xC0 :: integerBytes 2 v)
  | int24 {v : ℤ} (hmin : -2 ^ 23 ≤ v) (hmax : v < 2 ^ 23) :
      ValueBytes (.inr v) (0xF0 :: integerBytes 3 v)
  | int32 {v : ℤ} (hmin : -2 ^ 31 ≤ v) (hmax : v < 2 ^ 31) :
      ValueBytes (.inr v) (0xD0 :: integerBytes 4 v)
  | int64 {v : ℤ} (hmin : -2 ^ 63 ≤ v) (hmax : v < 2 ^ 63) :
      ValueBytes (.inr v) (0xE0 :: integerBytes 8 v)

/-- The length of the entry before: in a byte, or in four behind a 254. -/
inductive PrevBytes : Bytes → Prop
  | one {b : UInt8} (h : b < 254) : PrevBytes [b]
  | five {bs : Bytes} (h : bs.length = 4) : PrevBytes (254 :: bs)

def EntryBytes (entry : Bytes ⊕ ℤ) (bs : Bytes) : Prop :=
  ∃ prev value, bs = prev ++ value ∧ PrevBytes prev ∧ ValueBytes entry value

/-- **A ziplist**: `zlbytes`, `zltail` and `zllen`, the entries, and `zlend`. -/
def ZiplistBytes (entries : List (Bytes ⊕ ℤ)) (zl : Bytes) : Prop :=
  ∃ header parts tail, header.length = 10 ∧ List.Forall₂ EntryBytes entries parts ∧
    zl = header ++ (parts.flatten ++ 255 :: tail)

/-! ### Reading from somewhere on -/

variable {front bs tail zl : Bytes} {p n : ℕ} {entry : Bytes ⊕ ℤ}

theorem getElem?_append_length : (front ++ bs)[front.length + p]? = bs[p]? := by
  rw [List.getElem?_append_right (Nat.le_add_right _ _), Nat.add_sub_cancel_left]

theorem bytesAt_append : bytesAt (front ++ bs) (front.length + p) n = bytesAt bs p n := by
  unfold bytesAt
  rw [List.length_append, Nat.add_assoc, List.drop_length_add_append]
  simp only [Nat.add_le_add_iff_left]

theorem bytesAt_front (h : bs.length = n) : bytesAt (front ++ (bs ++ tail)) front.length n = some bs := by
  have hshift := @bytesAt_append front (bs ++ tail) 0 n
  rw [Nat.add_zero] at hshift
  rw [hshift, bytesAt, List.drop_zero, if_pos (by rw [List.length_append]; omega), ← h, List.take_left]

theorem zipPrevLenSize_append : zipPrevLenSize (front ++ bs) (front.length + p) = zipPrevLenSize bs p := by
  rw [zipPrevLenSize, getElem?_append_length, zipPrevLenSize]

theorem zipDecodeLength_append :
    zipDecodeLength (front ++ bs) (front.length + p) = zipDecodeLength bs p := by
  unfold zipDecodeLength
  rw [getElem?_append_length, Nat.add_assoc, getElem?_append_length, bytesAt_append]

theorem zipRawEntryLength_append :
    zipRawEntryLength (front ++ bs) (front.length + p) = zipRawEntryLength bs p := by
  unfold zipRawEntryLength
  rw [zipPrevLenSize_append]
  simp only [Nat.add_assoc, zipDecodeLength_append]

theorem zipLoadInteger_append {encoding : UInt8} :
    zipLoadInteger (front ++ bs) (front.length + p) encoding = zipLoadInteger bs p encoding := by
  unfold zipLoadInteger
  simp only [bytesAt_append]

theorem zipEntry_append : zipEntry (front ++ bs) (front.length + p) = zipEntry bs p := by
  unfold zipEntry
  rw [zipPrevLenSize_append]
  simp only [Nat.add_assoc, zipDecodeLength_append, bytesAt_append]

theorem ziplistGet_append : ziplistGet (front ++ bs) (front.length + p) = ziplistGet bs p := by
  unfold ziplistGet
  rw [getElem?_append_length, zipEntry_append]
  simp only [Nat.add_assoc, bytesAt_append, zipLoadInteger_append]

/-! ### Integers -/

theorem ofLittleEndian_integerBytes (k : ℕ) (v : ℤ) :
    (ofLittleEndian (integerBytes k v) : ℤ) = v % 2 ^ (8 * k) := by
  have hpow : (2 : ℤ) ^ (8 * k) = (256 ^ k : ℕ) := by
    rw [pow_mul]
    norm_num
  have hnonneg : 0 ≤ v % 2 ^ (8 * k) := Int.emod_nonneg v (by positivity)
  have hlt : (v % 2 ^ (8 * k)).toNat < 256 ^ k := by
    have := Int.emod_lt_of_pos v (show (0 : ℤ) < 2 ^ (8 * k) by positivity)
    rw [hpow] at this ⊢
    omega
  rw [integerBytes, ofLittleEndian_of_lt hlt, Int.toNat_of_nonneg hnonneg]

/-- A number of `k` bytes, taken for one with a sign. -/
theorem bmod_integerBytes {k : ℕ} {v : ℤ} (hmin : -2 ^ (8 * k - 1) ≤ v) (hmax : v < 2 ^ (8 * k - 1))
    (hk : 0 < k) : (ofLittleEndian (integerBytes k v) : ℤ).bmod (2 ^ (8 * k)) = v := by
  have hpow : (2 : ℤ) ^ (8 * k) = 2 * 2 ^ (8 * k - 1) := by
    rw [← pow_succ']
    congr 1
    omega
  rw [ofLittleEndian_integerBytes]
  have hmod := Int.emod_bmod v (2 ^ (8 * k))
  rw [Nat.cast_pow, Nat.cast_ofNat] at hmod
  rw [hmod]
  refine Int.bmod_eq_of_le_mul_two ?_ ?_
  · rw [Nat.cast_pow, Nat.cast_ofNat]
    omega
  · rw [Nat.cast_pow, Nat.cast_ofNat]
    omega

/-! ### A value -/

/-- What the reader makes of a value: how long it is, and what it is. -/
def Reads (value : Bytes) (entry : Bytes ⊕ ℤ) : Prop :=
  ∀ tail, ∃ encoding lensize len, zipDecodeLength (value ++ tail) 0 = some (encoding, lensize, len) ∧
    value.length = lensize + len ∧ value.length < 2 ^ 32 - 5 ∧
    (if encoding &&& 0xC0 < 0xC0 then (bytesAt (value ++ tail) lensize len).map Sum.inl
      else (zipLoadInteger (value ++ tail) lensize encoding).map Sum.inr) = some entry

/-- An integer, whose encoding says its size. -/
theorem reads_integer {encoding : UInt8} {k : ℕ} {v : ℤ} (hmasked : encoding &&& 0xC0 = 0xC0)
    (hlt : ¬encoding < 0xC0) (hsize : zipIntSize encoding = k) (hk : k ≤ 8)
    (hload : ∀ tail, zipLoadInteger (encoding :: (integerBytes k v ++ tail)) 1 encoding = some v) :
    Reads (encoding :: integerBytes k v) (.inr v) := by
  intro tail
  have hlength : (encoding :: integerBytes k v).length = 1 + k := by
    rw [List.length_cons, integerBytes, length_littleEndian, Nat.add_comm]
  refine ⟨encoding, 1, k, ?_, hlength, by omega, ?_⟩
  · rw [zipDecodeLength]
    simp only [List.cons_append, List.getElem?_cons_zero, Option.bind_eq_bind, Option.bind_some]
    rw [if_neg hlt, if_neg hlt, hsize]
    rfl
  · rw [hmasked, if_neg (by decide), List.cons_append, hload, Option.map_some]

/-- A string behind a header that has its length. -/
theorem reads_string {head s : Bytes} {encoding : UInt8} (hmasked : encoding &&& 0xC0 < 0xC0)
    (hlen : (head ++ s).length < 2 ^ 32 - 5)
    (hdecode : ∀ tail, zipDecodeLength (head ++ (s ++ tail)) 0 = some (encoding, head.length, s.length)) :
    Reads (head ++ s) (.inl s) := by
  intro tail
  refine ⟨encoding, head.length, s.length, ?_, List.length_append, hlen, ?_⟩
  · rw [List.append_assoc, hdecode]
  · rw [if_pos hmasked, List.append_assoc, bytesAt_front rfl, Option.map_some]

/-- The first byte of a string: two bits, and six of the length. -/
theorem stringByte : ∀ k < 3, ∀ n < 64, UInt8.ofNat (64 * k + n) < 0xC0 ∧
    UInt8.ofNat (64 * k + n) &&& 0xC0 = UInt8.ofNat (64 * k) ∧
    (UInt8.ofNat (64 * k + n) &&& 0x3F).toNat = n := by decide +kernel

/-- The encodings that are the numbers 0 to 12. -/
theorem immediateByte (v : ℕ) (h : v ≤ 12) : ¬UInt8.ofNat (0xF1 + v) < 0xC0 ∧
    zipIntSize (UInt8.ofNat (0xF1 + v)) = 0 ∧ ¬UInt8.ofNat (0xF1 + v) &&& 0xC0 < 0xC0 ∧
    zipLoadInteger zl p (UInt8.ofNat (0xF1 + v)) = some (v : ℤ) := by
  have hb : ∀ n ≤ 12, ¬UInt8.ofNat (0xF1 + n) < 0xC0 ∧ zipIntSize (UInt8.ofNat (0xF1 + n)) = 0 ∧
      ¬UInt8.ofNat (0xF1 + n) &&& 0xC0 < 0xC0 ∧ UInt8.ofNat (0xF1 + n) ≠ 0xFE ∧
      UInt8.ofNat (0xF1 + n) ≠ 0xC0 ∧ UInt8.ofNat (0xF1 + n) ≠ 0xD0 ∧
      UInt8.ofNat (0xF1 + n) ≠ 0xF0 ∧ UInt8.ofNat (0xF1 + n) ≠ 0xE0 ∧
      (0xF1 ≤ UInt8.ofNat (0xF1 + n) ∧ UInt8.ofNat (0xF1 + n) ≤ 0xFD) ∧
      (UInt8.ofNat (0xF1 + n) &&& 0x0F).toNat = n + 1 := by decide
  obtain ⟨hlt, hsize, hmasked, h8, h16, h32, h24, h64, himm, hvalue⟩ := hb v h
  refine ⟨hlt, hsize, hmasked, ?_⟩
  rw [zipLoadInteger, if_neg h8, if_neg h16, if_neg h32, if_neg h24, if_neg h64, if_pos himm, hvalue]
  exact congrArg some (by push_cast; ring)

/-- A shift up, and back with the sign. -/
theorem toInt_int24 {v : ℤ} (hmin : -2 ^ 23 ≤ v) (hmax : v < 2 ^ 23) :
    (Int32.ofNat (ofLittleEndian (0 :: integerBytes 3 v)) >>> 8).toInt = v := by
  have hm := ofLittleEndian_integerBytes 3 v
  rw [ofLittleEndian_cons]
  generalize ofLittleEndian (integerBytes 3 v) = m at hm
  change (m : ℤ) = v % 2 ^ 24 at hm
  have hx : (Int32.ofNat ((0 : UInt8).toNat + 256 * m)).toInt = 256 * v := by
    have hsize : Int32.size = 4294967296 := rfl
    have hzero : (0 : UInt8).toNat = 0 := rfl
    rw [Int32.toInt_ofNat', Int.bmod_def, hsize, hzero]
    push_cast
    split
    · omega
    · omega
  have hshift (x : Int32) : (x >>> 8).toInt = x.toInt >>> (8 : ℕ) := by
    change (x >>> 8).toBitVec.toInt = _
    rw [Int32.toBitVec_shiftRight, BitVec.toInt_sshiftRight']
    rfl
  rw [hshift, hx, Int.shiftRight_eq_div_pow]
  exact Int.mul_ediv_cancel_left v (by decide)

/-- The bytes of an integer, behind its encoding. -/
theorem bytesAt_integer {encoding : UInt8} {k : ℕ} {v : ℤ} :
    bytesAt (encoding :: (integerBytes k v ++ tail)) 1 k = some (integerBytes k v) :=
  @bytesAt_front [encoding] _ _ _ (length_littleEndian k _)

theorem reads_value {value : Bytes} (h : ValueBytes entry value) : Reads value entry := by
  cases h with
  | @str6 s h =>
    -- the length is in the byte itself
    obtain ⟨hlt, hmasked, hlen⟩ := stringByte 0 (by omega) s.length h
    rw [Nat.mul_zero, Nat.zero_add] at hlt hmasked hlen
    refine @reads_string [_] s 0 (by decide) (by simp; omega) fun tail => ?_
    rw [zipDecodeLength]
    simp only [List.cons_append, List.getElem?_cons_zero, Option.bind_eq_bind, Option.bind_some]
    rw [if_pos hlt, hmasked, if_pos (by decide), if_pos (by decide), hlen]
    rfl
  | @str14 s h =>
    -- six bits of the length, and the other eight in the byte behind
    obtain ⟨hlt, hmasked, hlen⟩ := stringByte 1 (by omega) (s.length / 256) (by omega)
    rw [Nat.mul_one] at hlt hmasked hlen
    have hvalue : (s.length / 256) <<< 8 ||| (UInt8.ofNat s.length).toNat = s.length := by
      have hlow : s.length % 2 ^ 8 < 2 ^ 8 := Nat.mod_lt _ (by decide)
      rw [UInt8.toNat_ofNat', ← Nat.shiftLeft_add_eq_or_of_lt hlow, Nat.shiftLeft_eq]
      exact Nat.div_add_mod' s.length (2 ^ 8)
    refine @reads_string [_, _] s 0x40 (by decide) (by simp; omega) fun tail => ?_
    rw [zipDecodeLength]
    simp only [List.cons_append, List.getElem?_cons_zero, List.getElem?_cons_succ, Option.bind_eq_bind,
      Option.bind_some]
    rw [if_pos hlt, hmasked, if_pos (by decide), if_neg (by decide), if_pos (by decide), hlen, hvalue]
    rfl
  | @str32 s h low hlow =>
    -- the length is behind the byte, whose other six bits are not looked at
    obtain ⟨hlt, hmasked, -⟩ := stringByte 2 (by omega) low hlow
    have hvalue : (ntohl (bigEndian s.length)).toNat = s.length := by
      rw [ntohl_bigEndian (by omega), UInt32.toNat_ofNat', Nat.mod_eq_of_lt (by omega)]
    have hlength : (bigEndian s.length).length = 4 := rfl
    refine @reads_string (UInt8.ofNat (128 + low) :: bigEndian s.length) s 0x80 (by decide)
      (by simp [hlength]; omega) fun tail => ?_
    have hbytes : bytesAt (UInt8.ofNat (128 + low) :: (bigEndian s.length ++ (s ++ tail))) (0 + 1) 4 =
        some (bigEndian s.length) := @bytesAt_front [_] _ _ _ hlength
    rw [zipDecodeLength]
    simp only [List.cons_append, List.getElem?_cons_zero, Option.bind_eq_bind, Option.bind_some]
    rw [if_pos hlt, hmasked, if_pos (by decide), if_neg (by decide), if_neg (by decide),
      if_pos (by decide), hbytes, Option.bind_some, hvalue]
    rfl
  | @immediate v h =>
    intro tail
    obtain ⟨hlt, hsize, hmasked, hload⟩ := immediateByte v h
    refine ⟨UInt8.ofNat (0xF1 + v), 1, 0, ?_, rfl, Nat.lt_of_lt_of_le (by decide : 1 < 2) (by decide), ?_⟩
    · rw [zipDecodeLength]
      simp only [List.cons_append, List.getElem?_cons_zero, Option.bind_eq_bind, Option.bind_some]
      rw [if_neg hlt, if_neg hlt, hsize]
      rfl
    · rw [if_neg hmasked, hload, Option.map_some]
  | @int8 v hmin hmax =>
    refine reads_integer rfl (by decide) rfl (by decide) fun tail => ?_
    rw [zipLoadInteger, if_pos rfl, bytesAt_integer, Option.map_some, Int8.toInt_ofNat']
    exact congrArg some (bmod_integerBytes hmin hmax (by decide))
  | @int16 v hmin hmax =>
    refine reads_integer rfl (by decide) rfl (by decide) fun tail => ?_
    rw [zipLoadInteger, if_neg (by decide), if_pos rfl, bytesAt_integer, Option.map_some,
      Int16.toInt_ofNat']
    exact congrArg some (bmod_integerBytes hmin hmax (by decide))
  | @int24 v hmin hmax =>
    refine reads_integer rfl (by decide) rfl (by decide) fun tail => ?_
    rw [zipLoadInteger, if_neg (by decide), if_neg (by decide), if_neg (by decide), if_pos rfl,
      bytesAt_integer, Option.map_some, toInt_int24 hmin hmax]
  | @int32 v hmin hmax =>
    refine reads_integer rfl (by decide) rfl (by decide) fun tail => ?_
    rw [zipLoadInteger, if_neg (by decide), if_neg (by decide), if_pos rfl, bytesAt_integer,
      Option.map_some, Int32.toInt_ofNat']
    exact congrArg some (bmod_integerBytes hmin hmax (by decide))
  | @int64 v hmin hmax =>
    refine reads_integer rfl (by decide) rfl (by decide) fun tail => ?_
    rw [zipLoadInteger, if_neg (by decide), if_neg (by decide), if_neg (by decide), if_neg (by decide),
      if_pos rfl, bytesAt_integer, Option.map_some, Int64.toInt_ofNat']
    exact congrArg some (bmod_integerBytes hmin hmax (by decide))

/-! ### An entry -/

theorem prevBytes_spec {prev : Bytes} (h : PrevBytes prev) (rest : Bytes) :
    (∃ b, (prev ++ rest)[0]? = some b ∧ b ≠ 255) ∧
    zipPrevLenSize (prev ++ rest) 0 = some prev.length ∧ prev.length ≤ 5 ∧
    (prev.length = 1 → ∃ prevrawlen, bytesAt (prev ++ rest) 0 1 = some prevrawlen) ∧
    (prev.length ≠ 1 → ∃ prevrawlen, bytesAt (prev ++ rest) 1 4 = some prevrawlen) := by
  cases h with
  | @one b h =>
    refine ⟨⟨b, rfl, fun heq => absurd h (heq ▸ by decide)⟩, congrArg some (if_pos h),
      by simp, fun _ => ⟨[b], @bytesAt_front [] [b] rest 1 rfl⟩, fun hne => absurd rfl hne⟩
  | @five bs h =>
    have hlength : (254 :: bs).length = 5 := by rw [List.length_cons, h]
    refine ⟨⟨254, rfl, by decide⟩, hlength ▸ rfl, hlength.le, fun hone => ?_,
      fun _ => ⟨bs, @bytesAt_front [254] bs rest 4 h⟩⟩
    rw [hlength] at hone
    cases hone

/-- **An entry**, and whatever follows. -/
theorem entryBytes_spec (h : EntryBytes entry bs) (tail : Bytes) :
    (∃ b, (bs ++ tail)[0]? = some b ∧ b ≠ 255) ∧ ziplistGet (bs ++ tail) 0 = some (some entry) ∧
    zipRawEntryLength (bs ++ tail) 0 = some bs.length := by
  obtain ⟨prev, value, rfl, hprev, hvalue⟩ := h
  obtain ⟨encoding, lensize, len, hdecode, hlength, hlt, hread⟩ := reads_value hvalue tail
  rw [List.append_assoc]
  obtain ⟨hfirst, hprevsize, hle, hone, hfive⟩ := prevBytes_spec hprev (value ++ tail)
  have hshift := @zipDecodeLength_append prev (value ++ tail) 0
  rw [Nat.add_zero, hdecode] at hshift
  refine ⟨hfirst, ?_, ?_⟩
  · obtain ⟨b, hb, hne⟩ := hfirst
    have hentry : zipEntry (prev ++ (value ++ tail)) 0 = some (prev.length + lensize, encoding, len) := by
      rw [zipEntry]
      simp only [Option.bind_eq_bind, hprevsize, Option.bind_some, Nat.zero_add, hshift]
      split
      next hlen =>
        obtain ⟨prevrawlen, heq⟩ := hone hlen
        rw [heq]
        rfl
      next hlen =>
        obtain ⟨prevrawlen, heq⟩ := hfive hlen
        rw [heq]
        rfl
    rw [ziplistGet]
    simp only [Option.bind_eq_bind, hb, Option.bind_some, if_neg hne, hentry, Nat.zero_add,
      bytesAt_append, zipLoadInteger_append]
    split at hread
    next hstr =>
      rw [if_pos hstr]
      obtain ⟨s, hs, rfl⟩ := Option.map_eq_some_iff.mp hread
      rw [hs]
      rfl
    next hint =>
      rw [if_neg hint]
      obtain ⟨v, hv, rfl⟩ := Option.map_eq_some_iff.mp hread
      rw [hv]
      rfl
  · rw [zipRawEntryLength]
    simp only [Option.bind_eq_bind, hprevsize, Option.bind_some, Nat.zero_add, hshift]
    rw [List.length_append, hlength, Nat.add_assoc]
    exact congrArg some (Nat.mod_eq_of_lt (by omega))

/-! ### The whole list -/

theorem ziplistNext_eq (hentry : EntryBytes entry bs) {b : UInt8} {rest : Bytes}
    (hb : rest[0]? = some b) : ziplistNext (front ++ (bs ++ rest)) front.length =
      some (if b = 255 then none else some (front ++ bs).length) := by
  obtain ⟨⟨c, hc, hne⟩, -, hlength⟩ := entryBytes_spec hentry rest
  have hfirst : (front ++ (bs ++ rest))[front.length]? = some c := by
    rw [← hc, ← @getElem?_append_length front (bs ++ rest) 0, Nat.add_zero]
  have hraw : zipRawEntryLength (front ++ (bs ++ rest)) front.length = some bs.length := by
    rw [← hlength, ← @zipRawEntryLength_append front (bs ++ rest) 0, Nat.add_zero]
  have hsecond : (front ++ (bs ++ rest))[front.length + bs.length]? = some b := by
    rw [getElem?_append_length, ← hb, ← @getElem?_append_length bs rest 0, Nat.add_zero]
  rw [ziplistNext]
  simp only [Option.bind_eq_bind, hfirst, Option.bind_some, if_neg hne, hraw, hsecond]
  split
  next => rfl
  next => rw [List.length_append]; rfl

/-- The first byte of some entries and the end. -/
theorem flatten_first {entries : List (Bytes ⊕ ℤ)} {parts : List Bytes}
    (h : List.Forall₂ EntryBytes entries parts) :
    ∃ b, (parts.flatten ++ 255 :: tail)[0]? = some b ∧ (b = 255 ↔ entries = []) := by
  cases h with
  | nil => exact ⟨255, rfl, by simp⟩
  | @cons entry bs entries parts hentry hrest =>
    obtain ⟨⟨b, hb, hne⟩, -, -⟩ := entryBytes_spec hentry (parts.flatten ++ 255 :: tail)
    rw [List.flatten_cons, List.append_assoc]
    exact ⟨b, hb, iff_of_false hne (List.cons_ne_nil _ _)⟩

theorem ziplistLoop_eq {entries : List (Bytes ⊕ ℤ)} {parts : List Bytes} {fuel : ℕ}
    (h : List.Forall₂ EntryBytes entries parts) (hfuel : entries.length < fuel) :
    ziplistLoop (front ++ (parts.flatten ++ 255 :: tail)) fuel
      (if entries = [] then none else some front.length) = some entries := by
  induction h generalizing front fuel with
  | nil =>
    rw [if_pos rfl]
    cases fuel <;> rfl
  | @cons entry bs entries parts hentry hrest ih =>
    obtain ⟨fuel, rfl⟩ := Nat.exists_eq_succ_of_ne_zero (Nat.ne_zero_of_lt hfuel)
    obtain ⟨b, hb, hend⟩ := @flatten_first tail _ _ hrest
    have hget : ziplistGet (front ++ (bs ++ (parts.flatten ++ 255 :: tail))) front.length =
        some (some entry) := by
      rw [← (entryBytes_spec hentry (parts.flatten ++ 255 :: tail)).2.1,
        ← @ziplistGet_append front _ 0, Nat.add_zero]
    have hloop := @ih (front ++ bs) fuel (Nat.lt_of_succ_lt_succ hfuel)
    rw [List.append_assoc] at hloop
    rw [if_neg (List.cons_ne_nil _ _), List.flatten_cons, List.append_assoc, ziplistLoop]
    simp only [Option.bind_eq_bind, hget, Option.bind_some, ziplistNext_eq hentry hb, hend, hloop]
    rfl

/-- Every entry takes a byte. -/
theorem length_le_flatten {entries : List (Bytes ⊕ ℤ)} {parts : List Bytes}
    (h : List.Forall₂ EntryBytes entries parts) : entries.length ≤ parts.flatten.length := by
  induction h with
  | nil => exact Nat.le_refl 0
  | @cons entry bs entries parts hentry hrest ih =>
    obtain ⟨⟨b, hb, -⟩, -, -⟩ := entryBytes_spec hentry []
    rw [List.append_nil] at hb
    have hpos : 0 < bs.length := (List.getElem?_eq_some_iff.mp hb).1
    rw [List.flatten_cons, List.length_append, List.length_cons]
    omega

/-- **A ziplist is read back**: the entries are what was put into it, whatever their encodings, in
this order, and the reader stays inside of the string. -/
theorem ziplistEntries_eq {entries : List (Bytes ⊕ ℤ)} (h : ZiplistBytes entries zl) :
    ziplistEntries zl = some entries := by
  obtain ⟨header, parts, tail, hheader, hparts, rfl⟩ := h
  obtain ⟨b, hb, hend⟩ := @flatten_first tail _ _ hparts
  have hfirst : (header ++ (parts.flatten ++ 255 :: tail))[10]? = some b := by
    rw [← hb, ← hheader, ← @getElem?_append_length header _ 0, Nat.add_zero]
  have hle := length_le_flatten hparts
  have hloop := @ziplistLoop_eq header tail entries parts
    ((header ++ (parts.flatten ++ 255 :: tail)).length + 1) hparts
    (by rw [List.length_append, List.length_append]; omega)
  rw [ziplistEntries, ziplistIndex, hfirst, Option.map_some, Option.bind_some, ← hloop, hheader]
  simp only [hend]

end Rdb
end Comms
