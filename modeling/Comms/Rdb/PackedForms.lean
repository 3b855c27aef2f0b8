import Comms.Rdb.Records
import Comms.Rdb.Ziplist

/-!
# Values in a string

What `zipmapNext` of `zipmap.c` and `intsetGet` of `intset.c` find in a string, the loops of
`RedisLoadObject` over them, and what becomes of a value that is stored this way.

* `zipmapNext`, `zipmapLoop`, `intsetGet`, `intsetLoop` — from the source;
* `ZipmapBytes`, `IntsetBytes` — what these strings consist of;
* `zipmapEntries_eq` — the fields and values of a zipmap, in order;
* `PackedBytes`, `consumes_packed` — lists, sorted sets and hashes in such a string are loaded
  member by member;
* `intset_not_loaded` — a set is not: the loop over it goes on while there is no element.
-/

namespace Comms
namespace Rdb

/-! ### Zipmaps -/

/-- `zipmapDecodeLength`. -/
def zipmapDecodeLength (zm : Bytes) (p : ℕ) : Option ℕ := do
  let b ← zm[p]?
  if b < 254 then return b.toNat
  else return ofLittleEndian (← bytesAt zm (p + 1) 4)

/-- `ZIPMAP_LEN_BYTES`. -/
def zipmapLenBytes (l : ℕ) : ℕ := if l < 254 then 1 else 5

/-- `zipmapRawKeyLength`, an `unsigned int`. -/
def zipmapRawKeyLength (zm : Bytes) (p : ℕ) : Option ℕ := do
  let l ← zipmapDecodeLength zm p
  return (zipmapLenBytes l + l) % 2 ^ 32

/-- `zipmapRawValueLength`. -/
def zipmapRawValueLength (zm : Bytes) (p : ℕ) : Option ℕ := do
  let l ← zipmapDecodeLength zm p
  let used := zipmapLenBytes l
  return (used + ((← zm[p + used]?).toNat + 1 + l)) % 2 ^ 32

/-- `zipmapNext`: a field, its value, and where the next one is. -/
def zipmapNext (zm : Bytes) (p : ℕ) : Option (Option ((Bytes × Bytes) × ℕ)) := do
  if (← zm[p]?) = 255 then return none
  let klen ← zipmapDecodeLength zm p
  let key ← bytesAt zm (p + zipmapLenBytes klen) klen
  let p := p + (← zipmapRawKeyLength zm p)
  let vlen ← zipmapDecodeLength zm p
  let value ← bytesAt zm (p + 1 + zipmapLenBytes vlen) vlen
  return some ((key, value), p + (← zipmapRawValueLength zm p))

/-- The loop over a zipmap. -/
def zipmapLoop (zm : Bytes) : ℕ → ℕ → Option (List (Bytes × Bytes))
  | 0, _ => none
  | fuel + 1, zi => do
    match ← zipmapNext zm zi with
    | none => return []
    | some (entry, zi) => return entry :: (← zipmapLoop zm fuel zi)

/-- From `zipmapRewind` on. -/
def zipmapEntries (zm : Bytes) : Option (List (Bytes × Bytes)) := zipmapLoop zm (zm.length + 1) 1

/-- A length: in a byte, or in four behind a 254. -/
inductive ZipmapLength : ℕ → Bytes → Prop
  | one {n : ℕ} (h : n < 254) : ZipmapLength n [UInt8.ofNat n]
  | five {n : ℕ} (hmin : 254 ≤ n) (hmax : n < 2 ^ 32 - 261) : ZipmapLength n (254 :: littleEndian 4 n)

/-- A field, and a value with some bytes behind it that are not used. -/
inductive ZipmapEntry : Bytes × Bytes → Bytes → Prop
  | mk {key value klen vlen unused : Bytes} {free : UInt8} (hklen : ZipmapLength key.length klen)
      (hvlen : ZipmapLength value.length vlen) (hunused : unused.length = free.toNat) :
      ZipmapEntry (key, value) (klen ++ (key ++ (vlen ++ free :: (value ++ unused))))

/-- **A zipmap**: the number of fields, the fields with their values, and the end. -/
def ZipmapBytes (entries : List (Bytes × Bytes)) (zm : Bytes) : Prop :=
  ∃ zmlen parts tail, List.Forall₂ ZipmapEntry entries parts ∧
    zm = zmlen :: (parts.flatten ++ 255 :: tail)

variable {front bs tail zm : Bytes} {p n : ℕ}

theorem zipmapDecodeLength_append :
    zipmapDecodeLength (front ++ bs) (front.length + p) = zipmapDecodeLength bs p := by
  unfold zipmapDecodeLength
  rw [getElem?_append_length, Nat.add_assoc, bytesAt_append]

theorem zipmapRawKeyLength_append :
    zipmapRawKeyLength (front ++ bs) (front.length + p) = zipmapRawKeyLength bs p := by
  rw [zipmapRawKeyLength, zipmapDecodeLength_append, zipmapRawKeyLength]

theorem zipmapRawValueLength_append :
    zipmapRawValueLength (front ++ bs) (front.length + p) = zipmapRawValueLength bs p := by
  unfold zipmapRawValueLength
  rw [zipmapDecodeLength_append]
  simp only [Nat.add_assoc, getElem?_append_length]

/-- A length is read, whatever follows, and its first byte is not the end. -/
theorem zipmapLength_spec {len : Bytes} (h : ZipmapLength n len) (rest : Bytes) :
    (∃ b, (len ++ rest)[0]? = some b ∧ b ≠ 255) ∧ zipmapDecodeLength (len ++ rest) 0 = some n ∧
    zipmapLenBytes n = len.length ∧ len.length + n < 2 ^ 32 - 256 := by
  cases h with
  | one h =>
    have hvalue : (UInt8.ofNat n).toNat = n := by
      rw [UInt8.toNat_ofNat', Nat.mod_eq_of_lt (by omega)]
    have hlt : UInt8.ofNat n < 254 := UInt8.lt_iff_toNat_lt.mpr (hvalue.symm ▸ h)
    refine ⟨⟨_, rfl, fun heq => ?_⟩, ?_, if_pos h, ?_⟩
    · rw [heq] at hlt
      exact absurd hlt (by decide)
    · rw [zipmapDecodeLength]
      simp only [List.cons_append, List.getElem?_cons_zero, Option.bind_eq_bind, Option.bind_some,
        if_pos hlt, hvalue]
      rfl
    · rw [List.length_singleton]
      omega
  | five hmin hmax =>
    have hlength : (254 :: littleEndian 4 n).length = 5 := by
      rw [List.length_cons, length_littleEndian]
    have hbytes : bytesAt (254 :: (littleEndian 4 n ++ rest)) (0 + 1) 4 = some (littleEndian 4 n) :=
      @bytesAt_front [254] _ _ _ (length_littleEndian 4 n)
    refine ⟨⟨254, rfl, by decide⟩, ?_, ?_, ?_⟩
    · rw [zipmapDecodeLength]
      simp only [List.cons_append, List.getElem?_cons_zero, Option.bind_eq_bind, Option.bind_some,
        hbytes]
      rw [if_neg (by decide), ofLittleEndian_of_lt (by omega)]
      rfl
    · rw [hlength, zipmapLenBytes, if_neg (by omega)]
    · rw [hlength]
      omega

/-- The value of a field, behind its length and the number of bytes that are not used. -/
theorem zipmapValue_spec {value vlen unused : Bytes} {free : UInt8}
    (hvlen : ZipmapLength value.length vlen) (hunused : unused.length = free.toNat) (tail : Bytes) :
    bytesAt (vlen ++ free :: (value ++ (unused ++ tail))) (1 + zipmapLenBytes value.length)
      value.length = some value ∧
    zipmapRawValueLength (vlen ++ free :: (value ++ (unused ++ tail))) 0 =
      some (vlen ++ free :: (value ++ unused)).length := by
  obtain ⟨-, hdecode, hbytes, hlt⟩ := zipmapLength_spec hvlen (free :: (value ++ (unused ++ tail)))
  constructor
  · have hprefix := @bytesAt_front (vlen ++ [free]) value (unused ++ tail) value.length rfl
    rw [List.length_append, List.length_singleton, List.append_assoc, List.singleton_append,
      Nat.add_comm vlen.length] at hprefix
    rw [hbytes, hprefix]
  · have hfree : (vlen ++ free :: (value ++ (unused ++ tail)))[vlen.length]? = some free := by
      rw [← Nat.add_zero vlen.length, getElem?_append_length]
      rfl
    have hlength : (vlen ++ free :: (value ++ unused)).length =
        vlen.length + (free.toNat + 1 + value.length) := by
      rw [List.length_append, List.length_cons, List.length_append, hunused]
      omega
    have hfreelt := free.toNat_lt
    rw [zipmapRawValueLength]
    simp only [Option.bind_eq_bind, hdecode, Option.bind_some, hbytes, Nat.zero_add, hfree]
    rw [hlength]
    exact congrArg some (Nat.mod_eq_of_lt (by omega))

/-- **A field with its value**, and whatever follows. -/
theorem zipmapNext_entry {entry : Bytes × Bytes} (h : ZipmapEntry entry bs) (tail : Bytes) :
    zipmapNext (bs ++ tail) 0 = some (some (entry, bs.length)) := by
  cases h with
  | @mk key value klen vlen unused free hklen hvlen hunused =>
    have happend : klen ++ (key ++ (vlen ++ free :: (value ++ unused))) ++ tail =
        klen ++ (key ++ (vlen ++ free :: (value ++ (unused ++ tail)))) := by
      simp only [List.append_assoc, List.cons_append]
    obtain ⟨⟨b, hb, hne⟩, hkdecode, hkbytes, hklt⟩ :=
      zipmapLength_spec hklen (key ++ (vlen ++ free :: (value ++ (unused ++ tail))))
    obtain ⟨-, hvdecode, -, -⟩ := zipmapLength_spec hvlen (free :: (value ++ (unused ++ tail)))
    obtain ⟨hvalue, hvlength⟩ := zipmapValue_spec hvlen hunused tail
    rw [happend]
    have hkey : bytesAt (klen ++ (key ++ (vlen ++ free :: (value ++ (unused ++ tail))))) klen.length
        key.length = some key := bytesAt_front rfl
    have hklength : zipmapRawKeyLength
        (klen ++ (key ++ (vlen ++ free :: (value ++ (unused ++ tail))))) 0 =
          some (klen ++ key).length := by
      rw [zipmapRawKeyLength]
      simp only [Option.bind_eq_bind, hkdecode, Option.bind_some, hkbytes, List.length_append]
      exact congrArg some (Nat.mod_eq_of_lt (by omega))
    -- from the value on
    have hdecode := @zipmapDecodeLength_append (klen ++ key)
      (vlen ++ free :: (value ++ (unused ++ tail))) 0
    have hread := @bytesAt_append (klen ++ key) (vlen ++ free :: (value ++ (unused ++ tail)))
      (1 + zipmapLenBytes value.length) value.length
    have hraw := @zipmapRawValueLength_append (klen ++ key)
      (vlen ++ free :: (value ++ (unused ++ tail))) 0
    rw [List.append_assoc, Nat.add_zero, hvdecode] at hdecode
    rw [List.append_assoc, hvalue, ← Nat.add_assoc] at hread
    rw [List.append_assoc, Nat.add_zero, hvlength] at hraw
    rw [zipmapNext]
    simp only [Option.bind_eq_bind, hb, Option.bind_some, if_neg hne, hkdecode, Nat.zero_add, hkbytes,
      hkey, hklength, hdecode, hread, hraw]
    rw [← List.length_append, List.append_assoc]
    rfl

theorem zipmapNext_append : zipmapNext (front ++ bs) (front.length + p) =
    (zipmapNext bs p).map (Option.map (Prod.map id (front.length + ·))) := by
  unfold zipmapNext
  simp only [Option.bind_eq_bind, getElem?_append_length, Nat.add_assoc, zipmapDecodeLength_append,
    bytesAt_append, zipmapRawKeyLength_append, zipmapRawValueLength_append, Option.map_bind]
  -- the same bytes are read; only the place of the next field is counted from further ahead
  refine Option.bind_congr fun b _ => ?_
  by_cases hb : b = 255
  · simp only [Function.comp_apply, if_pos hb]
    rfl
  · simp only [Function.comp_apply, if_neg hb, Option.map_bind]
    rfl

theorem zipmapLoop_eq {entries : List (Bytes × Bytes)} {parts : List Bytes} {fuel : ℕ}
    (h : List.Forall₂ ZipmapEntry entries parts) (hfuel : entries.length < fuel) :
    zipmapLoop (front ++ (parts.flatten ++ 255 :: tail)) fuel front.length = some entries := by
  -- what the loop has passed belongs to `front`
  induction h generalizing front fuel with
  | nil =>
    obtain ⟨fuel, rfl⟩ := Nat.exists_eq_succ_of_ne_zero (Nat.ne_zero_of_lt hfuel)
    have hnext := @zipmapNext_append front ([] ++ 255 :: tail) 0
    rw [Nat.add_zero] at hnext
    rw [zipmapLoop, List.flatten_nil, hnext]
    rfl
  | @cons entry bs entries parts hentry hrest ih =>
    obtain ⟨fuel, rfl⟩ := Nat.exists_eq_succ_of_ne_zero (Nat.ne_zero_of_lt hfuel)
    have hnext := @zipmapNext_append front (bs ++ (parts.flatten ++ 255 :: tail)) 0
    rw [Nat.add_zero, zipmapNext_entry hentry] at hnext
    have hloop := @ih (front ++ bs) fuel (Nat.lt_of_succ_lt_succ hfuel)
    rw [List.append_assoc, List.length_append] at hloop
    rw [zipmapLoop, List.flatten_cons, List.append_assoc, hnext]
    simp only [Option.bind_eq_bind, Option.map_some, Option.bind_some, Prod.map, id_eq, hloop]
    rfl

/-- **A zipmap is read back**, and the reader stays inside of the string. -/
theorem zipmapEntries_eq {entries : List (Bytes × Bytes)} (h : ZipmapBytes entries zm) :
    zipmapEntries zm = some entries := by
  obtain ⟨zmlen, parts, tail, hparts, rfl⟩ := h
  have hle : entries.length ≤ parts.flatten.length := by
    clear tail
    induction hparts with
    | nil => exact Nat.le_refl 0
    | @cons entry bs entries parts hentry hrest ih =>
      cases hentry
      simp only [List.flatten_cons, List.length_append, List.length_cons]
      omega
  refine @zipmapLoop_eq [zmlen] tail entries parts _ hparts ?_
  rw [List.length_cons, List.length_append]
  omega

/-! ### Intsets -/

/-- `_intsetGetEncoded`, whose `pos` is an `int`. -/
def intsetGetEncoded (is : Bytes) (pos : ℕ) (enc : UInt8) : Option ℤ :=
  if 2 ^ 31 ≤ pos then none
  else if enc = 8 then
    (bytesAt is (8 + 8 * pos) 8).map fun bs => (Int64.ofNat (ofLittleEndian bs)).toInt
  else if enc = 4 then
    (bytesAt is (8 + 4 * pos) 4).map fun bs => (Int32.ofNat (ofLittleEndian bs)).toInt
  else (bytesAt is (8 + 2 * pos) 2).map fun bs => (Int16.ofNat (ofLittleEndian bs)).toInt

/-- `intsetGet`; `none` inside for its `0`. -/
def intsetGet (is : Bytes) (pos : ℕ) : Option (Option ℤ) := do
  let length ← bytesAt is 4 4
  if pos < ofLittleEndian length then
    let encoding ← bytesAt is 0 4
    return some (← intsetGetEncoded is pos (UInt8.ofNat (ofLittleEndian encoding)))
  else return none

/-- The loop of `RedisLoadSetIntSet`, whose condition is a `!`: it goes on as long as there is no
element, with what `llele` was before. -/
def intsetLoop (is : Bytes) : ℕ → ℕ → ℤ → Option (List ℤ)
  | 0, _, _ => none
  | fuel + 1, ii, llele => do
    match ← intsetGet is ii with
    | some _ => return []
    | none => return llele :: (← intsetLoop is fuel (ii + 1) llele)

def intsetElements (is : Bytes) : Option (List ℤ) := intsetLoop is (is.length + 1) 0 0

/-- **An intset**: the size of an element, the number of elements, and the elements. -/
def IntsetBytes (values : List ℤ) (is : Bytes) : Prop :=
  ∃ k tail, (k = 2 ∨ k = 4 ∨ k = 8) ∧ values.length ≤ 2 ^ 31 ∧
    (∀ v ∈ values, -2 ^ (8 * k - 1) ≤ v ∧ v < 2 ^ (8 * k - 1)) ∧
    is = littleEndian 4 k ++ (littleEndian 4 values.length ++ (values.flatMap (integerBytes k) ++ tail))

/-- An element among others of the same size. -/
theorem bytesAt_flatMap {k : ℕ} {values : List ℤ} {pos : ℕ} {v : ℤ} (h : values[pos]? = some v) :
    bytesAt (values.flatMap (integerBytes k) ++ tail) (k * pos) k = some (integerBytes k v) := by
  induction values generalizing pos with
  | nil => cases h
  | cons w values ih =>
    rw [List.flatMap_cons, List.append_assoc]
    cases pos with
    | zero =>
      obtain rfl : w = v := Option.some.inj h
      exact @bytesAt_front [] (integerBytes k w) _ k (length_littleEndian k _)
    | succ pos =>
      have hshift := @bytesAt_append (integerBytes k w) (values.flatMap (integerBytes k) ++ tail)
        (k * pos) k
      rw [show (integerBytes k w).length = k from length_littleEndian k _, Nat.add_comm k] at hshift
      rw [Nat.mul_succ, hshift]
      exact ih h

/-- The element of an intset with elements of `k` bytes. -/
theorem intsetGetEncoded_eq {k : ℕ} {front : Bytes} {values : List ℤ} {pos : ℕ} {v : ℤ}
    (hk : k = 2 ∨ k = 4 ∨ k = 8) (hfront : front.length = 8) (hpos : pos < 2 ^ 31)
    (h : values[pos]? = some v) (hrange : -2 ^ (8 * k - 1) ≤ v ∧ v < 2 ^ (8 * k - 1)) :
    intsetGetEncoded (front ++ (values.flatMap (integerBytes k) ++ tail)) pos (UInt8.ofNat k) =
      some v := by
  have hbytes : bytesAt (front ++ (values.flatMap (integerBytes k) ++ tail)) (8 + k * pos) k =
      some (integerBytes k v) := by
    rw [← hfront, bytesAt_append]
    exact bytesAt_flatMap h
  rw [intsetGetEncoded, if_neg (by omega)]
  obtain rfl | rfl | rfl := hk
  · rw [if_neg (by decide), if_neg (by decide), hbytes, Option.map_some, Int16.toInt_ofNat']
    exact congrArg some (bmod_integerBytes hrange.1 hrange.2 (by decide))
  · rw [if_neg (by decide), if_pos (by decide), hbytes, Option.map_some, Int32.toInt_ofNat']
    exact congrArg some (bmod_integerBytes hrange.1 hrange.2 (by decide))
  · rw [if_pos (by decide), hbytes, Option.map_some, Int64.toInt_ofNat']
    exact congrArg some (bmod_integerBytes hrange.1 hrange.2 (by decide))

/-- `intsetGet` finds every element. -/
theorem intsetGet_eq {values : List ℤ} {is : Bytes} (h : IntsetBytes values is) (pos : ℕ) :
    intsetGet is pos = some values[pos]? := by
  obtain ⟨k, tail, hk, hlength, hrange, rfl⟩ := h
  have hencoding : bytesAt (littleEndian 4 k ++ (littleEndian 4 values.length ++
      (values.flatMap (integerBytes k) ++ tail))) 0 4 = some (littleEndian 4 k) :=
    @bytesAt_front [] _ _ _ (length_littleEndian 4 k)
  have hcount : bytesAt (littleEndian 4 k ++ (littleEndian 4 values.length ++
      (values.flatMap (integerBytes k) ++ tail))) 4 4 = some (littleEndian 4 values.length) := by
    have := @bytesAt_front (littleEndian 4 k) _ (values.flatMap (integerBytes k) ++ tail) _
      (length_littleEndian 4 values.length)
    rwa [length_littleEndian] at this
  have hk256 : k < 256 ^ 4 := by omega
  rw [intsetGet]
  simp only [Option.bind_eq_bind, hencoding, hcount, Option.bind_some]
  rw [ofLittleEndian_of_lt (by omega), ofLittleEndian_of_lt hk256]
  by_cases hpos : pos < values.length
  · have hget := List.getElem?_eq_getElem hpos
    have hfront : (littleEndian 4 k ++ littleEndian 4 values.length).length = 8 := by
      rw [List.length_append, length_littleEndian, length_littleEndian]
    rw [if_pos hpos, hget, ← List.append_assoc, intsetGetEncoded_eq hk hfront (by omega) hget
      (hrange _ (List.getElem_mem hpos))]
    rfl
  · rw [if_neg hpos, List.getElem?_eq_none (Nat.le_of_not_lt hpos)]
    rfl

/-- The loop over an intset with elements ends before the first one. -/
theorem intsetElements_eq {values : List ℤ} {is : Bytes} (h : IntsetBytes values is)
    (hne : values ≠ []) : intsetElements is = some [] := by
  obtain ⟨v, values, rfl⟩ := List.exists_cons_of_ne_nil hne
  rw [intsetElements, intsetLoop, intsetGet_eq h]
  rfl

/-- The loop over an intset without elements has no end. -/
theorem intsetLoop_empty {is : Bytes} (h : IntsetBytes [] is) (fuel ii : ℕ) (llele : ℤ) :
    intsetLoop is fuel ii llele = none := by
  induction fuel generalizing ii with
  | zero => rfl
  | succ fuel ih =>
    rw [intsetLoop, intsetGet_eq h]
    simp only [Option.bind_eq_bind, Option.bind_some, List.getElem?_nil, ih, Option.bind_none]

/-! ### Loading -/

/-- What the loops get from a string. -/
def packed : Packed where
  ziplist zl := (ziplistEntries zl).getD []
  intset is := (intsetElements is).getD []
  zipmap zm := (zipmapEntries zm).getD []

/-- The loop over a string ends, and reads nothing outside of it. -/
def loopEnds (type : UInt8) (aux : Bytes) : Bool :=
  if type = 9 then (zipmapEntries aux).isSome
  else if type = 11 then (intsetElements aux).isSome
  else (ziplistEntries aux).isSome

/-- A value in a string, and the members of it that are loaded. -/
inductive PackedBytes (libc : Libc) : UInt8 → Content → Bytes → Prop
  | hashZipmap {entries : List (Bytes × Bytes)} {zm : Bytes} (h : ZipmapBytes entries zm) :
      PackedBytes libc 9 (.hash entries) zm
  | listZiplist {entries : List (Bytes ⊕ ℤ)} {zl : Bytes} (h : ZiplistBytes entries zl) :
      PackedBytes libc 10 (.list (entries.map entryText)) zl
  | setIntset {values : List ℤ} {is : Bytes} (h : IntsetBytes values is) (hne : values ≠ []) :
      PackedBytes libc 11 (.set []) is
  | zsetZiplist {entries : List (Bytes ⊕ ℤ)} {members : List (Bytes × Double)} {zl : Bytes}
      (h : ZiplistBytes entries zl) (hmembers : scoredMembers libc entries = some members) :
      PackedBytes libc 12 (.zset members) zl
  | hashZiplist {entries : List (Bytes ⊕ ℤ)} {zl : Bytes} (h : ZiplistBytes entries zl) :
      PackedBytes libc 13 (.hash ((pairs entries).map (Prod.map entryText entryText))) zl

variable {lzf : Lzf} {libc : Libc} {type : UInt8} {c : Content} {aux : Bytes}

theorem loopEnds_of_packedBytes (h : PackedBytes libc type c aux) : loopEnds type aux := by
  have hziplist {type : UInt8} {entries : List (Bytes ⊕ ℤ)} (hzipmap : type ≠ 9) (hintset : type ≠ 11)
      (hzl : ZiplistBytes entries aux) : loopEnds type aux := by
    rw [loopEnds, if_neg hzipmap, if_neg hintset, ziplistEntries_eq hzl, Option.isSome_some]
  cases h with
  | hashZipmap h => rw [loopEnds, if_pos rfl, zipmapEntries_eq h, Option.isSome_some]
  | listZiplist h => exact hziplist (by decide) (by decide) h
  | setIntset h hne =>
    rw [loopEnds, if_neg (by decide), if_pos rfl, intsetElements_eq h hne, Option.isSome_some]
  | zsetZiplist h => exact hziplist (by decide) (by decide) h
  | hashZiplist h => exact hziplist (by decide) (by decide) h

/-- A string with a value in it is a value of the file. -/
theorem objectBytes_packed (h : PackedBytes libc type c aux) (hbs : StringBytes lzf aux bs) :
    ObjectBytes ⟨lzf, libc, packed⟩ type c bs := by
  have hziplist {entries : List (Bytes ⊕ ℤ)} (hzl : ZiplistBytes entries aux) :
      packed.ziplist aux = entries := by
    change (ziplistEntries aux).getD [] = entries
    rw [ziplistEntries_eq hzl, Option.getD_some]
  cases h with
  | @hashZipmap entries zm h =>
    have heq : packed.zipmap aux = entries := by
      change (zipmapEntries aux).getD [] = entries
      rw [zipmapEntries_eq h, Option.getD_some]
    exact heq ▸ @ObjectBytes.hashZipmap ⟨lzf, libc, packed⟩ aux bs hbs
  | listZiplist h => exact hziplist h ▸ @ObjectBytes.listZiplist ⟨lzf, libc, packed⟩ aux bs hbs
  | setIntset h hne =>
    have heq : packed.intset aux = [] := by
      change (intsetElements aux).getD [] = []
      rw [intsetElements_eq h hne, Option.getD_some]
    have hobject := @ObjectBytes.setIntset ⟨lzf, libc, packed⟩ aux bs hbs
    rwa [heq] at hobject
  | zsetZiplist h hmembers =>
    exact @ObjectBytes.zsetZiplist ⟨lzf, libc, packed⟩ aux bs _ hbs ((hziplist h).symm ▸ hmembers)
  | hashZiplist h => exact hziplist h ▸ @ObjectBytes.hashZiplist ⟨lzf, libc, packed⟩ aux bs hbs

/-- **A value in a string is loaded member by member**, in every encoding of its entries. The loop
reads nothing outside of the string. -/
theorem consumes_packed (h : PackedBytes libc type c aux) (hbs : StringBytes lzf aux bs) (key : Bytes) :
    loopEnds type aux ∧
      Consumes (redisLoadObject ⟨lzf, libc, packed⟩ type key) bs () fun db store =>
        store.update db key c.load :=
  ⟨loopEnds_of_packedBytes h, consumes_redisLoadObject key (objectBytes_packed h hbs)⟩

/-- The list of `a` and 5. -/
def listOfTwo : Bytes := [16, 0, 0, 0, 13, 0, 0, 0, 2, 0, 0, 1, 97, 3, 0xF6, 255]

theorem consumes_packed_list : loopEnds 10 listOfTwo ∧
    Consumes (redisLoadObject ⟨plainFormats.lzf, plainFormats.libc, packed⟩ 10 [107])
      (16 :: listOfTwo) () fun db store => store.update db [107] (Content.list [[97], [53]]).load := by
  have hfirst : EntryBytes (.inl [97]) [0, 1, 97] :=
    ⟨[0], [1, 97], rfl, .one (by decide), .str6 (s := [97]) (by decide)⟩
  have hsecond : EntryBytes (.inr 5) [3, 0xF6] :=
    ⟨[3], [0xF6], rfl, .one (by decide), .immediate (v := 5) (by decide)⟩
  have hlist : ZiplistBytes [.inl [97], .inr 5] listOfTwo :=
    ⟨[16, 0, 0, 0, 13, 0, 0, 0, 2, 0], [[0, 1, 97], [3, 0xF6]], [], rfl,
      .cons hfirst (.cons hsecond .nil), rfl⟩
  exact consumes_packed (.listZiplist hlist) (@StringBytes.raw _ listOfTwo [16] (.six (by decide))) [107]

/-- **The members of a set in an intset are not loaded**, though `intsetGet` finds them all. Without
members the loop does not end. -/
theorem intset_not_loaded {values : List ℤ} (h : IntsetBytes values aux)
    (hbs : StringBytes lzf aux bs) (key : Bytes) :
    (∀ pos, intsetGet aux pos = some values[pos]?) ∧
      (values ≠ [] → Consumes (redisLoadObject ⟨lzf, libc, packed⟩ 11 key) bs () keeps) ∧
      (values = [] → ∀ rounds, intsetLoop aux rounds 0 0 = none) := by
  refine ⟨intsetGet_eq h, fun hne => ?_, ?_⟩
  · have hload := consumes_redisLoadObject key
      (@objectBytes_packed _ lzf libc _ _ _ (.setIntset h hne) hbs)
    have hid : (fun db store => Store.update store db key (Content.set []).load) = keeps := by
      funext db store
      exact store.update_id db key
    exact hid ▸ hload
  · rintro rfl rounds
    exact intsetLoop_empty h rounds 0 0

/-- The set of 7. -/
theorem intset_not_loaded_seven :
    (∀ pos, intsetGet [2, 0, 0, 0, 1, 0, 0, 0, 7, 0] pos = some [(7 : ℤ)][pos]?) ∧
      Consumes (redisLoadObject ⟨plainFormats.lzf, plainFormats.libc, packed⟩ 11 [107])
        [10, 2, 0, 0, 0, 1, 0, 0, 0, 7, 0] () keeps := by
  have h : IntsetBytes [7] [2, 0, 0, 0, 1, 0, 0, 0, 7, 0] :=
    ⟨2, [], .inl rfl, by decide, by simp, by decide⟩
  obtain ⟨hget, hload, -⟩ := intset_not_loaded h
    (@StringBytes.raw plainFormats.lzf _ [10] (.six (by decide))) [107]
  exact ⟨hget, hload (List.cons_ne_nil _ _)⟩

end Rdb
end Comms
