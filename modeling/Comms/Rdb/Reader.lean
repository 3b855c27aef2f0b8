import Comms.Codec.Crc64
import Comms.Codec.RedisReply
import Comms.Rdb.Store

/-!
# Reading a snapshot

`Read` and the functions `RedisRead…` of `snapshot.cpp`. A reader has what is left of the file, the
checksum of what it has read, the database it is at, and the store it loads into.

* `Failure`, `Load` — what can stop a load, and programs that read;
* `read?`, `read` — `Read`, by chunks of two megabytes;
* `redisReadType`, `redisReadTime`, `redisReadMillisecondTime`, `redisReadLen`, `redisReadInteger`,
  `redisReadLzfStringObject`, `redisReadDoubleValue`, `redisReadString` — from the source;
* `Consumes` — a program that takes some bytes from the front, whatever follows, and changes the
  store;
* `Consumes.bind` — such programs in a row;
* `consumes_read` — `Read`, whatever the number of chunks.

Memory does not run out. What is outside of `src/`, or floating point, is a parameter: `Lzf` and
`Libc`.
-/

namespace Comms
namespace Rdb

/-- `lzf_compress` and `lzf_decompress`. The first gets the size of the output, the second the
number of bytes to expect; `none` is their `0`. -/
structure Lzf where
  compress : Bytes → ℕ → Option Bytes
  decompress : Bytes → ℕ → Option Bytes

/-- What `strtod`, `"%.17g"` and the conversion of a `long long` to `double` do where the number is
not a whole one of at most 53 bits. -/
structure Libc where
  strtod : Bytes → Double
  print : ℚ → Bytes
  round : ℤ → Double

/-- Why a load ends. -/
inductive Failure
  /-- It returns `-1`. -/
  | returned
  /-- `abort()`. -/
  | abort
  /-- `exit(1)`. -/
  | exit
  /-- It writes behind an array. -/
  | wild
deriving DecidableEq

/-- `Snapshot`, as far as a load goes. -/
structure Reader where
  rest : Bytes
  cksm : UInt64
  currentDb : UInt32
  kv : Store

/-- A program that reads. -/
abbrev Load := EStateM Failure Reader

/-- `max_read_bytes`. -/
def maxReadBytes : ℕ := 1024 * 1024 * 2

/-- The loop of `Read`. A `fread` that finds too little takes what there is. -/
def readLoop : ℕ → ℕ → Bytes → Reader → EStateM.Result Failure Reader (Option Bytes)
  | 0, _, buf, r => .ok (some buf) r
  | fuel + 1, buflen, buf, r =>
    if buflen = 0 then .ok (some buf) r
    else
      let bytesToRead := min maxReadBytes buflen
      if r.rest.length < bytesToRead then .ok none { r with rest := [] }
      else
        readLoop fuel (buflen - bytesToRead) (buf ++ r.rest.take bytesToRead)
          { r with
            rest := r.rest.drop bytesToRead
            cksm := crc64 r.cksm (r.rest.take bytesToRead) }

/-- `Read`; `none` is `false`. `Open` has cleared `routine_cb`. -/
def read? (buflen : ℕ) : Load (Option Bytes) := fun r => readLoop (buflen + 1) buflen [] r

/-- `Read`, where the caller returns if it returns `false`. -/
def read (buflen : ℕ) : Load Bytes := do
  match ← read? buflen with
  | some buf => return buf
  | none => throw .returned

/-- A number of some bytes, lowest byte first. -/
def ofLittleEndian (bs : Bytes) : ℕ := bs.foldr (fun b n => b.toNat + 256 * n) 0

/-- `RedisReadType`. -/
def redisReadType : Load UInt8 := do
  let buf ← read 1
  return buf.headD 0

/-- `RedisReadTime`: an `int32_t`. -/
def redisReadTime : Load Int64 := do
  let buf ← read 4
  return (Int32.ofNat (ofLittleEndian buf)).toInt64

/-- `RedisReadMillisecondTime`. -/
def redisReadMillisecondTime : Load Int64 := do
  let buf ← read 8
  return Int64.ofNat (ofLittleEndian buf)

/-- `REDIS_RDB_LENERR`. -/
def lenErr : UInt32 := 4294967295

/-- `ntohl` of four bytes of the file. -/
def ntohl (buf : Bytes) : UInt32 := UInt32.ofNat (ofLittleEndian buf.reverse)

/-- A length, or a special encoding, that starts with the byte `b`. -/
def lenForm (b : UInt8) : Load (UInt32 × Bool) :=
  let type := (b &&& 0xC0) >>> 6
  if type = 3 then return ((b &&& 0x3F).toUInt32, true)
  else if type = 0 then return ((b &&& 0x3F).toUInt32, false)
  else if type = 1 then do
    match ← read? 1 with
    | none => return (lenErr, false)
    | some buf => return ((b &&& 0x3F).toUInt32 <<< 8 ||| (buf.headD 0).toUInt32, false)
  else do
    match ← read? 4 with
    | none => return (lenErr, false)
    | some len => return (ntohl len, false)

/-- `RedisReadLen`: the length, and `isencoded`. -/
def redisReadLen : Load (UInt32 × Bool) := do
  match ← read? 1 with
  | none => return (lenErr, false)
  | some buf => lenForm (buf.headD 0)

/-- `RedisReadLen(NULL)`, where the caller returns at `REDIS_RDB_LENERR`. -/
def redisReadCount : Load UInt32 := do
  let (len, _) ← redisReadLen
  if len = lenErr then throw .returned
  return len

/-- `RedisReadLzfStringObject`. -/
def redisReadLzfStringObject (lzf : Lzf) : Load Bytes := do
  let clen ← redisReadCount
  let len ← redisReadCount
  let c ← read clen.toNat
  match lzf.decompress c len.toNat with
  | none => throw .returned
  | some val => return val

/-- `RedisReadInteger`. -/
def redisReadInteger (enctype : UInt32) : Load ℤ := do
  if enctype = 0 then
    let enc ← read 1
    return (Int8.ofNat (ofLittleEndian enc)).toInt
  else if enctype = 1 then
    let enc ← read 2
    return (Int16.ofNat (ofLittleEndian enc)).toInt
  else if enctype = 2 then
    let enc ← read 4
    return (Int32.ofNat (ofLittleEndian enc)).toInt
  else throw .abort

/-- The integer of `RedisReadString`. One that cannot be read is an empty string. -/
def integerString (enctype : UInt32) : Load Bytes := fun r =>
  match redisReadInteger enctype r with
  | .ok v r => .ok (decimalSigned v) r
  | .error _ r => .ok [] r

/-- `RedisReadString`. -/
def redisReadString (lzf : Lzf) : Load Bytes := do
  let (len, isencoded) ← redisReadLen
  if isencoded then
    if len = 0 ∨ len = 1 ∨ len = 2 then integerString len
    else if len = 3 then redisReadLzfStringObject lzf
    else throw .abort
  else if len = lenErr then throw .returned
  else read len.toNat

/-- A text that is a whole number of at most 53 bits, as it is printed. -/
def wholeNumber (text : Bytes) : Option ℤ :=
  let v := (strtol (text ++ [0])).1
  if decimalSigned v = text ∧ v.natAbs ≤ 2 ^ 53 then some v else none

/-- `strtod`, and `sscanf` with `"%lg"`. -/
def Libc.scan (libc : Libc) (text : Bytes) : Double :=
  match wholeNumber text with
  | some v => .fin v
  | none => libc.strtod text

/-- A score behind its first byte. The buffer takes 127 bytes and a zero. -/
def doubleForm (libc : Libc) (len : UInt8) : Load Double :=
  if len = 255 then return .inf true
  else if len = 254 then return .inf false
  else if len = 253 then return .nan
  else if 128 ≤ len then throw .wild
  else do
    let text ← read len.toNat
    return libc.scan (text.takeWhile (· ≠ 0))

/-- `RedisReadDoubleValue`. -/
def redisReadDoubleValue (libc : Libc) : Load Double := do
  let buf ← read 1
  doubleForm libc (buf.headD 0)

/-! ### Bytes from the front -/

/-- The store as it is. -/
def keeps (_ : UInt32) (store : Store) : Store := store

/-- The program takes `bs` from the front, whatever follows, gives `a`, and does `u` to the store.
-/
def Consumes {α : Type} (f : Load α) (bs : Bytes) (a : α) (u : UInt32 → Store → Store) : Prop :=
  ∀ r tail, r.rest = bs ++ tail →
    f r = .ok a ⟨tail, crc64 r.cksm bs, r.currentDb, u r.currentDb r.kv⟩

namespace Consumes

variable {α β : Type} {f : Load α} {g : α → Load β} {l m : Bytes} {a : α} {b : β}
  {u v : UInt32 → Store → Store}

theorem pure (a : α) : Consumes (Pure.pure a) [] a keeps := fun r tail h => by
  rw [List.nil_append] at h
  subst h
  rfl

/-- One program after the other. -/
theorem bind (hf : Consumes f l a u) (hg : Consumes (g a) m b v) :
    Consumes (f >>= g) (l ++ m) b fun db store => v db (u db store) := by
  intro r tail h
  rw [List.append_assoc] at h
  change EStateM.bind f g r = _
  rw [EStateM.bind, hf r _ h]
  change g a _ = _
  rw [hg _ tail rfl, crc64_append]

/-- Two readings that leave the store alone. -/
theorem bind' (hf : Consumes f l a keeps) (hg : Consumes (g a) m b v) :
    Consumes (f >>= g) (l ++ m) b v := hf.bind hg

/-- The second program reads nothing. -/
theorem bindNil (hf : Consumes f l a u) (hg : Consumes (g a) [] b v) :
    Consumes (f >>= g) l b fun db store => v db (u db store) := by
  have h := hf.bind hg
  rw [List.append_nil] at h
  exact h

/-- A program that changes what another has read. -/
theorem map (hf : Consumes f l a u) (k : α → β) :
    Consumes (f >>= fun a => Pure.pure (k a)) l (k a) u :=
  hf.bindNil (g := fun a => Pure.pure (k a)) (v := keeps) (Consumes.pure (k a))

end Consumes

/-- The chunks of `Read` together. -/
theorem readLoop_some (fuel buflen : ℕ) (buf : Bytes) (r : Reader) (hfuel : buflen < fuel)
    (h : buflen ≤ r.rest.length) :
    readLoop fuel buflen buf r = .ok (some (buf ++ r.rest.take buflen))
      { r with rest := r.rest.drop buflen, cksm := crc64 r.cksm (r.rest.take buflen) } := by
  induction fuel generalizing buflen buf r with
  | zero => omega
  | succ fuel ih =>
    rw [readLoop]
    by_cases hzero : buflen = 0
    · subst hzero
      rw [if_pos rfl, List.take_zero, List.append_nil]
      rfl
    have hchunk : 0 < min maxReadBytes buflen := lt_min (by decide) (Nat.pos_of_ne_zero hzero)
    have hle : min maxReadBytes buflen ≤ buflen := min_le_right _ _
    dsimp only
    generalize min maxReadBytes buflen = n at hchunk hle
    rw [if_neg hzero, if_neg (by omega), ih _ _ _ (by omega) (by rw [List.length_drop]; omega)]
    -- the first chunk and the others
    have htake : r.rest.take n ++ (r.rest.drop n).take (buflen - n) = r.rest.take buflen := by
      rw [← List.take_add, Nat.add_sub_cancel' hle]
    have hdrop : (r.rest.drop n).drop (buflen - n) = r.rest.drop buflen := by
      rw [List.drop_drop, Nat.add_sub_cancel' hle]
    dsimp only
    rw [List.append_assoc, hdrop, ← crc64_append, htake]

theorem readLoop_none (fuel buflen : ℕ) (buf : Bytes) (r : Reader) (hfuel : buflen < fuel)
    (h : r.rest.length < buflen) :
    ∃ cksm, readLoop fuel buflen buf r = .ok none { r with rest := [], cksm := cksm } := by
  induction fuel generalizing buflen buf r with
  | zero => omega
  | succ fuel ih =>
    rw [readLoop]
    have hchunk : 0 < min maxReadBytes buflen := lt_min (by decide) (by omega)
    have hle : min maxReadBytes buflen ≤ buflen := min_le_right _ _
    rw [if_neg (by omega)]
    dsimp only
    generalize min maxReadBytes buflen = n at hchunk hle
    split
    next => exact ⟨r.cksm, rfl⟩
    next hfits =>
      obtain ⟨cksm, hloop⟩ := ih (buflen - n) (buf ++ r.rest.take n)
        { r with rest := r.rest.drop n, cksm := crc64 r.cksm (r.rest.take n) } (by omega)
        (by rw [List.length_drop]; omega)
      exact ⟨cksm, hloop⟩

theorem consumes_read? {n : ℕ} {l : Bytes} (h : l.length = n) :
    Consumes (read? n) l (some l) keeps := by
  intro r tail hr
  subst h
  have hle : l.length ≤ r.rest.length := by
    rw [hr, List.length_append]
    exact Nat.le_add_right _ _
  rw [read?, readLoop_some _ _ _ _ (Nat.lt_succ_self _) hle, hr, List.take_left', List.drop_left']
  · rfl
  · rfl
  · rfl

/-- `Read` of as many bytes as there are. -/
theorem consumes_read {n : ℕ} {l : Bytes} (h : l.length = n) : Consumes (read n) l l keeps :=
  (consumes_read? h).bindNil (v := keeps) (Consumes.pure l)

/-- `Read` of more than there is. -/
theorem read_short {n : ℕ} {r : Reader} (h : r.rest.length < n) :
    ∃ r', read n r = .error .returned r' := by
  obtain ⟨cksm, hloop⟩ := readLoop_none (n + 1) n [] r (Nat.lt_succ_self n) h
  refine ⟨{ r with rest := [], cksm := cksm }, ?_⟩
  change EStateM.bind (read? n) _ r = _
  rw [EStateM.bind, read?, hloop]
  rfl

end Rdb
end Comms
