import Comms.Rdb.Reader

/-!
# Loading a snapshot

`RedisLoadObject` and `RedisLoad` of `snapshot.cpp`.

* `Packed` — the formats of the values of the types `9` to `13`, which are strings with members in
  them;
* `redisLoadObject` — the value of a key, member by member;
* `loadLoop`, `redisLoad` — the file.
-/

namespace Comms
namespace Rdb

/-- What the loops over `ziplistNext` and `ziplistGet`, `intsetGet` and `zipmapNext` get from a
string. -/
structure Packed where
  ziplist : Bytes → List (Bytes ⊕ ℤ)
  intset : Bytes → List ℤ
  zipmap : Bytes → List (Bytes × Bytes)

/-- The code that a load calls. -/
structure Formats where
  lzf : Lzf
  libc : Libc
  packed : Packed

/-- A write to the key that is loaded. -/
def kvUpdate (key : Bytes) (f : Option Item → Option Item) : Load Unit :=
  modify fun r => { r with kv := r.kv.update r.currentDb key f }

/-- `while (len--)`. -/
def times : ℕ → Load Unit → Load Unit
  | 0, _ => pure ()
  | n + 1, f => do
    f
    times n f

/-- An entry of a ziplist as a string. -/
def entryText : Bytes ⊕ ℤ → Bytes
  | .inl vstr => vstr
  | .inr vlong => decimalSigned vlong

/-- `zzlGetScore`. Its buffer takes 127 bytes and a zero. -/
def zzlGetScore (libc : Libc) : Bytes ⊕ ℤ → Option Double
  | .inl vstr => if 128 ≤ vstr.length then none else some (libc.scan (vstr.takeWhile (· ≠ 0)))
  | .inr vlong => if vlong.natAbs ≤ 2 ^ 53 then some (.fin vlong) else some (libc.round vlong)

/-- `RedisLoadListZipList`. -/
def redisLoadListZipList (key : Bytes) : List (Bytes ⊕ ℤ) → Load Unit
  | [] => pure ()
  | entry :: entries => do
    kvUpdate key (Item.rPush (entryText entry))
    redisLoadListZipList key entries

/-- `RedisLoadZSetZipList`. A member without a score is left out. -/
def redisLoadZSetZipList (libc : Libc) (key : Bytes) : List (Bytes ⊕ ℤ) → Load Unit
  | value :: score :: entries =>
    match zzlGetScore libc score with
    | none => throw .wild
    | some score => do
      kvUpdate key (Item.zAdd score (entryText value))
      redisLoadZSetZipList libc key entries
  | _ => pure ()

/-- `RedisLoadHashZipList`. A field without a value is left out. -/
def redisLoadHashZipList (key : Bytes) : List (Bytes ⊕ ℤ) → Load Unit
  | field :: value :: entries => do
    kvUpdate key (Item.hSet (entryText field) (entryText value))
    redisLoadHashZipList key entries
  | _ => pure ()

/-- `RedisLoadSetIntSet`, with what its loop gets: it goes on as long as `intsetGet` returns 0. -/
def redisLoadSetIntSet (key : Bytes) : List ℤ → Load Unit
  | [] => pure ()
  | llele :: elements => do
    kvUpdate key (Item.sAdd (decimalSigned llele))
    redisLoadSetIntSet key elements

/-- The loop over a zipmap. -/
def redisLoadZipMap (key : Bytes) : List (Bytes × Bytes) → Load Unit
  | [] => pure ()
  | (field, value) :: entries => do
    kvUpdate key (Item.hSet field value)
    redisLoadZipMap key entries

variable (formats : Formats)

/-- `RedisLoadObject`. -/
def redisLoadObject (rdbtype : UInt8) (key : Bytes) : Load Unit :=
  if rdbtype = 0 then do
    let str ← redisReadString formats.lzf
    kvUpdate key (Item.set str)
  else if rdbtype = 1 ∨ rdbtype = 2 then do
    let len ← redisReadCount
    times len.toNat do
      let str ← redisReadString formats.lzf
      kvUpdate key (if rdbtype = 2 then Item.sAdd str else Item.rPush str)
  else if rdbtype = 3 then do
    let len ← redisReadCount
    times len.toNat do
      let str ← redisReadString formats.lzf
      let score ← redisReadDoubleValue formats.libc
      kvUpdate key (Item.zAdd score str)
  else if rdbtype = 4 then do
    let len ← redisReadCount
    times len.toNat do
      let field ← redisReadString formats.lzf
      let str ← redisReadString formats.lzf
      kvUpdate key (Item.hSet field str)
  else if rdbtype = 9 then do
    let aux ← redisReadString formats.lzf
    redisLoadZipMap key (formats.packed.zipmap aux)
  else if rdbtype = 10 then do
    let aux ← redisReadString formats.lzf
    redisLoadListZipList key (formats.packed.ziplist aux)
  else if rdbtype = 11 then do
    let aux ← redisReadString formats.lzf
    redisLoadSetIntSet key (formats.packed.intset aux)
  else if rdbtype = 12 then do
    let aux ← redisReadString formats.lzf
    redisLoadZSetZipList formats.libc key (formats.packed.ziplist aux)
  else if rdbtype = 13 then do
    let aux ← redisReadString formats.lzf
    redisLoadHashZipList key (formats.packed.ziplist aux)
  else throw .abort

/-- What is in front of a type: nothing, or a time. It gives the time in milliseconds, or `-1`, and
the type behind it. -/
def redisReadExpire (type : UInt8) : Load (Int64 × UInt8) :=
  if type = 253 then do
    let expiretime ← redisReadTime
    if expiretime = -1 then throw .returned
    let type ← redisReadType
    return (expiretime * 1000, type)
  else if type = 252 then do
    let expiretime ← redisReadMillisecondTime
    if expiretime = -1 then throw .returned
    let type ← redisReadType
    return (expiretime, type)
  else return (-1, type)

/-- A key: its name, its value, and its time. `clock` is the time when so many bytes of the file are
left. -/
def redisLoadKey (clock : ℕ → UInt64) (expiretime : Int64) (type : UInt8) : Load Unit := do
  let key ← redisReadString formats.lzf
  kvUpdate key fun _ => none
  redisLoadObject formats type key
  if expiretime ≠ -1 then
    modify fun r =>
      { r with kv := r.kv.pExpire r.currentDb key (clock r.rest.length) expiretime.toUInt64 }

/-- The loop of `RedisLoad`. Each round takes a byte at least. -/
def loadLoop (clock : ℕ → UInt64) : ℕ → Load Unit
  | 0 => throw .returned
  | fuel + 1 => do
    let type ← redisReadType
    let (expiretime, type) ← redisReadExpire type
    if type = 255 then return ()
    else if type = 254 then do
      let (currentDb, _) ← redisReadLen
      modify fun r => { r with currentDb := currentDb }
      if currentDb = lenErr then throw .returned
      loadLoop clock fuel
    else do
      redisLoadKey formats clock expiretime type
      loadLoop clock fuel

/-- `REDIS` and a version, `rdbver`. -/
def redisReadHeader : Load ℤ := do
  let buf ← read 9
  if buf.take 5 ≠ [82, 69, 68, 73, 83] then throw .returned
  let rdbver := (strtol (buf.drop 5 ++ [0])).1
  if rdbver < 1 ∨ 6 < rdbver then throw .returned
  return rdbver

/-- The checksum behind the last key. A zero says that there is none. -/
def redisReadCksm : Load Unit := do
  let r ← get
  let expected := r.cksm
  let buf ← read 8
  let cksum := UInt64.ofNat (ofLittleEndian buf)
  if cksum ≠ 0 ∧ cksum ≠ expected then throw .exit

/-- `RedisLoad`. -/
def redisLoad (clock : ℕ → UInt64) : Load Unit := do
  modify fun r => { r with currentDb := 0 }
  let rdbver ← redisReadHeader
  let r ← get
  loadLoop formats clock (r.rest.length + 1)
  if 5 ≤ rdbver then redisReadCksm

/-- `RedisLoad` of a file that has just been opened: the store behind it, or why there is none. -/
def loadFile (clock : ℕ → UInt64) (file : Bytes) (store : Store) : Except Failure Store :=
  match redisLoad formats clock ⟨file, 0, 0, store⟩ with
  | .ok _ r => .ok r.kv
  | .error failure _ => .error failure

end Rdb
end Comms
