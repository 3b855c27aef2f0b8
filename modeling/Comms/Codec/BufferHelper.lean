import Comms.Codec.BufferFifo
import Comms.Command.Args
import Comms.Lib.BinaryFormat

/-!
# Binary values in a buffer

`BufferHelper` writes numbers and strings behind the bytes of a `Buffer`, and reads them from the
front. A `Read*` assigns its output variable or leaves it as it is.

* `writeFixUInt64`, `readFixUInt64`, .. — numbers of a fixed size, in either byte order;
* `writeVarUInt64`, `readVarUInt64`, .. — numbers in groups of seven bits;
* `writeFixString`, `readFixString`, .. — strings, behind their length;
* `Format` — the writers and readers that belong together;
* `Format.Survives` — the values that come back.
-/

namespace Comms

namespace BufferHelper

open BinaryFormat

/-! ### Reading and writing -/

/-- A `Write*`: whether it returns `true`, and the buffer. `none` is a write behind an array. -/
abbrev Writer := HeapBuffer → Option (Bool × HeapBuffer)

/-- A `Read*`: what the output variable holds when it returns `true`, and the buffer. -/
abbrev Reader (α : Type) := HeapBuffer → Option α × HeapBuffer

/-- `Buffer::Write`, with memory that is there. -/
def write (h : HeapBuffer) (data : Bytes) : ℤ × HeapBuffer :=
  (SizedBuffer.int32 data.length, h.write data)

/-- `Buffer::Read` of `n` bytes, the result of which is compared with `n` as an `int`. -/
def readBytes (n : ℕ) : Reader Bytes := fun h =>
  let r := SizedBuffer.read h n
  (if r.1 = SizedBuffer.int32 n then some r.2.1 else none, r.2.2)

/-- What is read is converted. -/
def Reader.map {α β : Type} (f : α → β) (r : Reader α) : Reader β := fun h =>
  ((r h).1.map f, (r h).2)

def Reader.pure {α : Type} (a : α) : Reader α := fun h => (some a, h)

/-- One reader after another, which is not reached when the first returns `false`. -/
def Reader.bind {α β : Type} (r : Reader α) (f : α → Reader β) : Reader β := fun h =>
  match r h with
  | (none, h) => (none, h)
  | (some a, h) => f a h

/-! ### Numbers of a fixed size -/

/-- The byte order of the machine. -/
inductive Host
  | little
  | big
deriving DecidableEq, Repr

variable (host : Host)

/-- The number in memory, in `k` bytes. -/
def memory (k n : ℕ) : Bytes :=
  match host with
  | .little => leBytes k n
  | .big => (leBytes k n).reverse

/-- The number that is in memory. -/
def ofMemory (bytes : Bytes) : ℕ :=
  match host with
  | .little => ofLE bytes
  | .big => ofLE bytes.reverse

/-- `htons`, `htonl`; `ntohs`, `ntohl`. -/
def hton (k n : ℕ) : ℕ :=
  match host with
  | .little => swap k n
  | .big => n

/-- `hton_u64`; `ntoh_u64`. -/
def htonU64 (v : ℕ) : ℕ :=
  match host with
  | .little => (hton host 4 (v &&& 0xFFFFFFFF)) <<< 32 ||| hton host 4 (v >>> 32)
  | .big => v

/-- A number of `k` bytes; `order` is the conversion to network order. -/
def writeFix (k : ℕ) (order : ℕ → ℕ) (i : ℕ) (toNetwork : Bool) : Writer := fun h =>
  let r := write h (memory host k (if toNetwork then order i else i))
  some (decide (r.1 = k), r.2)

def readFix (k : ℕ) (order : ℕ → ℕ) (fromNetwork : Bool) : Reader ℕ :=
  (readBytes k).map fun bytes =>
    if fromNetwork then order (ofMemory host bytes) else ofMemory host bytes

/-- `WriteBool`. -/
def writeBool (value : Bool) : Writer := fun h => some (true, (write h [value.toUInt8]).2)

/-- `ReadBool`. -/
def readBool : Reader Bool := (readBytes 1).map fun bytes => bytes.headD 0 ≠ 0

/-- `WriteFixUInt64`. -/
def writeFixUInt64 (i : BitVec 64) (toNetwork : Bool) : Writer :=
  writeFix host 8 (htonU64 host) i.toNat toNetwork

/-- `ReadFixUInt64`. -/
def readFixUInt64 (fromNetwork : Bool) : Reader (BitVec 64) :=
  (readFix host 8 (htonU64 host) fromNetwork).map (BitVec.ofNat 64)

/-- `WriteFixInt64`. -/
def writeFixInt64 (i : BitVec 64) (toNetwork : Bool) : Writer := writeFixUInt64 host i toNetwork

/-- `ReadFixInt64`. -/
def readFixInt64 (fromNetwork : Bool) : Reader (BitVec 64) := readFixUInt64 host fromNetwork

/-- `WriteFixUInt32`. -/
def writeFixUInt32 (i : BitVec 32) (toNetwork : Bool) : Writer :=
  writeFix host 4 (hton host 4) i.toNat toNetwork

/-- `ReadFixUInt32`. -/
def readFixUInt32 (fromNetwork : Bool) : Reader (BitVec 32) :=
  (readFix host 4 (hton host 4) fromNetwork).map (BitVec.ofNat 32)

/-- `WriteFixInt32`. -/
def writeFixInt32 (i : BitVec 32) (toNetwork : Bool) : Writer := writeFixUInt32 host i toNetwork

/-- `ReadFixInt32`. -/
def readFixInt32 (fromNetwork : Bool) : Reader (BitVec 32) := readFixUInt32 host fromNetwork

/-- `WriteFixUInt16`. -/
def writeFixUInt16 (i : BitVec 16) (toNetwork : Bool) : Writer :=
  writeFix host 2 (hton host 2) i.toNat toNetwork

/-- `ReadFixUInt16`. -/
def readFixUInt16 (fromNetwork : Bool) : Reader (BitVec 16) :=
  (readFix host 2 (hton host 2) fromNetwork).map (BitVec.ofNat 16)

/-- `WriteFixInt16`. -/
def writeFixInt16 (i : BitVec 16) (toNetwork : Bool) : Writer := writeFixUInt16 host i toNetwork

/-- `ReadFixInt16`. -/
def readFixInt16 (fromNetwork : Bool) : Reader (BitVec 16) := readFixUInt16 host fromNetwork

/-- `WriteFixUInt8`; `WriteFixInt8`. -/
def writeFixUInt8 (i : BitVec 8) : Writer := writeFix host 1 id i.toNat false

/-- `ReadFixUInt8`; `ReadFixInt8`. -/
def readFixUInt8 : Reader (BitVec 8) := (readFix host 1 id false).map (BitVec.ofNat 8)

/-! ### Groups of seven bits -/

def kMaxVarintBytes : ℕ := 10

def kMaxVarint32Bytes : ℕ := 5

/-- The loop of `WriteVarUInt64` and `WriteVarUInt32`, over an array with `room` for the groups. -/
def writeVarint (room i : ℕ) : Writer := fun h =>
  (varint room i).map fun bytes =>
    let r := write h bytes
    (decide (SizedBuffer.int32 bytes.length = r.1), r.2)

/-- The loop of `ReadVarUInt64`; `fuel` is what is left of `kMaxVarintBytes`. -/
def readVarint : ℕ → ℕ → ℕ → Reader ℕ
  | 0, _, _, h => (none, h)
  | fuel + 1, count, result, h =>
    match readBytes 1 h with
    | (none, h) => (none, h)
    | (some bytes, h) =>
      let b := bytes.headD 0
      let result := result ||| ((b &&& 0x7F).toNat <<< (7 * count)) % 2 ^ 64
      if b &&& 0x80 ≠ 0 then readVarint fuel (count + 1) result h else (some result, h)

/-- `WriteVarUInt64`. -/
def writeVarUInt64 (i : BitVec 64) : Writer := writeVarint kMaxVarintBytes i.toNat

/-- `ReadVarUInt64`. -/
def readVarUInt64 : Reader (BitVec 64) :=
  Reader.map (BitVec.ofNat 64) (readVarint kMaxVarintBytes 0 0)

/-- `WriteVarInt64`. -/
def writeVarInt64 (i : BitVec 64) : Writer := writeVarUInt64 (zigzag i)

/-- `ReadVarInt64`. -/
def readVarInt64 : Reader (BitVec 64) := readVarUInt64.map unzigzag

/-- `WriteVarUInt32`. -/
def writeVarUInt32 (i : BitVec 32) : Writer := writeVarint kMaxVarint32Bytes i.toNat

/-- `ReadVarUInt32`. -/
def readVarUInt32 : Reader (BitVec 32) := readVarUInt64.map (BitVec.setWidth 32)

/-- `WriteVarInt32`. -/
def writeVarInt32 (i : BitVec 32) : Writer := writeVarUInt32 (zigzag i)

/-- `ReadVarInt32`. -/
def readVarInt32 : Reader (BitVec 32) :=
  readVarUInt64.map fun result => unzigzag (result.setWidth 32)

/-- `WriteVarUInt16`. -/
def writeVarUInt16 (i : BitVec 16) : Writer := writeVarUInt32 (i.setWidth 32)

/-- `ReadVarUInt16`. The number is taken for a signed one. -/
def readVarUInt16 : Reader (BitVec 16) :=
  readVarUInt64.map fun result => (unzigzag (result.setWidth 32)).setWidth 16

/-- `WriteVarInt16`. The sign is encoded here and in `WriteVarInt32` again. -/
def writeVarInt16 (i : BitVec 16) : Writer := writeVarInt32 (zigzag (i.signExtend 32))

/-- `ReadVarInt16`. -/
def readVarInt16 : Reader (BitVec 16) := readVarUInt64.map (BitVec.setWidth 16)

/-! ### Strings -/

/-- What a `const char*` points to, up to the terminating NUL. -/
def CString := { s : Bytes // 0 ∉ s }

theorem zero_not_mem_cStr (bytes : Bytes) : 0 ∉ cStr bytes := fun hmem => by
  simpa using List.mem_takeWhile_imp hmem

/-- The length, and then the bytes when it could be written. -/
def writeCounted (count : Writer) (str : Bytes) : Writer := fun h =>
  (count h).map fun r =>
    if r.1 then
      let r' := write r.2 str
      (decide (str.length = r'.1 % 2 ^ 64), r'.2)
    else (false, r.2)

/-- The length, and then the bytes into `str`, which stays as it is when there are none. -/
def readCounted (count : Reader (BitVec 32)) (str : Bytes) : Reader Bytes :=
  count.bind fun len => if len = 0 then .pure str else readBytes len.toNat

/-- The same with `char*&`, which becomes `NULL` when there are none. -/
def readCountedPtr (count : Reader (BitVec 32)) : Reader (Option CString) :=
  count.bind fun len =>
    if len = 0 then .pure none
    else (readBytes len.toNat).map fun temp => some ⟨cStr temp, zero_not_mem_cStr temp⟩

/-- `WriteFixString(const string&)`. -/
def writeFixString (str : Bytes) (toNetwork : Bool) : Writer :=
  writeCounted (writeFixUInt32 host (BitVec.ofNat 32 str.length) toNetwork) str

/-- `ReadFixString(string&)`. -/
def readFixString (str : Bytes) (fromNetwork : Bool) : Reader Bytes :=
  readCounted (readFixUInt32 host fromNetwork) str

/-- `WriteFixString(const char*)`. -/
def writeFixCString (str : Option CString) (toNetwork : Bool) : Writer :=
  match str with
  | none => writeFixUInt32 host 0 toNetwork
  | some str =>
    writeCounted (writeFixUInt32 host (BitVec.ofNat 32 str.1.length) toNetwork) str.1

/-- `ReadFixString(char*&)`. -/
def readFixCString (fromNetwork : Bool) : Reader (Option CString) :=
  readCountedPtr (readFixUInt32 host fromNetwork)

/-- `WriteVarString(const string&)`. Whether the length could be written is not looked at. -/
def writeVarString (str : Bytes) : Writer := fun h =>
  (writeVarUInt32 (BitVec.ofNat 32 str.length) h).map fun r =>
    let r' := write r.2 str
    (decide (SizedBuffer.int32 str.length = r'.1), r'.2)

/-- `ReadVarString(string&)`. -/
def readVarString (str : Bytes) : Reader Bytes := readCounted readVarUInt32 str

/-- `WriteVarString(const char*)`. -/
def writeVarCString (str : Option CString) : Writer :=
  match str with
  | none => writeVarUInt32 0
  | some str => writeCounted (writeVarUInt32 (BitVec.ofNat 32 str.1.length)) str.1

/-- `ReadVarString(char*&)`. -/
def readVarCString : Reader (Option CString) := readCountedPtr readVarUInt32

/-! ### Writers with their readers -/

/-- A writer and the reader that matches it. -/
inductive Format
  | bool
  | fixUInt64 (network : Bool)
  | fixInt64 (network : Bool)
  | fixUInt32 (network : Bool)
  | fixInt32 (network : Bool)
  | fixUInt16 (network : Bool)
  | fixInt16 (network : Bool)
  | fixUInt8
  | varUInt64
  | varInt64
  | varUInt32
  | varInt32
  | varUInt16
  | varInt16
  | fixString (network : Bool)
  | fixCString (network : Bool)
  | varString
  | varCString
deriving DecidableEq, Repr

/-- The values of a format; a signed number is its bits. -/
def Format.Val : Format → Type
  | bool => Bool
  | fixUInt64 _ | fixInt64 _ | varUInt64 | varInt64 => BitVec 64
  | fixUInt32 _ | fixInt32 _ | varUInt32 | varInt32 => BitVec 32
  | fixUInt16 _ | fixInt16 _ | varUInt16 | varInt16 => BitVec 16
  | fixUInt8 => BitVec 8
  | fixString _ | varString => Bytes
  | fixCString _ | varCString => Option CString

def Format.write : (f : Format) → f.Val → Writer
  | bool, v => writeBool v
  | fixUInt64 network, v => writeFixUInt64 host v network
  | fixInt64 network, v => writeFixInt64 host v network
  | fixUInt32 network, v => writeFixUInt32 host v network
  | fixInt32 network, v => writeFixInt32 host v network
  | fixUInt16 network, v => writeFixUInt16 host v network
  | fixInt16 network, v => writeFixInt16 host v network
  | fixUInt8, v => writeFixUInt8 host v
  | varUInt64, v => writeVarUInt64 v
  | varInt64, v => writeVarInt64 v
  | varUInt32, v => writeVarUInt32 v
  | varInt32, v => writeVarInt32 v
  | varUInt16, v => writeVarUInt16 v
  | varInt16, v => writeVarInt16 v
  | fixString network, v => writeFixString host v network
  | fixCString network, v => writeFixCString host v network
  | varString, v => writeVarString v
  | varCString, v => writeVarCString v

/-- The reader, into a variable that holds `old`. -/
def Format.read : (f : Format) → (old : f.Val) → Reader f.Val
  | bool, _ => readBool
  | fixUInt64 network, _ => readFixUInt64 host network
  | fixInt64 network, _ => readFixInt64 host network
  | fixUInt32 network, _ => readFixUInt32 host network
  | fixInt32 network, _ => readFixInt32 host network
  | fixUInt16 network, _ => readFixUInt16 host network
  | fixInt16 network, _ => readFixInt16 host network
  | fixUInt8, _ => readFixUInt8 host
  | varUInt64, _ => readVarUInt64
  | varInt64, _ => readVarInt64
  | varUInt32, _ => readVarUInt32
  | varInt32, _ => readVarInt32
  | varUInt16, _ => readVarUInt16
  | varInt16, _ => readVarInt16
  | fixString network, old => readFixString host old network
  | fixCString network, _ => readFixCString host network
  | varString, old => readVarString old
  | varCString, _ => readVarCString

/-- The values that come back, into a variable that holds `old`: a number of 16 bits in groups of
seven only if it is `0`; a string if its length fits 32 bits, but an empty one only over an empty
one, and an empty C string not at all. -/
def Format.Survives : (f : Format) → (v old : f.Val) → Prop
  | varUInt16, v, _ | varInt16, v, _ => v = (0 : BitVec 16)
  | fixString _, v, old | varString, v, old =>
    List.length (α := UInt8) v < 2 ^ 32 ∧ (v = ([] : Bytes) → old = ([] : Bytes))
  | fixCString _, v, _ | varCString, v, _ =>
    ∀ s : CString, v = some s → s.1 ≠ [] ∧ s.1.length < 2 ^ 32
  | _, _, _ => True

end BufferHelper

end Comms
