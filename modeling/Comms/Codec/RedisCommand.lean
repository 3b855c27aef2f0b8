import Comms.Codec.Buffer

/-!
# The command decoder

`RedisCommandDecoder` of `channel/codec/redis_command_codec.cpp`: one call of `decode` takes at most
one command off a buffer, an inline line or a multibulk request, and remembers in the frame where
the raw bytes of the command lie.

The parsing functions return `1`, `0` or `-1` in the source; here they return `Parsed`. The state of
the buffer is part of the answer, because the caller puts the read index back only when more data
is needed. A string that is built with a negative length throws (`fault`).
-/

namespace Comms

/-- `"\r\n"`. -/
def kCRLF : Bytes := [13, 10]

/-- A `Buffer` wrapped around a part of another one's memory: its offset in that memory and its
length. It does not own the bytes. -/
structure View where
  off : ℕ
  len : ℕ
deriving DecidableEq, Repr

/-- The bytes a view shows, in the memory it points into. -/
def View.bytes (v : View) (mem : Bytes) : Bytes := Circular.slice mem v.off v.len

/-- `RedisCommandFrame`, less the command type, which lookup fills in. -/
structure RedisCommandFrame where
  isInline : Bool
  cmdSeted : Bool
  cmd : Bytes
  args : List Bytes
  rawMsg : View
deriving DecidableEq, Repr

namespace RedisCommandFrame

/-- `RedisCommandFrame("")`. -/
def empty : RedisCommandFrame :=
  { isInline := false, cmdSeted := false, cmd := [], args := [], rawMsg := ⟨0, 0⟩ }

/-- `Clear`, which leaves the raw message and the inline flag. -/
def clear (frame : RedisCommandFrame) : RedisCommandFrame :=
  { frame with cmdSeted := false, cmd := [], args := [] }

/-- The next word of a command: its name first, then its arguments. -/
def pushWord (frame : RedisCommandFrame) (word : Bytes) : RedisCommandFrame :=
  if frame.cmdSeted then { frame with args := frame.args ++ [word] }
  else { frame with cmd := frame.cmd ++ word, cmdSeted := true }

/-- `FillNextArgument`; `none` when `std::string` is asked for a negative length. -/
def fillNextArgument (frame : RedisCommandFrame) (buf : Buffer) (len : ℤ) :
    Option (RedisCommandFrame × Buffer) :=
  if len < 0 then none
  else some (frame.pushWord (Circular.slice buf.mem buf.readIdx len.toNat),
    buf.advanceReadIndex len)

end RedisCommandFrame

/-- What a parsing function of the decoder answers. -/
inductive Parsed (α : Type)
  /-- `1`, with the value and the buffer behind it. -/
  | done (value : α) (buffer : Buffer)
  /-- `0`: more data is needed. -/
  | more
  /-- `-1`: a protocol error, and where the buffer was left. -/
  | error (err : String) (buffer : Buffer)
  /-- An exception leaves the function. -/
  | fault
deriving DecidableEq

/-! ### Numbers -/

/-- `isspace` in the C locale. -/
def isspace (c : UInt8) : Bool := c = 32 || (9 ≤ c && c ≤ 13)

/-- `isdigit`. -/
def isdigit (c : UInt8) : Bool := 48 ≤ c && c ≤ 57

/-- The number a digit string stands for. -/
def digitsValue (ds : Bytes) : ℕ := ds.foldl (fun n d => 10 * n + (d.toNat - 48)) 0

/-- `strtol(raw, &eptr, 10)` on the bytes from `raw` on: the value, clamped to `long`, and
`eptr - raw`. -/
def strtol (raw : Bytes) : ℤ × ℕ :=
  let blanks := (raw.takeWhile isspace).length
  let sign := (raw.drop blanks).headD 0
  let signs := if sign = 43 ∨ sign = 45 then 1 else 0
  let digits := (raw.drop (blanks + signs)).takeWhile isdigit
  if digits = [] then (0, 0)
  else
    let value : ℤ := digitsValue digits
    (max (-2 ^ 63) (min (2 ^ 63 - 1) (if sign = 45 then -value else value)),
      blanks + signs + digits.length)

/-- `readBulkLen`. Its callers have checked that there are two readable bytes. -/
def readBulkLen (buffer : Buffer) : Parsed ℤ :=
  let (value, n) := strtol buffer.rawReadBuffer
  if buffer.readableBytes - 2 < n then .more
  else if buffer.rawAt n ≠ 13 ∨ buffer.rawAt (n + 1) ≠ 10 then .error "" buffer
  -- `int tmp = strtol(..)`
  else .done (value.bmod (2 ^ 32)) (buffer.advanceReadIndex (n + 2 : ℕ))

/-! ### Inline commands -/

/-- The `while (true)` loop of `ProcessInlineBuffer`; `index` is where the line ends. Every round
consumes a byte, so the readable bytes are fuel enough. -/
def inlineLoop (index : ℕ) : ℕ → Buffer → RedisCommandFrame → Option (RedisCommandFrame × Buffer)
  | 0, buffer, frame => some (frame, buffer)
  | fuel + 1, buffer, frame =>
    match buffer.readByte with
    | none => some (frame, buffer)
    | some (ch, next) =>
      if ch = 32 then inlineLoop index fuel next frame
      else
        let buffer := next.advanceReadIndex (-1)
        let current := buffer.readIdx
        if current = index then some (frame, buffer.advanceReadIndex 2)
        else
          match buffer.indexOf [32] current index with
          | none => some (frame, buffer)
          | some spaceIndex =>
            match frame.fillNextArgument buffer ((spaceIndex : ℤ) - current) with
            | none => none
            | some (frame, buffer) => inlineLoop index fuel (buffer.advanceReadIndex 1) frame

/-- What `ProcessInlineBuffer` does behind the loop: the last word of a line that does not end in a
space. -/
def inlineTail (index : ℕ) (frame : RedisCommandFrame) (buffer : Buffer) :
    Parsed RedisCommandFrame :=
  let current := buffer.readIdx
  if current < index then
    match frame.fillNextArgument buffer ((index : ℤ) - current) with
    | none => .fault
    | some (frame, buffer) => .done frame (buffer.advanceReadIndex 2)
  else .done frame buffer

/-- `ProcessInlineBuffer`. -/
def processInlineBuffer (buffer : Buffer) (frame : RedisCommandFrame) : Parsed RedisCommandFrame :=
  match buffer.indexOf kCRLF buffer.readIdx buffer.writeIdx with
  | none => .more
  | some index =>
    match inlineLoop index (buffer.readableBytes + 1) buffer frame with
    | none => .fault
    | some (frame, buffer) => inlineTail index frame buffer

/-! ### Multibulk commands -/

/-- `512 * 1024 * 1024`. -/
def maxBulk : ℤ := 536870912

/-- `sprintf(temp, "Protocol error: expected '$', , got '%c'", ch)`, read back as a C string. -/
def expectedDollar (ch : UInt8) : String :=
  "Protocol error: expected '$', , got '" ++
    (if ch = 0 then "" else String.singleton (Char.ofNat ch.toNat) ++ "'")

/-- One round of the `while (parsed_args < multibulklen)` loop: the next bulk string. -/
def processBulk (buffer : Buffer) (frame : RedisCommandFrame) : Parsed RedisCommandFrame :=
  if buffer.readableBytes < 4 then .more
  else
    match buffer.readByte with
    | none => .more
    | some (expected, buffer) =>
      if expected ≠ 36 then .error (expectedDollar (buffer.rawAt 0)) buffer
      else
        match readBulkLen buffer with
        | .more => .more
        | .fault => .fault
        | .error _ buffer => .error "Protocol error: bulk length can not be negative" buffer
        | .done arglen buffer =>
          if maxBulk < arglen then .error "Protocol error: invalid bulk length" buffer
          -- the comparison is between `size_t`s: a negative `arglen + 2` is larger than any size
          else if arglen + 2 < 0 ∨ buffer.readableBytes < arglen + 2 then .more
          else if buffer.rawAt arglen ≠ 13 ∨ buffer.rawAt (arglen + 1) ≠ 10 then
            .error "Protocol error: expected CRLF at bulk length end" buffer
          else
            match frame.fillNextArgument buffer arglen with
            | none => .fault
            | some (frame, buffer) => .done frame (buffer.advanceReadIndex 2)

/-- The `while (parsed_args < multibulklen)` loop, by the number of bulk strings still to come. -/
def bulkLoop : ℕ → Buffer → RedisCommandFrame → Parsed RedisCommandFrame
  | 0, buffer, frame => .done frame buffer
  | n + 1, buffer, frame =>
    match processBulk buffer frame with
    | .done frame buffer => bulkLoop n buffer frame
    | other => other

/-- `ProcessMultibulkBuffer`. -/
def processMultibulkBuffer (buffer : Buffer) (frame : RedisCommandFrame) :
    Parsed RedisCommandFrame :=
  if buffer.readableBytes < 3 then .more
  else
    match readBulkLen buffer with
    | .more => .more
    | .fault => .fault
    | .error _ buffer => .error "Protocol error: expected CRLF at bulk length end" buffer
    | .done multibulklen buffer =>
      if maxBulk < multibulklen then .error "Protocol error: invalid multibulk length" buffer
      else bulkLoop multibulklen.toNat buffer frame

/-! ### One command -/

/-- What `Decode` answers. -/
inductive Decoded
  /-- `true`, with the command and the buffer behind it. -/
  | frame (msg : RedisCommandFrame) (buffer : Buffer)
  /-- `false`, with the error text (empty when more data is needed). -/
  | none (err : String) (buffer : Buffer)
  /-- An exception leaves the function. -/
  | fault
deriving DecidableEq

/-- The bytes `Decode` skips before a command: it looks at the memory, not at the readable range. -/
def isLineBreak (c : UInt8) : Bool := c = 13 || c = 10

/-- The branch of `Decode` the first byte selects: a multibulk request or an inline line. -/
def processBuffer (buffer : Buffer) (ch : UInt8) (next : Buffer) : Parsed RedisCommandFrame :=
  if ch = 42 then
    processMultibulkBuffer next { RedisCommandFrame.empty with isInline := false }
  else
    processInlineBuffer buffer { RedisCommandFrame.empty with isInline := true }

/-- `RedisCommandDecoder::Decode`. -/
def decode (buffer : Buffer) : Decoded :=
  let buffer := buffer.advanceReadIndex (buffer.rawReadBuffer.takeWhile isLineBreak).length
  let mark := buffer.readIdx
  match buffer.readByte with
  | none => .none "" (buffer.setReadIndex mark)
  | some (ch, next) =>
    match processBuffer (next.advanceReadIndex (-1)) ch next with
    | .done msg buffer => .frame { msg with rawMsg := ⟨mark, buffer.readIdx - mark⟩ } buffer
    | .more => .none "" (buffer.setReadIndex mark)
    | .error err buffer => .none err buffer
    | .fault => .fault

end Comms
