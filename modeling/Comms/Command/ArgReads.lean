import Comms.Command.Handlers
import Comms.Command.Script
import Comms.Lib.ArgList

/-!
# What the handlers read of their arguments

Every access `GetArguments()[i]` of every handler of the settings table, in the order in which it is
made, with the test that decides whether the handler goes on. The source checks no index, so a read
past the end is an outcome here, next to the error reply.

* `Setting` — the rows of `settingTable`, with their arity and `COMMS_CMD_NOSCRIPT`;
* `setSpec`, … — the loops over options;
* `Setting.steps` — the reads of each handler; `Setting.parse` runs them;
* `Refusal` — how a handler turns its arguments down.

`Command/Handlers.lean` has the same handlers as functions of the store; there a missing argument
reads as the empty string.
-/

namespace Comms.ArgReads

open ArgList

/-- How a handler turns its arguments down. -/
inductive Refusal
  /-- `fill_error_reply`, or `FillErrorReply` by its text. -/
  | error (text : String)
  /-- `FillErrorReply` in `GeoSearch`: the error of the option, or `ERR_INVALID_ARGS` when no place
  has been read by then. -/
  | geoError (err : KvErr)
  /-- No reply: `return false` in `Sort`, `slave->Close()` in `AddSlave`. -/
  | noReply
deriving DecidableEq, Repr

def Refusal.isError : Refusal → Bool
  | .noReply => false
  | _ => true

/-- What the handlers read besides their arguments: `maxdb`, `requirepass`, `string_todouble`, and
the two words of `geosearch` that the store defines. -/
structure ArgEnv where
  maxdb : ℕ
  requirepass : Bytes
  isDouble : Bytes → Bool
  /-- The number that is read is `0`. -/
  isZero : Bytes → Bool
  withCoordinates : Bytes
  withDistances : Bytes

/-- What an option loop remembers: the number of weights; whether `by_member` is not empty, and
whether `by_x` and `by_y` are not `0`. -/
structure Seen where
  weights : ℕ
  member : Bool
  x : Bool
  y : Bool
deriving DecidableEq, Repr

def Seen.start : Seen := ⟨0, false, false, false⟩

abbrev Step := Phase Bytes Refusal Seen

abbrev Options := Spec Bytes Refusal Seen

/-! ### Tests -/

/-- An argument that is not tested. -/
def any (_ : Bytes) : Option Refusal := none

/-- `if (!ok(arg)) { fill_error_reply(ctx.reply, text); return 0; }` -/
def must (ok : Bytes → Bool) (err : Refusal) (b : Bytes) : Option Refusal :=
  if ok b then none else some err

/-- `GetInt64Value`. -/
def int64 : Bytes → Option Refusal :=
  must (fun b => (stringToInt64 b).isSome) (.error "value is not a integer or out of range")

/-- `GetDoubleValue`. -/
def double (env : ArgEnv) : Bytes → Option Refusal :=
  must env.isDouble (.error "value is not a float or out of range")

/-- `string_touint32`. -/
def uint32 (err : Refusal) : Bytes → Option Refusal := must (fun b => (stringToUInt32 b).isSome) err

/-- `string_touint64`. -/
def uint64 (err : Refusal) : Bytes → Option Refusal := must (fun b => (stringToUInt64 b).isSome) err

/-- `string_toint32`. -/
def int32 (err : Refusal) : Bytes → Option Refusal := must (fun b => (stringToInt32 b).isSome) err

/-- `arg == "1" || arg == "0"`. -/
def bit : Bytes → Option Refusal :=
  must (fun b => b = [49] || b = [48]) (.error "bit is not an integer or out of range")

def notInteger : Refusal := .error "value is not an integer or out of range"

def invalidArgs : Refusal := .error "Invalid arguments."

/-! ### Reads -/

/-- Arguments that are read and not tested. -/
def plain (indexes : List ℕ) : List Step := indexes.map fun i => .look ⟨i, any⟩

/-- `for (i = start; i < size; i++)`. -/
def every (start : ℕ) (args : List Bytes) : List Step :=
  plain (List.range' start (args.length - start))

/-- One argument and its test. -/
def read (i : ℕ) (test : Bytes → Option Refusal) : Step := .look ⟨i, test⟩

/-- `if (bad) { fill_error_reply(ctx.reply, text); return 0; }` -/
def errorIf (bad : Prop) [Decidable bad] (err : Refusal) : Step :=
  .check (if bad then some err else none)

/-- A loop over the arguments from `start` on. -/
def optionsFrom (start : ℕ) (spec : Options) : Step := .options start spec .start fun _ => none

/-! ### Option loops -/

/-- A keyword with `reads` behind it, all of which it leaves behind. -/
def takes (tests : List (Bytes → Option Refusal)) (s : Seen) :
    Except Refusal (Opt Bytes Refusal Seen) :=
  .ok ⟨tests.zipIdx.map fun p => ⟨p.2, p.1⟩, tests.length, fun _ => s⟩

/-- The options of `Set`; `args[i + 1]` is read whether it is there or not. -/
def setSpec : Options := fun s kw _ =>
  if eqNoCase kw [112, 120] || eqNoCase kw [101, 120] then
    takes [must (fun b => (rawToInt64 b).elim false (0 ≤ ·)) notInteger] s
  else if eqNoCase kw [120, 120] || eqNoCase kw [110, 120] then takes [] s
  else .error (.error "syntax error")

/-- `withscores` and `limit` in `ZRangeByScore`, `ZRevRangeByScore`. -/
def scoreRangeSpec : Options := fun s kw _ =>
  if eqNoCase kw [119, 105, 116, 104, 115, 99, 111, 114, 101, 115] then takes [] s
  else if eqNoCase kw [108, 105, 109, 105, 116] then takes [int64, int64] s
  else .error (.error "Syntax error")

/-- `limit` in `ZRangeByLex`. -/
def lexRangeSpec : Options := fun s kw _ =>
  if eqNoCase kw [108, 105, 109, 105, 116] then takes [int64, int64] s
  else .error (.error "Syntax error")

/-- `count` and `match` in `Scan`. -/
def scanSpec : Options := fun s kw behind =>
  if eqNoCase kw [99, 111, 117, 110, 116] then
    if behind = 0 then .error notInteger else takes [uint32 notInteger] s
  else if eqNoCase kw [109, 97, 116, 99, 104] then
    if behind = 0 then .error (.error "'MATCH' need one args followed") else takes [any] s
  else .error (.error "Syntax error, try scan 0 ")

/-- `weights` and `aggregate` in `ZInterStore`. The check in front of the weights is
`args.size() < i + keys.size()`. Behind them the loop leaves out as many arguments as there are
weights by then. -/
def zstoreSpec (numkeys : ℕ) : Options := fun s kw behind =>
  if eqNoCase kw [119, 101, 105, 103, 104, 116, 115] then
    if behind + 1 < numkeys then .error invalidArgs
    else .ok ⟨(List.range numkeys).map fun j => ⟨j, uint32 invalidArgs⟩, s.weights + numkeys,
      fun _ => { s with weights := s.weights + numkeys }⟩
  else if eqNoCase kw [97, 103, 103, 114, 101, 103, 97, 116, 101] then takes [any] s
  else .error invalidArgs

/-- The options of `Sort`; what is not valid ends it with `return false`. -/
def sortSpec : Options := fun s kw behind =>
  if eqNoCase kw [97, 115, 99] || eqNoCase kw [100, 101, 115, 99]
    || eqNoCase kw [97, 108, 112, 104, 97] then takes [] s
  else if eqNoCase kw [108, 105, 109, 105, 116] && 2 ≤ behind then
    takes [int32 .noReply, int32 .noReply] s
  else if (eqNoCase kw [115, 116, 111, 114, 101] || eqNoCase kw [98, 121]
    || eqNoCase kw [103, 101, 116]) && 1 ≤ behind then takes [any] s
  else .error .noReply

/-- `options.radius < 1 || options.radius >= 10000000`. -/
def radius : Bytes → Option Refusal :=
  must (fun b => (stringToUInt32 b).elim false fun r => 1 ≤ r && r < 10000000)
    (.geoError .invalidNumber)

/-- The options of `GeoSearch`. -/
def geoSpec (env : ArgEnv) : Options := fun s kw behind =>
  if eqNoCase kw [97, 115, 99] || eqNoCase kw [100, 101, 115, 99] then takes [] s
  else if eqNoCase kw [108, 105, 109, 105, 116] && 2 ≤ behind then
    takes [int32 (.geoError .invalidNumber), int32 (.geoError .invalidNumber)] s
  else if eqNoCase kw [114, 97, 100, 105, 117, 115] && 1 ≤ behind then takes [radius] s
  else if (eqNoCase kw [109, 101, 114, 99, 97, 116, 111, 114]
    || eqNoCase kw [119, 103, 115, 56, 52]) && 2 ≤ behind then
    .ok ⟨[⟨0, must env.isDouble (.geoError .invalidCoordValue)⟩,
        ⟨1, must env.isDouble (.geoError .invalidCoordValue)⟩], 2,
      fun rest => { s with x := !env.isZero (arg rest 0), y := !env.isZero (arg rest 1) }⟩
  else if eqNoCase kw [109, 101, 109, 98, 101, 114] && 1 ≤ behind then
    .ok ⟨[⟨0, any⟩], 1, fun rest => { s with member := arg rest 0 ≠ [] }⟩
  else if eqNoCase kw [103, 101, 116] && 1 ≤ behind then takes [any] s
  else if (eqNoCase kw [105, 110, 99, 108, 117, 100, 101]
    || eqNoCase kw [101, 120, 99, 108, 117, 100, 101]) && 2 ≤ behind then takes [any, any] s
  else if eqNoCase kw env.withCoordinates || eqNoCase kw env.withDistances then takes [] s
  else .error (.geoError .invalidArgs)

/-- `options.by_member.empty() && options.by_x == 0 && options.by_y == 0`. -/
def noPlace (s : Seen) : Option Refusal :=
  if s.member || s.x || s.y then none else some invalidArgs

/-- Scores and values of `ZAdd`: the score stands where the others have a keyword. -/
def scoreSpec (env : ArgEnv) : Options := fun s score _ =>
  match double env score with
  | some err => .error err
  | none => takes [any] s

/-- Points of `GeoAdd`. -/
def pointSpec (env : ArgEnv) : Options := fun s x _ =>
  match double env x with
  | some err => .error err
  | none => takes [double env, any] s

/-- Keys and values of `MSet` and `HMSet`. -/
def pairSpec : Options := fun s _ _ => takes [any] s

/-- Pairs of which the second is looked at behind some words only. -/
def pairsOf (known : Bytes → Bool) (test : Bytes → Option Refusal) : Options := fun s kw _ =>
  .ok ⟨if known kw then [⟨0, test⟩] else [], 1, fun _ => s⟩

/-- `include` and `exclude` in `Slaveof`. -/
def slaveofSpec : Options :=
  pairsOf (fun kw => kw = [105, 110, 99, 108, 117, 100, 101]
    || kw = [101, 120, 99, 108, 117, 100, 101]) any

/-- `listening-port` in `ReplConf`; what `string_touint32` returns is not looked at. -/
def replConfSpec : Options :=
  pairsOf (fun kw =>
    eqNoCase kw [108, 105, 115, 116, 101, 110, 105, 110, 103, 45, 112, 111, 114, 116]) any

/-- `cksm` in `AddSlave`. -/
def addSlaveSpec : Options := pairsOf (fun kw => kw = [99, 107, 115, 109]) (uint64 .noReply)

/-! ### The handlers that look something up -/

/-- `Bitcount`. -/
def bitcount (args : List Bytes) : List Step :=
  if args.length = 2 then [errorIf True (.error "syntax error")]
  else if args.length = 1 then plain [0]
  else [read 1 int64, read 2 int64] ++ plain [0]

/-- `GetBit`; `arity` allows it two arguments. -/
def getBit : List Step := [read 1 (uint64 notInteger)] ++ plain [2, 0]

/-- `Bitpos`. -/
def bitpos (args : List Bytes) : List Step :=
  [read 1 bit] ++ (if 3 ≤ args.length then [read 2 int64] else [])
    ++ (if args.length = 4 then [read 3 int64] else []) ++ plain [1, 0]

/-- `SRandMember` and `SPop`. -/
def srandMember (args : List Bytes) : List Step :=
  (if 1 < args.length then [read 1 int64] else []) ++ plain [0]

/-- `ZRange` and `ZRevRange`; with more than four arguments the last are not looked at. -/
def zrange (args : List Bytes) : List Step :=
  (if args.length = 4 then
    [read 3 (must (fun b => eqNoCase b [119, 105, 116, 104, 115, 99, 111, 114, 101, 115])
      (.error "syntax error"))] else [])
    ++ [read 1 int64, read 2 int64] ++ plain [0]

/-- `Scan`, of which `arg_start` is `0` for `scan` itself. -/
def scan (argStart : ℕ) : List Step :=
  [optionsFrom (argStart + 1) scanSpec, read argStart (uint32 notInteger)]
    ++ (if argStart = 0 then [] else plain [0])

/-- The handlers behind `ReadCommand`. -/
def readSteps (env : ArgEnv) (args : List Bytes) : ReadCommand → List Step
  | .get | .exists_ | .ttl | .pttl | .type | .strlen | .hgetall | .hkeys | .hlen | .hvals | .scard
  | .smembers | .zcard | .llen | .keys => plain [0]
  | .hexists | .hget | .hstrlen | .sismember | .zrank | .zrevrank | .zscore => plain [0, 1]
  | .zcount | .zlexcount => plain [0, 1, 2]
  | .mget | .sdiff | .sinter | .sunion | .pfcount => every 0 args
  | .hmget => every 1 args ++ plain [0]
  | .randomkey => []
  | .lindex => [read 1 int64] ++ plain [0]
  | .getrange | .substr | .lrange => [read 1 int64, read 2 int64] ++ plain [0]
  | .bitcount => bitcount args
  | .getbit => getBit
  | .bitpos => bitpos args
  | .srandmember => srandMember args
  | .zrange | .zrevrange => zrange args
  | .zrangebyscore | .zrevrangebyscore => [optionsFrom 3 scoreRangeSpec] ++ plain [0, 1, 2]
  | .zrangebylex | .zrevrangebylex => [optionsFrom 3 lexRangeSpec] ++ plain [0, 1, 2]
  | .scan => scan 0
  | .hscan | .sscan | .zscan => scan 1
  | .geosearch => plain [0] ++ [.options 1 (geoSpec env) .start noPlace]

/-! ### The handlers that change keys -/

/-- `MSet` and `MSetNX`. -/
def mset (args : List Bytes) : List Step :=
  [errorIf (args.length % 2 ≠ 0) (.error "wrong number of arguments for MSET"),
    optionsFrom 0 pairSpec]

/-- `HMSet`; `size() - 1` is a `size_t`. -/
def hmset (args : List Bytes) : List Step :=
  [errorIf ((args.length + 1) % 2 ≠ 0) invalidArgs, optionsFrom 1 pairSpec] ++ plain [0]

/-- `numkeys` in `ZInterStore`, once it has passed its test. -/
def numkeys (args : List Bytes) : ℕ := ((stringToInt32 (arg args 1)).getD 0).toNat

/-- `ZInterStore` and `ZUnionStore`. The check in front of the keys is
`args.size() < numkeys + 1`. -/
def zinterStore (args : List Bytes) : List Step :=
  plain [0] ++ [read 1 (must (fun b => (stringToInt32 b).elim false (0 < ·)) invalidArgs),
      errorIf (args.length < numkeys args + 1) invalidArgs]
    ++ plain (List.range' 2 (numkeys args))
    ++ [optionsFrom (numkeys args + 2) (zstoreSpec (numkeys args))]

/-- `before` or `after`. -/
def beforeAfter : Bytes → Option Refusal :=
  must (fun b => eqNoCase b [98, 101, 102, 111, 114, 101] || eqNoCase b [97, 102, 116, 101, 114])
    (.error "Syntax error")

/-- `LInsert`. -/
def linsert : List Step := [read 1 beforeAfter] ++ plain [0, 2, 3]

/-- `string_touint32(arg, timeout)`. -/
def timeoutTest : Bytes → Option Refusal :=
  uint32 (.error "timeout is not an integer or out of range")

/-- The last argument of `BLPop`, `BRPop` and `BRPopLPush`. Of no arguments `size() - 1` wraps;
index `0` is past the end as well. -/
def timeout (args : List Bytes) : Step := read (args.length - 1) timeoutTest

/-- The handlers behind `DataCommand`. -/
def dataSteps (env : ArgEnv) (args : List Bytes) : DataCommand → List Step
  | .read query => readSteps env args query
  | .select => [read 0 (must (fun b => (stringToUInt32 b).elim false (· < env.maxdb))
      (.error "invalid DB index"))]
  | .import_ => if args.length = 1 then plain [0] else []
  | .flushdb | .flushall => []
  | .persist | .decr | .incr | .lpop | .rpop => plain [0]
  | .append | .setnx | .getset | .rename | .renamenx | .rpoplpush => plain [0, 1]
  | .hset | .hsetnx | .smove | .zremrangebyscore | .zremrangebylex => plain [0, 1, 2]
  | .del => every 0 args
  | .hdel | .sadd | .sdiffstore | .sinterstore | .sunionstore | .srem | .zrem | .lpush | .lpushx
  | .rpush | .rpushx | .pfmerge => every 1 args ++ plain [0]
  | .pfadd => plain [0] ++ every 1 args
  | .bitop => every 2 args ++ plain [0, 1]
  | .expire | .pexpire | .expireat | .pexpireat =>
    [read 1 (uint64 (.error "value is not an integer or out of range."))] ++ plain [0]
  | .decrby | .incrby => [read 1 int64] ++ plain [0]
  | .incrbyfloat => [read 1 (double env)] ++ plain [0]
  | .setex | .setrange | .lrem | .lset => [read 1 int64] ++ plain [0, 2]
  | .psetex => plain [0] ++ [read 1 (uint32 notInteger)] ++ plain [2]
  | .setbit => [read 1 (uint64 notInteger), read 2 bit] ++ plain [0]
  | .hincrby => [read 2 int64] ++ plain [0, 1]
  | .hincrbyfloat => [read 2 (double env)] ++ plain [0, 1]
  | .zincrby => [read 1 (double env)] ++ plain [0, 2]
  | .zremrangebyrank | .ltrim => [read 1 int64, read 2 int64] ++ plain [0]
  | .move => [read 1 (uint32 notInteger)] ++ plain [0]
  | .set => plain [0, 1] ++ [optionsFrom 2 setSpec]
  | .mset | .msetnx => mset args
  | .hmset => hmset args
  | .spop => srandMember args
  | .zadd => [optionsFrom 1 (scoreSpec env)] ++ plain [0]
  | .zinterstore | .zunionstore => zinterStore args
  | .linsert => linsert
  | .blpop | .brpop => [timeout args] ++ plain (List.range (args.length - 1))
  | .brpoplpush => [timeout args] ++ plain [0, 1]
  | .sort => plain [0] ++ [optionsFrom 1 sortSpec]
  | .geoadd => [optionsFrom 2 (pointSpec env)] ++ plain [0, 1]

/-! ### The settings table -/

/-- The rows of `settingTable`. -/
inductive Setting
  | data (cmd : DataCommand)
  | ping | multi | discard | exec | watch | unwatch | subscribe | psubscribe | unsubscribe
  | punsubscribe | publish | info | save | bgsave | lastsave | slowlog | dbsize | config | client
  | time | echo | quit | shutdown | slaveof | replconf | sync | psync | apsync | eval | evalsha
  | script | auth
deriving DecidableEq, Repr

/-- `min_arity` and `max_arity`. -/
def Setting.arity : Setting → ℤ × ℤ
  | .data cmd => cmd.arity
  | .ping | .multi | .discard | .exec | .unwatch | .lastsave | .dbsize | .time | .quit => (0, 0)
  | .watch | .unsubscribe | .punsubscribe | .replconf => (0, -1)
  | .subscribe | .psubscribe | .script => (1, -1)
  | .publish => (2, 2)
  | .info | .save | .bgsave | .shutdown => (0, 1)
  | .slowlog => (1, 2)
  | .config | .client => (1, 3)
  | .echo | .auth => (1, 1)
  | .sync => (0, 2)
  | .psync => (2, 4)
  | .slaveof | .apsync | .eval | .evalsha => (2, -1)

/-- `COMMS_CMD_NOSCRIPT`. -/
def Setting.noScript : Setting → Bool
  | .data cmd => cmd.noScript
  | .multi | .watch | .unwatch | .save | .quit | .slaveof | .replconf | .sync | .psync | .apsync
  | .eval | .evalsha | .script => true
  | _ => false

/-- `Save` and `BGSave`. -/
def save (args : List Bytes) : List Step :=
  if args.length = 1 then
    [read 0 (must (fun b => eqNoCase b [114, 101, 100, 105, 115] || eqNoCase b [109, 109, 107, 118])
      (.error "invalid save format"))]
  else []

/-- `SlowLog`. -/
def slowLog (args : List Bytes) : List Step :=
  plain [0] ++
    if eqNoCase (arg args 0) [108, 101, 110]
      || eqNoCase (arg args 0) [114, 101, 115, 101, 116] then []
    else if eqNoCase (arg args 0) [103, 101, 116] then
      [errorIf (3 < args.length) (.error "wrong number of arguments for SLOWLOG GET")]
        ++ if args.length = 2 then
          [read 1 (uint32 (.error "value is not an integer or out of range."))] else []
    else [errorIf True (.error "SLOWLOG subcommand must be one of GET, LEN, RESET")]

/-- `Config`. `string_tolower` takes the whole string. -/
def config (args : List Bytes) : List Step :=
  let arg0 := (arg args 0).map toLower
  plain [0] ++
    if arg0 = [114, 101, 115, 101, 116, 115, 116, 97, 116] then
      [errorIf (args.length ≠ 1) (.error "Wrong number of arguments for CONFIG RESETSTAT")]
    else if arg0 = [103, 101, 116] then
      [errorIf (args.length ≠ 2) (.error "Wrong number of arguments for CONFIG GET")] ++ plain [1]
    else if arg0 = [115, 101, 116] then
      [errorIf (args.length ≠ 3) (.error "Wrong number of arguments for CONFIG SET")]
        ++ plain [1, 2]
    else if arg0 = [97, 100, 100] then
      [errorIf (args.length ≠ 3) (.error "Wrong number of arguments for CONFIG ADD")]
        ++ plain [1, 2]
    else if arg0 = [100, 101, 108] then
      [errorIf (args.length ≠ 3) (.error "Wrong number of arguments for CONFIG DEL")]
        ++ plain [1, 2]
    else if arg0 = [114, 101, 108, 111, 97, 100] then []
    else [errorIf True (.error "CONFIG subcommand must be one of GET, SET, RESETSTAT, ADD, DEL")]

/-- `Client`. -/
def client (args : List Bytes) : List Step :=
  let subcmd := (arg args 0).map toLower
  let syntaxError := .error ("Syntax error, try CLIENT (LIST | KILL ip:port | GETNAME | " ++
    "SETNAME connection-name | PAUSE timeout)")
  plain [0] ++
    if subcmd = [115, 101, 116, 110, 97, 109, 101] || subcmd = [107, 105, 108, 108] then
      [errorIf (args.length ≠ 2) syntaxError] ++ plain [1]
    else if subcmd = [103, 101, 116, 110, 97, 109, 101] then [errorIf (args.length ≠ 1) syntaxError]
    else if subcmd = [112, 97, 117, 115, 101] then [errorIf True (.error "NOT supported now")]
    else if subcmd = [108, 105, 115, 116] then []
    else
      [errorIf True (.error "CLIENT subcommand must be one of LIST, GETNAME, SETNAME, KILL, PAUSE")]

/-- `Script`. -/
def script (args : List Bytes) : List Step :=
  plain [0] ++
    if eqNoCase (arg args 0) [101, 120, 105, 115, 116, 115] then every 1 args
    else if eqNoCase (arg args 0) [102, 108, 117, 115, 104] then
      [errorIf (args.length ≠ 1) (.error "wrong number of arguments for SCRIPT FLUSH")]
    else if eqNoCase (arg args 0) [107, 105, 108, 108] then
      [errorIf (2 < args.length) (.error "wrong number of arguments for SCRIPT KILL")]
        ++ if args.length = 2 then plain [1] else []
    else if eqNoCase (arg args 0) [108, 111, 97, 100] then
      [errorIf (args.length ≠ 2) (.error "wrong number of arguments for SCRIPT LOAD")] ++ plain [1]
    else [errorIf True (.error "Syntax error, try SCRIPT (EXISTS | FLUSH | KILL | LOAD)")]

/-- `numkey + 2` in `Eval`, a `uint32`. -/
def evalArgv (args : List Bytes) : ℕ := ((stringToUInt32 (arg args 1)).getD 0 + 2) % 2 ^ 32

/-- `Eval` and `EvalSHA`. -/
def eval (args : List Bytes) : List Step :=
  [read 1 (uint32 notInteger),
    errorIf (args.length < evalArgv args) (.error "Wrong number of arguments for Eval")]
    ++ plain (List.range' 2 (evalArgv args - 2)) ++ every (evalArgv args) args ++ plain [0]

/-- `Auth`. -/
def auth (env : ArgEnv) : List Step :=
  if env.requirepass = [] then [errorIf True (.error "Client sent AUTH, but no password is set")]
  else [read 0 (must (fun b => b = env.requirepass) (.error "invalid password"))]

/-- `Slaveof`. -/
def slaveof (args : List Bytes) : List Step :=
  [errorIf (args.length % 2 ≠ 0) (.error "not enough arguments for slaveof.")] ++ plain [0, 1] ++
    if (stringToUInt32 (arg args 1)).isSome then [optionsFrom 2 slaveofSpec]
    else
      [errorIf (¬(eqNoCase (arg args 0) [110, 111] ∧ eqNoCase (arg args 1) [111, 110, 101]))
        notInteger]

/-- `ReplConf`. -/
def replConf (args : List Bytes) : List Step :=
  [errorIf (args.length % 2 ≠ 0) (.error "ERR wrong number of arguments for ReplConf"),
    optionsFrom 0 replConfSpec]

/-- `PSync`, which passes the frame to `AddSlave`. -/
def addSlave : List Step :=
  plain [0] ++ [read 1 (must (fun b => (stringToInt64 b).isSome) .noReply),
    optionsFrom 2 addSlaveSpec]

/-- The reads of every handler. -/
def Setting.steps (env : ArgEnv) (args : List Bytes) : Setting → List Step
  | .data cmd => dataSteps env args cmd
  | .ping | .multi | .discard | .exec | .unwatch | .lastsave | .dbsize | .time | .quit | .shutdown
  | .sync => []
  | .watch | .subscribe | .psubscribe | .unsubscribe | .punsubscribe => every 0 args
  | .publish => plain [0, 1]
  | .info => if args.length = 1 then plain [0] else []
  | .echo => plain [0]
  | .save | .bgsave => ArgReads.save args
  | .slowlog => ArgReads.slowLog args
  | .config => ArgReads.config args
  | .client => ArgReads.client args
  | .slaveof => ArgReads.slaveof args
  | .replconf => ArgReads.replConf args
  | .psync | .apsync => addSlave
  | .eval | .evalsha => ArgReads.eval args
  | .script => ArgReads.script args
  | .auth => ArgReads.auth env

/-- A handler on its arguments. -/
def Setting.parse (env : ArgEnv) (args : List Bytes) (cmd : Setting) : Parse Refusal Unit :=
  runPhases args (cmd.steps env args)

end Comms.ArgReads
