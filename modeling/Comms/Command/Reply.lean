import Comms.Command.Args

/-!
# Replies and command names

`RedisReply`, the `fill_*` helpers of `util/redis_helper.cpp`, and the commands of the settings
table of `comms.cpp` that read or write keys, with their arity.
-/

namespace Comms

/-- `RedisReply`; `none` is type `0`, no reply. `Num` stands for `long double`. -/
inductive Reply (Num : Type)
  | none
  | nil
  | int (value : ℤ)
  | double (value : Num)
  | str (value : Bytes)
  | status (text : String)
  | error (text : String)
  | array (members : List (Reply Num))

namespace Reply

variable {Num : Type}

/-- `fill_error_reply`. -/
def fillError (text : String) : Reply Num := .error ("ERR " ++ text)

/-- `fill_ok_reply`. -/
def fillOk : Reply Num := .status "OK"

/-- `fill_str_array_reply`. -/
def strArray (values : List Bytes) : Reply Num := .array (values.map .str)

/-- `reply.type == REDIS_REPLY_NIL`. -/
def isNil : Reply Num → Bool
  | .nil => true
  | _ => false

end Reply

/-- The commands that only look something up. -/
inductive ReadCommand
  | get | mget | exists_ | ttl | pttl | type | bitcount | getbit | getrange | substr | bitpos
  | strlen | hexists | hget | hgetall | hkeys | hlen | hvals | hmget | hscan | hstrlen | scard
  | sdiff | sinter | sismember | smembers | srandmember | sunion | sscan | zcard | zcount | zrange
  | zrangebyscore | zrank | zrevrange | zrevrangebyscore | zrevrank | zscore | zscan | zlexcount
  | zrangebylex | zrevrangebylex | lindex | llen | lrange | keys | randomkey | scan | geosearch
  | pfcount
deriving DecidableEq, Repr

/-- The commands that work on keys. -/
inductive DataCommand
  | read (query : ReadCommand)
  | select | import_ | flushdb | flushall
  | append | set | del | expire | pexpire | expireat | pexpireat | persist
  | bitop | decr | decrby | getset | incr | incrby | incrbyfloat | mset | msetnx | psetex | setbit
  | setex | setnx | setrange
  | hdel | hincrby | hincrbyfloat | hset | hsetnx | hmset
  | sadd | sdiffstore | sinterstore | smove | spop | srem | sunionstore
  | zadd | zincrby | zrem | zremrangebyrank | zremrangebyscore | zinterstore | zunionstore
  | zremrangebylex
  | linsert | lpop | lpush | lpushx | lrem | lset | ltrim | rpop | rpush | rpushx
  | rpoplpush | blpop | brpop | brpoplpush
  | move | rename | renamenx | sort | geoadd | pfadd | pfmerge
deriving DecidableEq, Repr

/-- `min_arity` and `max_arity` of the settings table. -/
def ReadCommand.arity : ReadCommand → ℤ × ℤ
  | .mget | .pfcount => (1, -1)
  | .get | .exists_ | .ttl | .pttl | .type | .strlen | .hgetall | .hkeys | .hlen | .hvals | .scard
  | .smembers | .zcard | .llen => (1, 1)
  | .bitcount => (1, 3)
  | .getbit | .hexists | .hget | .hstrlen | .sismember | .zrank | .zrevrank | .zscore | .lindex =>
    (2, 2)
  | .getrange | .substr | .zcount | .zlexcount | .lrange => (3, 3)
  | .bitpos => (2, 4)
  | .hmget | .sdiff | .sinter | .sunion => (2, -1)
  | .hscan | .sscan | .zscan => (2, 6)
  | .srandmember => (1, 2)
  | .zrange | .zrevrange => (3, 4)
  | .zrangebyscore | .zrevrangebyscore => (3, 7)
  | .zrangebylex | .zrevrangebylex => (3, 6)
  | .keys => (1, 6)
  | .randomkey => (0, 0)
  | .scan => (1, 5)
  | .geosearch => (5, -1)

/-- `min_arity` and `max_arity` of the settings table. -/
def DataCommand.arity : DataCommand → ℤ × ℤ
  | .read query => query.arity
  | .flushdb | .flushall => (0, 0)
  | .import_ => (0, 1)
  | .select | .persist | .decr | .incr | .spop | .lpop | .rpop => (1, 1)
  | .del | .sort => (1, -1)
  | .append | .expire | .pexpire | .expireat | .pexpireat | .decrby | .getset | .incrby
  | .incrbyfloat | .setnx | .lpushx | .rpushx | .rpoplpush | .move | .rename | .renamenx => (2, 2)
  | .mset | .msetnx | .hdel | .sadd | .srem | .zrem | .lpush | .rpush | .blpop | .brpop | .pfadd
  | .pfmerge => (2, -1)
  | .set => (2, 7)
  | .psetex | .setbit | .setex | .setrange | .hincrby | .hincrbyfloat | .hset | .hsetnx | .smove
  | .zincrby | .zremrangebyrank | .zremrangebyscore | .zremrangebylex | .lrem | .lset | .ltrim
  | .brpoplpush => (3, 3)
  | .bitop | .hmset | .sdiffstore | .sinterstore | .sunionstore | .zadd | .zinterstore
  | .zunionstore => (3, -1)
  | .linsert => (4, 4)
  | .geoadd => (5, -1)

/-- The arity check of `Call`, for `size` arguments. -/
def validArity (arity : ℤ × ℤ) (size : ℕ) : Bool :=
  (arity.1 ≤ 0 || arity.1 ≤ size) && (arity.2 < 0 || size ≤ arity.2)

/-- A frame whose command has been looked up: what a handler sees. -/
structure DataFrame where
  cmd : DataCommand
  args : List Bytes
deriving DecidableEq, Repr

end Comms
