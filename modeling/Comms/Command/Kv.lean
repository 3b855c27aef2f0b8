import Comms.Command.Reply
import Comms.Repl.SelectDb

/-!
# The key-value store

The store itself, `mmkv::MMKV`, is a library of its own and not part of the repository. The handlers
see it through the calls below. A `Kv` interprets them as deterministic functions of the store and
the arguments.

* `KvCall` — the calls that may change the store, with their arguments;
* `KvCall.Touches` — the keys a call is about;
* `Kv.Lawful` — what the handlers rely on: a call changes nothing but the keys it is about, a call
  that fails changes nothing, and what the counts that are returned mean.
-/

namespace Comms

/-- The value of every key of every database. -/
abbrev Keyspace (V : Type) := DBID → Bytes → Option V

/-- The error codes of `mmkv`, all of them negative. `minusOne` is the plain `-1`. -/
inductive KvErr
  | invalidArgs | invalidMinMax | invalidCoordType | invalidType
  | corruptedHllValue | notHyperloglogStr | syntaxError
  | entryNotExist | dbNotExist | permissionDenied | entryExisted
  | notInteger | notNumber | invalidNumber | bitOutrange | argsExceedLimit | invalidCoordValue
  | notImplemented | offsetOutrange
  | minusOne
deriving DecidableEq, Repr

/-- What a call returns: a count, `0` for plain success, or an error. -/
inductive KvRet
  | ok (n : ℕ)
  | err (e : KvErr)
deriving DecidableEq, Repr

/-- The calls that may change the store. `Num` stands for `long double`. -/
inductive KvCall (Num : Type)
  | append (key value : Bytes)
  | set (key value : Bytes) (ex px nxXx : ℤ)
  | setEX (key : Bytes) (secs : ℤ) (value : Bytes)
  | setNX (key value : Bytes)
  | mset (kvs : List (Bytes × Bytes))
  | msetNX (kvs : List (Bytes × Bytes))
  | incrBy (key : Bytes) (incr : ℤ)
  | incrByFloat (key : Bytes) (incr : Num)
  | getSet (key value : Bytes)
  | setRange (key : Bytes) (offset : ℤ) (value : Bytes)
  | bitOP (op dest : Bytes) (keys : List Bytes)
  | setBit (key : Bytes) (offset : ℕ) (value : Bool)
  | hdel (key : Bytes) (fields : List Bytes)
  | hincrBy (key field : Bytes) (incr : ℤ)
  | hincrByFloat (key field : Bytes) (incr : Num)
  | hmset (key : Bytes) (kvs : List (Bytes × Bytes))
  | hset (key field value : Bytes) (nx : Bool)
  | sadd (key : Bytes) (values : List Bytes)
  | sdiffStore (dest : Bytes) (keys : List Bytes)
  | sinterStore (dest : Bytes) (keys : List Bytes)
  | sunionStore (dest : Bytes) (keys : List Bytes)
  | smove (source dest value : Bytes)
  | spop (key : Bytes) (count : ℤ)
  | srem (key : Bytes) (values : List Bytes)
  | lpush (key : Bytes) (values : List Bytes) (ifExists : Bool)
  | rpush (key : Bytes) (values : List Bytes) (ifExists : Bool)
  | lpop (key : Bytes)
  | rpop (key : Bytes)
  | linsert (key : Bytes) (before : Bool) (pivot value : Bytes)
  | lrem (key : Bytes) (count : ℤ) (value : Bytes)
  | lset (key : Bytes) (index : ℤ) (value : Bytes)
  | ltrim (key : Bytes) (start end_ : ℤ)
  | rpoplpush (source dest : Bytes)
  | zadd (key : Bytes) (values : List (Num × Bytes))
  | zincrBy (key : Bytes) (incr : Num) (value : Bytes)
  | zrem (key : Bytes) (values : List Bytes)
  | zremRangeByRank (key : Bytes) (start stop : ℤ)
  | zremRangeByScore (key min max : Bytes)
  | zremRangeByLex (key min max : Bytes)
  | zinterStore (dest : Bytes) (keys : List Bytes) (weights : List ℕ) (aggregate : Bytes)
  | zunionStore (dest : Bytes) (keys : List Bytes) (weights : List ℕ) (aggregate : Bytes)
  | geoAdd (key coordType : Bytes) (points : List (Num × Num × Bytes))
  | sort (key by_ : Bytes) (offset count : ℤ) (gets : List Bytes) (desc alpha : Bool)
      (store : Bytes)
  | rename (key newKey : Bytes)
  | renameNX (key newKey : Bytes)
  | move (key : Bytes) (dst : DBID)
  | persist (key : Bytes)
  | pexpire (key : Bytes) (mills : ℕ)
  | pexpireat (key : Bytes) (mills : ℕ)
  | expire (key : Bytes) (secs : ℕ)
  | del (keys : List Bytes)
  | pfadd (key : Bytes) (values : List Bytes)
  | pfmerge (dest : Bytes) (keys : List Bytes)
  | flushDB
  | flushAll
deriving DecidableEq, Repr

namespace KvCall

variable {Num : Type}

/-- The keys whose values a call may change, in the database it is made in; `flushAll` and `move`
reach other databases. -/
def Touches (db : DBID) (call : KvCall Num) (p : DBID × Bytes) : Prop :=
  match call with
  | append key _ | set key _ _ _ _ | setEX key _ _ | setNX key _ | incrBy key _
  | incrByFloat key _ | getSet key _ | setRange key _ _ | setBit key _ _ | hdel key _
  | hincrBy key _ _ | hincrByFloat key _ _ | hmset key _ | hset key _ _ _ | sadd key _
  | spop key _ | srem key _ | lpush key _ _ | rpush key _ _ | lpop key | rpop key
  | linsert key _ _ _ | lrem key _ _ | lset key _ _ | ltrim key _ _ | zadd key _
  | zincrBy key _ _ | zrem key _ | zremRangeByRank key _ _ | zremRangeByScore key _ _
  | zremRangeByLex key _ _ | geoAdd key _ _ | persist key | pexpire key _ | pexpireat key _
  | expire key _ | pfadd key _ => p = (db, key)
  | bitOP _ dest _ | sdiffStore dest _ | sinterStore dest _ | sunionStore dest _
  | zinterStore dest _ _ _ | zunionStore dest _ _ _ | pfmerge dest _ => p = (db, dest)
  | sort _ _ _ _ _ _ _ store => store ≠ [] ∧ p = (db, store)
  | smove source dest _ | rpoplpush source dest | rename source dest | renameNX source dest =>
    p = (db, source) ∨ p = (db, dest)
  | mset kvs | msetNX kvs => ∃ kv ∈ kvs, p = (db, kv.1)
  | move key dst => p = (db, key) ∨ p = (dst, key)
  | del keys => ∃ key ∈ keys, p = (db, key)
  | flushDB => p.1 = db
  | flushAll => True

/-- The calls that return how many elements or keys they changed. -/
def Counts : KvCall Num → Prop
  | setRange _ _ _ | hdel _ _ | sadd _ _ | smove _ _ _ | spop _ _ | srem _ _ | linsert _ _ _ _
  | lrem _ _ _ | zrem _ _ | zremRangeByRank _ _ _ | zremRangeByScore _ _ _ | zremRangeByLex _ _ _
  | renameNX _ _ | move _ _ | persist _ | pexpire _ _ | pexpireat _ _ | expire _ _ | del _ => True
  | hset _ _ _ nx => nx = true
  | lpush _ _ ifExists | rpush _ _ ifExists => ifExists = true
  | _ => False

/-- The calls that return `0` when they succeed. -/
def ReturnsZero : KvCall Num → Prop
  | set _ _ _ _ _ | setEX _ _ _ | setNX _ _ | msetNX _ | incrBy _ _ | incrByFloat _ _
  | hincrBy _ _ _ | hincrByFloat _ _ _ | lpop _ | rpop _ | pfmerge _ _ => True
  | _ => False

end KvCall

/-- What a call leaves behind: the value returned, its output parameters and the store. -/
structure KvResult (V Num : Type) where
  ret : KvRet
  int : ℤ
  num : Num
  str : Bytes
  strs : List Bytes
  store : Keyspace V

/-- An interpretation of the calls. `read` stands for the commands that only look something up, with
the arguments they get. -/
structure Kv (V Num : Type) where
  exec : Keyspace V → DBID → KvCall Num → KvResult V Num
  read : Keyspace V → DBID → ReadCommand → List Bytes → Reply Num
  /-- `Snapshot::Load` of the file, which writes what it reads. -/
  load : Keyspace V → Bytes → Keyspace V
  /-- `string_todouble`. -/
  stringToDouble : Bytes → Option Num
  /-- `fast_dtoa(value, 10, str)`. -/
  fastDtoa : Num → Bytes
  /-- The number of elements of a list. -/
  listLen : Option V → ℕ

/-- What the handlers rely on. -/
structure Kv.Lawful {V Num : Type} (kv : Kv V Num) : Prop where
  /-- A call changes nothing but the keys it is about. -/
  frame : ∀ s db call d k, ¬call.Touches db (d, k) → (kv.exec s db call).store d k = s d k
  /-- A call that fails changes nothing. -/
  failed : ∀ s db call e, (kv.exec s db call).ret = .err e → (kv.exec s db call).store = s
  /-- A call that counts its changes and returns `0` has made none. -/
  idle : ∀ s db call, call.Counts → (kv.exec s db call).ret = .ok 0 → (kv.exec s db call).store = s
  /-- These calls return `0` or an error. -/
  zero : ∀ s db call n, call.ReturnsZero → (kv.exec s db call).ret = .ok n → n = 0
  /-- A pop takes one element off the list. -/
  lpop : ∀ s db key, (kv.exec s db (.lpop key)).ret = .ok 0 →
    kv.listLen ((kv.exec s db (.lpop key)).store db key) + 1 = kv.listLen (s db key)
  rpop : ∀ s db key, (kv.exec s db (.rpop key)).ret = .ok 0 →
    kv.listLen ((kv.exec s db (.rpop key)).store db key) + 1 = kv.listLen (s db key)

/-! ### Stores that differ in few keys -/

namespace Keyspace

variable {V : Type} {a b s : Keyspace V} {p q : DBID × Bytes}

/-- A store agrees with `s` but for the key `p`. -/
def Frames (a s : Keyspace V) (p : DBID × Bytes) : Prop :=
  ∀ d k, (d, k) ≠ p → a d k = s d k

theorem Frames.eq_iff (ha : Frames a s p) (hb : Frames b s p) :
    a = b ↔ a p.1 p.2 = b p.1 p.2 := by
  constructor
  · intro h
    rw [h]
  · intro h
    ext1 d
    ext1 k
    by_cases hp : (d, k) = p
    · subst hp
      exact h
    · rw [ha d k hp, hb d k hp]

theorem Frames.refl : Frames s s p := fun _ _ _ => rfl

theorem Frames.eq_self_iff (ha : Frames a s p) : a = s ↔ a p.1 p.2 = s p.1 p.2 :=
  ha.eq_iff .refl

/-- Changes of different keys agree only if they change nothing. -/
theorem Frames.eq_iff_of_ne (ha : Frames a s p) (hb : Frames b s q) (hne : p ≠ q) :
    a = b ↔ a p.1 p.2 = s p.1 p.2 ∧ b q.1 q.2 = s q.1 q.2 := by
  constructor
  · rintro rfl
    exact ⟨hb _ _ hne, ha _ _ hne.symm⟩
  · rintro ⟨h1, h2⟩
    rw [ha.eq_self_iff.2 h1, hb.eq_self_iff.2 h2]

end Keyspace

/-- A call that is about one key changes no other. -/
theorem Kv.Lawful.frames {V Num : Type} {kv : Kv V Num} (hk : kv.Lawful) {s : Keyspace V} {db : DBID}
    {call : KvCall Num} {key : Bytes} (h : ∀ p, call.Touches db p → p = (db, key)) :
    Keyspace.Frames (kv.exec s db call).store s (db, key) :=
  fun _ _ hne => hk.frame _ _ _ _ _ fun ht => hne (h _ ht)

end Comms
