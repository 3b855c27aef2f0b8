import Comms.Command.ArgRefusals
import Comms.Command.SmallKv

/-!
# Arguments in range

A handler is called by `Call` and by `Exec` with as many arguments as the settings table allows, and
by a script with any number of them. It is safe when it reads no argument that is not there, and
when malformed options end in an error reply that leaves the store alone.

* `Route.Invokes` — which calls there are;
* `Safe` — the property; `safe_iff` says it of the arguments step by step;
* `Setting.InOrder` — what it takes of the arguments that `Call` lets through, command by command;
* `args_in_order` — **a call is safe exactly when its arguments are in order.**
-/

namespace Comms.ArgReads

open ArgList

/-- What invokes a handler: `Call`, `Exec`, or `CallComms`. -/
inductive Route
  | call
  | exec
  | script
deriving DecidableEq, Repr

/-- The calls that come about. `Exec` executes frames that `Call` has checked; `CallComms` looks at
`COMMS_CMD_NOSCRIPT` only. -/
def Route.Invokes (cmd : Setting) (args : List Bytes) : Route → Prop
  | .call | .exec => validArity cmd.arity args.length = true
  | .script => cmd.noScript = false

/-- A check that fails, or options that are not whole. -/
def MalformedStep (args : List Bytes) : Step → Prop
  | .look _ => False
  | .check err => err ≠ none
  | .options start spec init final => ¬(Phase.options start spec init final).Taken args

/-- `zrange` has one option, behind its three arguments. -/
def Setting.Surplus (args : List Bytes) : Setting → Prop
  | .data (.read .zrange) | .data (.read .zrevrange) => 4 < args.length
  | _ => False

/-- The arguments are malformed. -/
def Setting.Malformed (argEnv : ArgEnv) (args : List Bytes) (cmd : Setting) : Prop :=
  (∃ p ∈ cmd.steps argEnv args, MalformedStep args p) ∨ cmd.Surplus args

section Safe

variable {Num V : Type} (cfg : HandlerConfig) (kv : Kv V Num) (s : Keyspace V) (env : CallEnv)
variable (argEnv : ArgEnv) (args : List Bytes)

/-- The handler answers with an error and leaves the store alone. -/
structure Refuses (cmd : Setting) : Prop where
  answer : ∃ e, cmd.parse argEnv args = .refused e ∧ e.isError = true
  store : ∀ c, cmd = .data c → (c.handler cfg kv s env args).store = s
  reply : ∀ c, cmd = .data c → (∀ query, c ≠ .read query) →
    ∃ text, (c.handler cfg kv s env args).reply = .fillError text

/-- **The property.** No argument is read that is not there, and malformed options end in an error
reply that leaves the store alone. -/
structure Safe (cmd : Setting) : Prop where
  inRange : cmd.parse argEnv args ≠ .pastEnd
  refused : cmd.Malformed argEnv args → Refuses cfg kv s env argEnv args cmd

end Safe

/-! ### What the arguments must be -/

/-- The keys and the options of `ZInterStore`: where the number of keys passes both checks, all of
them are there, and the options do not break off. -/
def zinterStoreInOrder (args : List Bytes) : Prop :=
  ∀ n, stringToInt32 (arg args 1) = some n → 0 < n → n + 1 ≤ args.length →
    n + 2 ≤ args.length ∧ ¬BreaksOff (zstoreSpec n.toNat) .start (args.drop (n.toNat + 2))

/-- What it takes beyond the right number of arguments. The options of `set`, of the ranges and of
the `store` commands, and the scores and points of `zadd` and `geoadd`, do not break off; the offset
of `getbit` is not a number; and the options of `sort` and `psync` are whole, since these refuse
without a reply. -/
def Setting.InOrder (argEnv : ArgEnv) (args : List Bytes) : Setting → Prop
  | .data (.read .getbit) => stringToUInt64 (arg args 1) = none
  | .data .set => ¬BreaksOff setSpec .start (args.drop 2)
  | .data (.read .zrangebyscore) | .data (.read .zrevrangebyscore) =>
    ¬BreaksOff scoreRangeSpec .start (args.drop 3)
  | .data (.read .zrangebylex) | .data (.read .zrevrangebylex) =>
    ¬BreaksOff lexRangeSpec .start (args.drop 3)
  | .data .zadd => ¬BreaksOff (scoreSpec argEnv) .start (args.drop 1)
  | .data .geoadd => ¬BreaksOff (pointSpec argEnv) .start (args.drop 2)
  | .data .zinterstore | .data .zunionstore => zinterStoreInOrder args
  | .data .sort => Whole sortSpec .start (args.drop 1)
  | .psync | .apsync => Whole addSlaveSpec .start (args.drop 2)
  | _ => True

/-- There are `k` arguments, or the one at `i` is there and turned down. -/
def EnoughOr (args : List Bytes) (k i : ℕ) (test : Bytes → Option Refusal) : Prop :=
  k ≤ args.length ∨ i < args.length ∧ test (arg args i) ≠ none

/-- What it takes of the arguments of a lookup in a script, whose number is not checked. -/
def readInScriptOrder (args : List Bytes) : ReadCommand → Prop
  | .mget | .sdiff | .sinter | .sunion | .pfcount | .randomkey => True
  | .get | .exists_ | .ttl | .pttl | .type | .strlen | .hgetall | .hkeys | .hlen | .hvals | .scard
  | .smembers | .zcard | .llen | .keys | .hmget | .bitcount | .srandmember | .scan | .geosearch =>
    1 ≤ args.length
  | .hexists | .hget | .hstrlen | .sismember | .zrank | .zrevrank | .zscore | .lindex | .bitpos
  | .hscan | .sscan | .zscan => 2 ≤ args.length
  | .zcount | .zlexcount => 3 ≤ args.length
  | .getrange | .substr | .lrange | .zrange | .zrevrange => EnoughOr args 3 1 int64
  | .getbit => EnoughOr args 3 1 (uint64 notInteger)
  | .zrangebyscore | .zrevrangebyscore =>
    3 ≤ args.length ∧ ¬BreaksOff scoreRangeSpec .start (args.drop 3)
  | .zrangebylex | .zrevrangebylex =>
    3 ≤ args.length ∧ ¬BreaksOff lexRangeSpec .start (args.drop 3)

/-- What it takes of the arguments of a command in a script. -/
def Setting.InScriptOrder (argEnv : ArgEnv) (args : List Bytes) : Setting → Prop
  | .data cmd =>
    match cmd with
    | .read query => readInScriptOrder args query
    | .import_ | .flushdb | .flushall | .del | .mset | .msetnx | .hmset => True
    | .persist | .decr | .incr | .lpop | .rpop | .hdel | .sadd | .sdiffstore | .sinterstore
    | .sunionstore | .srem | .zrem | .lpush | .lpushx | .rpush | .rpushx | .pfmerge | .pfadd
    | .select | .spop | .blpop | .brpop | .sort => 1 ≤ args.length
    | .append | .setnx | .getset | .rename | .renamenx | .rpoplpush | .bitop | .expire | .pexpire
    | .expireat | .pexpireat | .decrby | .incrby | .incrbyfloat | .move => 2 ≤ args.length
    | .hset | .hsetnx | .smove | .zremrangebyscore | .zremrangebylex | .hincrby | .hincrbyfloat =>
      3 ≤ args.length
    | .setex | .setrange | .lrem | .lset | .zremrangebyrank | .ltrim => EnoughOr args 3 1 int64
    | .psetex => EnoughOr args 3 1 (uint32 notInteger)
    | .setbit => EnoughOr args 3 1 (uint64 notInteger)
    | .zincrby => EnoughOr args 3 1 (double argEnv)
    | .linsert => EnoughOr args 4 1 beforeAfter
    | .brpoplpush => EnoughOr args 2 0 timeoutTest
    | .set => 2 ≤ args.length ∧ ¬BreaksOff setSpec .start (args.drop 2)
    | .zadd => 1 ≤ args.length ∧ ¬BreaksOff (scoreSpec argEnv) .start (args.drop 1)
    | .geoadd => 2 ≤ args.length ∧ ¬BreaksOff (pointSpec argEnv) .start (args.drop 2)
    | .zinterstore | .zunionstore => 2 ≤ args.length ∧ zinterStoreInOrder args
  | .publish => 2 ≤ args.length
  | .slowlog | .config | .client | .echo => 1 ≤ args.length
  | .auth => argEnv.requirepass ≠ [] → 1 ≤ args.length
  | _ => True

/-- Malformed options are answered: those of `sort` and `psync` are whole, and where `zrange` has
surplus arguments one of its numbers is not one. -/
def Setting.Answered (args : List Bytes) : Setting → Prop
  | .data .sort => Whole sortSpec .start (args.drop 1)
  | .psync | .apsync => Whole addSlaveSpec .start (args.drop 2)
  | .data (.read .zrange) | .data (.read .zrevrange) =>
    4 < args.length → stringToInt64 (arg args 1) = none ∨ stringToInt64 (arg args 2) = none
  | _ => True

/-- What it takes by the route. -/
def Route.InOrder (argEnv : ArgEnv) (args : List Bytes) (cmd : Setting) : Route → Prop
  | .call | .exec => cmd.InOrder argEnv args
  | .script => cmd.InScriptOrder argEnv args ∧ cmd.Answered args

/-! ### Which refusals are errors -/

/-- What the test turns down is answered with an error. -/
def LoudTest (test : Bytes → Option Refusal) : Prop := ∀ b e, test b = some e → e.isError = true

/-- A keyword that is turned down, or one of whose values is, is answered with an error. -/
structure LoudKeyword (r : Except Refusal (Opt Bytes Refusal Seen)) : Prop where
  error : ∀ e, r = .error e → e.isError = true
  ok : ∀ opt, r = .ok opt → ∀ l ∈ opt.reads, LoudTest l.test

def LoudOptions (spec : Options) : Prop := ∀ s kw behind, LoudKeyword (spec s kw behind)

def LoudStep : Step → Prop
  | .look l => LoudTest l.test
  | .check err => ∀ e, err = some e → e.isError = true
  | .options _ spec _ final => LoudOptions spec ∧ ∀ t e, final t = some e → e.isError = true

def Loud (ps : List Step) : Prop := ∀ p ∈ ps, LoudStep p

section Loud

variable {args : List Bytes} {ps qs : List Step} {e : Refusal}

/-- A program whose steps are loud ends in no refusal but an error. -/
theorem Loud.isError (hloud : Loud ps) (h : runPhases args ps = .refused e) : e.isError = true := by
  obtain ⟨p, hp, hrefused⟩ := exists_refused_of_inOrder h
  have hstep := hloud p hp
  cases p with
  | look l =>
    obtain ⟨a, -, ha⟩ := Look.run_eq_refused_iff.mp hrefused
    exact hstep a e ha
  | check err => exact hstep e (Parse.ofCheck_eq_refused_iff.mp hrefused)
  | options start spec init final =>
    obtain h | ⟨t, -, h⟩ := Parse.bind_eq_refused_iff.mp hrefused
    · obtain ⟨t, kw, r, herr | ⟨opt, hopt, l, hl, a, ha⟩⟩ := exists_refused_of_loop h
      · exact (hstep.1 t kw r).error e herr
      · exact (hstep.1 t kw r).ok opt hopt l hl a e ha
    · exact hstep.2 t e (Parse.ofCheck_eq_refused_iff.mp h)

theorem must_loud {ok : Bytes → Bool} {err : Refusal} (h : err.isError = true) :
    LoudTest (must ok err) := by
  rintro b e hb
  obtain ⟨-, rfl⟩ := must_eq_some_iff.mp hb
  exact h

@[simp] theorem any_loud : LoudTest any := by
  rintro b e ⟨⟩

@[simp] theorem loud_nil : Loud [] := by
  rintro p ⟨⟩

@[simp] theorem loud_append : Loud (ps ++ qs) ↔ Loud ps ∧ Loud qs := List.forall_mem_append

@[simp] theorem loud_plain {is : List ℕ} : Loud (plain is) := by
  rintro p hp
  obtain ⟨i, -, rfl⟩ := List.mem_map.mp hp
  exact any_loud

@[simp] theorem loud_every {start : ℕ} : Loud (every start args) := loud_plain

theorem loud_cons {p : Step} : Loud (p :: ps) ↔ LoudStep p ∧ Loud ps := List.forall_mem_cons

@[simp] theorem loud_read {i : ℕ} {test : Bytes → Option Refusal} :
    Loud (read i test :: ps) ↔ LoudTest test ∧ Loud ps := loud_cons

@[simp] theorem loud_errorIf {bad : Prop} [Decidable bad] {text : String} :
    Loud (errorIf bad (.error text) :: ps) ↔ Loud ps := by
  rw [loud_cons, and_iff_right]
  intro e he
  split at he
  · cases he
    rfl
  · cases he

@[simp] theorem loud_optionsFrom {start : ℕ} {spec : Options} :
    Loud (optionsFrom start spec :: ps) ↔ LoudOptions spec ∧ Loud ps := by
  rw [loud_cons]
  exact and_congr_left fun _ => and_iff_left fun _ _ h => by cases h

@[simp] theorem loud_ite {c : Prop} [Decidable c] :
    Loud (if c then ps else qs) ↔ (c → Loud ps) ∧ (¬c → Loud qs) := by
  split <;> simp_all

theorem loud_reject {e : Refusal} (h : e.isError = true) : LoudKeyword (.error e) where
  error := by
    rintro e' ⟨⟩
    exact h
  ok := by
    rintro opt ⟨⟩

theorem loud_keyword {opt : Opt Bytes Refusal Seen} (h : ∀ l ∈ opt.reads, LoudTest l.test) :
    LoudKeyword (.ok opt) where
  error := by
    rintro e ⟨⟩
  ok := by
    rintro opt' ⟨⟩
    exact h

theorem loud_takes {tests : List (Bytes → Option Refusal)} {seen : Seen}
    (h : ∀ t ∈ tests, LoudTest t) : LoudKeyword (takes tests seen) := by
  refine loud_keyword fun l hl => ?_
  obtain ⟨p, hp, rfl⟩ := List.mem_map.mp hl
  exact h p.1 (List.fst_mem_of_mem_zipIdx hp)

theorem LoudKeyword.ite {c : Prop} [Decidable c] {r r' : Except Refusal (Opt Bytes Refusal Seen)}
    (h : LoudKeyword r) (h' : LoudKeyword r') : LoudKeyword (if c then r else r') := by
  split
  · exact h
  · exact h'

@[simp] theorem must_error_loud {ok : Bytes → Bool} {text : String} :
    LoudTest (must ok (.error text)) := must_loud rfl

@[simp] theorem int64_loud : LoudTest int64 := must_loud rfl

@[simp] theorem double_loud (env : ArgEnv) : LoudTest (double env) := must_loud rfl

@[simp] theorem uint32_loud {text : String} : LoudTest (uint32 (.error text)) := must_loud rfl

@[simp] theorem uint64_loud {text : String} : LoudTest (uint64 (.error text)) := must_loud rfl

theorem int32_loud {err : Refusal} (h : err.isError = true) : LoudTest (int32 err) := must_loud h

theorem radius_loud : LoudTest radius := must_loud rfl

@[simp] theorem bit_loud : LoudTest bit := must_loud rfl

@[simp] theorem beforeAfter_loud : LoudTest beforeAfter := must_loud rfl

@[simp] theorem timeoutTest_loud : LoudTest timeoutTest := must_loud rfl

@[simp] theorem setSpec_loud : LoudOptions setSpec := fun _ _ _ =>
  .ite (loud_takes (by simp [notInteger])) (.ite (loud_takes (by simp)) (loud_reject rfl))

@[simp] theorem scoreRangeSpec_loud : LoudOptions scoreRangeSpec := fun _ _ _ =>
  .ite (loud_takes (by simp)) (.ite (loud_takes (by simp)) (loud_reject rfl))

@[simp] theorem lexRangeSpec_loud : LoudOptions lexRangeSpec := fun _ _ _ =>
  .ite (loud_takes (by simp)) (loud_reject rfl)

@[simp] theorem scanSpec_loud : LoudOptions scanSpec := fun _ _ _ =>
  .ite (.ite (loud_reject rfl) (loud_takes (by simp [notInteger])))
    (.ite (.ite (loud_reject rfl) (loud_takes (by simp))) (loud_reject rfl))

@[simp] theorem zstoreSpec_loud (n : ℕ) : LoudOptions (zstoreSpec n) := fun _ _ _ => by
  refine .ite (.ite (loud_reject rfl) (loud_keyword fun l hl => ?_))
    (.ite (loud_takes (by simp)) (loud_reject rfl))
  obtain ⟨j, -, rfl⟩ := List.mem_map.mp hl
  exact must_loud rfl

theorem geoSpec_loud (env : ArgEnv) : LoudOptions (geoSpec env) := fun _ _ _ => by
  have hint : ∀ t ∈ [int32 (.geoError .invalidNumber), int32 (.geoError .invalidNumber)],
      LoudTest t := by
    simpa using int32_loud rfl
  have hcoord : LoudTest (must env.isDouble (.geoError .invalidCoordValue)) := must_loud rfl
  exact .ite (loud_takes (by simp)) <| .ite (loud_takes hint) <|
    .ite (loud_takes (by simpa using radius_loud)) <| .ite (loud_keyword (by simpa using hcoord)) <|
    .ite (loud_keyword (by simp)) <| .ite (loud_takes (by simp)) <|
    .ite (loud_takes (by simp)) <| .ite (loud_takes (by simp)) (loud_reject rfl)

@[simp] theorem pairSpec_loud : LoudOptions pairSpec := fun _ _ _ => loud_takes (by simp)

@[simp] theorem scoreSpec_loud (env : ArgEnv) : LoudOptions (scoreSpec env) := fun _ score _ => by
  unfold scoreSpec
  cases h : double env score with
  | some err => exact loud_reject (double_loud env score err h)
  | none => exact loud_takes (by simp)

@[simp] theorem pointSpec_loud (env : ArgEnv) : LoudOptions (pointSpec env) := fun _ x _ => by
  unfold pointSpec
  cases h : double env x with
  | some err => exact loud_reject (double_loud env x err h)
  | none => exact loud_takes (by simp)

theorem pairsOf_loud {known : Bytes → Bool} {test : Bytes → Option Refusal} (h : LoudTest test) :
    LoudOptions (pairsOf known test) := fun _ kw _ => loud_keyword fun l hl => by
  split at hl
  · obtain rfl := List.mem_singleton.mp hl
    exact h
  · cases hl

/-- The commands that refuse without a reply. -/
def Setting.silent : Setting → Bool
  | .data .sort | .psync | .apsync => true
  | _ => false

/-- Every other command answers what it refuses. -/
theorem steps_loud (argEnv : ArgEnv) (args : List Bytes) (cmd : Setting) (h : cmd.silent = false) :
    Loud (cmd.steps argEnv args) := by
  cases cmd with
  | data cmd =>
    cases cmd with
    | read query =>
      simp only [Setting.steps, dataSteps]
      cases query with
      | geosearch =>
        refine loud_append.mpr ⟨loud_plain, loud_cons.mpr ⟨⟨geoSpec_loud argEnv, ?_⟩, loud_nil⟩⟩
        intro t e he
        unfold noPlace at he
        split at he
        · cases he
        · cases he
          rfl
      | _ => simp [readSteps, bitcount, getBit, bitpos, srandMember, zrange, scan, notInteger]
    | sort => cases h
    | _ =>
      simp [Setting.steps, dataSteps, mset, hmset, zinterStore, linsert, timeout, srandMember,
        notInteger, invalidArgs]
  | psync | apsync => cases h
  | config | client =>
    simp only [Setting.steps, config, client, loud_append, loud_ite, loud_plain, loud_errorIf,
      loud_nil, List.cons_append, List.nil_append, implies_true, and_self]
  | _ =>
    simp [Setting.steps, save, slowLog, script, eval, auth, slaveof, replConf, slaveofSpec,
      replConfSpec, pairsOf_loud, notInteger]

end Loud

/-! ### Safety, step by step -/

section SafeIff

variable {args : List Bytes} {argEnv : ArgEnv} {e : Refusal}

theorem optionsFrom_taken_iff {start : ℕ} {spec : Options} :
    (optionsFrom start spec).Taken args ↔ Whole spec .start (args.drop start) := by
  simp [optionsFrom, Phase.Taken, Whole]

theorem addSlaveSpec_refused {seen : Seen} {opts : List Bytes}
    (h : loop addSlaveSpec seen 0 opts = .refused e) : e = .noReply := by
  obtain ⟨t, kw, r, herr | ⟨opt, hopt, l, hl, a, ha⟩⟩ := exists_refused_of_loop h
  · cases herr
  · cases hopt
    dsimp only at hl
    split at hl
    · obtain rfl := List.mem_singleton.mp hl
      change must (fun b => (stringToUInt64 b).isSome) .noReply a = some e at ha
      exact (must_eq_some_iff.mp ha).2.symm
    · cases hl

/-- The commands that refuse without a reply do so always. -/
theorem refused_of_silent {cmd : Setting} (hsilent : cmd.silent = true)
    (h : cmd.parse argEnv args = .refused e) : e = .noReply := by
  have haddSlave : runPhases args addSlave = .refused e → e = .noReply := fun h => by
    obtain ⟨-, h | ⟨-, h⟩⟩ := refused_read.mp (refused_plain.mp h).2
    · exact (must_eq_some_iff.mp h).2.symm
    · obtain h | h := refused_options h
      · exact addSlaveSpec_refused h
      · exact absurd h refused_nil
  unfold Setting.silent at hsilent
  split at hsilent
  · obtain h | h := refused_options (refused_plain.mp h).2
    · exact sortSpec_refused h
    · exact absurd h refused_nil
  · exact haddSlave h
  · exact haddSlave h
  · cases hsilent

/-- The options of those commands. -/
theorem malformed_of_silent {cmd : Setting} (hsilent : cmd.silent = true) :
    cmd.Malformed argEnv args ↔ ¬cmd.Answered args := by
  have haddSlave : (∃ p ∈ addSlave, MalformedStep args p) ↔
      ¬Whole addSlaveSpec .start (args.drop 2) := by
    rw [← optionsFrom_taken_iff]
    simp [addSlave, plain, read, MalformedStep, optionsFrom]
  unfold Setting.silent at hsilent
  split at hsilent
  · change (∃ p ∈ plain [0] ++ [optionsFrom 1 sortSpec], MalformedStep args p) ∨ False ↔
      ¬Whole sortSpec .start (args.drop 1)
    rw [← optionsFrom_taken_iff]
    simp [plain, MalformedStep, optionsFrom]
  · exact (or_false _).to_iff.trans haddSlave
  · exact (or_false _).to_iff.trans haddSlave
  · cases hsilent

theorem int64_eq_some {b : Bytes} (h : int64 b = some e) : stringToInt64 b = none := by
  simpa using (must_eq_some_iff.mp h).1

/-- Behind surplus arguments `zrange` refuses nothing but its numbers. -/
theorem zrange_refused (hlen : 4 < args.length) (h : runPhases args (zrange args) = .refused e) :
    stringToInt64 (arg args 1) = none ∨ stringToInt64 (arg args 2) = none := by
  rw [zrange, if_neg (by omega)] at h
  exact (tests_of_refused h).imp int64_eq_some fun h => int64_eq_some h.2

theorem zrange_not_done
    (hnum : stringToInt64 (arg args 1) = none ∨ stringToInt64 (arg args 2) = none) :
    runPhases args (zrange args) ≠ .done () := fun h => by
  have htaken := runPhases_eq_done_iff.mp h
  have h1 := read_taken_iff.mp (htaken (read 1 int64) (by simp [zrange]))
  have h2 := read_taken_iff.mp (htaken (read 2 int64) (by simp [zrange]))
  have h1' := must_eq_none_iff.mp h1.2
  have h2' := must_eq_none_iff.mp h2.2
  obtain hnone | hnone := hnum
  · simp [hnone] at h1'
  · simp [hnone] at h2'

/-- Malformed arguments are not accepted. -/
theorem not_done_of_malformed {cmd : Setting} (hanswered : cmd.Answered args)
    (h : cmd.Malformed argEnv args) : cmd.parse argEnv args ≠ .done () := by
  obtain ⟨p, hp, hmalformed⟩ | hsurplus := h
  · intro hdone
    have htaken := runPhases_eq_done_iff.mp hdone p hp
    cases p with
    | look l => exact hmalformed
    | check err => exact hmalformed htaken
    | options start spec init final => exact hmalformed htaken
  · unfold Setting.Surplus at hsurplus
    split at hsurplus
    · exact zrange_not_done (hanswered hsurplus)
    · exact zrange_not_done (hanswered hsurplus)
    · exact hsurplus.elim

variable {Num V : Type} {cfg : HandlerConfig} {kv : Kv V Num} {s : Keyspace V} {env : CallEnv}

/-- A refusal that is an error, as the handler gives it. -/
theorem refuses_of_parse (henv : ∀ b, argEnv.isDouble b = (kv.stringToDouble b).isSome)
    (hmaxdb : argEnv.maxdb = cfg.maxdb) {cmd : Setting} (h : cmd.parse argEnv args = .refused e)
    (he : e.isError = true) : Refuses cfg kv s env argEnv args cmd := by
  have hreply : e ≠ .noReply := by
    rintro rfl
    cases he
  refine ⟨⟨e, h, he⟩, ?_, ?_⟩
  · rintro c rfl
    by_cases hread : ∃ query, c = .read query
    · obtain ⟨query, rfl⟩ := hread
      rfl
    · obtain ⟨text, -, hstore, -⟩ :=
        @refused_handler Num V cfg kv s env argEnv args e hreply henv hmaxdb c (not_exists.mp hread) h
      exact hstore
  · rintro c rfl hread
    obtain ⟨text, -, -, hanswer⟩ :=
      @refused_handler Num V cfg kv s env argEnv args e hreply henv hmaxdb c hread h
    exact ⟨text, hanswer⟩

/-- **Safety, step by step.** No step comes to an argument that is missing, and what is malformed is
answered. -/
theorem safe_iff (henv : ∀ b, argEnv.isDouble b = (kv.stringToDouble b).isSome)
    (hmaxdb : argEnv.maxdb = cfg.maxdb) (cmd : Setting) : Safe cfg kv s env argEnv args cmd ↔
      ¬Gap args (cmd.steps argEnv args) ∧ cmd.Answered args := by
  constructor
  · intro hsafe
    refine ⟨fun hgap => hsafe.inRange (runPhases_eq_pastEnd_iff.mpr hgap), ?_⟩
    by_cases hsilent : cmd.silent = true
    · by_contra hnot
      obtain ⟨e, he, herror⟩ := (hsafe.refused ((malformed_of_silent hsilent).mpr hnot)).answer
      obtain rfl := refused_of_silent hsilent he
      cases herror
    · unfold Setting.Answered
      split
      · exact absurd rfl hsilent
      · exact absurd rfl hsilent
      · exact absurd rfl hsilent
      · intro hlen
        obtain ⟨e, he, -⟩ := (hsafe.refused (.inr hlen)).answer
        exact zrange_refused hlen he
      · intro hlen
        obtain ⟨e, he, -⟩ := (hsafe.refused (.inr hlen)).answer
        exact zrange_refused hlen he
      · trivial
  · rintro ⟨hgap, hanswered⟩
    have hpast : cmd.parse argEnv args ≠ .pastEnd := fun h => hgap (runPhases_eq_pastEnd_iff.mp h)
    refine ⟨hpast, fun hmalformed => ?_⟩
    have hsilent : cmd.silent = false := by
      rw [Bool.eq_false_iff]
      exact fun hsilent => (malformed_of_silent hsilent).mp hmalformed hanswered
    cases hparse : cmd.parse argEnv args with
    | done u => exact absurd hparse (not_done_of_malformed hanswered hmalformed)
    | pastEnd => exact absurd hparse hpast
    | refused e =>
      exact refuses_of_parse henv hmaxdb hparse
        ((steps_loud argEnv args cmd hsilent).isError hparse)

end SafeIff

/-! ### Arguments that have been counted -/

section Counted

variable {args : List Bytes} {argEnv : ArgEnv} {ps qs : List Step}

@[simp] theorem gap_nil : ¬Gap args ([] : List Step) := firstGap_nil

@[simp] theorem gap_read {i : ℕ} {test : Bytes → Option Refusal} : Gap args (read i test :: ps) ↔
    args.length ≤ i ∨ (i < args.length ∧ test (arg args i) = none) ∧ Gap args ps := by
  rw [Gap, firstGap_cons, read_taken_iff]
  rfl

@[simp] theorem gap_errorIf {bad : Prop} [Decidable bad] {err : Refusal} :
    Gap args (errorIf bad err :: ps) ↔ ¬bad ∧ Gap args ps := by
  rw [Gap, firstGap_cons]
  by_cases hbad : bad <;> simp [errorIf, Phase.Missing, Phase.Taken, hbad, Gap]

@[simp] theorem gap_optionsFrom {start : ℕ} {spec : Options} :
    Gap args (optionsFrom start spec :: ps) ↔ BreaksOff spec .start (args.drop start) ∨
      Whole spec .start (args.drop start) ∧ Gap args ps := by
  rw [Gap, firstGap_cons, optionsFrom_taken_iff]
  rfl

@[simp] theorem gap_plain_append {is : List ℕ} :
    Gap args (plain is ++ ps) ↔ (∃ i ∈ is, args.length ≤ i) ∨ Gap args ps := by
  induction is with
  | nil => simp [plain]
  | cons i is ih =>
    change Gap args (read i any :: (plain is ++ ps)) ↔ _
    rw [gap_read, ih, List.exists_mem_cons_iff]
    simp only [any, and_true]
    by_cases hi : args.length ≤ i
    · simp [hi]
    · simp [hi, Nat.not_le.mp hi]

@[simp] theorem gap_plain {is : List ℕ} : Gap args (plain is) ↔ ∃ i ∈ is, args.length ≤ i := by
  rw [← List.append_nil (plain is), gap_plain_append]
  simp

theorem every_in_range {start : ℕ} :
    ¬∃ i ∈ List.range' start (args.length - start), args.length ≤ i := by
  simp only [List.mem_range'_1]
  omega

@[simp] theorem gap_every_append {start : ℕ} :
    Gap args (every start args ++ ps) ↔ Gap args ps := by
  rw [every, gap_plain_append, or_iff_right every_in_range]

@[simp] theorem not_gap_every {start : ℕ} : ¬Gap args (every start args) := by
  rw [every, gap_plain]
  exact every_in_range

@[simp] theorem gap_ite {c : Prop} [Decidable c] :
    Gap args (if c then ps else qs) ↔ c ∧ Gap args ps ∨ ¬c ∧ Gap args qs := by
  split <;> simp_all

/-- The bounds of the settings table. -/
theorem validArity_iff {lo hi : ℤ} {n : ℕ} :
    validArity (lo, hi) n = true ↔ (lo ≤ 0 ∨ lo ≤ n) ∧ (hi < 0 ∨ n ≤ hi) := by
  simp [validArity]

/-- No step of `ps` is missing its argument. -/
def InRange (args : List Bytes) (ps : List Step) : Prop := ∀ p ∈ ps, ¬p.Missing args

theorem InRange.not_gap (h : InRange args ps) : ¬Gap args ps := not_firstGap_of_forall h

theorem inRange_nil : InRange args [] := by
  rintro p ⟨⟩

theorem inRange_append : InRange args (ps ++ qs) ↔ InRange args ps ∧ InRange args qs :=
  List.forall_mem_append

theorem inRange_read {i : ℕ} {test : Bytes → Option Refusal} :
    InRange args (read i test :: ps) ↔ i < args.length ∧ InRange args ps := by
  simp [InRange, read, Phase.Missing, Look.Missing]

theorem inRange_errorIf {bad : Prop} [Decidable bad] {err : Refusal} :
    InRange args (errorIf bad err :: ps) ↔ InRange args ps := by
  simp [InRange, errorIf, Phase.Missing]

theorem inRange_optionsFrom {start : ℕ} {spec : Options} :
    InRange args (optionsFrom start spec :: ps) ↔
      ¬BreaksOff spec .start (args.drop start) ∧ InRange args ps := by
  simp [InRange, optionsFrom, Phase.Missing]

theorem inRange_plain {is : List ℕ} : InRange args (plain is) ↔ ∀ i ∈ is, i < args.length := by
  simp [InRange, plain, Phase.Missing, Look.Missing]

theorem inRange_every {start : ℕ} : InRange args (every start args) := by
  simp only [every, inRange_plain, List.mem_range'_1]
  omega

theorem inRange_ite {c : Prop} [Decidable c] :
    InRange args (if c then ps else qs) ↔ (c → InRange args ps) ∧ (¬c → InRange args qs) := by
  split <;> simp_all

theorem in_range {is : List ℕ} {k : ℕ} (hk : ∀ i ∈ is, i < k) (h : k ≤ args.length) :
    ∀ i ∈ is, i < args.length := fun i hi => (hk i hi).trans_le h

theorem not_gap_plain {is : List ℕ} (h : ∀ i ∈ is, i < args.length) : ¬Gap args (plain is) := by
  rw [gap_plain]
  rintro ⟨i, hi, hle⟩
  exact absurd (h i hi) (Nat.not_lt.mpr hle)

theorem gap_plain_options {is : List ℕ} (h : ∀ i ∈ is, i < args.length) {start : ℕ}
    {spec : Options} :
    Gap args (plain is ++ [optionsFrom start spec]) ↔ BreaksOff spec .start (args.drop start) := by
  rw [gap_plain_append, gap_optionsFrom, ← gap_plain, or_iff_right (not_gap_plain h)]
  simp

theorem gap_options_plain {is : List ℕ} (h : ∀ i ∈ is, i < args.length) {start : ℕ}
    {spec : Options} :
    Gap args ([optionsFrom start spec] ++ plain is) ↔ BreaksOff spec .start (args.drop start) := by
  change Gap args (optionsFrom start spec :: plain is) ↔ _
  rw [gap_optionsFrom]
  simp only [not_gap_plain h, and_false, or_false]

/-- What a keyword looks at is there. -/
def Fits (behind : ℕ) (r : Except Refusal (Opt Bytes Refusal Seen)) : Prop :=
  ∀ opt, r = .ok opt → ∀ l ∈ opt.reads, l.index < behind

theorem fits_error {behind : ℕ} {e : Refusal} : Fits behind (.error e) := by
  rintro opt ⟨⟩

theorem fits_ok {behind : ℕ} {opt : Opt Bytes Refusal Seen}
    (h : ∀ l ∈ opt.reads, l.index < behind) : Fits behind (.ok opt) := by
  rintro opt' ⟨⟩
  exact h

theorem fits_takes {behind : ℕ} {tests : List (Bytes → Option Refusal)} {seen : Seen}
    (h : tests.length ≤ behind) : Fits behind (takes tests seen) := by
  refine fits_ok fun l hl => ?_
  obtain ⟨p, hp, rfl⟩ := List.mem_map.mp hl
  exact (List.snd_lt_of_mem_zipIdx hp).trans_le h

theorem Fits.ite {behind : ℕ} {c : Prop} [Decidable c]
    {r r' : Except Refusal (Opt Bytes Refusal Seen)} (h : c → Fits behind r)
    (h' : ¬c → Fits behind r') : Fits behind (if c then r else r') := by
  split
  · next hc => exact h hc
  · next hc => exact h' hc

theorem not_breaksOff_of_fits {spec : Options} {opts : List Bytes}
    (h : ∀ s kw behind, Fits behind (spec s kw behind)) : ¬BreaksOff spec .start opts :=
  not_breaksOff_of_room fun s kw rest opt hspec => h s kw rest.length opt hspec

theorem le_of_and {b : Bool} {k behind : ℕ} (h : (b && k ≤ behind) = true) : k ≤ behind := by
  simpa using (Bool.and_eq_true_iff.mp h).2

theorem scanSpec_not_breaksOff {opts : List Bytes} : ¬BreaksOff scanSpec .start opts :=
  not_breaksOff_of_fits fun _ _ _ =>
    .ite (fun _ => .ite (fun _ => fits_error) fun h => fits_takes (Nat.pos_of_ne_zero h)) fun _ =>
    .ite (fun _ => .ite (fun _ => fits_error) fun h => fits_takes (Nat.pos_of_ne_zero h)) fun _ =>
    fits_error

theorem sortSpec_not_breaksOff {opts : List Bytes} : ¬BreaksOff sortSpec .start opts :=
  not_breaksOff_of_fits fun _ _ _ =>
    .ite (fun _ => fits_takes (Nat.zero_le _)) fun _ =>
    .ite (fun h => fits_takes (le_of_and h)) fun _ =>
    .ite (fun h => fits_takes (le_of_and h)) fun _ => fits_error

theorem geoSpec_not_breaksOff {opts : List Bytes} : ¬BreaksOff (geoSpec argEnv) .start opts :=
  not_breaksOff_of_fits fun _ _ behind => by
    have hone {b : Bool} {l : Look Bytes Refusal} (hl : l.index = 0)
        (h : (b && 1 ≤ behind) = true) : l.index < behind := by
      rw [hl]
      exact le_of_and h
    have htwo {b : Bool} {l : Look Bytes Refusal} (hl : l.index ≤ 1)
        (h : (b && 2 ≤ behind) = true) : l.index < behind := (Nat.lt_succ_of_le hl).trans_le (le_of_and h)
    refine .ite (fun _ => fits_takes (Nat.zero_le _)) fun _ =>
      .ite (fun h => fits_takes (le_of_and h)) fun _ =>
      .ite (fun h => fits_takes (le_of_and h)) fun _ =>
      .ite (fun h => fits_ok ?_) fun _ => .ite (fun h => fits_ok ?_) fun _ =>
      .ite (fun h => fits_takes (le_of_and h)) fun _ =>
      .ite (fun h => fits_takes (le_of_and h)) fun _ =>
      .ite (fun _ => fits_takes (Nat.zero_le _)) fun _ => fits_error
    · exact List.forall_mem_cons.mpr ⟨htwo (Nat.zero_le 1) h, List.forall_mem_singleton.mpr
        (htwo le_rfl h)⟩
    · exact List.forall_mem_singleton.mpr (hone rfl h)

theorem pairSpec_not_breaksOff {opts : List Bytes} (h : opts.length % 2 = 0) :
    ¬BreaksOff pairSpec .start opts := by
  refine not_breaksOff_of_even (fun s kw r opt hspec => ?_) h
  cases hspec
  exact ⟨rfl, by simp⟩

theorem pairsOf_not_breaksOff {known : Bytes → Bool} {test : Bytes → Option Refusal}
    {opts : List Bytes} (h : opts.length % 2 = 0) :
    ¬BreaksOff (pairsOf known test) .start opts := by
  refine not_breaksOff_of_even (fun s kw r opt hspec => ?_) h
  cases hspec
  refine ⟨rfl, fun l hl => ?_⟩
  dsimp only at hl
  split at hl
  · rw [List.mem_singleton.mp hl]
  · cases hl

/-- `GetBit` with the two arguments that it is allowed. -/
theorem gap_getBit (h : args.length = 2) :
    Gap args getBit ↔ ¬stringToUInt64 (arg args 1) = none := by
  change Gap args (read 1 (uint64 notInteger) :: plain [2, 0]) ↔ _
  have htest : uint64 notInteger (arg args 1) = none ↔ ¬stringToUInt64 (arg args 1) = none := by
    rw [uint64, must_eq_none_iff]
    simp [Option.ne_none_iff_isSome]
  rw [gap_read, gap_plain, htest]
  simp [h]

/-- The keys of `ZInterStore`: the check in front of them lets one be missing. -/
theorem keys_missing_iff {n : ℕ} (hpos : 0 < n) :
    (∃ i ∈ List.range' 2 n, args.length ≤ i) ↔ args.length < n + 2 := by
  simp only [List.mem_range'_1]
  exact ⟨fun ⟨i, hi, hle⟩ => by omega, fun h => ⟨n + 1, by omega, by omega⟩⟩

theorem gap_zinterStore (h : 2 ≤ args.length) :
    Gap args (zinterStore args) ↔ ¬zinterStoreInOrder args := by
  have hnil : ∀ i ∈ [0], ¬args.length ≤ i := by simp; omega
  rw [zinterStore_eq, gap_plain_append, or_iff_right fun ⟨i, hi, hle⟩ => hnil i hi hle, gap_read,
    or_iff_right (by omega), gap_errorIf, gap_plain_append, gap_optionsFrom, must_eq_none_iff]
  unfold zinterStoreInOrder numkeys
  cases hn : stringToInt32 (arg args 1) with
  | none => simp
  | some n =>
    by_cases hpos : 0 < n
    · obtain ⟨m, rfl⟩ := Int.eq_ofNat_of_zero_le hpos.le
      have hm : 0 < m := by omega
      rw [Option.getD_some, Int.toNat_natCast, keys_missing_iff hm]
      simp only [Option.elim_some, hpos, decide_true, Option.some.injEq, forall_eq', true_imp_iff,
        Int.toNat_natCast, gap_nil, and_false, or_false, and_true]
      constructor
      · rintro ⟨-, hroom, hgap⟩ hall
        obtain ⟨hlen, hbreaks⟩ := hall (by omega)
        exact hgap.elim (fun hlt => by omega) hbreaks
      · intro hnot
        rw [Classical.not_imp, not_and_or, not_not] at hnot
        obtain ⟨hlen, hgap⟩ := hnot
        exact ⟨by omega, by omega, hgap.imp (fun hlt => by omega) id⟩
    · simp [hpos]

/-- `ReadCommand`, counted. -/
theorem read_in_order_iff (query : ReadCommand)
    (hvalid : validArity query.arity args.length = true) :
    (¬Gap args (readSteps argEnv args query) ∧ (Setting.data (.read query)).Answered args) ↔
      (Setting.data (.read query)).InOrder argEnv args := by
  cases query <;> simp only [ReadCommand.arity, validArity_iff] at hvalid
  case getbit =>
    have hlen : args.length = 2 := by omega
    simp only [readSteps, gap_getBit hlen, not_not, Setting.Answered, Setting.InOrder, and_true]
  case zrangebyscore | zrevrangebyscore | zrangebylex | zrevrangebylex =>
    have hin : ∀ i ∈ [0, 1, 2], i < args.length := in_range (k := 3) (by decide) (by omega)
    simp only [readSteps, gap_options_plain hin, Setting.Answered, Setting.InOrder, and_true]
  case zrange | zrevrange =>
    refine iff_of_true ⟨InRange.not_gap ?_, fun hlen => by omega⟩ trivial
    simp only [readSteps, zrange, inRange_append, inRange_ite, inRange_read, inRange_plain,
      inRange_nil, List.forall_mem_cons, List.not_mem_nil, IsEmpty.forall_iff, implies_true, and_true]
    omega
  case geosearch =>
    refine iff_of_true ⟨InRange.not_gap (inRange_append.mpr ⟨?_, ?_⟩), trivial⟩ trivial
    · exact inRange_plain.mpr (in_range (k := 1) (by decide) (by omega))
    · exact List.forall_mem_singleton.mpr geoSpec_not_breaksOff
  all_goals
    refine iff_of_true ⟨InRange.not_gap ?_, trivial⟩ trivial
    simp only [readSteps, bitcount, bitpos, srandMember, scan, inRange_append, inRange_ite,
      inRange_read, inRange_errorIf, inRange_optionsFrom, inRange_every, inRange_plain, inRange_nil,
      scanSpec_not_breaksOff, List.forall_mem_cons, List.not_mem_nil, List.cons_append,
      List.nil_append, IsEmpty.forall_iff, implies_true, not_false_eq_true, and_true, true_and]
  all_goals omega

theorem gap_mset : ¬Gap args (mset args) := by
  change ¬Gap args (errorIf _ _ :: [optionsFrom 0 pairSpec])
  rw [gap_errorIf, gap_optionsFrom, not_not]
  rintro ⟨heven, hbreaks | ⟨-, hgap⟩⟩
  · exact pairSpec_not_breaksOff heven hbreaks
  · exact gap_nil hgap

theorem gap_hmset : ¬Gap args (hmset args) := by
  change ¬Gap args (errorIf _ _ :: optionsFrom 1 pairSpec :: plain [0])
  rw [gap_errorIf, gap_optionsFrom, not_not]
  rintro ⟨heven, hbreaks | ⟨-, hgap⟩⟩
  · refine pairSpec_not_breaksOff ?_ hbreaks
    rw [List.length_drop]
    omega
  · exact not_gap_plain (in_range (k := 1) (by decide) (by omega)) hgap

theorem gap_addSlave (h : 2 ≤ args.length) (hwhole : Whole addSlaveSpec .start (args.drop 2)) :
    ¬Gap args addSlave := by
  change ¬Gap args (plain [0] ++ (read 1 _ :: [optionsFrom 2 addSlaveSpec]))
  rw [gap_plain_append, gap_read, gap_optionsFrom, ← gap_plain]
  rintro (hgap | hlen | ⟨-, hbreaks | ⟨-, hgap⟩⟩)
  · exact not_gap_plain (in_range (k := 1) (by decide) (by omega)) hgap
  · omega
  · exact not_breaksOff_of_whole hwhole hbreaks
  · exact gap_nil hgap

/-- `DataCommand`, counted. -/
theorem data_in_order_iff (cmd : DataCommand) (hvalid : validArity cmd.arity args.length = true) :
    (¬Gap args (dataSteps argEnv args cmd) ∧ (Setting.data cmd).Answered args) ↔
      (Setting.data cmd).InOrder argEnv args := by
  cases cmd with
  | read query => exact read_in_order_iff query hvalid
  | set =>
    simp only [DataCommand.arity, validArity_iff] at hvalid
    have hin : ∀ i ∈ [0, 1], i < args.length := in_range (k := 2) (by decide) (by omega)
    simp only [dataSteps, gap_plain_options hin, Setting.Answered, Setting.InOrder, and_true]
  | sort =>
    simp only [DataCommand.arity, validArity_iff] at hvalid
    have hin : ∀ i ∈ [0], i < args.length := in_range (k := 1) (by decide) (by omega)
    simp only [dataSteps, gap_plain_options hin, sortSpec_not_breaksOff, Setting.Answered,
      Setting.InOrder, not_false_eq_true, true_and]
  | zadd =>
    simp only [DataCommand.arity, validArity_iff] at hvalid
    have hin : ∀ i ∈ [0], i < args.length := in_range (k := 1) (by decide) (by omega)
    simp only [dataSteps, gap_options_plain hin, Setting.Answered, Setting.InOrder, and_true]
  | geoadd =>
    simp only [DataCommand.arity, validArity_iff] at hvalid
    have hin : ∀ i ∈ [0, 1], i < args.length := in_range (k := 2) (by decide) (by omega)
    simp only [dataSteps, gap_options_plain hin, Setting.Answered, Setting.InOrder, and_true]
  | zinterstore | zunionstore =>
    simp only [DataCommand.arity, validArity_iff] at hvalid
    have hlen : 2 ≤ args.length := by omega
    simp only [dataSteps, gap_zinterStore hlen, not_not, Setting.Answered, Setting.InOrder, and_true]
  | mset | msetnx => exact iff_of_true ⟨gap_mset, trivial⟩ trivial
  | hmset => exact iff_of_true ⟨gap_hmset, trivial⟩ trivial
  | blpop | brpop =>
    simp only [DataCommand.arity, validArity_iff] at hvalid
    refine iff_of_true ⟨InRange.not_gap (inRange_append.mpr ⟨?_, inRange_plain.mpr ?_⟩), ?_⟩ trivial
    · exact inRange_read.mpr ⟨by omega, inRange_nil⟩
    · intro i hi
      have := List.mem_range.mp hi
      omega
    · trivial
  | _ =>
    simp only [DataCommand.arity, validArity_iff] at hvalid
    refine iff_of_true ⟨InRange.not_gap ?_, trivial⟩ trivial
    simp only [dataSteps, srandMember, linsert, timeout, inRange_append, inRange_ite, inRange_read,
      inRange_every, inRange_plain, inRange_nil, List.forall_mem_cons, List.not_mem_nil,
      IsEmpty.forall_iff, implies_true, and_true, true_and]
    try omega

/-! ### Subcommands -/

theorem gap_first (h : 1 ≤ args.length) : Gap args (plain [0] ++ ps) ↔ Gap args ps := by
  rw [gap_plain_append, ← gap_plain, or_iff_right (not_gap_plain (in_range (k := 1) (by decide) h))]

theorem not_gap_ite {c : Prop} [Decidable c] (h : ¬Gap args ps) (h' : ¬Gap args qs) :
    ¬Gap args (if c then ps else qs) := by
  split
  · exact h
  · exact h'

theorem not_gap_check {bad : Prop} [Decidable bad] {err : Refusal} :
    ¬Gap args [errorIf bad err] := by simp

/-- Arguments behind a check of their number. -/
theorem not_gap_checked {bad : Prop} [Decidable bad] {err : Refusal}
    (h : ¬bad → ¬Gap args ps) : ¬Gap args ([errorIf bad err] ++ ps) := by
  change ¬Gap args (errorIf bad err :: ps)
  rw [gap_errorIf]
  exact fun ⟨hgood, hgap⟩ => h hgood hgap

theorem not_gap_plain_one (h : 2 ≤ args.length) : ¬Gap args (plain [1]) :=
  not_gap_plain (in_range (k := 2) (by decide) h)

theorem not_gap_slowLog (h : 1 ≤ args.length) : ¬Gap args (slowLog args) := by
  rw [slowLog, gap_first h]
  refine not_gap_ite gap_nil (not_gap_ite (not_gap_checked fun _ => ?_) not_gap_check)
  split
  · rw [gap_read]
    simp only [gap_nil, and_false, or_false]
    omega
  · exact gap_nil

theorem not_gap_config (h : 1 ≤ args.length) : ¬Gap args (config args) := by
  have htwo (hlen : ¬args.length ≠ 3) : ¬Gap args (plain [1, 2]) :=
    not_gap_plain (in_range (k := 3) (by decide) (by omega))
  rw [config, gap_first h]
  exact not_gap_ite not_gap_check <|
    not_gap_ite (not_gap_checked fun hlen => not_gap_plain_one (by omega)) <|
    not_gap_ite (not_gap_checked htwo) <| not_gap_ite (not_gap_checked htwo) <|
    not_gap_ite (not_gap_checked htwo) <| not_gap_ite gap_nil not_gap_check

theorem not_gap_client (h : 1 ≤ args.length) : ¬Gap args (client args) := by
  rw [client, gap_first h]
  exact not_gap_ite (not_gap_checked fun hlen => not_gap_plain_one (by omega)) <|
    not_gap_ite not_gap_check <| not_gap_ite not_gap_check <| not_gap_ite gap_nil not_gap_check

theorem not_gap_script (h : 1 ≤ args.length) : ¬Gap args (script args) := by
  rw [script, gap_first h]
  refine not_gap_ite not_gap_every <| not_gap_ite not_gap_check <|
    not_gap_ite (not_gap_checked fun _ => ?_) <|
    not_gap_ite (not_gap_checked fun hlen => not_gap_plain_one (by omega)) not_gap_check
  split
  · exact not_gap_plain_one (by omega)
  · exact gap_nil

/-- `Eval`, whatever `numkey + 2` wraps to. -/
theorem not_gap_eval (h : 2 ≤ args.length) : ¬Gap args (eval args) := by
  rw [eval, List.append_assoc, List.append_assoc]
  change ¬Gap args (read 1 _ :: errorIf _ _ :: (plain _ ++ (every _ args ++ plain [0])))
  rw [gap_read, gap_errorIf, gap_plain_append, gap_every_append]
  rintro (hlen | ⟨-, hroom, ⟨i, hi, hle⟩ | hgap⟩)
  · omega
  · rw [List.mem_range'_1] at hi
    omega
  · exact not_gap_plain (in_range (k := 1) (by decide) (by omega)) hgap

theorem not_gap_slaveof (h : 2 ≤ args.length) : ¬Gap args (slaveof args) := by
  rw [slaveof, List.append_assoc]
  refine not_gap_checked fun heven => ?_
  rw [gap_plain_append, ← gap_plain, or_iff_right (not_gap_plain (in_range (k := 2) (by decide) h))]
  refine not_gap_ite ?_ not_gap_check
  rw [gap_optionsFrom]
  rintro (hbreaks | ⟨-, hgap⟩)
  · refine pairsOf_not_breaksOff ?_ hbreaks
    rw [List.length_drop]
    omega
  · exact gap_nil hgap

theorem not_gap_replConf : ¬Gap args (replConf args) := by
  change ¬Gap args ([errorIf _ _] ++ [optionsFrom 0 replConfSpec])
  refine not_gap_checked fun heven => ?_
  rw [gap_optionsFrom, not_not] at *
  rintro (hbreaks | ⟨-, hgap⟩)
  · exact pairsOf_not_breaksOff heven hbreaks
  · exact gap_nil hgap

theorem not_gap_auth (h : 1 ≤ args.length) : ¬Gap args (auth argEnv) := by
  refine not_gap_ite not_gap_check ?_
  rw [gap_read]
  simp only [gap_nil, and_false, or_false]
  omega

/-- **Counted arguments.** -/
theorem in_order_iff (cmd : Setting) (hvalid : validArity cmd.arity args.length = true) :
    (¬Gap args (cmd.steps argEnv args) ∧ cmd.Answered args) ↔ cmd.InOrder argEnv args := by
  cases cmd with
  | data cmd => exact data_in_order_iff cmd hvalid
  | psync | apsync =>
    simp only [Setting.arity, validArity_iff] at hvalid
    exact and_iff_right_of_imp fun hwhole => gap_addSlave (by omega) hwhole
  | slowlog =>
    simp only [Setting.arity, validArity_iff] at hvalid
    exact iff_of_true ⟨not_gap_slowLog (by omega), trivial⟩ trivial
  | config =>
    simp only [Setting.arity, validArity_iff] at hvalid
    exact iff_of_true ⟨not_gap_config (by omega), trivial⟩ trivial
  | client =>
    simp only [Setting.arity, validArity_iff] at hvalid
    exact iff_of_true ⟨not_gap_client (by omega), trivial⟩ trivial
  | script =>
    simp only [Setting.arity, validArity_iff] at hvalid
    exact iff_of_true ⟨not_gap_script (by omega), trivial⟩ trivial
  | eval | evalsha =>
    simp only [Setting.arity, validArity_iff] at hvalid
    exact iff_of_true ⟨not_gap_eval (by omega), trivial⟩ trivial
  | slaveof =>
    simp only [Setting.arity, validArity_iff] at hvalid
    exact iff_of_true ⟨not_gap_slaveof (by omega), trivial⟩ trivial
  | replconf => exact iff_of_true ⟨not_gap_replConf, trivial⟩ trivial
  | auth =>
    simp only [Setting.arity, validArity_iff] at hvalid
    exact iff_of_true ⟨not_gap_auth (by omega), trivial⟩ trivial
  | _ =>
    simp only [Setting.arity, validArity_iff] at hvalid
    refine iff_of_true ⟨InRange.not_gap ?_, trivial⟩ trivial
    simp only [Setting.steps, save, inRange_ite, inRange_read, inRange_every, inRange_plain,
      inRange_nil, List.forall_mem_cons, List.not_mem_nil, IsEmpty.forall_iff, implies_true, and_true]
    try omega

end Counted

/-! ### Arguments that have not been counted -/

section Script

variable {args : List Bytes} {argEnv : ArgEnv} {ps : List Step}

/-- Plain reads up to index `k - 1`. -/
theorem not_gap_plain_iff {is : List ℕ} {k : ℕ} (hk : ∀ i ∈ is, i < k) (hlast : k - 1 ∈ is) :
    ¬Gap args (plain is) ↔ k ≤ args.length := by
  refine ⟨fun h => ?_, fun h => not_gap_plain (in_range hk h)⟩
  by_contra hlt
  exact h (gap_plain.mpr ⟨k - 1, hlast, by omega⟩)

theorem plain_missing_iff {is : List ℕ} {k : ℕ} (hk : ∀ i ∈ is, i < k) (hlast : k - 1 ∈ is) :
    (∃ i ∈ is, args.length ≤ i) ↔ args.length < k := by
  rw [← gap_plain, ← not_iff_not, not_gap_plain_iff hk hlast, Nat.not_lt]

/-- A test in front of plain reads, none of which is behind it. -/
theorem not_gap_test_last {i : ℕ} {test : Bytes → Option Refusal} {is : List ℕ}
    (hk : ∀ j ∈ is, j < i + 1) : ¬Gap args (read i test :: plain is) ↔ i + 1 ≤ args.length := by
  rw [gap_read]
  constructor
  · intro h
    by_contra hlt
    exact h (.inl (by omega))
  · rintro hle (hmissing | ⟨-, hgap⟩)
    · omega
    · exact not_gap_plain (in_range hk hle) hgap

/-- A test in front of plain reads, the last of which is behind it. -/
theorem not_gap_test_first {i k : ℕ} {test : Bytes → Option Refusal} {is : List ℕ} (hi : i < k)
    (hk : ∀ j ∈ is, j < k) (hlast : k - 1 ∈ is) :
    ¬Gap args (read i test :: plain is) ↔ EnoughOr args k i test := by
  rw [gap_read, gap_plain, plain_missing_iff hk hlast, EnoughOr]
  by_cases htest : test (arg args i) = none
  · simp only [htest, ne_eq, not_true_eq_false, and_true, and_false, or_false]
    omega
  · simp only [htest, ne_eq, not_false_eq_true, and_true, and_false, false_and, or_false]
    omega

/-- Two tests, of the second and the third argument, in front of the first. -/
theorem not_gap_two_tests {test test' : Bytes → Option Refusal} :
    ¬Gap args (read 1 test :: read 2 test' :: plain [0]) ↔ EnoughOr args 3 1 test := by
  rw [gap_read, gap_read, gap_plain, plain_missing_iff (k := 1) (by decide) (by decide), EnoughOr]
  by_cases htest : test (arg args 1) = none
  · simp only [htest, ne_eq, not_true_eq_false, and_true, and_false, or_false]
    omega
  · simp only [htest, ne_eq, not_false_eq_true, and_true, and_false, false_and, or_false]
    omega

/-- Options behind what is read last. -/
theorem not_gap_options_plain {start k : ℕ} {spec : Options} {is : List ℕ} (hk : ∀ j ∈ is, j < k)
    (hlast : k - 1 ∈ is) (hstart : k ≤ start) : ¬Gap args ([optionsFrom start spec] ++ plain is) ↔
      k ≤ args.length ∧ ¬BreaksOff spec .start (args.drop start) := by
  by_cases hlen : k ≤ args.length
  · rw [gap_options_plain (in_range hk hlen), and_iff_right hlen]
  · refine iff_of_false (not_not_intro (gap_optionsFrom.mpr (.inr ⟨?_, ?_⟩))) fun h => hlen h.1
    · rw [List.drop_eq_nil_of_le (by omega)]
      exact ⟨.start, endsIn_nil.mpr rfl⟩
    · exact gap_plain.mpr ((plain_missing_iff hk hlast).mpr (by omega))

/-- Options behind what is read first. -/
theorem not_gap_plain_options {start k : ℕ} {spec : Options} {is : List ℕ} (hk : ∀ j ∈ is, j < k)
    (hlast : k - 1 ∈ is) : ¬Gap args (plain is ++ [optionsFrom start spec]) ↔
      k ≤ args.length ∧ ¬BreaksOff spec .start (args.drop start) := by
  by_cases hlen : k ≤ args.length
  · rw [gap_plain_options (in_range hk hlen), and_iff_right hlen]
  · refine iff_of_false (not_not_intro (gap_plain_append.mpr (.inl ?_))) fun h => hlen h.1
    exact (plain_missing_iff hk hlast).mpr (by omega)

theorem not_gap_scan {argStart : ℕ} :
    ¬Gap args (scan argStart) ↔ argStart + 1 ≤ args.length := by
  have hplain : ∀ j ∈ if argStart = 0 then [] else [0], j < argStart + 1 := by
    split <;> simp
  have heq : scan argStart = optionsFrom (argStart + 1) scanSpec ::
      read argStart (uint32 notInteger) :: plain (if argStart = 0 then [] else [0]) := by
    unfold scan
    split <;> rfl
  rw [heq, gap_optionsFrom, or_iff_right scanSpec_not_breaksOff, not_and_or, not_gap_test_last hplain]
  refine or_iff_right_of_imp fun hwhole => ?_
  -- options that are not whole are not empty
  by_contra hlt
  rw [List.drop_eq_nil_of_le (by omega)] at hwhole
  exact hwhole ⟨.start, endsIn_nil.mpr rfl⟩

theorem not_gap_bitcount : ¬Gap args (bitcount args) ↔ 1 ≤ args.length := by
  unfold bitcount
  split_ifs with htwo hone
  · exact iff_of_true not_gap_check (by omega)
  · exact not_gap_plain_iff (by decide) (by decide)
  · change ¬Gap args (read 1 int64 :: read 2 int64 :: plain [0]) ↔ _
    rw [not_gap_two_tests, EnoughOr]
    omega

theorem not_gap_srandMember : ¬Gap args (srandMember args) ↔ 1 ≤ args.length := by
  unfold srandMember
  split_ifs with hlen
  · exact (not_gap_test_last (by decide)).trans (by omega)
  · exact not_gap_plain_iff (by decide) (by decide)

theorem not_gap_bitpos : ¬Gap args (bitpos args) ↔ 2 ≤ args.length := by
  constructor
  · intro h
    by_contra hlt
    refine h (gap_read.mpr (.inl ?_))
    omega
  · intro hlen
    refine InRange.not_gap ?_
    simp only [bitpos, inRange_append, inRange_ite, inRange_read, inRange_plain, inRange_nil,
      List.forall_mem_cons, List.not_mem_nil, IsEmpty.forall_iff, implies_true, and_true]
    omega

theorem not_gap_zrange : ¬Gap args (zrange args) ↔ EnoughOr args 3 1 int64 := by
  unfold zrange
  split_ifs with hlen
  · refine iff_of_true (InRange.not_gap ?_) (.inl (by omega))
    simp only [inRange_append, inRange_read, inRange_plain, inRange_nil, List.forall_mem_cons,
      List.not_mem_nil, IsEmpty.forall_iff, implies_true, and_true]
    omega
  · exact not_gap_two_tests

theorem not_gap_geoSearch :
    ¬Gap args (plain [0] ++ [.options 1 (geoSpec argEnv) .start noPlace]) ↔ 1 ≤ args.length := by
  constructor
  · intro h
    by_contra hlt
    exact h (gap_plain_append.mpr (.inl ⟨0, by decide, by omega⟩))
  · intro hlen
    refine InRange.not_gap (inRange_append.mpr ⟨?_, ?_⟩)
    · exact inRange_plain.mpr (in_range (k := 1) (by decide) hlen)
    · exact List.forall_mem_singleton.mpr geoSpec_not_breaksOff

theorem read_in_script_order_iff (query : ReadCommand) :
    ¬Gap args (readSteps argEnv args query) ↔ readInScriptOrder args query := by
  cases query with
  | mget | sdiff | sinter | sunion | pfcount => exact iff_of_true not_gap_every trivial
  | randomkey => exact iff_of_true gap_nil trivial
  | get | exists_ | ttl | pttl | type | strlen | hgetall | hkeys | hlen | hvals | scard | smembers
  | zcard | llen | keys => exact not_gap_plain_iff (by decide) (by decide)
  | hexists | hget | hstrlen | sismember | zrank | zrevrank | zscore =>
    exact not_gap_plain_iff (by decide) (by decide)
  | zcount | zlexcount => exact not_gap_plain_iff (by decide) (by decide)
  | hmget => exact (not_congr gap_every_append).trans (not_gap_plain_iff (by decide) (by decide))
  | lindex => exact not_gap_test_last (by decide)
  | getrange | substr | lrange => exact not_gap_two_tests
  | getbit => exact not_gap_test_first (by decide) (by decide) (by decide)
  | zrangebyscore | zrevrangebyscore | zrangebylex | zrevrangebylex =>
    exact not_gap_options_plain (by decide) (by decide) le_rfl
  | bitcount => exact not_gap_bitcount
  | bitpos => exact not_gap_bitpos
  | srandmember => exact not_gap_srandMember
  | zrange | zrevrange => exact not_gap_zrange
  | scan | hscan | sscan | zscan => exact not_gap_scan
  | geosearch => exact not_gap_geoSearch

/-- Steps behind the first argument. -/
theorem not_gap_first_iff (h : 1 ≤ args.length → ¬Gap args (plain [0] ++ ps)) :
    ¬Gap args (plain [0] ++ ps) ↔ 1 ≤ args.length := by
  refine ⟨fun hgap => ?_, h⟩
  by_contra hlt
  exact hgap (gap_plain_append.mpr (.inl ⟨0, by decide, by omega⟩))

theorem not_gap_pfadd : ¬Gap args (plain [0] ++ every 1 args) ↔ 1 ≤ args.length :=
  not_gap_first_iff fun hlen => (not_congr (gap_first hlen)).mpr not_gap_every

theorem not_gap_psetEX : ¬Gap args (plain [0] ++ [read 1 (uint32 notInteger)] ++ plain [2]) ↔
    EnoughOr args 3 1 (uint32 notInteger) := by
  have htail : ¬Gap args (read 1 (uint32 notInteger) :: plain [2]) ↔ _ :=
    not_gap_test_first (k := 3) (by decide) (by decide) (by decide)
  by_cases hlen : 1 ≤ args.length
  · rw [List.append_assoc, gap_first hlen]
    exact htail
  · refine iff_of_false (not_not_intro ?_) ?_
    · rw [List.append_assoc]
      exact gap_plain_append.mpr (.inl ⟨0, by decide, by omega⟩)
    · rw [EnoughOr]
      omega

theorem not_gap_zinterStore :
    ¬Gap args (zinterStore args) ↔ 2 ≤ args.length ∧ zinterStoreInOrder args := by
  by_cases hlen : 2 ≤ args.length
  · rw [gap_zinterStore hlen, not_not, and_iff_right hlen]
  · refine iff_of_false (not_not_intro ?_) fun h => hlen h.1
    rw [zinterStore_eq]
    exact gap_plain_append.mpr (.inr (gap_read.mpr (.inl (by omega))))

theorem not_gap_blpop :
    ¬Gap args ([timeout args] ++ plain (List.range (args.length - 1))) ↔ 1 ≤ args.length := by
  constructor
  · intro h
    by_contra hlt
    exact h (gap_read.mpr (.inl (by omega)))
  · intro hlen
    refine InRange.not_gap (inRange_append.mpr ⟨?_, inRange_plain.mpr fun i hi => ?_⟩)
    · exact inRange_read.mpr ⟨by omega, inRange_nil⟩
    · exact (List.mem_range.mp hi).trans_le (Nat.sub_le _ _)

/-- `BRPopLPush`; one argument is the timeout and the key. -/
theorem not_gap_brpopLPush :
    ¬Gap args ([timeout args] ++ plain [0, 1]) ↔ EnoughOr args 2 0 timeoutTest := by
  change ¬Gap args (read (args.length - 1) timeoutTest :: plain [0, 1]) ↔ _
  by_cases hone : args.length = 1
  · rw [hone]
    exact not_gap_test_first (by decide) (by decide) (by decide)
  · rw [gap_read, gap_plain, plain_missing_iff (k := 2) (by decide) (by decide), EnoughOr]
    omega

theorem not_gap_auth_iff :
    ¬Gap args (auth argEnv) ↔ (argEnv.requirepass ≠ [] → 1 ≤ args.length) := by
  unfold auth
  split_ifs with hpass
  · exact iff_of_true not_gap_check fun h => absurd hpass h
  · rw [imp_iff_right hpass]
    exact @not_gap_test_last _ _ _ [] (by decide)

theorem data_in_script_order_iff (cmd : DataCommand) (hscript : cmd.noScript = false) :
    ¬Gap args (dataSteps argEnv args cmd) ↔ (Setting.data cmd).InScriptOrder argEnv args := by
  cases cmd with
  | read query => exact read_in_script_order_iff query
  | import_ => cases hscript
  | flushdb | flushall => exact iff_of_true gap_nil trivial
  | del => exact iff_of_true not_gap_every trivial
  | mset | msetnx => exact iff_of_true gap_mset trivial
  | hmset => exact iff_of_true gap_hmset trivial
  | persist | decr | incr | lpop | rpop => exact not_gap_plain_iff (by decide) (by decide)
  | append | setnx | getset | rename | renamenx | rpoplpush =>
    exact not_gap_plain_iff (by decide) (by decide)
  | hset | hsetnx | smove | zremrangebyscore | zremrangebylex =>
    exact not_gap_plain_iff (by decide) (by decide)
  | hdel | sadd | sdiffstore | sinterstore | sunionstore | srem | zrem | lpush | lpushx | rpush
  | rpushx | pfmerge | bitop =>
    exact (not_congr gap_every_append).trans (not_gap_plain_iff (by decide) (by decide))
  | pfadd => exact not_gap_pfadd
  | select => exact @not_gap_test_last _ _ _ [] (by decide)
  | expire | pexpire | expireat | pexpireat | decrby | incrby | incrbyfloat | move | hincrby
  | hincrbyfloat => exact not_gap_test_last (by decide)
  | setex | setrange | lrem | lset | zincrby | linsert =>
    exact not_gap_test_first (by decide) (by decide) (by decide)
  | zremrangebyrank | ltrim | setbit => exact not_gap_two_tests
  | psetex => exact not_gap_psetEX
  | spop => exact not_gap_srandMember
  | set => exact not_gap_plain_options (by decide) (by decide)
  | zadd | geoadd => exact not_gap_options_plain (by decide) (by decide) le_rfl
  | zinterstore | zunionstore => exact not_gap_zinterStore
  | blpop | brpop => exact not_gap_blpop
  | brpoplpush => exact not_gap_brpopLPush
  | sort =>
    exact (not_gap_plain_options (k := 1) (by decide) (by decide)).trans
      (and_iff_left sortSpec_not_breaksOff)

theorem in_script_order_iff (cmd : Setting) (hscript : cmd.noScript = false) :
    ¬Gap args (cmd.steps argEnv args) ↔ cmd.InScriptOrder argEnv args := by
  cases cmd with
  | data cmd => exact data_in_script_order_iff cmd hscript
  | multi | watch | unwatch | save | quit | slaveof | replconf | sync | psync | apsync | eval
  | evalsha | script => cases hscript
  | ping | discard | exec | lastsave | dbsize | time | shutdown => exact iff_of_true gap_nil trivial
  | subscribe | psubscribe | unsubscribe | punsubscribe => exact iff_of_true not_gap_every trivial
  | publish => exact not_gap_plain_iff (by decide) (by decide)
  | echo => exact not_gap_plain_iff (by decide) (by decide)
  | info =>
    refine iff_of_true (InRange.not_gap ?_) trivial
    simp only [Setting.steps, inRange_ite, inRange_plain, inRange_nil, List.forall_mem_cons,
      List.not_mem_nil, IsEmpty.forall_iff, implies_true, and_true]
    omega
  | bgsave =>
    refine iff_of_true (InRange.not_gap ?_) trivial
    simp only [Setting.steps, ArgReads.save, inRange_ite, inRange_read, inRange_nil, implies_true,
      and_true]
    omega
  | slowlog => exact not_gap_first_iff not_gap_slowLog
  | config => exact not_gap_first_iff not_gap_config
  | client => exact not_gap_first_iff not_gap_client
  | auth => exact not_gap_auth_iff

end Script

/-! ### The result -/

section Result

variable {Num V : Type}

/-- The environment of a store: `string_todouble` is that of its numbers. -/
def argEnvOf (cfg : HandlerConfig) (kv : Kv V Num) (isZero : Num → Bool)
    (requirepass withCoordinates withDistances : Bytes) : ArgEnv where
  maxdb := cfg.maxdb
  requirepass := requirepass
  isDouble := fun b => (kv.stringToDouble b).isSome
  isZero := fun b => (kv.stringToDouble b).elim false isZero
  withCoordinates := withCoordinates
  withDistances := withDistances

variable (cfg : HandlerConfig) (kv : Kv V Num) (isZero : Num → Bool)
variable (requirepass withCoordinates withDistances : Bytes)
variable (s : Keyspace V) (env : CallEnv) (route : Route) (cmd : Setting) (args : List Bytes)

/-- **Arguments in range.** For every command of the settings table, every route that invokes its
handler and every list of arguments, the handler reads no argument that is not there and answers
malformed options with an error that leaves the store alone, exactly when the arguments are in
order. -/
theorem args_in_order (hinvokes : route.Invokes cmd args) :
    let argEnv := argEnvOf cfg kv isZero requirepass withCoordinates withDistances
    Safe cfg kv s env argEnv args cmd ↔ route.InOrder argEnv args cmd := by
  intro argEnv
  rw [safe_iff (fun _ => rfl) rfl]
  cases route with
  | call => exact in_order_iff cmd hinvokes
  | exec => exact in_order_iff cmd hinvokes
  | script => exact and_congr_left fun _ => in_script_order_iff cmd hinvokes

end Result

/-- `SET key value NX` by `Call`: its options are in order, and it is safe. -/
theorem args_in_order_set_nx :
    Safe ⟨16, []⟩ smallKv (fun _ _ => none) ⟨0, false, true, true⟩
      (argEnvOf ⟨16, []⟩ smallKv (fun n => n = 0) [] [] []) [[107], [118], [110, 120]]
      (.data .set) := by
  refine (args_in_order ⟨16, []⟩ smallKv (fun n => n = 0) [] [] [] (fun _ _ => none)
    ⟨0, false, true, true⟩ .call (.data .set) [[107], [118], [110, 120]]
    (show validArity (2, 7) 3 = true by decide)).mpr ?_
  intro hbreaks
  exact absurd (loop_eq_pastEnd_iff.mpr hbreaks) (by decide)

/-- `SET key value EX` by `Call`: the handler reads `GetArguments()[3]` of three arguments. -/
theorem set_reads_past_end :
    ¬∀ (cfg : HandlerConfig) (kv : Kv SmallValue ℤ) (s : Keyspace SmallValue) (env : CallEnv)
      (isZero : ℤ → Bool) (requirepass withCoordinates withDistances : Bytes) (route : Route)
      (cmd : Setting) (args : List Bytes), route.Invokes cmd args →
      Safe cfg kv s env (argEnvOf cfg kv isZero requirepass withCoordinates withDistances) args
        cmd := by
  intro h
  exact (h ⟨16, []⟩ smallKv (fun _ _ => none) ⟨0, false, true, true⟩ (fun n => n = 0) [] [] [] .call
    (.data .set) [[107], [118], [101, 120]] (show validArity (2, 7) 3 = true by decide)).inRange
    (by decide)

end Comms.ArgReads
