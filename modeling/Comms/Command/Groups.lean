import Comms.Command.Handlers

/-!
# Commands with groups of arguments

`MSET`, `MSETNX` and `HMSET` take pairs, `ZADD` takes scores and members, `GEOADD` takes points of
three arguments. Each handler fills a container in a loop of its own and makes one call with it. The
first three count their arguments. `ZADD` does not, and reads past the end for the member of a last
score without one; `GEOADD` reads its points and passes none of them on.

* `inPairs`, `inTriples` — the groups of an argument list that is a whole number of them;
* `PassesAll` — one call with one entry for each group, in order;
* `Kv.OneByOne` — the store takes several entries one after the other;
* `groups_iff` — which argument lists are passed on like that.
-/

namespace Comms

/-- The pairs of a list that consists of them. -/
def inPairs : List Bytes → Option (List (Bytes × Bytes))
  | [] => some []
  | [_] => none
  | a :: b :: rest => (inPairs rest).map ((a, b) :: ·)

/-- The triples of a list that consists of them. -/
def inTriples : List Bytes → Option (List (Bytes × Bytes × Bytes))
  | [] => some []
  | [_] | [_, _] => none
  | a :: b :: c :: rest => (inTriples rest).map ((a, b, c) :: ·)

theorem inPairs_eq (l : List Bytes) :
    inPairs l = if l.length % 2 = 0 then some (pairUp l) else none := by
  induction l using inPairs.induct with
  | case1 => rfl
  | case2 a => rfl
  | case3 a b rest ih =>
    rw [inPairs, ih, pairUp, List.length_cons, List.length_cons]
    by_cases h : rest.length % 2 = 0
    · rw [if_pos h, if_pos (by omega), Option.map_some]
    · rw [if_neg h, if_neg (by omega), Option.map_none]

section Groups

variable {V Num : Type} (kv : Kv V Num)

/-- A score and a member. -/
def scored (p : Bytes × Bytes) : Option (Num × Bytes) :=
  (kv.stringToDouble p.1).map (·, p.2)

/-- A point and its name. -/
def located (p : Bytes × Bytes × Bytes) : Option (Num × Num × Bytes) :=
  (kv.stringToDouble p.1).bind fun x => (kv.stringToDouble p.2.1).map (x, ·, p.2.2)

/-- The entries after the key of `ZADD`. -/
def scoreEntries : List Bytes → Option (List (Num × Bytes))
  | [] => none
  | _ :: rest => (inPairs rest).bind fun pairs => pairs.mapM (scored kv)

/-- The entries after the key of `HMSET`. -/
def fieldEntries : List Bytes → Option (List (Bytes × Bytes))
  | [] => none
  | _ :: rest => inPairs rest

/-- The entries after the key and the coordinate type of `GEOADD`. -/
def pointEntries : List Bytes → Option (List (Num × Num × Bytes))
  | _ :: _ :: rest => (inTriples rest).bind fun triples => triples.mapM (located kv)
  | _ => none

variable (s : Keyspace V) (db : DBID)

/-- The entries put into the store one by one, from left to right. -/
def oneByOne {α : Type} (call : List α → KvCall Num) (entries : List α) : Keyspace V :=
  entries.foldl (fun s e => (kv.exec s db (call [e])).store) s

/-- The store after `MSETNX`: every entry, or none. -/
def allOrNone (entries : List (Bytes × Bytes)) : Keyspace V :=
  if (kv.exec s db (.msetNX entries)).ret = .ok 0 then oneByOne kv s db .mset entries else s

/-- One call with all the entries, and the store that they make; no call when there are none to
make. -/
def PassesAll {α : Type} (o : Outcome V Num) (entries : Option (List α))
    (call : List α → KvCall Num) (result : List α → Keyspace V) : Prop :=
  match entries with
  | none => o.calls = [] ∧ o.store = s
  | some entries => o.calls = [call entries] ∧ o.store = result entries

/-- Several entries in one call are several calls with an entry each. -/
structure Kv.OneByOne : Prop where
  mset : ∀ s db kvs, (kv.exec s db (.mset kvs)).store = Comms.oneByOne kv s db .mset kvs
  msetNX : ∀ s db kvs, (kv.exec s db (.msetNX kvs)).store = allOrNone kv s db kvs
  hmset : ∀ s db key kvs,
    (kv.exec s db (.hmset key kvs)).store = Comms.oneByOne kv s db (.hmset key) kvs
  zadd : ∀ s db key values,
    (kv.exec s db (.zadd key values)).store = Comms.oneByOne kv s db (.zadd key) values
  geoAdd : ∀ s db key coordType points,
    (kv.exec s db (.geoAdd key coordType points)).store =
      Comms.oneByOne kv s db (.geoAdd key coordType) points

/-! ### Pairs -/

variable {kv s} {env : CallEnv} {args : List Bytes}

theorem mset_passes (hk : kv.OneByOne) :
    PassesAll s (Comms.mset kv s env args false) (inPairs args) .mset
      (oneByOne kv s env.db .mset) := by
  unfold PassesAll Comms.mset
  rw [inPairs_eq]
  by_cases h : args.length % 2 = 0
  · rw [if_pos h, if_neg (not_not.mpr h), if_neg (by decide)]
    exact ⟨rfl, hk.mset s env.db _⟩
  · rw [if_neg h, if_pos h]
    exact ⟨rfl, rfl⟩

theorem msetnx_passes (hk : kv.OneByOne) :
    PassesAll s (Comms.mset kv s env args true) (inPairs args) .msetNX
      (allOrNone kv s env.db) := by
  unfold PassesAll Comms.mset
  rw [inPairs_eq]
  by_cases h : args.length % 2 = 0
  · rw [if_pos h, if_neg (not_not.mpr h), if_pos rfl]
    refine ⟨runCall_calls .., ?_⟩
    rw [runCall_store]
    exact hk.msetNX s env.db _
  · rw [if_neg h, if_pos h]
    exact ⟨rfl, rfl⟩

theorem hmset_passes (hk : kv.OneByOne) :
    PassesAll s (Comms.hmset kv s env args) (fieldEntries args) (.hmset (arg args 0))
      (oneByOne kv s env.db (.hmset (arg args 0))) := by
  unfold PassesAll Comms.hmset
  cases args with
  | nil => exact ⟨rfl, rfl⟩
  | cons key rest =>
    rw [fieldEntries, inPairs_eq, List.length_cons]
    by_cases h : rest.length % 2 = 0
    · rw [if_pos h, if_neg (by omega)]
      refine ⟨runCall_calls .., ?_⟩
      rw [runCall_store]
      exact hk.hmset s env.db _ _
    · rw [if_neg h, if_pos (by omega)]
      exact ⟨rfl, rfl⟩

/-! ### Scores -/

theorem scorePairs_eq (pairs : List (Bytes × Bytes)) :
    scorePairs kv pairs = pairs.mapM (scored kv) := by
  induction pairs with
  | nil => rfl
  | cons p pairs ih =>
    rw [scorePairs, ih, List.mapM_cons, scored]
    cases kv.stringToDouble p.1 with
    | none => rfl
    | some x => cases pairs.mapM (scored kv) <;> rfl

theorem scorePairs_eq_none_iff (pairs : List (Bytes × Bytes)) :
    scorePairs kv pairs = none ↔ ∃ p ∈ pairs, kv.stringToDouble p.1 = none := by
  induction pairs with
  | nil => simp [scorePairs]
  | cons p pairs ih =>
    rw [scorePairs, List.exists_mem_cons_iff, ← ih]
    cases kv.stringToDouble p.1 with
    | none => simp
    | some x => simp

/-- A score that is not a number is refused, whatever the number of arguments. -/
theorem zadd_of_none (h : scorePairs kv (pairUp (args.drop 1)) = none) :
    (Comms.zadd kv s env args).calls = [] ∧ (Comms.zadd kv s env args).store = s := by
  unfold Comms.zadd
  rw [h]
  exact ⟨rfl, rfl⟩

theorem zadd_of_some {values : List (Num × Bytes)}
    (h : scorePairs kv (pairUp (args.drop 1)) = some values) :
    (Comms.zadd kv s env args).calls = [.zadd (arg args 0) values] ∧
      (Comms.zadd kv s env args).store = (kv.exec s env.db (.zadd (arg args 0) values)).store := by
  unfold Comms.zadd
  rw [h]
  exact ⟨runCall_calls .., runCall_store ..⟩

/-- **`ZADD`** passes its groups on when they are complete, and refuses scores that are not
numbers. -/
theorem zadd_passes_iff (hk : kv.OneByOne) :
    PassesAll s (Comms.zadd kv s env args) (scoreEntries kv args) (.zadd (arg args 0))
        (oneByOne kv s env.db (.zadd (arg args 0))) ↔
      args.length % 2 = 1 ∨ ∃ p ∈ pairUp (args.drop 1), kv.stringToDouble p.1 = none := by
  rw [← scorePairs_eq_none_iff]
  have hentries : scoreEntries kv args =
      if args.length % 2 = 1 then scorePairs kv (pairUp (args.drop 1)) else none := by
    cases args with
    | nil => rfl
    | cons key rest =>
      rw [scoreEntries, inPairs_eq, List.length_cons, List.drop_succ_cons, List.drop_zero,
        scorePairs_eq]
      by_cases heven : rest.length % 2 = 0
      · rw [if_pos heven, if_pos (by omega), Option.bind_some]
      · rw [if_neg heven, if_neg (by omega), Option.bind_none]
  unfold PassesAll
  rw [hentries]
  cases hscores : scorePairs kv (pairUp (args.drop 1)) with
  | none =>
    rw [ite_self]
    exact iff_of_true (zadd_of_none hscores) (.inr rfl)
  | some values =>
    obtain ⟨hcalls, hstore⟩ := @zadd_of_some _ _ _ s env _ _ hscores
    rw [hcalls, hstore]
    by_cases hodd : args.length % 2 = 1
    · rw [if_pos hodd]
      exact iff_of_true ⟨rfl, hk.zadd s env.db _ _⟩ (.inl hodd)
    · -- the last score has no member, and a call is made with it all the same
      rw [if_neg hodd]
      refine iff_of_false (fun h => ?_) (fun h => ?_)
      · cases h.1
      · rcases h with h | h
        · exact hodd h
        · cases h

/-! ### Points -/

/-- The coordinates `GEOADD` looks at: the first two arguments of every group, and what is read in
their place where the last group is not complete. -/
theorem geoPoints_eq_none_iff {fuel : ℕ} {rest : List Bytes} (hfuel : rest.length ≤ fuel) :
    geoPoints kv fuel rest = none ↔ ∃ i, 3 * i < rest.length ∧
      (kv.stringToDouble (arg rest (3 * i)) = none ∨
        kv.stringToDouble (arg rest (3 * i + 1)) = none) := by
  induction fuel generalizing rest with
  | zero =>
    obtain rfl := List.length_eq_zero_iff.mp (Nat.le_zero.mp hfuel)
    simp [geoPoints]
  | succ fuel ih =>
    cases rest with
    | nil => simp [geoPoints]
    | cons x rest =>
      rw [List.length_cons] at hfuel
      have hrest := @ih (rest.drop 2) (by rw [List.length_drop]; omega)
      -- the groups behind the first one
      have hshift : (∃ i, 3 * i < (rest.drop 2).length ∧
          (kv.stringToDouble (arg (rest.drop 2) (3 * i)) = none ∨
            kv.stringToDouble (arg (rest.drop 2) (3 * i + 1)) = none)) ↔
          ∃ i, 3 * (i + 1) < (x :: rest).length ∧
            (kv.stringToDouble (arg (x :: rest) (3 * (i + 1))) = none ∨
              kv.stringToDouble (arg (x :: rest) (3 * (i + 1) + 1)) = none) := by
        have harg : ∀ j, arg (rest.drop 2) j = arg (x :: rest) (j + 3) := by
          intro j
          unfold arg
          rw [List.getD_eq_getElem?_getD, List.getD_eq_getElem?_getD, List.getElem?_drop,
            List.getElem?_cons_succ, Nat.add_comm 2]
        refine exists_congr fun i => ?_
        rw [harg, harg, List.length_drop, List.length_cons,
          show 3 * i + 3 = 3 * (i + 1) by omega, show 3 * i + 1 + 3 = 3 * (i + 1) + 1 by omega]
        exact and_congr_left' (by omega)
      have hfirst : (∃ i, 3 * i < (x :: rest).length ∧
          (kv.stringToDouble (arg (x :: rest) (3 * i)) = none ∨
            kv.stringToDouble (arg (x :: rest) (3 * i + 1)) = none)) ↔
          (kv.stringToDouble x = none ∨ kv.stringToDouble (arg rest 0) = none) ∨
            ∃ i, 3 * (i + 1) < (x :: rest).length ∧
              (kv.stringToDouble (arg (x :: rest) (3 * (i + 1))) = none ∨
                kv.stringToDouble (arg (x :: rest) (3 * (i + 1) + 1)) = none) := by
        constructor
        · rintro ⟨i, hi, h⟩
          cases i with
          | zero => exact .inl h
          | succ i => exact .inr ⟨i, hi, h⟩
        · rintro (h | ⟨i, hi, h⟩)
          · exact ⟨0, by rw [List.length_cons]; omega, h⟩
          · exact ⟨i + 1, hi, h⟩
      rw [hfirst, ← hshift, ← hrest, geoPoints]
      cases kv.stringToDouble x with
      | none => simp
      | some px =>
        cases kv.stringToDouble (arg rest 0) with
        | none => simp
        | some py => simp

theorem geoAdd_of_none (h : geoPoints kv args.length (args.drop 2) = none) :
    (Comms.geoAdd kv s env args).calls = [] ∧ (Comms.geoAdd kv s env args).store = s := by
  unfold Comms.geoAdd
  rw [h]
  exact ⟨rfl, rfl⟩

theorem geoAdd_of_some {points : List (Num × Num × Bytes)}
    (h : geoPoints kv args.length (args.drop 2) = some points) :
    (Comms.geoAdd kv s env args).calls = [.geoAdd (arg args 0) (arg args 1) []] ∧
      (Comms.geoAdd kv s env args).store =
        (kv.exec s env.db (.geoAdd (arg args 0) (arg args 1) [])).store := by
  unfold Comms.geoAdd
  rw [h]
  exact ⟨runCall_calls .., runCall_store ..⟩

/-- On a whole number of groups the loop reads what the groups say. -/
theorem geoPoints_of_triples {fuel : ℕ} {rest : List Bytes} (hfuel : rest.length ≤ fuel)
    {triples : List (Bytes × Bytes × Bytes)} (h : inTriples rest = some triples) :
    geoPoints kv fuel rest = triples.mapM (located kv) := by
  induction rest using inTriples.induct generalizing fuel triples with
  | case1 =>
    obtain rfl := Option.some.inj h
    cases fuel <;> rfl
  | case2 x => cases h
  | case3 x y => cases h
  | case4 x y v rest ih =>
    obtain ⟨triples, hrest, rfl⟩ := Option.map_eq_some_iff.mp h
    simp only [List.length_cons] at hfuel
    obtain ⟨fuel, rfl⟩ := Nat.exists_eq_add_of_lt (show 0 < fuel by omega)
    rw [Nat.zero_add, geoPoints, List.mapM_cons, located]
    change (kv.stringToDouble x).bind (fun px => (kv.stringToDouble y).bind fun py =>
      (geoPoints kv fuel rest).map _) = _
    rw [ih (by omega) hrest]
    cases kv.stringToDouble x with
    | none => rfl
    | some px =>
      cases kv.stringToDouble y with
      | none => rfl
      | some py => cases triples.mapM (located kv) <;> rfl

theorem inTriples_length {rest : List Bytes} {triples : List (Bytes × Bytes × Bytes)}
    (h : inTriples rest = some triples) : rest.length = 3 * triples.length := by
  induction rest using inTriples.induct generalizing triples with
  | case1 =>
    obtain rfl := Option.some.inj h
    rfl
  | case2 x => cases h
  | case3 x y => cases h
  | case4 x y v rest ih =>
    obtain ⟨triples, hrest, rfl⟩ := Option.map_eq_some_iff.mp h
    simp only [List.length_cons, ih hrest]
    omega

theorem mapM_length {α β : Type} {f : α → Option β} {xs : List α} {ys : List β}
    (h : xs.mapM f = some ys) : ys.length = xs.length := by
  induction xs generalizing ys with
  | nil =>
    obtain rfl := Option.some.inj h
    rfl
  | cons x xs ih =>
    rw [List.mapM_cons] at h
    obtain ⟨y, -, hrest⟩ := Option.bind_eq_some_iff.mp h
    obtain ⟨ys', hys, heq⟩ := Option.bind_eq_some_iff.mp hrest
    obtain rfl := Option.some.inj heq
    rw [List.length_cons, List.length_cons, ih hys]

/-- The entries of `GEOADD` are the points the loop reads. -/
theorem pointEntries_eq_some {points : List (Num × Num × Bytes)}
    (h : pointEntries kv args = some points) :
    geoPoints kv args.length (args.drop 2) = some points ∧ (points = [] ↔ args.length = 2) := by
  unfold pointEntries at h
  split at h
  swap
  · cases h
  next key coordType rest =>
  obtain ⟨triples, htriples, hpoints⟩ := Option.bind_eq_some_iff.mp h
  refine ⟨?_, ?_⟩
  · rw [← hpoints]
    exact geoPoints_of_triples (by change rest.length ≤ rest.length + 2; omega) htriples
  · have hlen : points.length = triples.length := mapM_length hpoints
    have hrest := inTriples_length htriples
    rw [← List.length_eq_zero_iff, hlen]
    simp only [List.length_cons]
    omega

/-- **`GEOADD`** passes on what it should only when that is nothing. -/
theorem geoAdd_passes_iff (hk : kv.OneByOne) :
    PassesAll s (Comms.geoAdd kv s env args) (pointEntries kv args)
        (.geoAdd (arg args 0) (arg args 1))
        (oneByOne kv s env.db (.geoAdd (arg args 0) (arg args 1))) ↔
      args.length = 2 ∨ ∃ i, 3 * i < (args.drop 2).length ∧
        (kv.stringToDouble (arg (args.drop 2) (3 * i)) = none ∨
          kv.stringToDouble (arg (args.drop 2) (3 * i + 1)) = none) := by
  rw [← @geoPoints_eq_none_iff _ _ _ args.length _ (by rw [List.length_drop]; omega)]
  unfold PassesAll
  cases hpoints : geoPoints kv args.length (args.drop 2) with
  | none =>
    have hentries : pointEntries kv args = none := by
      cases hentries : pointEntries kv args with
      | none => rfl
      | some entries => rw [(pointEntries_eq_some hentries).1] at hpoints; cases hpoints
    rw [hentries]
    exact iff_of_true (geoAdd_of_none hpoints) (.inr rfl)
  | some points =>
    obtain ⟨hcalls, hstore⟩ := @geoAdd_of_some _ _ _ s env _ _ hpoints
    rw [hcalls, hstore]
    cases hentries : pointEntries kv args with
    | none =>
      refine iff_of_false (fun h => ?_) (fun h => ?_)
      · cases h.1
      · rcases h with h | h
        · obtain ⟨key, coordType, rfl⟩ := List.length_eq_two.mp h
          cases hentries
        · cases h
    | some entries =>
      obtain ⟨-, hnil⟩ := pointEntries_eq_some hentries
      rw [← hnil]
      constructor
      · rintro ⟨hcall, -⟩
        exact .inl (KvCall.geoAdd.inj (List.cons.inj hcall).1).2.2.symm
      · rintro (rfl | h)
        · exact ⟨rfl, hk.geoAdd s env.db _ _ _⟩
        · cases h

/-- **Groups of arguments.** `MSET`, `MSETNX` and `HMSET` pass on every group of every list and make
no call for a list that is not a whole number of them. `ZADD` does where the last score has its
member, or some score is refused. `GEOADD` passes on no point: it does what it should with no points
at all, or when a coordinate is refused. -/
theorem groups_iff (hk : kv.OneByOne) (s : Keyspace V) (env : CallEnv) (args : List Bytes) :
    PassesAll s (Comms.mset kv s env args false) (inPairs args) .mset
      (oneByOne kv s env.db .mset) ∧
    PassesAll s (Comms.mset kv s env args true) (inPairs args) .msetNX
      (allOrNone kv s env.db) ∧
    PassesAll s (Comms.hmset kv s env args) (fieldEntries args) (.hmset (arg args 0))
      (oneByOne kv s env.db (.hmset (arg args 0))) ∧
    (PassesAll s (Comms.zadd kv s env args) (scoreEntries kv args) (.zadd (arg args 0))
        (oneByOne kv s env.db (.zadd (arg args 0))) ↔
      args.length % 2 = 1 ∨ ∃ p ∈ pairUp (args.drop 1), kv.stringToDouble p.1 = none) ∧
    (PassesAll s (Comms.geoAdd kv s env args) (pointEntries kv args)
        (.geoAdd (arg args 0) (arg args 1))
        (oneByOne kv s env.db (.geoAdd (arg args 0) (arg args 1))) ↔
      args.length = 2 ∨ ∃ i, 3 * i < (args.drop 2).length ∧
        (kv.stringToDouble (arg (args.drop 2) (3 * i)) = none ∨
          kv.stringToDouble (arg (args.drop 2) (3 * i + 1)) = none)) :=
  ⟨mset_passes hk, msetnx_passes hk, hmset_passes hk, zadd_passes_iff hk, geoAdd_passes_iff hk⟩

end Groups

/-! ### A store of maps -/

/-- A value of the store of maps. -/
inductive MapValue
  | str (text : Bytes)
  | hash (fields : List (Bytes × Bytes))
  | zset (members : List (Bytes × ℤ))
deriving DecidableEq, Repr

namespace MapKv

/-- An entry of a map, in place of an earlier one of the same name. -/
def upsert {α : Type} (entries : List (Bytes × α)) (name : Bytes) (value : α) : List (Bytes × α) :=
  (name, value) :: entries.filter (·.1 ≠ name)

def put (s : Keyspace MapValue) (db : DBID) (key : Bytes) (v : MapValue) : Keyspace MapValue :=
  fun d k => if d = db ∧ k = key then some v else s d k

/-- `Set` of one key. -/
def set (db : DBID) (s : Keyspace MapValue) (p : Bytes × Bytes) : Keyspace MapValue :=
  put s db p.1 (.str p.2)

/-- `HSet` of one field; a key of another type is left alone. -/
def hset (db : DBID) (key : Bytes) (s : Keyspace MapValue) (p : Bytes × Bytes) :
    Keyspace MapValue :=
  match s db key with
  | none => put s db key (.hash [p])
  | some (.hash fields) => put s db key (.hash (upsert fields p.1 p.2))
  | _ => s

/-- `ZAdd` of one member; a key of another type is left alone. -/
def zadd (db : DBID) (key : Bytes) (s : Keyspace MapValue) (p : ℤ × Bytes) : Keyspace MapValue :=
  match s db key with
  | none => put s db key (.zset [(p.2, p.1)])
  | some (.zset members) => put s db key (.zset (upsert members p.2 p.1))
  | _ => s

def result (ret : KvRet) (store : Keyspace MapValue) : KvResult MapValue ℤ :=
  { ret := ret, int := 0, num := 0, str := [], strs := [], store := store }

def exec (s : Keyspace MapValue) (db : DBID) : KvCall ℤ → KvResult MapValue ℤ
  | .mset kvs => result (.ok 0) (kvs.foldl (set db) s)
  | .msetNX kvs =>
    if kvs.all fun p => (s db p.1).isNone then result (.ok 0) (kvs.foldl (set db) s)
    else result (.err .entryExisted) s
  | .hmset key kvs => result (.ok 0) (kvs.foldl (hset db key) s)
  | .zadd key values => result (.ok values.length) (values.foldl (zadd db key) s)
  | _ => result (.err .notImplemented) s

end MapKv

/-- The store of maps. Reads, points and the number texts are left out. -/
def mapKv : Kv MapValue ℤ where
  exec := MapKv.exec
  read _ _ _ _ := .nil
  load s _ := s
  stringToDouble := stringToInt64
  fastDtoa _ := []
  listLen _ := 0

theorem mapKv_oneByOne : mapKv.OneByOne where
  mset _ _ _ := rfl
  msetNX s db kvs := by
    unfold allOrNone
    change (MapKv.exec s db (.msetNX kvs)).store =
      if (MapKv.exec s db (.msetNX kvs)).ret = .ok 0 then kvs.foldl (MapKv.set db) s else s
    unfold MapKv.exec
    dsimp only
    split
    · exact (if_pos rfl).symm
    · exact (if_neg fun h => by cases h).symm
  hmset _ _ _ _ := rfl
  zadd _ _ _ _ := rfl
  geoAdd s db key coordType points := by
    change s = points.foldl (fun s _ => s) s
    induction points with
    | nil => rfl
    | cons p points ih => exact ih

/-- One pair behind a key. -/
theorem groups_one :
    PassesAll (fun _ _ => none) (Comms.mset mapKv (fun _ _ => none) ⟨0, false, true, true⟩
        [[107], [49], [97]] false) (inPairs [[107], [49], [97]]) .mset
      (oneByOne mapKv (fun _ _ => none) 0 .mset) ∧
    PassesAll (fun _ _ => none) (Comms.hmset mapKv (fun _ _ => none) ⟨0, false, true, true⟩
        [[107], [49], [97]]) (fieldEntries [[107], [49], [97]]) (.hmset [107])
      (oneByOne mapKv (fun _ _ => none) 0 (.hmset [107])) ∧
    (PassesAll (fun _ _ => none) (Comms.zadd mapKv (fun _ _ => none) ⟨0, false, true, true⟩
        [[107], [49], [97]]) (scoreEntries mapKv [[107], [49], [97]]) (.zadd [107])
        (oneByOne mapKv (fun _ _ => none) 0 (.zadd [107])) ↔
      3 % 2 = 1 ∨ ∃ p ∈ pairUp [[49], [97]], mapKv.stringToDouble p.1 = none) :=
  have h := groups_iff mapKv_oneByOne (fun _ _ => none) ⟨0, false, true, true⟩
    [[107], [49], [97]]
  ⟨h.1, h.2.2.1, h.2.2.2.1⟩

/-- `GEOADD k WGS84 1 2 p` calls the store without the point. -/
theorem point_not_passed :
    ¬ ∀ args, PassesAll (fun _ _ => none)
      (Comms.geoAdd mapKv (fun _ _ => none) ⟨0, false, true, true⟩ args)
      (pointEntries mapKv args) (.geoAdd (arg args 0) (arg args 1))
      (oneByOne mapKv (fun _ _ => none) 0 (.geoAdd (arg args 0) (arg args 1))) := by
  intro h
  have hcalls := (h [[107], [87, 71, 83, 56, 52], [49], [50], [112]]).1
  exact absurd hcalls (by decide)

end Comms
