import Comms.Command.Handlers

/-!
# A small store

Strings, lists and sets with the calls that are easiest to follow: `APPEND`, the pushes and pops of
lists, `SPOP`, `SREM` and the flushes. Every other call fails. The store shows that what the handlers
rely on can be had (`smallKv_lawful`), and it is what the examples run on.
-/

namespace Comms

/-- A value of the small store. -/
inductive SmallValue
  | str (text : Bytes)
  | list (members : List Bytes)
  | set (members : List Bytes)
deriving DecidableEq, Repr

namespace SmallKv

/-- The members of a list; a key without a value is an empty list. -/
def members? : Option SmallValue → Option (List Bytes)
  | none => some []
  | some (.list members) => some members
  | _ => none

/-- Empty lists and sets are not kept. -/
def ofMembers (mk : List Bytes → SmallValue) (members : List Bytes) : Option SmallValue :=
  if members = [] then none else some (mk members)

/-- Setting the value of one key. -/
def put (s : Keyspace SmallValue) (db : DBID) (key : Bytes) (v : Option SmallValue) :
    Keyspace SmallValue :=
  fun d k => if d = db ∧ k = key then v else s d k

def result (ret : KvRet) (store : Keyspace SmallValue) : KvResult SmallValue ℤ :=
  { ret := ret, int := 0, num := 0, str := [], strs := [], store := store }

def append (s : Keyspace SmallValue) (db : DBID) (key value : Bytes) : KvResult SmallValue ℤ :=
  match s db key with
  | none => result (.ok value.length) (put s db key (some (.str value)))
  | some (.str text) =>
    result (.ok (text ++ value).length) (put s db key (some (.str (text ++ value))))
  | _ => result (.err .invalidType) s

/-- `LPush` and `RPush` without the option `X`. -/
def push (s : Keyspace SmallValue) (db : DBID) (key : Bytes) (add : List Bytes → List Bytes) :
    KvResult SmallValue ℤ :=
  match members? (s db key) with
  | some members =>
    result (.ok (add members).length) (put s db key (ofMembers .list (add members)))
  | none => result (.err .invalidType) s

/-- `LPop` and `RPop`; `split` gives the element and the rest. -/
def pop (s : Keyspace SmallValue) (db : DBID) (key : Bytes)
    (split : List Bytes → Option (Bytes × List Bytes)) : KvResult SmallValue ℤ :=
  match members? (s db key) with
  | some members =>
    match split members with
    | some (v, rest) => { result (.ok 0) (put s db key (ofMembers .list rest)) with str := v }
    | none => result (.err .entryNotExist) s
  | none => result (.err .invalidType) s

def splitFirst : List Bytes → Option (Bytes × List Bytes)
  | [] => none
  | v :: rest => some (v, rest)

def splitLast (members : List Bytes) : Option (Bytes × List Bytes) :=
  members.getLast?.map fun v => (v, members.dropLast)

/-- `RPopLPush`: the value has to be a list at both ends. -/
def rpoplpush (s : Keyspace SmallValue) (db : DBID) (source dest : Bytes) :
    KvResult SmallValue ℤ :=
  let popped := pop s db source splitLast
  match popped.ret with
  | .ok _ =>
    match members? (popped.store db dest) with
    | some members =>
      { result (.ok 0) (put popped.store db dest (some (.list (popped.str :: members)))) with
        str := popped.str }
    | none => result (.err .invalidType) s
  | .err e => result (.err e) s

/-- `SPop` of one member. -/
def spop (s : Keyspace SmallValue) (db : DBID) (key : Bytes) : KvResult SmallValue ℤ :=
  match s db key with
  | some (.set (v :: members)) =>
    { result (.ok 1) (put s db key (ofMembers .set ((v :: members).filter fun m => m ∉ [v]))) with
      strs := [v] }
  | some (.set []) => result (.ok 0) s
  | none => result (.err .entryNotExist) s
  | _ => result (.err .invalidType) s

def srem (s : Keyspace SmallValue) (db : DBID) (key : Bytes) (values : List Bytes) :
    KvResult SmallValue ℤ :=
  match s db key with
  | some (.set members) =>
    if ∃ m ∈ members, m ∈ values then
      result (.ok (members.filter fun m => m ∈ values).length)
        (put s db key (ofMembers .set (members.filter fun m => m ∉ values)))
    else result (.ok 0) s
  | none => result (.err .entryNotExist) s
  | _ => result (.err .invalidType) s

def exec (s : Keyspace SmallValue) (db : DBID) : KvCall ℤ → KvResult SmallValue ℤ
  | .append key value => append s db key value
  | .lpush key values false => push s db key fun members => values.reverse ++ members
  | .rpush key values false => push s db key fun members => members ++ values
  | .lpop key => pop s db key splitFirst
  | .rpop key => pop s db key splitLast
  | .rpoplpush source dest => rpoplpush s db source dest
  | .spop key 1 => spop s db key
  | .srem key values => srem s db key values
  | .flushDB => result (.ok 0) fun d k => if d = db then none else s d k
  | .flushAll => result (.ok 0) fun _ _ => none
  | _ => result (.err .notImplemented) s

end SmallKv

/-- The small store. Reads and the number texts are left out. -/
def smallKv : Kv SmallValue ℤ where
  exec := SmallKv.exec
  read _ _ _ _ := .nil
  load s _ := s
  stringToDouble := stringToInt64
  fastDtoa _ := []
  listLen v := ((SmallKv.members? v).getD []).length

namespace SmallKv

theorem put_of_ne {s : Keyspace SmallValue} {db d : DBID} {key k : Bytes} (v : Option SmallValue)
    (h : (d, k) ≠ (db, key)) : put s db key v d k = s d k :=
  if_neg fun heq => h (Prod.ext heq.1 heq.2)

theorem put_self {s : Keyspace SmallValue} {db : DBID} {key : Bytes} {v : Option SmallValue} :
    put s db key v db key = v :=
  if_pos ⟨rfl, rfl⟩

/-- What a call on one key may do: change that key, or fail. -/
structure OneKey (s : Keyspace SmallValue) (db : DBID) (key : Bytes) (r : KvResult SmallValue ℤ) :
    Prop where
  frame : ∀ d k, (d, k) ≠ (db, key) → r.store d k = s d k
  failed : ∀ e, r.ret = .err e → r.store = s

theorem oneKey_put {s : Keyspace SmallValue} {db : DBID} {key : Bytes} {r : KvResult SmallValue ℤ}
    {v : Option SmallValue} {n : ℕ} (hstore : r.store = put s db key v) (hret : r.ret = .ok n) :
    OneKey s db key r :=
  ⟨fun d k h => by rw [hstore, put_of_ne v h], fun e he => by rw [hret] at he; cases he⟩

theorem oneKey_same {s : Keyspace SmallValue} {db : DBID} {key : Bytes} {r : KvResult SmallValue ℤ}
    (hstore : r.store = s) : OneKey s db key r :=
  ⟨fun d k _ => by rw [hstore], fun _ _ => hstore⟩

theorem append_oneKey (s : Keyspace SmallValue) (db : DBID) (key value : Bytes) :
    OneKey s db key (append s db key value) := by
  unfold append
  split
  · exact oneKey_put rfl rfl
  · exact oneKey_put rfl rfl
  · exact oneKey_same rfl

theorem push_oneKey (s : Keyspace SmallValue) (db : DBID) (key : Bytes)
    (add : List Bytes → List Bytes) : OneKey s db key (push s db key add) := by
  unfold push
  split
  · exact oneKey_put rfl rfl
  · exact oneKey_same rfl

theorem pop_oneKey (s : Keyspace SmallValue) (db : DBID) (key : Bytes)
    (split : List Bytes → Option (Bytes × List Bytes)) : OneKey s db key (pop s db key split) := by
  unfold pop
  split
  · split
    · exact oneKey_put rfl rfl
    · exact oneKey_same rfl
  · exact oneKey_same rfl

/-- A pop returns `0` or fails; with `0`, the list is one shorter. -/
theorem pop_zero {s : Keyspace SmallValue} {db : DBID} {key : Bytes}
    {split : List Bytes → Option (Bytes × List Bytes)} {n : ℕ}
    (h : (pop s db key split).ret = .ok n) : n = 0 := by
  unfold pop at h
  split at h
  · split at h
    · exact (KvRet.ok.inj h).symm
    · cases h
  · cases h

theorem length_ofMembers (members : List Bytes) :
    ((members? (ofMembers .list members)).getD []).length = members.length := by
  unfold ofMembers
  split
  · next h => simp [members?, h]
  · rfl

theorem pop_length {s : Keyspace SmallValue} {db : DBID} {key : Bytes}
    {split : List Bytes → Option (Bytes × List Bytes)}
    (hsplit : ∀ members v rest, split members = some (v, rest) → rest.length + 1 = members.length)
    (h : (pop s db key split).ret = .ok 0) :
    smallKv.listLen ((pop s db key split).store db key) + 1 = smallKv.listLen (s db key) := by
  unfold pop at h ⊢
  split at h
  · next members hmembers =>
    split at h
    · next v rest heq =>
      have hlen := length_ofMembers rest
      simp only [smallKv, result, put_self, hmembers, Option.getD_some]
      rw [hlen, hsplit _ _ _ heq]
    · cases h
  · cases h

theorem spop_oneKey (s : Keyspace SmallValue) (db : DBID) (key : Bytes) :
    OneKey s db key (spop s db key) := by
  unfold spop
  split
  · exact oneKey_put rfl rfl
  · exact oneKey_same rfl
  · exact oneKey_same rfl
  · exact oneKey_same rfl

theorem srem_oneKey (s : Keyspace SmallValue) (db : DBID) (key : Bytes) (values : List Bytes) :
    OneKey s db key (srem s db key values) := by
  unfold srem
  split
  · split
    · exact oneKey_put rfl rfl
    · exact oneKey_same rfl
  · exact oneKey_same rfl
  · exact oneKey_same rfl

theorem spop_idle {s : Keyspace SmallValue} {db : DBID} {key : Bytes}
    (h : (spop s db key).ret = .ok 0) : (spop s db key).store = s := by
  unfold spop at h ⊢
  split at h
  · cases h
  all_goals rfl

theorem srem_idle {s : Keyspace SmallValue} {db : DBID} {key : Bytes} {values : List Bytes}
    (h : (srem s db key values).ret = .ok 0) : (srem s db key values).store = s := by
  unfold srem at h ⊢
  split at h
  · next members _ =>
    split at h
    · next hex =>
      -- a member that is removed counts
      obtain ⟨m, hm, hv⟩ := hex
      have hnil := List.length_eq_zero_iff.1 (KvRet.ok.inj h)
      have hmem : m ∈ members.filter fun m => m ∈ values := by simp [hm, hv]
      rw [hnil] at hmem
      cases hmem
    · next hex =>
      rw [if_neg hex]
      rfl
  all_goals rfl

theorem rpoplpush_frame {s : Keyspace SmallValue} {db d : DBID} {source dest k : Bytes}
    (hs : (d, k) ≠ (db, source)) (hd : (d, k) ≠ (db, dest)) :
    (rpoplpush s db source dest).store d k = s d k := by
  have hpop := (pop_oneKey s db source splitLast).frame d k hs
  unfold rpoplpush
  dsimp only
  split
  · split
    · calc put (pop s db source splitLast).store db dest _ d k
        _ = (pop s db source splitLast).store d k := put_of_ne _ hd
        _ = s d k := hpop
    · rfl
  · rfl

theorem rpoplpush_failed {s : Keyspace SmallValue} {db : DBID} {source dest : Bytes} {e : KvErr}
    (h : (rpoplpush s db source dest).ret = .err e) : (rpoplpush s db source dest).store = s := by
  unfold rpoplpush at h ⊢
  dsimp only at h ⊢
  split at h
  · split at h
    · cases h
    · rfl
  · rfl

theorem splitFirst_length {members rest : List Bytes} {v : Bytes}
    (h : splitFirst members = some (v, rest)) : rest.length + 1 = members.length := by
  cases members with
  | nil => cases h
  | cons w ws =>
    obtain ⟨rfl, rfl⟩ := Prod.mk.inj (Option.some.inj h)
    rfl

theorem splitLast_length {members rest : List Bytes} {v : Bytes}
    (h : splitLast members = some (v, rest)) : rest.length + 1 = members.length := by
  obtain ⟨w, hw, heq⟩ := Option.map_eq_some_iff.1 h
  obtain ⟨rfl, rfl⟩ := Prod.mk.inj heq
  have hne : members ≠ [] := by
    rintro rfl
    cases hw
  rw [List.length_dropLast]
  exact Nat.sub_add_cancel (List.length_pos_iff.2 hne)

/-- What the calls on one key do, all at once. -/
theorem exec_oneKey (s : Keyspace SmallValue) (db : DBID) (call : KvCall ℤ) :
    (∃ key, (∀ p, call.Touches db p ↔ p = (db, key)) ∧ OneKey s db key (exec s db call)) ∨
      (exec s db call).store = s ∨
      (∃ source dest, call = .rpoplpush source dest) ∨ call = .flushDB ∨ call = .flushAll := by
  unfold exec
  split
  · exact .inl ⟨_, fun p => Iff.rfl, append_oneKey s db _ _⟩
  · exact .inl ⟨_, fun p => Iff.rfl, push_oneKey s db _ _⟩
  · exact .inl ⟨_, fun p => Iff.rfl, push_oneKey s db _ _⟩
  · exact .inl ⟨_, fun p => Iff.rfl, pop_oneKey s db _ _⟩
  · exact .inl ⟨_, fun p => Iff.rfl, pop_oneKey s db _ _⟩
  · exact .inr (.inr (.inl ⟨_, _, rfl⟩))
  · exact .inl ⟨_, fun p => Iff.rfl, spop_oneKey s db _⟩
  · exact .inl ⟨_, fun p => Iff.rfl, srem_oneKey s db _ _⟩
  · exact .inr (.inr (.inr (.inl rfl)))
  · exact .inr (.inr (.inr (.inr rfl)))
  · exact .inr (.inl rfl)

end SmallKv

/-- **The small store is one the handlers can rely on.** -/
theorem smallKv_lawful : smallKv.Lawful where
  frame s db call d k h := by
    obtain ⟨key, hkey, hone⟩ | hsame | ⟨source, dest, rfl⟩ | rfl | rfl :=
      SmallKv.exec_oneKey s db call
    · exact hone.frame d k fun heq => h ((hkey _).2 heq)
    · rw [smallKv, hsame]
    · simp only [KvCall.Touches, not_or] at h
      exact SmallKv.rpoplpush_frame h.1 h.2
    · exact if_neg h
    · exact absurd trivial h
  failed s db call e h := by
    obtain ⟨key, hkey, hone⟩ | hsame | ⟨source, dest, rfl⟩ | rfl | rfl :=
      SmallKv.exec_oneKey s db call
    · exact hone.failed e h
    · exact hsame
    · exact SmallKv.rpoplpush_failed h
    · cases h
    · cases h
  idle s db call hcounts h := by
    change (SmallKv.exec s db call).store = s
    change (SmallKv.exec s db call).ret = .ok 0 at h
    unfold SmallKv.exec at h ⊢
    split at h <;> try exact hcounts.elim
    · cases hcounts
    · cases hcounts
    · exact SmallKv.spop_idle h
    · exact SmallKv.srem_idle h
    · rfl
  zero s db call n hzero h := by
    change (SmallKv.exec s db call).ret = .ok n at h
    unfold SmallKv.exec at h
    split at h <;> try exact hzero.elim
    · exact SmallKv.pop_zero h
    · exact SmallKv.pop_zero h
    · cases h
  lpop s db key h := SmallKv.pop_length (fun _ _ _ => SmallKv.splitFirst_length) h
  rpop s db key h := SmallKv.pop_length (fun _ _ _ => SmallKv.splitLast_length) h

end Comms
