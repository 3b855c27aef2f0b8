import Comms.Command.ListPop
import Comms.Command.SmallKv

/-!
# Lists in the store

What the handlers of the list commands rely on: which members a list has after a push or a pop, and
what is returned. A key without a value is a list without members.

* `Kv.Lists` — pushes, pops and `RPOPLPUSH`, in terms of the members;
* `Kv.PopResult`, `Kv.PushResult`, `Kv.MoveResult` — what becomes of one element, and of all lists;
* `smallKv_lists` — the small store has these lists.
-/

namespace Comms

/-- `LPush` or `RPush` of the store. -/
def pushCall {Num : Type} (lpush : Bool) (key : Bytes) (values : List Bytes) : KvCall Num :=
  if lpush then .lpush key values false else .rpush key values false

theorem pushCall_touches {Num : Type} {db : DBID} {lpush : Bool} {key : Bytes} {values : List Bytes}
    (p : DBID × Bytes) : (pushCall lpush key values : KvCall Num).Touches db p ↔ p = (db, key) := by
  cases lpush <;> rfl

/-- The error of a pop that finds no element. -/
def KvErr.Missing (e : KvErr) : Prop := e = .entryNotExist ∨ e = .dbNotExist

/-- **Lists.** `members` are the members of the value of a key, or `none` if it is not a list. -/
structure Kv.Lists {V Num : Type} (kv : Kv V Num) (members : Option V → Option (List Bytes)) : Prop where
  /-- Several values are pushed one after the other. -/
  lpush : ∀ s db key values l, members (s db key) = some l → values ≠ [] →
    ∃ n, (kv.exec s db (.lpush key values false)).ret = .ok n ∧
      members ((kv.exec s db (.lpush key values false)).store db key) = some (values.reverse ++ l)
  rpush : ∀ s db key values l, members (s db key) = some l → values ≠ [] →
    ∃ n, (kv.exec s db (.rpush key values false)).ret = .ok n ∧
      members ((kv.exec s db (.rpush key values false)).store db key) = some (l ++ values)
  push_wrongType : ∀ s db left key values, members (s db key) = none →
    (kv.exec s db (pushCall left key values)).ret = .err .invalidType
  /-- The first member makes a list, whichever end it is pushed to. -/
  push_first : ∀ s t db left left' key value, Keyspace.Frames t s (db, key) →
    members (s db key) = some [] → members (t db key) = some [] →
    (kv.exec t db (pushCall left key [value])).store = (kv.exec s db (pushCall left' key [value])).store
  lpop : ∀ s db key value l, members (s db key) = some (value :: l) →
    (kv.exec s db (.lpop key)).ret = .ok 0 ∧ (kv.exec s db (.lpop key)).str = value ∧
      members ((kv.exec s db (.lpop key)).store db key) = some l
  rpop : ∀ s db key value l, members (s db key) = some (l ++ [value]) →
    (kv.exec s db (.rpop key)).ret = .ok 0 ∧ (kv.exec s db (.rpop key)).str = value ∧
      members ((kv.exec s db (.rpop key)).store db key) = some l
  pop_missing : ∀ s db left key, members (s db key) = some [] →
    ∃ e : KvErr, (kv.exec s db (popCall left key)).ret = .err e ∧ e.Missing
  pop_wrongType : ∀ s db left key, members (s db key) = none →
    (kv.exec s db (popCall left key)).ret = .err .invalidType
  /-- `RPOPLPUSH` is a pop and a push, if both values are lists. -/
  rpoplpush : ∀ s db source dest value l m, members (s db source) = some (l ++ [value]) →
    members ((kv.exec s db (.rpop source)).store db dest) = some m →
    (∃ n, (kv.exec s db (.rpoplpush source dest)).ret = .ok n) ∧
      (kv.exec s db (.rpoplpush source dest)).str = value ∧
      (kv.exec s db (.rpoplpush source dest)).store =
        (kv.exec (kv.exec s db (.rpop source)).store db (.lpush dest [value] false)).store
  rpoplpush_wrongType : ∀ s db source dest value l, members (s db source) = some (l ++ [value]) →
    members ((kv.exec s db (.rpop source)).store db dest) = none →
    (kv.exec s db (.rpoplpush source dest)).ret = .err .invalidType
  rpoplpush_sourceWrongType : ∀ s db source dest, members (s db source) = none →
    (kv.exec s db (.rpoplpush source dest)).ret = .err .invalidType

/-- Lists, and what `RPOPLPUSH` returns if the source is missing. -/
structure Kv.ListLaws {V Num : Type} (kv : Kv V Num) (members : Option V → Option (List Bytes)) : Prop
    extends kv.Lists members where
  rpoplpush_missing : ∀ s db source dest, members (s db source) = some [] →
    ∃ e : KvErr, (kv.exec s db (.rpoplpush source dest)).ret = .err e ∧ e.Missing

/-! ### One element -/

/-- A list with one more member, at its head or at its tail. -/
def atEnd (left : Bool) (value : Bytes) (l : List Bytes) : List Bytes :=
  if left then value :: l else l ++ [value]

theorem exists_atEnd (left : Bool) {l : List Bytes} (h : l ≠ []) :
    ∃ value rest, l = atEnd left value rest := by
  cases left with
  | true =>
    obtain ⟨value, rest, rfl⟩ := List.exists_cons_of_ne_nil h
    exact ⟨value, rest, rfl⟩
  | false => exact ⟨l.getLast h, l.dropLast, (List.dropLast_append_getLast h).symm⟩

@[simp] theorem length_atEnd (left : Bool) (value : Bytes) (l : List Bytes) :
    (atEnd left value l).length = l.length + 1 := by
  cases left <;> simp [atEnd]

theorem atEnd_ne_nil (left : Bool) (value : Bytes) (l : List Bytes) : atEnd left value l ≠ [] := by
  cases left <;> simp [atEnd]

theorem atEnd_inj {left : Bool} {v v' : Bytes} {l l' : List Bytes} (h : atEnd left v l = atEnd left v' l') :
    v = v' ∧ l = l' := by
  cases left with
  | true => exact List.cons.inj h
  | false =>
    obtain ⟨hl, hv⟩ := List.append_inj' h rfl
    exact ⟨(List.cons.inj hv).1, hl⟩

/-- The members of the lists there are. -/
def Keyspace.lists {V : Type} (members : Option V → Option (List Bytes)) (s : Keyspace V) :
    DBID × Bytes → Option (List Bytes) :=
  fun p => members (s p.1 p.2)

section OneElement

variable {V Num : Type} {kv : Kv V Num} {members : Option V → Option (List Bytes)} {s : Keyspace V}
  {db : DBID} {key : Bytes}

theorem Kv.Lawful.lists_eq (hk : kv.Lawful) {call : KvCall Num} {l : Option (List Bytes)}
    (htouches : ∀ p, call.Touches db p → p = (db, key))
    (h : members ((kv.exec s db call).store db key) = l) :
    Keyspace.lists members (kv.exec s db call).store =
      Function.update (Keyspace.lists members s) (db, key) l := by
  funext p
  by_cases hp : p = (db, key)
  · subst hp
    rw [Function.update_self]
    exact h
  · rw [Function.update_of_ne hp]
    exact congrArg members (hk.frames htouches p.1 p.2 hp)

/-- What a pop comes to. -/
inductive Kv.PopResult (kv : Kv V Num) (members : Option V → Option (List Bytes)) (s : Keyspace V)
    (db : DBID) (left : Bool) (key : Bytes) : Prop
  | element (value : Bytes) (l : List Bytes)
    (before : Keyspace.lists members s (db, key) = some (atEnd left value l))
    (ret : (kv.exec s db (popCall left key)).ret = .ok 0)
    (str : (kv.exec s db (popCall left key)).str = value)
    (after : Keyspace.lists members (kv.exec s db (popCall left key)).store =
      Function.update (Keyspace.lists members s) (db, key) (some l))
  | missing (before : Keyspace.lists members s (db, key) = some []) (e : KvErr) (he : e.Missing)
    (ret : (kv.exec s db (popCall left key)).ret = .err e)
    (store : (kv.exec s db (popCall left key)).store = s)
  | wrongType (before : Keyspace.lists members s (db, key) = none)
    (ret : (kv.exec s db (popCall left key)).ret = .err .invalidType)
    (store : (kv.exec s db (popCall left key)).store = s)

theorem Kv.Lists.popResult (hl : kv.Lists members) (hk : kv.Lawful) (s : Keyspace V) (db : DBID)
    (left : Bool) (key : Bytes) : kv.PopResult members s db left key := by
  cases h : members (s db key) with
  | none =>
    have hret := hl.pop_wrongType s db left key h
    exact .wrongType h hret (hk.failed _ _ _ _ hret)
  | some l =>
    by_cases hnil : l = []
    · subst hnil
      obtain ⟨e, hret, he⟩ := hl.pop_missing s db left key h
      exact .missing h e he hret (hk.failed _ _ _ _ hret)
    · obtain ⟨value, rest, rfl⟩ := exists_atEnd left hnil
      have hpop : (kv.exec s db (popCall left key)).ret = .ok 0 ∧
          (kv.exec s db (popCall left key)).str = value ∧
          members ((kv.exec s db (popCall left key)).store db key) = some rest := by
        cases left with
        | true => exact hl.lpop s db key value rest h
        | false => exact hl.rpop s db key value rest h
      obtain ⟨hret, hstr, hafter⟩ := hpop
      exact .element value rest h hret hstr (hk.lists_eq (fun p => (popCall_touches p).mp) hafter)

/-- What a push of one element comes to. -/
inductive Kv.PushResult (kv : Kv V Num) (members : Option V → Option (List Bytes)) (s : Keyspace V)
    (db : DBID) (left : Bool) (key value : Bytes) : Prop
  | pushed (l : List Bytes) (n : ℕ) (before : Keyspace.lists members s (db, key) = some l)
    (ret : (kv.exec s db (pushCall left key [value])).ret = .ok n)
    (after : Keyspace.lists members (kv.exec s db (pushCall left key [value])).store =
      Function.update (Keyspace.lists members s) (db, key) (some (atEnd left value l)))
  | wrongType (before : Keyspace.lists members s (db, key) = none)
    (ret : (kv.exec s db (pushCall left key [value])).ret = .err .invalidType)
    (store : (kv.exec s db (pushCall left key [value])).store = s)

theorem Kv.Lists.pushResult (hl : kv.Lists members) (hk : kv.Lawful) (s : Keyspace V) (db : DBID)
    (left : Bool) (key value : Bytes) : kv.PushResult members s db left key value := by
  cases h : members (s db key) with
  | none =>
    have hret := hl.push_wrongType s db left key [value] h
    exact .wrongType h hret (hk.failed _ _ _ _ hret)
  | some l =>
    have hpush : ∃ n, (kv.exec s db (pushCall left key [value])).ret = .ok n ∧
        members ((kv.exec s db (pushCall left key [value])).store db key) =
          some (atEnd left value l) := by
      cases left with
      | true => exact hl.lpush s db key [value] l h (List.cons_ne_nil _ _)
      | false => exact hl.rpush s db key [value] l h (List.cons_ne_nil _ _)
    obtain ⟨n, hret, hafter⟩ := hpush
    exact .pushed l n h hret (hk.lists_eq (fun p => (pushCall_touches p).mp) hafter)

/-- What an `RPOPLPUSH` comes to. -/
inductive Kv.MoveResult (kv : Kv V Num) (members : Option V → Option (List Bytes)) (s : Keyspace V)
    (db : DBID) (source dest : Bytes) : Prop
  | moved (value : Bytes) (l m : List Bytes) (n : ℕ)
    (before : Keyspace.lists members s (db, source) = some (atEnd false value l))
    (dest_before : Function.update (Keyspace.lists members s) (db, source) (some l) (db, dest) = some m)
    (ret : (kv.exec s db (.rpoplpush source dest)).ret = .ok n)
    (str : (kv.exec s db (.rpoplpush source dest)).str = value)
    (after : Keyspace.lists members (kv.exec s db (.rpoplpush source dest)).store =
      Function.update (Function.update (Keyspace.lists members s) (db, source) (some l)) (db, dest)
        (some (atEnd true value m)))
  | missing (before : Keyspace.lists members s (db, source) = some []) (e : KvErr)
    (he : e.Missing)
    (ret : (kv.exec s db (.rpoplpush source dest)).ret = .err e)
    (store : (kv.exec s db (.rpoplpush source dest)).store = s)
  | wrongType (ret : (kv.exec s db (.rpoplpush source dest)).ret = .err .invalidType)
    (store : (kv.exec s db (.rpoplpush source dest)).store = s)

theorem Kv.ListLaws.moveResult (hl : kv.ListLaws members) (hk : kv.Lawful) (s : Keyspace V) (db : DBID)
    (source dest : Bytes) : kv.MoveResult members s db source dest := by
  obtain ⟨value, l, hbefore, -, -, hafter⟩ | ⟨hbefore, -, -, -⟩ | ⟨hbefore, -, -⟩ :=
    hl.popResult hk s db false source
  · change Keyspace.lists members (kv.exec s db (.rpop source)).store = _ at hafter
    cases hdest : Keyspace.lists members (kv.exec s db (.rpop source)).store (db, dest) with
    | none =>
      have hret := hl.rpoplpush_wrongType s db source dest value l hbefore hdest
      exact .wrongType hret (hk.failed _ _ _ _ hret)
    | some m =>
      obtain ⟨⟨n, hret⟩, hstr, hstore⟩ := hl.rpoplpush s db source dest value l m hbefore hdest
      refine .moved value l m n hbefore (hafter ▸ hdest) hret hstr ?_
      rw [hstore]
      obtain ⟨m', -, hm', -, hpushed⟩ | ⟨hnone, -, -⟩ :=
        hl.pushResult hk (kv.exec s db (.rpop source)).store db true dest value
      · obtain rfl := Option.some.inj (hm'.symm.trans hdest)
        exact hpushed.trans (by rw [hafter])
      · exact nomatch hnone.symm.trans hdest
  · obtain ⟨e, hret, he⟩ := hl.rpoplpush_missing s db source dest hbefore
    exact .missing hbefore e he hret (hk.failed _ _ _ _ hret)
  · have hret := hl.rpoplpush_sourceWrongType s db source dest hbefore
    exact .wrongType hret (hk.failed _ _ _ _ hret)

end OneElement

/-! ### The small store -/

namespace SmallKv

theorem members?_ofMembers (l : List Bytes) : members? (ofMembers .list l) = some l := by
  unfold ofMembers
  split
  next h =>
    rw [h]
    rfl
  next => rfl

theorem push_members {s : Keyspace SmallValue} {db : DBID} {key : Bytes} {l : List Bytes}
    (h : members? (s db key) = some l) (add : List Bytes → List Bytes) :
    (∃ n, (push s db key add).ret = .ok n) ∧
      (push s db key add).store = put s db key (ofMembers .list (add l)) := by
  rw [push, h]
  exact ⟨⟨_, rfl⟩, rfl⟩

theorem push_members_eq {s : Keyspace SmallValue} {db : DBID} {key : Bytes} {l : List Bytes}
    (h : members? (s db key) = some l) (add : List Bytes → List Bytes) :
    ∃ n, (push s db key add).ret = .ok n ∧ members? ((push s db key add).store db key) = some (add l) := by
  obtain ⟨⟨n, hret⟩, hstore⟩ := push_members h add
  refine ⟨n, hret, ?_⟩
  rw [hstore, put_self, members?_ofMembers]

theorem push_wrong {s : Keyspace SmallValue} {db : DBID} {key : Bytes}
    (h : members? (s db key) = none) (add : List Bytes → List Bytes) :
    push s db key add = result (.err .invalidType) s := by
  rw [push, h]

/-- The values of the other keys are the same. -/
theorem put_congr {s t : Keyspace SmallValue} {db : DBID} {key : Bytes} (v : Option SmallValue)
    (h : Keyspace.Frames t s (db, key)) : put t db key v = put s db key v := by
  ext1 d
  ext1 k
  unfold put
  split
  next => rfl
  next hne => exact h d k fun heq => hne ⟨(Prod.mk.inj heq).1, (Prod.mk.inj heq).2⟩

theorem pop_members {s : Keyspace SmallValue} {db : DBID} {key : Bytes}
    {split : List Bytes → Option (Bytes × List Bytes)} {l : List Bytes} {v : Bytes} {rest : List Bytes}
    (h : members? (s db key) = some l) (hsplit : split l = some (v, rest)) :
    pop s db key split = { result (.ok 0) (put s db key (ofMembers .list rest)) with str := v } := by
  rw [pop, h]
  dsimp only
  rw [hsplit]

theorem pop_empty {s : Keyspace SmallValue} {db : DBID} {key : Bytes}
    {split : List Bytes → Option (Bytes × List Bytes)} {l : List Bytes}
    (h : members? (s db key) = some l) (hsplit : split l = none) :
    pop s db key split = result (.err .entryNotExist) s := by
  rw [pop, h]
  dsimp only
  rw [hsplit]

theorem pop_wrong {s : Keyspace SmallValue} {db : DBID} {key : Bytes}
    {split : List Bytes → Option (Bytes × List Bytes)} (h : members? (s db key) = none) :
    pop s db key split = result (.err .invalidType) s := by
  rw [pop, h]

theorem splitLast_concat (l : List Bytes) (v : Bytes) : splitLast (l ++ [v]) = some (v, l) := by
  rw [splitLast, List.getLast?_concat, List.dropLast_concat]
  rfl

theorem popped_members {s : Keyspace SmallValue} {db : DBID} {key : Bytes}
    {split : List Bytes → Option (Bytes × List Bytes)} {l : List Bytes} {v : Bytes} {rest : List Bytes}
    (h : members? (s db key) = some l) (hsplit : split l = some (v, rest)) :
    (pop s db key split).ret = .ok 0 ∧ (pop s db key split).str = v ∧
      members? ((pop s db key split).store db key) = some rest := by
  rw [pop_members h hsplit]
  refine ⟨rfl, rfl, ?_⟩
  change members? (put s db key (ofMembers .list rest) db key) = some rest
  rw [put_self, members?_ofMembers]

end SmallKv

/-- **The small store has lists.** -/
theorem smallKv_lists : smallKv.Lists SmallKv.members? where
  lpush s db key values l h _ := SmallKv.push_members_eq h fun members => values.reverse ++ members
  rpush s db key values l h _ := SmallKv.push_members_eq h fun members => members ++ values
  push_wrongType s db left key values h := by
    cases left with
    | true => exact congrArg KvResult.ret (SmallKv.push_wrong h _)
    | false => exact congrArg KvResult.ret (SmallKv.push_wrong h _)
  push_first s t db left left' key value hframes hs ht := by
    have hone (u : Keyspace SmallValue) (hu : SmallKv.members? (u db key) = some []) (left : Bool) :
        (smallKv.exec u db (pushCall left key [value])).store =
          SmallKv.put u db key (SmallKv.ofMembers .list [value]) := by
      cases left with
      | true => exact (SmallKv.push_members hu fun members => [value].reverse ++ members).2
      | false => exact (SmallKv.push_members hu fun members => members ++ [value]).2
    rw [hone t ht, hone s hs, SmallKv.put_congr _ hframes]
  lpop s db key value l h := SmallKv.popped_members h rfl
  rpop s db key value l h := SmallKv.popped_members h (SmallKv.splitLast_concat l value)
  pop_missing s db left key h := by
    refine ⟨.entryNotExist, ?_, .inl rfl⟩
    cases left with
    | true => exact congrArg KvResult.ret (SmallKv.pop_empty h rfl)
    | false => exact congrArg KvResult.ret (SmallKv.pop_empty h rfl)
  pop_wrongType s db left key h := by
    cases left with
    | true => exact congrArg KvResult.ret (SmallKv.pop_wrong h)
    | false => exact congrArg KvResult.ret (SmallKv.pop_wrong h)
  rpoplpush s db source dest value l m h hdest := by
    change SmallKv.members? ((SmallKv.pop s db source SmallKv.splitLast).store db dest) = some m at hdest
    change (∃ n, (SmallKv.rpoplpush s db source dest).ret = .ok n) ∧
      (SmallKv.rpoplpush s db source dest).str = value ∧ (SmallKv.rpoplpush s db source dest).store =
        (SmallKv.push (SmallKv.pop s db source SmallKv.splitLast).store db dest fun members =>
          [value].reverse ++ members).store
    rw [(SmallKv.push_members hdest _).2]
    obtain ⟨hret, hstr, -⟩ := SmallKv.popped_members h (SmallKv.splitLast_concat l value)
    unfold SmallKv.rpoplpush
    dsimp only
    rw [hret]
    dsimp only
    rw [hdest, hstr]
    exact ⟨⟨0, rfl⟩, rfl, rfl⟩
  rpoplpush_wrongType s db source dest value l h hdest := by
    change SmallKv.members? ((SmallKv.pop s db source SmallKv.splitLast).store db dest) = none at hdest
    obtain ⟨hret, -, -⟩ := SmallKv.popped_members h (SmallKv.splitLast_concat l value)
    change (SmallKv.rpoplpush s db source dest).ret = _
    unfold SmallKv.rpoplpush
    dsimp only
    rw [hret]
    dsimp only
    rw [hdest]
    rfl
  rpoplpush_sourceWrongType s db source dest h := by
    change (SmallKv.rpoplpush s db source dest).ret = _
    unfold SmallKv.rpoplpush
    dsimp only
    rw [SmallKv.pop_wrong h]
    rfl

theorem smallKv_listLaws : smallKv.ListLaws SmallKv.members? where
  toLists := smallKv_lists
  rpoplpush_missing s db source dest h := by
    refine ⟨.entryNotExist, ?_, .inl rfl⟩
    change (SmallKv.rpoplpush s db source dest).ret = _
    unfold SmallKv.rpoplpush
    dsimp only
    rw [SmallKv.pop_empty h rfl]
    rfl

end Comms
