import Comms.Codec.Buffer
import Mathlib.Data.Finset.Insert
import Mathlib.Data.Rat.Defs

/-!
# The store behind a snapshot

What a snapshot is taken of and what it is loaded into: databases with keys of five types. A collection
has a member as long as its key is there.

* `Double` — what a score can be;
* `Value`, `Item`, `Store` — the keys;
* `Item.rPush`, `Item.sAdd`, `Item.zAdd`, `Item.hSet` — a member more: the key is made with its first;
* `Store.update_same`, `Store.update_other` — a write is about one key of one database;
* `Store.putAll`, `Store.putAll_last` — one write after the other, of which the last to a key counts;
* `Store.pExpire`, `Store.pExpireat` — the time of a key, counted from now and from the epoch.
-/

namespace Comms
namespace Rdb

/-- A `double`: an infinity, `NaN`, or a number. -/
inductive Double
  | nan
  | inf (negative : Bool)
  | fin (v : ℚ)
deriving DecidableEq

/-- What a key holds. -/
inductive Value
  | string (s : Bytes)
  | list (xs : List Bytes)
  | set (members : Finset Bytes)
  | zset (scores : Bytes → Option Double)
  | hash (fields : Bytes → Option Bytes)

/-- A collection has a member. -/
def Value.Inhabited : Value → Prop
  | .string _ => True
  | .list xs => xs ≠ []
  | .set members => members.Nonempty
  | .zset scores => ∃ m, scores m ≠ none
  | .hash fields => ∃ f, fields f ≠ none

/-- A key: its value, and the millisecond since the epoch it lives until. -/
structure Item where
  value : Value
  expire : Option UInt64
  inhabited : value.Inhabited

/-- The databases. -/
abbrev Store := UInt32 → Bytes → Option Item

theorem Item.eq_of {i j : Item} (hvalue : i.value = j.value) (hexpire : i.expire = j.expire) : i = j := by
  cases i
  cases j
  subst hvalue
  subst hexpire
  rfl

/-! ### Members -/

namespace Item

/-- `Set`. -/
def set (s : Bytes) (_ : Option Item) : Option Item := some ⟨.string s, none, trivial⟩

/-- `RPush`. A key of another type is left alone, as by the other three. -/
def rPush (v : Bytes) : Option Item → Option Item
  | none => some ⟨.list [v], none, List.cons_ne_nil _ _⟩
  | some ⟨.list xs, expire, _⟩ => some ⟨.list (xs ++ [v]), expire, List.concat_ne_nil _ _⟩
  | some item => some item

/-- `SAdd`. -/
def sAdd (v : Bytes) : Option Item → Option Item
  | none => some ⟨.set {v}, none, Finset.singleton_nonempty v⟩
  | some ⟨.set members, expire, _⟩ =>
    some ⟨.set (insert v members), expire, Finset.insert_nonempty v members⟩
  | some item => some item

theorem update_ne_none {β : Type} (f : Bytes → Option β) (m : Bytes) (v : β) :
    ∃ m', Function.update f m (some v) m' ≠ none :=
  ⟨m, by rw [Function.update_self]; exact Option.some_ne_none v⟩

/-- `ZAdd`. -/
def zAdd (score : Double) (v : Bytes) : Option Item → Option Item
  | none => some ⟨.zset (Function.update (fun _ => none) v (some score)), none, update_ne_none _ _ _⟩
  | some ⟨.zset scores, expire, _⟩ =>
    some ⟨.zset (Function.update scores v (some score)), expire, update_ne_none _ _ _⟩
  | some item => some item

/-- `HSet`. -/
def hSet (field v : Bytes) : Option Item → Option Item
  | none => some ⟨.hash (Function.update (fun _ => none) field (some v)), none, update_ne_none _ _ _⟩
  | some ⟨.hash fields, expire, _⟩ =>
    some ⟨.hash (Function.update fields field (some v)), expire, update_ne_none _ _ _⟩
  | some item => some item

/-- The key lives until `ms`. -/
def expireAt (ms : UInt64) : Option Item → Option Item :=
  Option.map fun item => { item with expire := some ms }

end Item

/-! ### Keys -/

namespace Store

/-- Nothing. -/
def empty : Store := fun _ _ => none

/-- A write to one key. -/
def update (store : Store) (db : UInt32) (key : Bytes) (f : Option Item → Option Item) : Store :=
  Function.update store db (Function.update (store db) key (f (store db key)))

variable (store : Store) (db : UInt32) (key : Bytes) (f : Option Item → Option Item)

@[simp] theorem update_same : store.update db key f db key = f (store db key) := by
  unfold update
  rw [Function.update_self, Function.update_self]

theorem update_other {db' : UInt32} {key' : Bytes} (h : (db', key') ≠ (db, key)) :
    store.update db key f db' key' = store db' key' := by
  unfold update
  by_cases hdb : db' = db
  · subst hdb
    rw [Function.update_self]
    exact Function.update_of_ne (fun hkey => h (by rw [hkey])) _ _
  · rw [Function.update_of_ne hdb]

/-- Two writes to a key are one. -/
theorem update_update (g : Option Item → Option Item) :
    (store.update db key f).update db key g = store.update db key (g ∘ f) := by
  funext db' key'
  by_cases h : (db', key') = (db, key)
  · obtain ⟨rfl, rfl⟩ := Prod.mk.inj h
    rw [update_same, update_same, update_same]
    rfl
  · rw [update_other _ _ _ _ h, update_other _ _ _ _ h, update_other _ _ _ _ h]

section Folds

variable {α : Type} (place : α → UInt32 × Bytes) (v : α → Option Item)

/-- Keys get values, one after the other. -/
def putAll (xs : List α) (store : Store) : Store :=
  xs.foldl (fun store x => store.update (place x).1 (place x).2 fun _ => v x) store

variable {place v} {before behind : List α}

/-- Writes to other keys. -/
theorem putAll_other {xs : List α} {db : UInt32} {key : Bytes} (h : ∀ x ∈ xs, place x ≠ (db, key))
    (store : Store) : putAll place v xs store db key = store db key := by
  induction xs generalizing store with
  | nil => rfl
  | cons x xs ih =>
    rw [List.forall_mem_cons] at h
    exact (ih h.2 _).trans (update_other _ _ _ _ h.1.symm)

/-- **The last write counts.** -/
theorem putAll_last {x : α} (h : ∀ y ∈ behind, place y ≠ place x) (store : Store) :
    putAll place v (before ++ x :: behind) store (place x).1 (place x).2 = v x := by
  rw [putAll, List.foldl_append, List.foldl_cons]
  exact (putAll_other h _).trans (update_same _ _ _ _)

end Folds

/-- `Del`. -/
def del : Store := store.update db key fun _ => none

/-- `PExpireat`: until `ms` after the epoch. -/
def pExpireat (ms : UInt64) : Store := store.update db key (Item.expireAt ms)

/-- `PExpire`: for `ms` from now on. -/
def pExpire (now ms : UInt64) : Store := store.pExpireat db key (now + ms)

end Store

end Rdb
end Comms
