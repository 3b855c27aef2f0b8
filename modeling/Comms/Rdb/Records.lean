import Comms.Rdb.Resume

/-!
# A snapshot, record by record

A file is a header, databases and keys, and a checksum.

* `consumes_redisLoadObject` — a value is put into the store member by member;
* `Stamp`, `Rec`, `RecBytes` — a record, with the time in front of it;
* `loadLoop_rec`, `loadLoop_recs` — a round of `RedisLoad`, and all of them;
* `Placed`, `placed` — the keys of a file, each with its database and what is left of the file
  behind it;
* `RdbFile`, `loadFile_eq` — the file, and the store that is loaded from it.
-/

namespace Comms
namespace Rdb

variable {formats : Formats}

/-! ### Values -/

/-- A value in a string. -/
theorem consumes_oneString {type : UInt8} {s bs key : Bytes} {c : Content} (h : OneString type)
    (hs : StringBytes formats.lzf s bs) (hc : unpack formats type s = some c) :
    Consumes (redisLoadObject formats type key) bs () fun db store =>
      store.update db key c.load := by
  intro r tail hr
  rw [redisLoadObject_oneString h, bind_ok ((consumes_redisReadString hs).ok hr),
    putUnpacked_eq h hc]
  rfl

/-- A value with a number of members. -/
theorem consumes_counted {α : Type} {R : α → Bytes → Prop} {type : UInt8} {key len : Bytes}
    (h : Counted type) {g : α → Option Item → Option Item}
    (hmember : ∀ x bs, R x bs → Consumes (loadMember formats type key) bs () fun db store =>
      store.update db key (g x))
    {xs : List α} {parts : List Bytes} (hlen : LenBytes xs.length len)
    (hxs : List.Forall₂ R xs parts) :
    Consumes (redisLoadObject formats type key) (len ++ parts.flatten) () fun db store =>
      store.update db key fun item => xs.foldl (fun item x => g x item) item := by
  rw [redisLoadObject_counted h]
  refine (consumes_redisReadCount hlen).bind' ?_
  rw [hlen.toNat]
  exact Consumes.times hmember hxs

/-- **The value of a key.** -/
theorem consumes_redisLoadObject {type : UInt8} {c : Content} {bs : Bytes} (key : Bytes)
    (h : ObjectBytes formats type c bs) :
    Consumes (redisLoadObject formats type key) bs () fun db store =>
      store.update db key c.load := by
  cases h with
  | string h => exact consumes_oneString (.inl rfl) h rfl
  | list hlen h =>
    refine consumes_counted (.inl rfl) (g := Item.rPush) (fun s bs hs => ?_) hlen h
    exact Consumes.put (g := Item.rPush) (consumes_redisReadString hs)
  | set hlen h =>
    refine consumes_counted (.inr (.inl rfl)) (g := Item.sAdd) (fun s bs hs => ?_) hlen h
    exact Consumes.put (g := Item.sAdd) (consumes_redisReadString hs)
  | zset hlen h =>
    refine consumes_counted (.inr (.inr (.inl rfl))) (g := fun p => Item.zAdd p.2 p.1)
      (fun p bs hp => ?_) hlen h
    obtain ⟨ss, ds, rfl, hs, hd⟩ := hp
    refine (consumes_redisReadString hs).bind' ?_
    exact Consumes.put (g := fun score => Item.zAdd score p.1) (consumes_redisReadDoubleValue hd)
  | hash hlen h =>
    refine consumes_counted (.inr (.inr (.inr rfl))) (g := fun p => Item.hSet p.1 p.2)
      (fun p bs hp => ?_) hlen h
    obtain ⟨fs, vs, rfl, hf, hv⟩ := hp
    refine (consumes_redisReadString hf).bind' ?_
    exact Consumes.put (g := Item.hSet p.1) (consumes_redisReadString hv)
  | hashZipmap h => exact consumes_oneString (.inr (.inl rfl)) h rfl
  | listZiplist h => exact consumes_oneString (.inr (.inr (.inl rfl))) h rfl
  | setIntset h => exact consumes_oneString (.inr (.inr (.inr (.inl rfl)))) h rfl
  | zsetZiplist h hmembers =>
    exact consumes_oneString (.inr (.inr (.inr (.inr (.inl rfl))))) h
      (congrArg (Option.map Content.zset) hmembers)
  | hashZiplist h => exact consumes_oneString (.inr (.inr (.inr (.inr (.inr rfl))))) h rfl

/-! ### Records -/

/-- What stands in front of a type. -/
inductive Stamp
  | none
  /-- `EXPIRETIME`. -/
  | seconds (t : Int32)
  /-- `EXPIRETIME_MS`. -/
  | millis (t : Int64)
deriving DecidableEq

/-- The milliseconds that the record says. -/
def Stamp.value : Stamp → Option Int64
  | .none => Option.none
  | .seconds t => some (t.toInt64 * 1000)
  | .millis t => some t

/-- The times that `RedisReadTime` and `RedisReadMillisecondTime` return for an error. -/
def Stamp.Refused : Stamp → Prop
  | .none => False
  | .seconds t => t.toInt64 = -1
  | .millis t => t = -1

instance (time : Stamp) : Decidable time.Refused := by
  unfold Stamp.Refused
  cases time <;> exact inferInstance

/-- Bytes for a time. -/
inductive StampBytes : Stamp → Bytes → Prop
  | none : StampBytes .none []
  | seconds {bs : Bytes} (h : bs.length = 4) :
      StampBytes (.seconds (Int32.ofNat (ofLittleEndian bs))) (253 :: bs)
  | millis {bs : Bytes} (h : bs.length = 8) :
      StampBytes (.millis (Int64.ofNat (ofLittleEndian bs))) (252 :: bs)

/-- A database, or a key. -/
inductive Rec
  | selectDb (time : Stamp) (n : ℕ)
  | key (time : Stamp) (name : Bytes) (content : Content)

def Rec.time : Rec → Stamp
  | .selectDb time _ | .key time _ _ => time

/-- Bytes for a record. -/
inductive RecBytes (formats : Formats) : Rec → Bytes → Prop
  | selectDb {time : Stamp} {n : ℕ} {stamp len : Bytes} (htime : StampBytes time stamp)
      (hlen : LenBytes n len) : RecBytes formats (.selectDb time n) (stamp ++ 254 :: len)
  | key {time : Stamp} {type : UInt8} {name nameBytes valueBytes stamp : Bytes} {content : Content}
      (htime : StampBytes time stamp) (hname : StringBytes formats.lzf name nameBytes)
      (hvalue : ObjectBytes formats type content valueBytes) :
      RecBytes formats (.key time name content) (stamp ++ type :: (nameBytes ++ valueBytes))

/-- The database that is selected behind a record. -/
def Rec.db : Rec → UInt32 → UInt32
  | .selectDb _ n, _ => UInt32.ofNat n
  | .key _ _ _, db => db

/-- A key gets its time, which `expiry` makes of what the record says. -/
def Stamp.set (expiry : Int64 → UInt64) (time : Stamp) (item : Option Item) : Option Item :=
  match time.value with
  | some ms => Item.expireAt (expiry ms) item
  | Option.none => item

/-- What a record does to the store. -/
def Rec.put (expiry : Int64 → UInt64) : Rec → UInt32 → Store → Store
  | .selectDb _ _, _, store => store
  | .key time name content, db, store => store.update db name fun _ => time.set expiry (content.load none)

/-! ### The time in front of a type -/

/-- What `RedisReadExpire` gives for a time. -/
def Stamp.expiretime (time : Stamp) : Int64 := time.value.getD (-1)

theorem mul_ne_neg_one (t : Int64) : t * 1000 ≠ -1 := by
  intro h
  have hnat : (t.toUInt64 * 1000).toNat = 2 ^ 64 - 1 := congrArg (fun t : Int64 => t.toUInt64.toNat) h
  rw [UInt64.toNat_mul] at hnat
  change t.toUInt64.toNat * 1000 % 2 ^ 64 = 2 ^ 64 - 1 at hnat
  omega

theorem Stamp.expiretime_eq_iff {time : Stamp} (h : ¬time.Refused) : time.expiretime = -1 ↔ time.value = Option.none := by
  cases time with
  | none => exact iff_of_true rfl rfl
  | seconds t => exact iff_of_false (mul_ne_neg_one _) (Option.some_ne_none _)
  | millis t => exact iff_of_false h (Option.some_ne_none _)

/-- A time, or none, and the type behind it. -/
theorem consumes_stamp {time : Stamp} {stamp : Bytes} {type : UInt8} (h : StampBytes time stamp)
    (htype : type ≠ 252 ∧ type ≠ 253) (hok : ¬time.Refused) :
    Consumes (redisReadType >>= redisReadExpire) (stamp ++ [type]) (time.expiretime, type) keeps := by
  have hread := consumes_redisReadType type
  cases h with
  | none =>
    refine hread.bindNil (v := keeps) ?_
    rw [redisReadExpire, if_neg htype.2, if_neg htype.1]
    exact Consumes.pure _
  | @seconds bs h =>
    have hne : (Int32.ofNat (ofLittleEndian bs)).toInt64 ≠ -1 := hok
    refine (consumes_redisReadType 253).bind' (m := bs ++ [type]) ?_
    rw [redisReadExpire, if_pos rfl]
    refine ((consumes_read h).map fun buf => (Int32.ofNat (ofLittleEndian buf)).toInt64).bind' ?_
    rw [if_neg hne]
    exact hread.map fun type => ((Int32.ofNat (ofLittleEndian bs)).toInt64 * 1000, type)
  | @millis bs h =>
    have hne : Int64.ofNat (ofLittleEndian bs) ≠ -1 := hok
    refine (consumes_redisReadType 252).bind' (m := bs ++ [type]) ?_
    rw [redisReadExpire, if_neg (by decide), if_pos rfl]
    refine ((consumes_read h).map fun buf => Int64.ofNat (ofLittleEndian buf)).bind' ?_
    rw [if_neg hne]
    exact hread.map fun type => (Int64.ofNat (ofLittleEndian bs), type)

/-- A time that is taken for an error. -/
theorem stamp_refused {time : Stamp} {stamp tail : Bytes} {r : Reader} (h : StampBytes time stamp)
    (hbad : time.Refused) (hr : r.rest = stamp ++ tail) :
    ∃ r', (redisReadType >>= redisReadExpire) r = .error .returned r' := by
  cases h with
  | none => exact hbad.elim
  | @seconds bs h =>
    have heq : (Int32.ofNat (ofLittleEndian bs)).toInt64 = -1 := hbad
    have hread := ((consumes_read h).map fun buf =>
      (Int32.ofNat (ofLittleEndian buf)).toInt64).ok (r := r.after [253] (bs ++ tail)) rfl
    have hthrow : redisReadExpire 253 (r.after [253] (bs ++ tail)) =
        .error .returned ((r.after [253] (bs ++ tail)).after bs tail) := by
      rw [redisReadExpire, if_pos rfl]
      refine (bind_ok hread).trans ?_
      rw [if_pos heq]
      rfl
    exact ⟨_, (bind_ok ((consumes_redisReadType 253).ok hr)).trans hthrow⟩
  | @millis bs h =>
    have heq : Int64.ofNat (ofLittleEndian bs) = -1 := hbad
    have hread := ((consumes_read h).map fun buf =>
      Int64.ofNat (ofLittleEndian buf)).ok (r := r.after [252] (bs ++ tail)) rfl
    have hthrow : redisReadExpire 252 (r.after [252] (bs ++ tail)) =
        .error .returned ((r.after [252] (bs ++ tail)).after bs tail) := by
      rw [redisReadExpire, if_neg (by decide), if_pos rfl]
      refine (bind_ok hread).trans ?_
      rw [if_pos heq]
      rfl
    exact ⟨_, (bind_ok ((consumes_redisReadType 252).ok hr)).trans hthrow⟩

/-! ### A round -/

variable {clock : ℕ → UInt64} {rec : Rec} {bs tail : Bytes} {r : Reader}

theorem ObjectBytes.type_lt {type : UInt8} {c : Content} {bs : Bytes}
    (h : ObjectBytes formats type c bs) : type < 252 := by
  cases h <;> decide

theorem type_ne {type k : UInt8} (h : type < 252) (hk : 252 ≤ k) : type ≠ k := by
  rintro rfl
  exact absurd (UInt8.le_iff_toNat_le.mp hk) (Nat.not_le.mpr (UInt8.lt_iff_toNat_lt.mp h))

/-- What `PExpire` makes of a time, when so many bytes are left. -/
def fromNow (clock : ℕ → UInt64) (left : ℕ) (ms : Int64) : UInt64 := clock left + ms.toUInt64

/-- The reader behind a record. -/
def Reader.afterRec (clock : ℕ → UInt64) (r : Reader) (rec : Rec) (bs tail : Bytes) : Reader :=
  ⟨tail, crc64 r.cksm bs, rec.db r.currentDb, rec.put (fromNow clock tail.length) r.currentDb r.kv⟩

/-- The record of a key behind its type. -/
theorem redisLoadKey_eq {type : UInt8} {name nameBytes valueBytes : Bytes} {content : Content}
    {time : Stamp} (hname : StringBytes formats.lzf name nameBytes)
    (hvalue : ObjectBytes formats type content valueBytes) (hok : ¬time.Refused)
    (hr : r.rest = nameBytes ++ valueBytes ++ tail) :
    redisLoadKey formats clock time.expiretime type r =
      .ok () (r.afterRec clock (.key time name content) (nameBytes ++ valueBytes) tail) := by
  rw [List.append_assoc] at hr
  have hload := consumes_redisLoadObject name hvalue
    ⟨valueBytes ++ tail, crc64 r.cksm nameBytes, r.currentDb, r.kv.update r.currentDb name fun _ => none⟩ tail rfl
  refine (bind_ok ((consumes_redisReadString hname).ok hr)).trans ((bind_ok hload).trans ?_)
  dsimp only
  rw [Store.update_update, ← crc64_append]
  cases hms : time.value with
  | none =>
    rw [if_neg (not_not.mpr ((Stamp.expiretime_eq_iff hok).mpr hms)), Reader.afterRec, Rec.put, Stamp.set, hms]
    rfl
  | some ms =>
    have hne : time.expiretime ≠ -1 := fun heq => by
      rw [Stamp.expiretime_eq_iff hok, hms] at heq
      cases heq
    have heq : time.expiretime = ms := by
      rw [Stamp.expiretime, hms]
      rfl
    rw [if_pos hne, heq, Reader.afterRec, Rec.put, Stamp.set, hms]
    change EStateM.Result.ok () (Reader.mk tail _ r.currentDb ((Store.update _ _ _ _).update _ _ _)) = _
    rw [Store.update_update]
    rfl

/-- **A round of the loop**, for a record. -/
theorem loadLoop_rec (fuel : ℕ) (h : RecBytes formats rec bs) (hok : ¬rec.time.Refused)
    (hr : r.rest = bs ++ tail) :
    loadLoop formats clock (fuel + 1) r = loadLoop formats clock fuel (r.afterRec clock rec bs tail) := by
  rw [loadLoop_succ, ← bind_assoc]
  cases h with
  | @selectDb time n stamp len htime hlen =>
    rw [show stamp ++ 254 :: len ++ tail = stamp ++ [254] ++ (len ++ tail) by simp] at hr
    have hdb : UInt32.ofNat n ≠ lenErr := hlen.ne_lenErr
    refine (bind_ok ((consumes_stamp htime (by decide) hok).ok hr)).trans ?_
    rw [loadRound, if_neg (show (254 : UInt8) ≠ 255 by decide), if_pos rfl]
    refine (bind_ok ((consumes_redisReadLen hlen).ok rfl)).trans ?_
    dsimp only
    rw [if_neg hdb]
    change loadLoop formats clock fuel
      ⟨tail, crc64 (crc64 r.cksm (stamp ++ [254])) len, UInt32.ofNat n, r.kv⟩ = _
    rw [← crc64_append, List.append_assoc]
    rfl
  | @key time type name nameBytes valueBytes stamp content htime hname hvalue =>
    rw [show stamp ++ type :: (nameBytes ++ valueBytes) ++ tail =
      stamp ++ [type] ++ (nameBytes ++ valueBytes ++ tail) by simp] at hr
    have hlt := hvalue.type_lt
    have hstamp := consumes_stamp htime ⟨type_ne hlt (by decide), type_ne hlt (by decide)⟩ hok
    refine (bind_ok (hstamp.ok hr)).trans ?_
    rw [loadRound, if_neg (type_ne hlt (by decide)), if_neg (type_ne hlt (by decide))]
    refine (bind_ok (redisLoadKey_eq hname hvalue hok rfl)).trans ?_
    rw [Reader.afterRec, Reader.after, ← crc64_append, List.append_assoc]
    rfl

/-- The loop gives up at a time. -/
theorem loadLoop_refused (fuel : ℕ) (h : RecBytes formats rec bs) (hbad : rec.time.Refused)
    (hr : r.rest = bs ++ tail) : ∃ r', loadLoop formats clock (fuel + 1) r = .error .returned r' := by
  rw [loadLoop_succ, ← bind_assoc]
  cases h with
  | selectDb htime hlen =>
    rw [List.append_assoc] at hr
    obtain ⟨r', hthrow⟩ := stamp_refused htime hbad hr
    exact ⟨r', bind_error hthrow⟩
  | key htime hname hvalue =>
    rw [List.append_assoc] at hr
    obtain ⟨r', hthrow⟩ := stamp_refused htime hbad hr
    exact ⟨r', bind_error hthrow⟩

/-- The loop ends. -/
theorem loadLoop_eof (fuel : ℕ) (hr : r.rest = 255 :: tail) :
    loadLoop formats clock (fuel + 1) r = .ok () (r.after [255] tail) := by
  rw [loadLoop_succ]
  refine (bind_ok ((consumes_redisReadType 255).ok hr)).trans ?_
  rw [redisReadExpire, if_neg (by decide), if_neg (by decide), pure_bind, loadRound, if_pos rfl]
  rfl

/-! ### All records -/

/-- A key of a file: its database, its record, and how many bytes are left behind it. -/
structure Placed where
  db : UInt32
  name : Bytes
  time : Stamp
  content : Content
  left : ℕ

/-- The keys of some records, with `behind` bytes behind them. -/
def placed : UInt32 → List (Rec × Bytes) → ℕ → List Placed
  | _, [], _ => []
  | _, (.selectDb _ n, _) :: recs, behind => placed (UInt32.ofNat n) recs behind
  | db, (.key time name content, _) :: recs, behind =>
    ⟨db, name, time, content, (recs.flatMap Prod.snd).length + behind⟩ :: placed db recs behind

/-- What the record of a key does to the store. -/
def Placed.put (expiry : ℕ → Int64 → UInt64) (store : Store) (p : Placed) : Store :=
  store.update p.db p.name fun _ => p.time.set (expiry p.left) (p.content.load none)

/-- The reader behind all records. -/
theorem foldl_placed (expiry : ℕ → Int64 → UInt64) (db : UInt32) (rec : Rec) (bs : Bytes)
    (recs : List (Rec × Bytes)) (behind : ℕ) (store : Store) :
    (placed db ((rec, bs) :: recs) behind).foldl (Placed.put expiry) store =
      (placed (rec.db db) recs behind).foldl (Placed.put expiry)
        (rec.put (expiry ((recs.flatMap Prod.snd).length + behind)) db store) := by
  cases rec <;> rfl

/-- **The loop**, over records whose times are none for an error. -/
theorem loadLoop_recs {recs : List (Rec × Bytes)} (fuel : ℕ)
    (h : ∀ p ∈ recs, RecBytes formats p.1 p.2) (hok : ∀ p ∈ recs, ¬p.1.time.Refused)
    (hr : r.rest = recs.flatMap Prod.snd ++ tail) :
    ∃ db, loadLoop formats clock (recs.length + fuel) r = loadLoop formats clock fuel
      ⟨tail, crc64 r.cksm (recs.flatMap Prod.snd), db,
        (placed r.currentDb recs tail.length).foldl (Placed.put (fromNow clock)) r.kv⟩ := by
  induction recs generalizing r with
  | nil =>
    change r.rest = tail at hr
    subst hr
    exact ⟨r.currentDb, by rw [List.length_nil, Nat.zero_add]; rfl⟩
  | cons p recs ih =>
    obtain ⟨rec, bs⟩ := p
    rw [List.forall_mem_cons] at h hok
    rw [List.flatMap_cons, List.append_assoc] at hr
    obtain ⟨db, hrest⟩ := @ih (r.afterRec clock rec bs (recs.flatMap Prod.snd ++ tail)) h.2 hok.2 rfl
    refine ⟨db, ?_⟩
    rw [List.length_cons, Nat.add_right_comm, loadLoop_rec _ h.1 hok.1 hr, hrest, foldl_placed,
      List.flatMap_cons, crc64_append, Reader.afterRec, List.length_append]

/-- The loop, over records with a time that is taken for an error. -/
theorem loadLoop_recs_refused {recs : List (Rec × Bytes)} {fuel : ℕ} (hfuel : recs.length ≤ fuel)
    (h : ∀ p ∈ recs, RecBytes formats p.1 p.2) (hbad : ∃ p ∈ recs, p.1.time.Refused)
    (hr : r.rest = recs.flatMap Prod.snd ++ tail) :
    ∃ r', loadLoop formats clock fuel r = .error .returned r' := by
  induction recs generalizing r fuel with
  | nil =>
    obtain ⟨p, hp, -⟩ := hbad
    cases hp
  | cons p recs ih =>
    obtain ⟨rec, bs⟩ := p
    obtain ⟨fuel, rfl⟩ := Nat.exists_eq_add_of_le' (Nat.one_le_of_lt (Nat.lt_of_succ_le hfuel))
    rw [List.forall_mem_cons] at h
    rw [List.flatMap_cons, List.append_assoc] at hr
    by_cases hrefused : rec.time.Refused
    · exact loadLoop_refused fuel h.1 hrefused hr
    · rw [loadLoop_rec _ h.1 hrefused hr]
      refine ih (Nat.le_of_succ_le_succ hfuel) h.2 ?_ rfl
      obtain ⟨q, hq, hbad⟩ := hbad
      refine ⟨q, (List.mem_cons.mp hq).resolve_left fun heq => ?_, hbad⟩
      rw [heq] at hbad
      exact hrefused hbad

/-! ### Files -/

/-- A file. Behind the last key is a checksum, from version 5 on: none, or the one of what is in
front of it. -/
structure RdbFile (formats : Formats) where
  ver : ℤ
  header : Bytes
  recs : List (Rec × Bytes)
  footer : Bytes
  hheader : Header ver header
  hrecs : ∀ p ∈ recs, RecBytes formats p.1 p.2
  hfooter : 5 ≤ ver → footer.length = 8 ∧
    (UInt64.ofNat (ofLittleEndian footer) = 0 ∨
      UInt64.ofNat (ofLittleEndian footer) = crc64 0 (header ++ recs.flatMap Prod.snd ++ [255]))

namespace RdbFile

def bytes (file : RdbFile formats) : Bytes :=
  file.header ++ (file.recs.flatMap Prod.snd ++ 255 :: file.footer)

/-- The keys, in the order of the file. -/
def keys (file : RdbFile formats) : List Placed := placed 0 file.recs (file.footer.length + 1)

/-- A time is taken for an error. -/
def Refused (file : RdbFile formats) : Prop := ∃ p ∈ file.recs, p.1.time.Refused

end RdbFile

theorem consumes_redisReadHeader {ver : ℤ} (h : Header ver bs) : Consumes redisReadHeader bs ver keeps := by
  obtain ⟨hlen, hmagic, hver, hmin, hmax⟩ := h
  refine (consumes_read hlen).bindNil (v := keeps) ?_
  rw [if_neg (not_not.mpr hmagic), hver, if_neg (by omega)]
  exact Consumes.pure ver

/-- The checksum is none, or the right one. -/
theorem redisReadCksm_eq (hlen : bs.length = 8) (hr : r.rest = bs ++ tail)
    (h : UInt64.ofNat (ofLittleEndian bs) = 0 ∨ UInt64.ofNat (ofLittleEndian bs) = r.cksm) :
    redisReadCksm r = .ok () (r.after bs tail) := by
  have hget : (get : Load Reader) r = .ok r r := rfl
  refine (bind_ok hget).trans ((bind_ok ((consumes_read hlen).ok hr)).trans ?_)
  rw [if_neg (by tauto)]
  rfl

theorem RecBytes.length_pos (h : RecBytes formats rec bs) : 0 < bs.length := by
  cases h with
  | selectDb => simp
  | key => simp

/-- A record has a byte at least. -/
theorem length_le_flatMap {recs : List (Rec × Bytes)} (h : ∀ p ∈ recs, RecBytes formats p.1 p.2) :
    recs.length ≤ (recs.flatMap Prod.snd).length := by
  induction recs with
  | nil => exact Nat.le_refl 0
  | cons p recs ih =>
    rw [List.forall_mem_cons] at h
    have hpos := h.1.length_pos
    have hrest := ih h.2
    rw [List.flatMap_cons, List.length_append, List.length_cons]
    omega

section Files

variable (file : RdbFile formats) (clock : ℕ → UInt64) (store : Store)

/-- The loop behind the header. -/
theorem redisLoad_eq : redisLoad formats clock ⟨file.bytes, 0, 0, store⟩ =
    (loadLoop formats clock ((file.recs.flatMap Prod.snd ++ 255 :: file.footer).length + 1) >>= fun _ =>
      if 5 ≤ file.ver then redisReadCksm else pure ())
        ⟨file.recs.flatMap Prod.snd ++ 255 :: file.footer, crc64 0 file.header, 0, store⟩ := by
  have hheader := consumes_redisReadHeader file.hheader ⟨file.bytes, 0, 0, store⟩
    (file.recs.flatMap Prod.snd ++ 255 :: file.footer) rfl
  exact bind_ok (f := modify fun r : Reader => { r with currentDb := 0 }) rfl |>.trans
    ((bind_ok hheader).trans rfl)

/-- There is fuel for all records, and for one round more. -/
theorem exists_fuel : ∃ fuel, (file.recs.flatMap Prod.snd ++ 255 :: file.footer).length + 1 =
    file.recs.length + (fuel + 1) := by
  have hle := length_le_flatMap file.hrecs
  rw [List.length_append]
  exact ⟨_, by rw [← Nat.add_assoc, Nat.add_sub_of_le (Nat.le_add_right_of_le hle)]⟩

/-- **A file is loaded** key by key. -/
theorem loadFile_eq (hok : ¬file.Refused) :
    loadFile formats clock file.bytes store = .ok (file.keys.foldl (Placed.put (fromNow clock)) store) := by
  obtain ⟨fuel, hfuel⟩ := exists_fuel file
  obtain ⟨db, hloop⟩ := @loadLoop_recs formats clock (255 :: file.footer)
    ⟨file.recs.flatMap Prod.snd ++ 255 :: file.footer, crc64 0 file.header, 0, store⟩ file.recs (fuel + 1)
    file.hrecs (fun p hp hbad => hok ⟨p, hp, hbad⟩) rfl
  have hload : ∃ r', redisLoad formats clock ⟨file.bytes, 0, 0, store⟩ = .ok () r' ∧
      r'.kv = file.keys.foldl (Placed.put (fromNow clock)) store := by
    rw [redisLoad_eq, hfuel, bind_ok (hloop.trans (loadLoop_eof fuel rfl))]
    by_cases hver : 5 ≤ file.ver
    · obtain ⟨hlen, hcksm⟩ := file.hfooter hver
      rw [if_pos hver]
      refine ⟨_, redisReadCksm_eq hlen (List.append_nil _).symm (hcksm.imp_right fun heq => heq.trans ?_), rfl⟩
      rw [crc64_append, crc64_append]
      rfl
    · rw [if_neg hver]
      exact ⟨_, rfl, rfl⟩
  obtain ⟨r', hr', hkv⟩ := hload
  rw [loadFile, hr']
  exact congrArg Except.ok hkv

/-- A time that is taken for an error. -/
theorem loadFile_refused (hbad : file.Refused) :
    loadFile formats clock file.bytes store = .error .returned := by
  obtain ⟨fuel, hfuel⟩ := exists_fuel file
  obtain ⟨r', hloop⟩ := @loadLoop_recs_refused formats clock (255 :: file.footer)
    ⟨file.recs.flatMap Prod.snd ++ 255 :: file.footer, crc64 0 file.header, 0, store⟩ file.recs
    (file.recs.length + (fuel + 1)) (Nat.le_add_right _ _) file.hrecs hbad rfl
  rw [loadFile, redisLoad_eq, hfuel, bind_error hloop]

end Files

end Rdb
end Comms
