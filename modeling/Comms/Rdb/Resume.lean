import Comms.Rdb.Tokens

/-!
# A load from somewhere in the file

A load is a program, and at each token there is a rest of it. What it has done until then is in the
reader, and in a few variables.

* `resume` — the rest of a load;
* `Point.takes` — what a token does to the reader and the variables, and what comes next;
* `resume_cases` — any bytes at all: a token, or the load gives up, or the process does, or an
  integer is not all there.
-/

namespace Comms
namespace Rdb

/-- The variables of a load: `rdbver`, how many rounds of the loop there may be, `expiretime`,
`key`, and the string in front of a score or a value. -/
structure Point where
  ver : ℤ
  fuel : ℕ
  expiretime : Int64
  key : Bytes
  first : Bytes

/-! ### The rest of a load -/

section Programs

variable (formats : Formats) (clock : ℕ → UInt64) (pt : Point)

/-- Behind the loop. -/
def finish : Load Unit := if 5 ≤ pt.ver then redisReadCksm else pure ()

/-- A round of the loop, behind its type. -/
def loadRound (fuel : ℕ) (expiretime : Int64) (type : UInt8) : Load Unit :=
  if type = 255 then return ()
  else if type = 254 then do
    let (currentDb, _) ← redisReadLen
    modify fun r => { r with currentDb := currentDb }
    if currentDb = lenErr then throw .returned
    loadLoop formats clock fuel
  else do
    redisLoadKey formats clock expiretime type
    loadLoop formats clock fuel

/-- The round that a point is in. -/
def round (type : UInt8) : Load Unit := do
  loadRound formats clock pt.fuel pt.expiretime type
  finish pt

/-- The time of a key. -/
def setExpire (clock : ℕ → UInt64) (pt : Point) : Load Unit := do
  if pt.expiretime ≠ -1 then
    modify fun r =>
      { r with kv := r.kv.pExpire r.currentDb pt.key (clock r.rest.length) pt.expiretime.toUInt64 }

/-- Behind a value. -/
def afterValue : Load Unit := do
  setExpire clock pt
  loadLoop formats clock pt.fuel
  finish pt

/-- A value that is in a string. -/
def putUnpacked (type : UInt8) (key s : Bytes) : Load Unit :=
  if type = 0 then kvUpdate key (Item.set s)
  else if type = 9 then redisLoadZipMap key (formats.packed.zipmap s)
  else if type = 10 then redisLoadListZipList key (formats.packed.ziplist s)
  else if type = 11 then redisLoadSetIntSet key (formats.packed.intset s)
  else if type = 12 then redisLoadZSetZipList formats.libc key (formats.packed.ziplist s)
  else redisLoadHashZipList key (formats.packed.ziplist s)

/-- A member behind its first string. -/
def secondPart (type : UInt8) (key str : Bytes) : Load Unit :=
  if type = 1 ∨ type = 2 then kvUpdate key (if type = 2 then Item.sAdd str else Item.rPush str)
  else if type = 3 then do
    let score ← redisReadDoubleValue formats.libc
    kvUpdate key (Item.zAdd score str)
  else do
    let v ← redisReadString formats.lzf
    kvUpdate key (Item.hSet str v)

/-- A member. -/
def loadMember (type : UInt8) (key : Bytes) : Load Unit := do
  let str ← redisReadString formats.lzf
  secondPart formats type key str

/-- **The rest of a load**, where `w` comes next. -/
def resume : Want → Load Unit
  | .type false => do
    loadLoop formats clock pt.fuel
    finish pt
  | .type true => do
    let type ← redisReadType
    round formats clock pt type
  | .time false => do
    let expiretime ← redisReadTime
    if expiretime = -1 then throw .returned
    let type ← redisReadType
    round formats clock { pt with expiretime := expiretime * 1000 } type
  | .time true => do
    let expiretime ← redisReadMillisecondTime
    if expiretime = -1 then throw .returned
    let type ← redisReadType
    round formats clock { pt with expiretime := expiretime } type
  | .db => round formats clock pt 254
  | .key type => do
    redisLoadKey formats clock pt.expiretime type
    loadLoop formats clock pt.fuel
    finish pt
  | .value type => do
    redisLoadObject formats type pt.key
    afterValue formats clock pt
  | .member type n => do
    times (n + 1) (loadMember formats type pt.key)
    afterValue formats clock pt
  | .second type n => do
    secondPart formats type pt.key pt.first
    times n (loadMember formats type pt.key)
    afterValue formats clock pt
  | .cksm => finish pt

theorem loadLoop_succ (fuel : ℕ) :
    loadLoop formats clock (fuel + 1) =
      redisReadType >>= fun type => redisReadExpire type >>= fun p => loadRound formats clock fuel p.1 p.2 := rfl

variable {formats}

theorem redisLoadObject_oneString {type : UInt8} (h : OneString type) (key : Bytes) :
    redisLoadObject formats type key =
      redisReadString formats.lzf >>= fun s => putUnpacked formats type key s := by
  rcases h with rfl | rfl | rfl | rfl | rfl | rfl <;> rfl

theorem redisLoadObject_counted {type : UInt8} (h : Counted type) (key : Bytes) :
    redisLoadObject formats type key =
      redisReadCount >>= fun len => times len.toNat (loadMember formats type key) := by
  rcases h with rfl | rfl | rfl | rfl <;> rfl

theorem redisLoadObject_unknown {type : UInt8} (h : ¬Known type) (key : Bytes) :
    redisLoadObject formats type key = throw .abort := by
  have hne {k : UInt8} (hk : Known k) : type ≠ k := fun heq => h (heq ▸ hk)
  unfold redisLoadObject
  rw [if_neg (hne (by decide)), if_neg (by rintro (heq | heq) <;> exact hne (by decide) heq),
    if_neg (hne (by decide)), if_neg (hne (by decide)), if_neg (hne (by decide)), if_neg (hne (by decide)),
    if_neg (hne (by decide)), if_neg (hne (by decide)), if_neg (hne (by decide))]

end Programs

/-! ### Tokens -/

section Tokens

variable {formats : Formats} {clock : ℕ → UInt64} {pt : Point} {r : Reader} {type : UInt8} {tail : Bytes}

theorem consumes_redisReadType (b : UInt8) : Consumes redisReadType [b] b keeps :=
  (consumes_byte b).map fun buf => buf.headD 0

/-- A type that is not a time. -/
theorem resume_type {timed : Bool} (hfuel : r.rest.length < pt.fuel) (hr : r.rest = type :: tail)
    (htimed : timed = true ∨ type ≠ 252 ∧ type ≠ 253) :
    ∃ pt', pt'.ver = pt.ver ∧ tail.length < pt'.fuel ∧
      resume formats clock pt (.type timed) r = round formats clock pt' type (r.after [type] tail) := by
  have hread := (consumes_redisReadType type).ok hr
  rw [hr, List.length_cons] at hfuel
  cases timed with
  | true => exact ⟨pt, rfl, by omega, bind_ok hread⟩
  | false =>
    obtain ⟨h252, h253⟩ := htimed.resolve_left Bool.false_ne_true
    obtain ⟨fuel, hf⟩ := Nat.exists_eq_succ_of_ne_zero (show pt.fuel ≠ 0 by omega)
    refine ⟨{ pt with fuel := fuel, expiretime := -1 }, rfl, show tail.length < fuel by omega, ?_⟩
    change (loadLoop formats clock pt.fuel >>= fun _ => finish pt) r = _
    rw [hf, loadLoop_succ, bind_assoc, bind_ok hread, redisReadExpire, if_neg h253, if_neg h252, pure_bind]
    rfl

/-- A type that says that a time comes next. -/
theorem resume_timed (millis : Bool) (hfuel : r.rest.length < pt.fuel)
    (hr : r.rest = (if millis then 252 else 253) :: tail) :
    ∃ pt', pt'.ver = pt.ver ∧ tail.length < pt'.fuel ∧
      resume formats clock pt (.type false) r =
        resume formats clock pt' (.time millis) (r.after [if millis then 252 else 253] tail) := by
  have hread := (consumes_redisReadType _).ok hr
  rw [hr, List.length_cons] at hfuel
  obtain ⟨fuel, hf⟩ := Nat.exists_eq_succ_of_ne_zero (show pt.fuel ≠ 0 by omega)
  refine ⟨{ pt with fuel := fuel }, rfl, show tail.length < fuel by omega, ?_⟩
  change (loadLoop formats clock pt.fuel >>= fun _ => finish pt) r = _
  rw [hf, loadLoop_succ, bind_assoc, bind_ok hread]
  cases millis with
  | false =>
    rw [if_neg Bool.false_ne_true, redisReadExpire, if_pos rfl, bind_assoc, bind_assoc]
    refine congrFun (congrArg (redisReadTime >>= ·) (funext fun expiretime => ?_)) _
    split
    next => rfl
    next =>
      simp only [bind_assoc, pure_bind]
      rfl
  | true =>
    rw [if_pos rfl, redisReadExpire, if_neg (by decide), if_pos rfl, bind_assoc, bind_assoc]
    refine congrFun (congrArg (redisReadMillisecondTime >>= ·) (funext fun expiretime => ?_)) _
    split
    next => rfl
    next =>
      simp only [bind_assoc, pure_bind]
      rfl

theorem round_eof : round formats clock pt 255 = finish pt := by
  rw [round, loadRound, if_pos rfl]
  exact pure_bind _ _

theorem round_key (h : type < 254) : round formats clock pt type = resume formats clock pt (.key type) := by
  have hne {k : UInt8} (hk : 254 ≤ k) : type ≠ k := fun heq => by
    rw [heq] at h
    exact absurd (UInt8.le_iff_toNat_le.mp hk) (Nat.not_le.mpr (UInt8.lt_iff_toNat_lt.mp h))
  rw [round, loadRound, if_neg (hne (by decide)), if_neg (hne (by decide)), bind_assoc]
  rfl

theorem resume_seconds {bs : Bytes} (hlen : bs.length = 4)
    (h : (Int32.ofNat (ofLittleEndian bs)).toInt64 ≠ -1) (hr : r.rest = bs ++ tail) :
    resume formats clock pt (.time false) r =
      resume formats clock { pt with expiretime := (Int32.ofNat (ofLittleEndian bs)).toInt64 * 1000 }
        (.type true) (r.after bs tail) := by
  have hread := ((consumes_read hlen).map fun buf => (Int32.ofNat (ofLittleEndian buf)).toInt64).ok hr
  refine (bind_ok hread).trans ?_
  rw [if_neg h]
  rfl

theorem resume_millis {bs : Bytes} (hlen : bs.length = 8) (h : Int64.ofNat (ofLittleEndian bs) ≠ -1)
    (hr : r.rest = bs ++ tail) :
    resume formats clock pt (.time true) r =
      resume formats clock { pt with expiretime := Int64.ofNat (ofLittleEndian bs) } (.type true)
        (r.after bs tail) := by
  have hread := ((consumes_read hlen).map fun buf => Int64.ofNat (ofLittleEndian buf)).ok hr
  refine (bind_ok hread).trans ?_
  rw [if_neg h]
  rfl

/-- A database. -/
theorem resume_db {n : ℕ} {bs : Bytes} (h : Count n bs) (hr : r.rest = bs ++ tail) :
    resume formats clock pt .db r =
      resume formats clock pt (.type false) ⟨tail, crc64 r.cksm bs, UInt32.ofNat n, r.kv⟩ := by
  have hne : UInt32.ofNat n ≠ lenErr := fun heq => by
    have hmax := congrArg UInt32.toNat heq
    rw [h.toNat] at hmax
    have hlt := h.lt
    change n = 4294967295 at hmax
    omega
  change (loadRound formats clock pt.fuel pt.expiretime 254 >>= fun _ => finish pt) r = _
  rw [loadRound, if_neg (by decide), if_pos rfl, bind_assoc]
  cases h with
  | len h =>
    refine (bind_ok ((consumes_redisReadLen h).ok hr)).trans ?_
    dsimp only
    rw [if_neg hne]
    rfl
  | special h =>
    refine (bind_ok ((consumes_redisReadLen_special h).ok hr)).trans ?_
    dsimp only
    rw [if_neg hne]
    rfl

/-- The name of a key, which is deleted. -/
theorem resume_key : resume formats clock pt (.key type) =
    redisReadString formats.lzf >>= fun key =>
      kvUpdate key (fun _ => none) >>= fun _ => resume formats clock { pt with key := key } (.value type) := by
  change (redisLoadKey formats clock pt.expiretime type >>= fun _ =>
    loadLoop formats clock pt.fuel >>= fun _ => finish pt) = _
  rw [redisLoadKey]
  simp only [bind_assoc]
  rfl

/-- The reader behind a value: the key has got its time. -/
def Reader.timed (clock : ℕ → UInt64) (pt : Point) (r : Reader) : Reader :=
  if pt.expiretime ≠ -1 then
    { r with kv := r.kv.pExpire r.currentDb pt.key (clock r.rest.length) pt.expiretime.toUInt64 }
  else r

theorem afterValue_eq : afterValue formats clock pt r =
    resume formats clock pt (.type false) (r.timed clock pt) := by
  unfold afterValue setExpire Reader.timed
  split <;> rfl

/-- The reader in front of `n` more members. -/
def Reader.members (clock : ℕ → UInt64) (pt : Point) (n : ℕ) (r : Reader) : Reader :=
  if n = 0 then r.timed clock pt else r

theorem resume_members (n : ℕ) :
    (times n (loadMember formats type pt.key) >>= fun _ => afterValue formats clock pt) r =
      resume formats clock pt (.members type n) (r.members clock pt n) := by
  cases n with
  | zero => exact afterValue_eq
  | succ n => rfl

end Tokens

/-! ### Values -/

section Values

variable {formats : Formats} {key : Bytes} {r : Reader}

theorem kvUpdate_bind {f : Option Item → Option Item} {g : Load Unit} :
    (kvUpdate key f >>= fun _ => g) r = g { r with kv := r.kv.update r.currentDb key f } := rfl

/-- The reader behind a value. -/
def Reader.put (key : Bytes) (c : Content) (r : Reader) : Reader :=
  { r with kv := r.kv.update r.currentDb key c.load }

/-- A member, and the others. -/
theorem put_put {f : Option Item → Option Item} {c c' : Content} (h : ∀ item, c'.load item = c.load (f item)) :
    Reader.put key c { r with kv := r.kv.update r.currentDb key f } = r.put key c' := by
  unfold Reader.put
  rw [Store.update_update, show c.load ∘ f = c'.load from funext fun item => (h item).symm]

theorem put_nil {c : Content} (h : ∀ item, c.load item = item) : r.put key c = r := by
  unfold Reader.put
  rw [show c.load = fun item => item from funext h, Store.update_id]

/-- A loop that puts one member after the other. -/
theorem loop_put {α : Type} (loop : List α → Load Unit) (content : List α → Content)
    {g : α → Option Item → Option Item} (hnil : loop [] = pure ())
    (hcons : ∀ x xs, loop (x :: xs) = kvUpdate key (g x) >>= fun _ => loop xs)
    (hload : ∀ xs item, (content xs).load item = xs.foldl (fun item x => g x item) item) (xs : List α)
    (r : Reader) : loop xs r = .ok () (r.put key (content xs)) := by
  induction xs generalizing r with
  | nil =>
    rw [hnil, put_nil (hload [])]
    rfl
  | cons x xs ih =>
    rw [hcons, kvUpdate_bind, ih, put_put fun item => ?_]
    rw [hload, hload]
    rfl

theorem redisLoadHashZipList_eq (entries : List (Bytes ⊕ ℤ)) (r : Reader) :
    redisLoadHashZipList key entries r =
      .ok () (r.put key (.hash ((pairs entries).map (Prod.map entryText entryText)))) := by
  fun_induction pairs entries generalizing r with
  | case1 field value entries ih =>
    rw [redisLoadHashZipList, kvUpdate_bind, ih, put_put fun item => ?_]
    rfl
  | case2 entries hnot =>
    have hnil : redisLoadHashZipList key entries = pure () := by
      unfold redisLoadHashZipList
      split
      next field value entries => exact (hnot field value entries rfl).elim
      next => rfl
    rw [hnil, List.map_nil, put_nil fun _ => rfl]
    rfl

/-- A sorted set, unless a score is too long. -/
theorem redisLoadZSetZipList_eq (libc : Libc) (entries : List (Bytes ⊕ ℤ)) (r : Reader) :
    (∀ members, scoredMembers libc entries = some members →
        redisLoadZSetZipList libc key entries r = .ok () (r.put key (.zset members))) ∧
      (scoredMembers libc entries = none → ∃ r', redisLoadZSetZipList libc key entries r = .error .wild r') := by
  fun_induction redisLoadZSetZipList libc key entries generalizing r with
  | case1 value score entries hnone =>
    rw [scoredMembers, hnone]
    exact ⟨nofun, fun _ => ⟨r, rfl⟩⟩
  | case2 value score entries d hscore ih =>
    rw [scoredMembers, hscore, kvUpdate_bind]
    cases hrest : scoredMembers libc entries with
    | none => exact ⟨nofun, fun _ => (ih _).2 hrest⟩
    | some members =>
      refine ⟨fun members' heq => ?_, nofun⟩
      obtain rfl := Option.some.inj heq
      rw [(ih _).1 members hrest, put_put fun item => ?_]
      rfl
  | case3 entries hnot =>
    have hnil : scoredMembers libc entries = some [] := by
      unfold scoredMembers
      split
      next value score entries => exact (hnot value score entries rfl).elim
      next => rfl
    rw [hnil]
    refine ⟨fun members' heq => ?_, nofun⟩
    obtain rfl := Option.some.inj heq
    rw [put_nil fun _ => rfl]
    rfl

/-- **A value in a string.** -/
theorem putUnpacked_eq {type : UInt8} {s : Bytes} {c : Content} (h : OneString type)
    (hc : unpack formats type s = some c) :
    putUnpacked formats type key s r = .ok () (r.put key c) := by
  rcases h with rfl | rfl | rfl | rfl | rfl | rfl
  · obtain rfl := Option.some.inj hc
    rfl
  · obtain rfl := Option.some.inj hc
    exact loop_put (redisLoadZipMap key) .hash rfl (fun _ _ => rfl) (fun _ _ => rfl) _ r
  · obtain rfl := Option.some.inj hc
    exact loop_put (redisLoadListZipList key) (fun entries => .list (entries.map entryText)) rfl (fun _ _ => rfl)
      (fun _ _ => List.foldl_map) _ r
  · obtain rfl := Option.some.inj hc
    exact loop_put (redisLoadSetIntSet key) (fun elements => .set (elements.map decimalSigned)) rfl
      (fun _ _ => rfl) (fun _ _ => List.foldl_map) _ r
  · obtain ⟨members, hmembers, rfl⟩ := Option.map_eq_some_iff.mp hc
    exact (redisLoadZSetZipList_eq formats.libc _ r).1 members hmembers
  · obtain rfl := Option.some.inj hc
    exact redisLoadHashZipList_eq _ r

/-- A score in a string, too long for the buffer. -/
theorem putUnpacked_none {type : UInt8} {s : Bytes} (h : OneString type)
    (hc : unpack formats type s = none) :
    ∃ r', putUnpacked formats type key s r = .error .wild r' := by
  rcases h with rfl | rfl | rfl | rfl | rfl | rfl
  case inr.inr.inr.inr.inl =>
    exact (redisLoadZSetZipList_eq formats.libc _ r).2 (Option.map_eq_none_iff.mp hc)
  all_goals cases hc

end Values

end Rdb
end Comms
