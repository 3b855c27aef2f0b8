import Comms.Rdb.Load

/-!
# The format of a snapshot

What the bytes of a snapshot stand for, and that the readers read it. A length has three forms, a
string has five.

* `LenBytes`, `StringBytes`, `DoubleBytes`, `ObjectBytes` — bytes for a length, a string, a score,
  and the value of a key;
* `consumes_redisReadLen`, `consumes_redisReadString`, `consumes_redisReadDoubleValue` — what is
  read;
* `Consumes.times` — a program that is run once for each member;
* `Content` — the value of a key as a list of members, in the order of the file.
-/

namespace Comms
namespace Rdb

/-! ### Numbers -/

/-- Four bytes, highest first. -/
def bigEndian (n : ℕ) : Bytes :=
  [UInt8.ofNat (n / 2 ^ 24), UInt8.ofNat (n / 2 ^ 16), UInt8.ofNat (n / 2 ^ 8), UInt8.ofNat n]

/-- Bytes for a length. -/
inductive LenBytes : ℕ → Bytes → Prop
  | six {n : ℕ} (h : n < 64) : LenBytes n [UInt8.ofNat n]
  | fourteen {n : ℕ} (h : n < 16384) : LenBytes n [UInt8.ofNat (64 + n / 256), UInt8.ofNat n]
  | thirtyTwo {n : ℕ} (h : n < 2 ^ 32 - 1) {low : ℕ} (hlow : low < 64) :
      LenBytes n (UInt8.ofNat (128 + low) :: bigEndian n)

theorem LenBytes.lt {n : ℕ} {bs : Bytes} (h : LenBytes n bs) : n < 2 ^ 32 - 1 := by
  cases h with
  | six h => omega
  | fourteen h => omega
  | thirtyTwo h => exact h

theorem LenBytes.toNat {n : ℕ} {bs : Bytes} (h : LenBytes n bs) : (UInt32.ofNat n).toNat = n := by
  have hn := h.lt
  rw [UInt32.toNat_ofNat', Nat.mod_eq_of_lt (by omega)]

theorem LenBytes.ne_lenErr {n : ℕ} {bs : Bytes} (h : LenBytes n bs) : UInt32.ofNat n ≠ lenErr := by
  intro heq
  have hn := h.lt
  have hmax := congrArg UInt32.toNat heq
  rw [h.toNat] at hmax
  change n = 4294967295 at hmax
  omega

/-- The two high bits of a byte, and the other six. -/
theorem highBits : ∀ k < 4, ∀ n < 64,
    (UInt8.ofNat (64 * k + n) &&& 0xC0) >>> 6 = UInt8.ofNat k ∧
      (UInt8.ofNat (64 * k + n) &&& 0x3F) = UInt8.ofNat n := by decide +kernel

theorem ofLittleEndian_cons (b : UInt8) (bs : Bytes) :
    ofLittleEndian (b :: bs) = b.toNat + 256 * ofLittleEndian bs := rfl

theorem ntohl_bigEndian {n : ℕ} (h : n < 2 ^ 32) : ntohl (bigEndian n) = UInt32.ofNat n := by
  have hvalue : ofLittleEndian (bigEndian n).reverse = n := by
    change ofLittleEndian [UInt8.ofNat n, UInt8.ofNat (n / 2 ^ 8), UInt8.ofNat (n / 2 ^ 16),
      UInt8.ofNat (n / 2 ^ 24)] = n
    simp only [ofLittleEndian_cons, UInt8.toNat_ofNat']
    change n % 256 + 256 * (n / 2 ^ 8 % 256 + 256 * (n / 2 ^ 16 % 256 + 256 * (n / 2 ^ 24 % 256 + 256 * 0))) = n
    omega
  rw [ntohl, hvalue]

/-- The fourteen bits of a length in two bytes. -/
theorem fourteenBits {hi lo : ℕ} (hhi : hi < 64) (hlo : lo < 256) :
    (UInt8.ofNat hi).toUInt32 <<< 8 ||| (UInt8.ofNat lo).toUInt32 = UInt32.ofNat (256 * hi + lo) := by
  apply UInt32.toNat_inj.mp
  have hshift : ((UInt8.ofNat hi).toUInt32 <<< 8).toNat = 2 ^ 8 * hi := by
    rw [UInt32.toNat_shiftLeft, UInt8.toNat_toUInt32, UInt8.toNat_ofNat', Nat.shiftLeft_eq]
    change hi % 2 ^ 8 * 2 ^ 8 % 2 ^ 32 = _
    omega
  rw [UInt32.toNat_or, hshift, UInt8.toNat_toUInt32, UInt8.toNat_ofNat', Nat.mod_eq_of_lt (by omega),
    ← Nat.two_pow_add_eq_or_of_lt (by omega), UInt32.toNat_ofNat', Nat.mod_eq_of_lt (by omega)]

theorem consumes_byte? (b : UInt8) : Consumes (read? 1) [b] (some [b]) keeps := consumes_read? rfl

theorem consumes_redisReadLen_cons {b : UInt8} {bs : Bytes} {result : UInt32 × Bool}
    (h : Consumes (lenForm b) bs result keeps) : Consumes redisReadLen (b :: bs) result keeps :=
  (consumes_byte? b).bind' h

theorem consumes_redisReadLen {n : ℕ} {bs : Bytes} (h : LenBytes n bs) :
    Consumes redisReadLen bs (UInt32.ofNat n, false) keeps := by
  cases h with
  | six h =>
    obtain ⟨htop, hlow⟩ := highBits 0 (by omega) n h
    rw [mul_zero, zero_add] at htop hlow
    apply consumes_redisReadLen_cons
    have heq : (UInt8.ofNat n).toUInt32 = UInt32.ofNat n := by
      apply UInt32.toNat_inj.mp
      rw [UInt8.toNat_toUInt32, UInt8.toNat_ofNat', UInt32.toNat_ofNat', Nat.mod_eq_of_lt (by omega),
        Nat.mod_eq_of_lt (by omega)]
    rw [lenForm, htop, hlow, if_neg (by decide), if_pos (show UInt8.ofNat 0 = 0 from rfl), heq]
    exact Consumes.pure _
  | fourteen h =>
    obtain ⟨htop, hlow⟩ := highBits 1 (by omega) (n / 256) (by omega)
    rw [mul_one] at htop hlow
    apply consumes_redisReadLen_cons
    have hlo : UInt8.ofNat n = UInt8.ofNat (n % 256) := by
      apply UInt8.toNat_inj.mp
      rw [UInt8.toNat_ofNat', UInt8.toNat_ofNat']
      exact (Nat.mod_mod _ _).symm
    rw [lenForm, htop, hlow, if_neg (by decide), if_neg (by decide),
      if_pos (show UInt8.ofNat 1 = 1 from rfl)]
    refine (consumes_byte? (UInt8.ofNat n)).bind' (m := []) ?_
    change Consumes (Pure.pure
      ((UInt8.ofNat (n / 256)).toUInt32 <<< 8 ||| (UInt8.ofNat n).toUInt32, false)) [] _ keeps
    rw [hlo, fourteenBits (by omega) (by omega), Nat.div_add_mod]
    exact Consumes.pure _
  | thirtyTwo h hlow =>
    rename_i low
    obtain ⟨htop, -⟩ := highBits 2 (by omega) low hlow
    apply consumes_redisReadLen_cons
    rw [lenForm, htop, if_neg (by decide), if_neg (by decide), if_neg (by decide)]
    refine (consumes_read? (l := bigEndian n) rfl).bind' (m := []) ?_
    change Consumes (Pure.pure (ntohl (bigEndian n), false)) [] _ keeps
    rw [ntohl_bigEndian (by omega)]
    exact Consumes.pure _

/-- A length that the caller does not take for an error. -/
theorem consumes_redisReadCount {n : ℕ} {bs : Bytes} (h : LenBytes n bs) :
    Consumes redisReadCount bs (UInt32.ofNat n) keeps := by
  refine (consumes_redisReadLen h).bindNil (v := keeps) ?_
  dsimp only
  rw [if_neg h.ne_lenErr]
  exact Consumes.pure _

/-! ### Strings -/

/-- Bytes for a string: a number, a compressed string, or the string itself. -/
inductive StringBytes (lzf : Lzf) : Bytes → Bytes → Prop
  | int8 (b : UInt8) : StringBytes lzf (decimalSigned (Int8.ofNat (ofLittleEndian [b])).toInt) [0xC0, b]
  | int16 (b₀ b₁ : UInt8) :
      StringBytes lzf (decimalSigned (Int16.ofNat (ofLittleEndian [b₀, b₁])).toInt) [0xC1, b₀, b₁]
  | int32 (b₀ b₁ b₂ b₃ : UInt8) :
      StringBytes lzf (decimalSigned (Int32.ofNat (ofLittleEndian [b₀, b₁, b₂, b₃])).toInt)
        [0xC2, b₀, b₁, b₂, b₃]
  | compressed {n : ℕ} {s c clen len : Bytes} (hclen : LenBytes c.length clen) (hlen : LenBytes n len)
      (hlzf : lzf.decompress c n = some s) : StringBytes lzf s (0xC3 :: (clen ++ (len ++ c)))
  | raw {s len : Bytes} (hlen : LenBytes s.length len) : StringBytes lzf s (len ++ s)

variable {lzf : Lzf} {libc : Libc} {packed : Packed}

/-- A special encoding. -/
theorem consumes_special {e : UInt32} {b : UInt8}
    (h : lenForm b = Pure.pure (e, true)) : Consumes redisReadLen [b] (e, true) keeps := by
  apply consumes_redisReadLen_cons
  rw [h]
  exact Consumes.pure _

/-- A string that is stored as a number. -/
theorem consumes_integer {enctype : UInt32} {b : UInt8} {enc : Bytes} {v : ℤ}
    (h : lenForm b = Pure.pure (enctype, true)) (htype : enctype = 0 ∨ enctype = 1 ∨ enctype = 2)
    (hread : Consumes (redisReadInteger enctype) enc v keeps) :
    Consumes (redisReadString lzf) (b :: enc) (decimalSigned v) keeps := by
  refine (consumes_special h).bind' ?_
  dsimp only
  rw [if_pos rfl, if_pos htype]
  intro r tail hr
  rw [integerString, hread r tail hr]

/-- **Strings.** Every form is read as the string it stands for. -/
theorem consumes_redisReadString {s bs : Bytes} (h : StringBytes lzf s bs) :
    Consumes (redisReadString lzf) bs s keeps := by
  cases h with
  | int8 b =>
    exact consumes_integer rfl (.inl rfl)
      ((consumes_read (n := 1) (l := [b]) rfl).map fun enc => (Int8.ofNat (ofLittleEndian enc)).toInt)
  | int16 b₀ b₁ =>
    exact consumes_integer rfl (.inr (.inl rfl))
      ((consumes_read (n := 2) (l := [b₀, b₁]) rfl).map fun enc =>
        (Int16.ofNat (ofLittleEndian enc)).toInt)
  | int32 b₀ b₁ b₂ b₃ =>
    exact consumes_integer rfl (.inr (.inr rfl))
      ((consumes_read (n := 4) (l := [b₀, b₁, b₂, b₃]) rfl).map fun enc =>
        (Int32.ofNat (ofLittleEndian enc)).toInt)
  | compressed hclen hlen hlzf =>
    rename_i n c clen len
    refine (consumes_special (e := 3) rfl).bind' (m := clen ++ (len ++ c)) ?_
    change Consumes (redisReadLzfStringObject lzf) _ _ _
    refine (consumes_redisReadCount hclen).bind' ((consumes_redisReadCount hlen).bind' ?_)
    rw [hclen.toNat, hlen.toNat]
    refine (consumes_read rfl).bindNil (v := keeps) ?_
    rw [hlzf]
    exact Consumes.pure _
  | raw hlen =>
    refine (consumes_redisReadLen hlen).bind' ?_
    dsimp only
    rw [if_neg Bool.false_ne_true, if_neg hlen.ne_lenErr, hlen.toNat]
    exact consumes_read rfl

/-! ### Scores -/

/-- Bytes for a score: a special value, or a text. -/
inductive DoubleBytes (libc : Libc) : Double → Bytes → Prop
  | negInf : DoubleBytes libc (.inf true) [255]
  | posInf : DoubleBytes libc (.inf false) [254]
  | nan : DoubleBytes libc .nan [253]
  | text {text : Bytes} (h : text.length < 128) :
      DoubleBytes libc (libc.scan (text.takeWhile (· ≠ 0))) (UInt8.ofNat text.length :: text)

theorem consumes_byte (b : UInt8) : Consumes (read 1) [b] [b] keeps := consumes_read rfl

theorem consumes_redisReadDoubleValue {d : Double} {bs : Bytes} (h : DoubleBytes libc d bs) :
    Consumes (redisReadDoubleValue libc) bs d keeps := by
  cases h with
  | negInf => exact (consumes_byte 255).bind' (m := []) (Consumes.pure _)
  | posInf => exact (consumes_byte 254).bind' (m := []) (Consumes.pure _)
  | nan => exact (consumes_byte 253).bind' (m := []) (Consumes.pure _)
  | @text text h =>
    have hlen : (UInt8.ofNat text.length).toNat = text.length := by
      rw [UInt8.toNat_ofNat', Nat.mod_eq_of_lt (by omega)]
    have hne (b : UInt8) (hb : (128 : UInt8).toNat ≤ b.toNat) : UInt8.ofNat text.length ≠ b := fun heq => by
      rw [← heq, hlen] at hb
      change 128 ≤ text.length at hb
      omega
    refine (consumes_byte (UInt8.ofNat text.length)).bind' ?_
    change Consumes (doubleForm libc (UInt8.ofNat text.length)) _ _ _
    rw [doubleForm, if_neg (hne 255 (by decide)), if_neg (hne 254 (by decide)),
      if_neg (hne 253 (by decide)), if_neg (fun hle => hne _ (UInt8.le_iff_toNat_le.mp hle) rfl)]
    exact (consumes_read hlen.symm).map fun text => libc.scan (text.takeWhile (· ≠ 0))

/-! ### Members -/

/-- The value of a key as it is in the file, one member after the other. -/
inductive Content
  | string (s : Bytes)
  | list (xs : List Bytes)
  | set (xs : List Bytes)
  | zset (xs : List (Bytes × Double))
  | hash (xs : List (Bytes × Bytes))

/-- The writes that a value is loaded with. -/
def Content.load : Content → Option Item → Option Item
  | .string s, item => Item.set s item
  | .list xs, item => xs.foldl (fun item v => Item.rPush v item) item
  | .set xs, item => xs.foldl (fun item v => Item.sAdd v item) item
  | .zset xs, item => xs.foldl (fun item p => Item.zAdd p.2 p.1 item) item
  | .hash xs, item => xs.foldl (fun item p => Item.hSet p.1 p.2 item) item

theorem consumes_kvUpdate (key : Bytes) (f : Option Item → Option Item) :
    Consumes (kvUpdate key f) [] () fun db store => store.update db key f := fun r tail h => by
  rw [List.nil_append] at h
  subst h
  rfl

theorem Store.update_id (store : Store) (db : UInt32) (key : Bytes) :
    (store.update db key fun item => item) = store := by
  funext db' key'
  by_cases h : (db', key') = (db, key)
  · obtain ⟨rfl, rfl⟩ := Prod.mk.inj h
    exact store.update_same _ _ _
  · exact store.update_other _ _ _ h

/-- **Members.** A program that takes one member, as often as there are members. -/
theorem Consumes.times {α : Type} {R : α → Bytes → Prop} {f : Load Unit} {key : Bytes}
    {g : α → Option Item → Option Item}
    (h : ∀ x bs, R x bs → Consumes f bs () fun db store => store.update db key (g x))
    {xs : List α} {parts : List Bytes} (hxs : List.Forall₂ R xs parts) :
    Consumes (times xs.length f) parts.flatten () fun db store =>
      store.update db key fun item => xs.foldl (fun item x => g x item) item := by
  induction hxs with
  | nil =>
    have hpure := Consumes.pure ()
    have hid : (fun db store => Store.update store db key fun item => item) = keeps := by
      funext db store
      exact store.update_id db key
    rw [← hid] at hpure
    exact hpure
  | @cons x bs xs parts hx hrest ih =>
    have hall := (h x bs hx).bind (g := fun _ => Rdb.times xs.length f) ih
    refine Eq.mp (congrArg _ ?_) hall
    funext db store
    exact store.update_update db key _ _

/-- A member that is read and put into the store. -/
theorem Consumes.put {α : Type} {f : Load α} {bs : Bytes} {a : α} {key : Bytes}
    {g : α → Option Item → Option Item} (h : Consumes f bs a keeps) :
    Consumes (f >>= fun a => kvUpdate key (g a)) bs () fun db store => store.update db key (g a) :=
  h.bindNil (g := fun a => kvUpdate key (g a)) (v := fun db store => store.update db key (g a))
    (consumes_kvUpdate key (g a))

/-! ### Values -/

/-- A pair of things, one behind the other. -/
def PairBytes {α β : Type} (R : α → Bytes → Prop) (S : β → Bytes → Prop) (p : α × β) (bs : Bytes) :
    Prop :=
  ∃ xs ys, bs = xs ++ ys ∧ R p.1 xs ∧ S p.2 ys

/-- The members that a ziplist has two entries for. -/
def pairs {α : Type} : List α → List (α × α)
  | x :: y :: xs => (x, y) :: pairs xs
  | _ => []

/-- The members of a sorted set in a ziplist; none if there is a score that is too long. -/
def scoredMembers (libc : Libc) : List (Bytes ⊕ ℤ) → Option (List (Bytes × Double))
  | value :: score :: entries =>
    match zzlGetScore libc score, scoredMembers libc entries with
    | some score, some members => some ((entryText value, score) :: members)
    | _, _ => none
  | _ => some []

variable {formats : Formats}

/-- Bytes for a value of some type. -/
inductive ObjectBytes (formats : Formats) : UInt8 → Content → Bytes → Prop
  | string {s bs : Bytes} (h : StringBytes formats.lzf s bs) : ObjectBytes formats 0 (.string s) bs
  | list {xs parts : List Bytes} {len : Bytes} (hlen : LenBytes xs.length len)
      (h : List.Forall₂ (StringBytes formats.lzf) xs parts) :
      ObjectBytes formats 1 (.list xs) (len ++ parts.flatten)
  | set {xs parts : List Bytes} {len : Bytes} (hlen : LenBytes xs.length len)
      (h : List.Forall₂ (StringBytes formats.lzf) xs parts) :
      ObjectBytes formats 2 (.set xs) (len ++ parts.flatten)
  | zset {xs : List (Bytes × Double)} {parts : List Bytes} {len : Bytes} (hlen : LenBytes xs.length len)
      (h : List.Forall₂ (PairBytes (StringBytes formats.lzf) (DoubleBytes formats.libc)) xs parts) :
      ObjectBytes formats 3 (.zset xs) (len ++ parts.flatten)
  | hash {xs : List (Bytes × Bytes)} {parts : List Bytes} {len : Bytes} (hlen : LenBytes xs.length len)
      (h : List.Forall₂ (PairBytes (StringBytes formats.lzf) (StringBytes formats.lzf)) xs parts) :
      ObjectBytes formats 4 (.hash xs) (len ++ parts.flatten)
  | hashZipmap {aux bs : Bytes} (h : StringBytes formats.lzf aux bs) :
      ObjectBytes formats 9 (.hash (formats.packed.zipmap aux)) bs
  | listZiplist {aux bs : Bytes} (h : StringBytes formats.lzf aux bs) :
      ObjectBytes formats 10 (.list ((formats.packed.ziplist aux).map entryText)) bs
  | setIntset {aux bs : Bytes} (h : StringBytes formats.lzf aux bs) :
      ObjectBytes formats 11 (.set ((formats.packed.intset aux).map decimalSigned)) bs
  | zsetZiplist {aux bs : Bytes} {members : List (Bytes × Double)} (h : StringBytes formats.lzf aux bs)
      (hmembers : scoredMembers formats.libc (formats.packed.ziplist aux) = some members) :
      ObjectBytes formats 12 (.zset members) bs
  | hashZiplist {aux bs : Bytes} (h : StringBytes formats.lzf aux bs) :
      ObjectBytes formats 13
        (.hash ((pairs (formats.packed.ziplist aux)).map (Prod.map entryText entryText))) bs

end Rdb
end Comms
