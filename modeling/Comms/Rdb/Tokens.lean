import Comms.Rdb.Format

/-!
# A snapshot, token by token

A file is read a few bytes at a time: a type, a time, a length, a string, a score. What the next bytes
have to be is decided by those in front of them.

* `Count`, `Text` — a length and a string, in all the forms that are read;
* `Encoding`, `IntCut`, `ReadsAs` — a string that nobody knows, an integer that is not all there, and
  what is made of the bytes;
* `Want`, `Token`, `Path` — what comes next, the bytes for it, and a file up to somewhere;
* `redisReadString_cases`, `redisReadDoubleValue_cases` — any bytes at all: a token is taken, or the reader
  gives up, or the process does.
-/

namespace Comms
namespace Rdb

/-! ### Forms -/

/-- A length where nobody asks whether it is one: six bits of a special encoding are a length as well. -/
inductive Count : ℕ → Bytes → Prop
  | len {n : ℕ} {bs : Bytes} (h : LenBytes n bs) : Count n bs
  | special {n : ℕ} (h : n < 64) : Count n [UInt8.ofNat (192 + n)]

/-- Bytes for a string. -/
inductive Text (lzf : Lzf) : Bytes → Bytes → Prop
  | int8 (b : UInt8) : Text lzf (decimalSigned (Int8.ofNat (ofLittleEndian [b])).toInt) [0xC0, b]
  | int16 (b₀ b₁ : UInt8) :
      Text lzf (decimalSigned (Int16.ofNat (ofLittleEndian [b₀, b₁])).toInt) [0xC1, b₀, b₁]
  | int32 (b₀ b₁ b₂ b₃ : UInt8) :
      Text lzf (decimalSigned (Int32.ofNat (ofLittleEndian [b₀, b₁, b₂, b₃])).toInt) [0xC2, b₀, b₁, b₂, b₃]
  | compressed {n : ℕ} {s c clen len : Bytes} (hclen : Count c.length clen) (hlen : Count n len)
      (hlzf : lzf.decompress c n = some s) : Text lzf s (0xC3 :: (clen ++ (len ++ c)))
  | raw {s len : Bytes} (hlen : LenBytes s.length len) : Text lzf s (len ++ s)

/-- A special encoding that `RedisReadString` does not know. -/
def Encoding (rest : Bytes) : Prop := ∃ b ∈ rest.head?, 196 ≤ b

/-- An integer that is not all there. -/
def IntCut (rest : Bytes) : Prop :=
  ∃ e < 3, ∃ part : Bytes, rest = UInt8.ofNat (192 + e) :: part ∧ part.length < 2 ^ e

/-- What `RedisReadString` makes of the bytes that are left. -/
def ReadsAs (lzf : Lzf) (s rest : Bytes) : Prop :=
  (∃ bs tail, Text lzf s bs ∧ rest = bs ++ tail) ∨ IntCut rest ∧ s = []

/-! ### What comes next -/

/-- The types of values that are one string. -/
def OneString (type : UInt8) : Prop :=
  type = 0 ∨ type = 9 ∨ type = 10 ∨ type = 11 ∨ type = 12 ∨ type = 13

/-- The types of values with a number of members. -/
def Counted (type : UInt8) : Prop := type = 1 ∨ type = 2 ∨ type = 3 ∨ type = 4

instance (type : UInt8) : Decidable (OneString type) := inferInstanceAs (Decidable (_ ∨ _))

instance (type : UInt8) : Decidable (Counted type) := inferInstanceAs (Decidable (_ ∨ _))

/-- The types that `RedisLoadObject` knows. -/
def Known (type : UInt8) : Prop := OneString type ∨ Counted type

instance (type : UInt8) : Decidable (Known type) := inferInstanceAs (Decidable (_ ∨ _))

/-- The value that is in a string; none if there is a score that is too long. -/
def unpack (formats : Formats) (type : UInt8) (s : Bytes) : Option Content :=
  if type = 0 then some (.string s)
  else if type = 9 then some (.hash (formats.packed.zipmap s))
  else if type = 10 then some (.list ((formats.packed.ziplist s).map entryText))
  else if type = 11 then some (.set ((formats.packed.intset s).map decimalSigned))
  else if type = 12 then (scoredMembers formats.libc (formats.packed.ziplist s)).map .zset
  else some (.hash ((pairs (formats.packed.ziplist s)).map (Prod.map entryText entryText)))

/-- What comes next. -/
inductive Want
  /-- A type, and whether it stands behind a time. -/
  | type (timed : Bool)
  | time (millis : Bool)
  | db
  | key (type : UInt8)
  | value (type : UInt8)
  /-- A member, and `n` more. -/
  | member (type : UInt8) (n : ℕ)
  /-- The second part of a member, and `n` more members. -/
  | second (type : UInt8) (n : ℕ)
  | cksm

/-- So many members. -/
def Want.members (type : UInt8) : ℕ → Want
  | 0 => .type false
  | n + 1 => .member type n

/-- Behind the first string of a member. -/
def Want.afterFirst (type : UInt8) (n : ℕ) : Want :=
  if type = 1 ∨ type = 2 then .members type n else .second type n

/-- What the types say, and the bytes. `types` are the types of values that may come. -/
inductive Token (formats : Formats) (types : UInt8 → Prop) : Want → Bytes → Want → Prop
  | timed (millis : Bool) : Token formats types (.type false) [if millis then 252 else 253] (.time millis)
  | seconds {bs : Bytes} (hlen : bs.length = 4) (h : (Int32.ofNat (ofLittleEndian bs)).toInt64 ≠ -1) :
      Token formats types (.time false) bs (.type true)
  | millis {bs : Bytes} (hlen : bs.length = 8) (h : Int64.ofNat (ofLittleEndian bs) ≠ -1) :
      Token formats types (.time true) bs (.type true)
  | selectDb (timed : Bool) : Token formats types (.type timed) [254] .db
  | db {n : ℕ} {bs : Bytes} (h : Count n bs) : Token formats types .db bs (.type false)
  | eof (timed : Bool) : Token formats types (.type timed) [255] .cksm
  | key {timed : Bool} {type : UInt8} (h : type < 254) (htimed : timed = true ∨ type ≠ 252 ∧ type ≠ 253) :
      Token formats types (.type timed) [type] (.key type)
  | name {type : UInt8} {s bs : Bytes} (h : Text formats.lzf s bs) (htype : types type) :
      Token formats types (.key type) bs (.value type)
  | string {type : UInt8} {s bs : Bytes} {c : Content} (h : Text formats.lzf s bs) (htype : OneString type)
      (hc : unpack formats type s = some c) : Token formats types (.value type) bs (.type false)
  | count {type : UInt8} {n : ℕ} {bs : Bytes} (h : Count n bs) (htype : Counted type) :
      Token formats types (.value type) bs (.members type n)
  | first {type : UInt8} {n : ℕ} {s bs : Bytes} (h : Text formats.lzf s bs) :
      Token formats types (.member type n) bs (.afterFirst type n)
  | score {n : ℕ} {d : Double} {bs : Bytes} (h : DoubleBytes formats.libc d bs) :
      Token formats types (.second 3 n) bs (.members 3 n)
  | field {n : ℕ} {s bs : Bytes} (h : Text formats.lzf s bs) :
      Token formats types (.second 4 n) bs (.members 4 n)

/-- `REDIS` and a version that is known. -/
def Header (ver : ℤ) (bs : Bytes) : Prop :=
  bs.length = 9 ∧ bs.take 5 = [82, 69, 68, 73, 83] ∧ (strtol (bs.drop 5 ++ [0])).1 = ver ∧ 1 ≤ ver ∧ ver ≤ 6

/-- A file up to somewhere, and what comes next. -/
inductive Path (formats : Formats) (types : UInt8 → Prop) (ver : ℤ) : Bytes → Want → Prop
  | header {bs : Bytes} (h : Header ver bs) : Path formats types ver bs (.type false)
  | token {p bs : Bytes} {w w' : Want} (h : Path formats types ver p w) (ht : Token formats types w bs w') :
      Path formats types ver (p ++ bs) w'

/-! ### Programs on any bytes -/

/-- The reader behind some bytes. -/
def Reader.after (r : Reader) (bs tail : Bytes) : Reader := ⟨tail, crc64 r.cksm bs, r.currentDb, r.kv⟩

/-- The program gives up, and has not touched the store. -/
def Refused {α : Type} (f : Load α) (r : Reader) : Prop :=
  ∃ r', f r = .error .returned r' ∧ r'.kv = r.kv ∧ r'.rest <:+ r.rest

section Programs

variable {α β : Type} {f : Load α} {g : α → Load β} {r r₁ : Reader} {a : α} {e : Failure}

theorem bind_ok (h : f r = .ok a r₁) : (f >>= g) r = g a r₁ := by
  change EStateM.bind f g r = _
  rw [EStateM.bind, h]

theorem bind_error (h : f r = .error e r₁) : (f >>= g) r = .error e r₁ := by
  change EStateM.bind f g r = _
  rw [EStateM.bind, h]

theorem Refused.bind (h : Refused f r) : Refused (f >>= g) r := by
  obtain ⟨r', hf, hkeeps⟩ := h
  exact ⟨r', bind_error hf, hkeeps⟩

/-- What is read first leaves the store alone. -/
theorem Refused.of_bind (hf : f r = .ok a r₁) (hkv : r₁.kv = r.kv) (hrest : r₁.rest <:+ r.rest)
    (h : Refused (g a) r₁) : Refused (f >>= g) r := by
  obtain ⟨r', hg, hkv', hrest'⟩ := h
  exact ⟨r', (bind_ok hf).trans hg, hkv'.trans hkv, hrest'.trans hrest⟩

theorem refused_throw : Refused (throw .returned : Load α) r := ⟨r, rfl, rfl, List.suffix_rfl⟩

theorem Consumes.ok {bs tail : Bytes} (h : Consumes f bs a keeps) (hr : r.rest = bs ++ tail) :
    f r = .ok a (r.after bs tail) := h r tail hr

end Programs

variable {r : Reader} {lzf : Lzf} {libc : Libc} {formats : Formats} {types : UInt8 → Prop}

theorem suffix_append_right (bs tail : Bytes) : tail <:+ bs ++ tail := ⟨bs, rfl⟩

theorem read?_none {n : ℕ} (h : r.rest.length < n) :
    ∃ cksm, read? n r = .ok none { r with rest := [], cksm := cksm } :=
  readLoop_none (n + 1) n [] r (Nat.lt_succ_self n) h

theorem refused_read {n : ℕ} (h : r.rest.length < n) : Refused (read n) r := by
  obtain ⟨cksm, hnone⟩ := read?_none h
  exact .of_bind hnone rfl List.nil_suffix refused_throw

/-- As many bytes as there are, or not. -/
theorem read_cases (n : ℕ) (r : Reader) :
    (∃ bs tail, bs.length = n ∧ r.rest = bs ++ tail) ∨ r.rest.length < n := by
  rcases Nat.lt_or_ge r.rest.length n with h | h
  · exact .inr h
  · exact .inl ⟨r.rest.take n, r.rest.drop n, List.length_take_of_le h, (List.take_append_drop n r.rest).symm⟩

/-- A byte, or not. -/
theorem byte_cases (r : Reader) : (∃ b tail, r.rest = b :: tail) ∨ r.rest = [] := by
  cases h : r.rest with
  | nil => exact .inr rfl
  | cons b tail => exact .inl ⟨b, tail, rfl⟩

theorem refused_byte (h : r.rest = []) : Refused (read 1) r :=
  refused_read (by rw [h]; exact Nat.one_pos)

/-! ### Lengths -/

/-- What the first byte of a length says. -/
theorem lenForm_byte (b : UInt8) : (∃ k < 64, b = UInt8.ofNat k) ∨ (∃ k < 64, b = UInt8.ofNat (64 + k)) ∨
    (∃ k < 64, b = UInt8.ofNat (128 + k)) ∨ ∃ k < 64, b = UInt8.ofNat (192 + k) := by
  have hb := b.toNat_lt
  have hself : b = UInt8.ofNat b.toNat := UInt8.toNat_inj.mp (by
    rw [UInt8.toNat_ofNat', Nat.mod_eq_of_lt hb])
  have hk (base : ℕ) (hle : base ≤ b.toNat) : b = UInt8.ofNat (base + (b.toNat - base)) := by
    rw [Nat.add_sub_cancel' hle]
    exact hself
  rcases Nat.lt_or_ge b.toNat 64 with h | h
  · exact .inl ⟨b.toNat, h, hself⟩
  rcases Nat.lt_or_ge b.toNat 128 with h' | h'
  · exact .inr (.inl ⟨b.toNat - 64, by omega, hk 64 h⟩)
  rcases Nat.lt_or_ge b.toNat 192 with h'' | h''
  · exact .inr (.inr (.inl ⟨b.toNat - 128, by omega, hk 128 h'⟩))
  · exact .inr (.inr (.inr ⟨b.toNat - 192, by omega, hk 192 h''⟩))

/-- A special encoding is six bits. -/
theorem lenForm_special {k : ℕ} (h : k < 64) :
    lenForm (UInt8.ofNat (192 + k)) = pure (UInt32.ofNat k, true) := by
  obtain ⟨htop, hlow⟩ := highBits 3 (by omega) k h
  rw [show 64 * 3 = 192 from rfl] at htop hlow
  have heq : (UInt8.ofNat k).toUInt32 = UInt32.ofNat k := by
    apply UInt32.toNat_inj.mp
    rw [UInt8.toNat_toUInt32, UInt8.toNat_ofNat', UInt32.toNat_ofNat', Nat.mod_eq_of_lt (by omega),
      Nat.mod_eq_of_lt (by omega)]
  rw [lenForm, htop, hlow, if_pos (show UInt8.ofNat 3 = 3 from rfl), heq]

/-- Four bytes, highest first, are those of the number that is read. -/
theorem bigEndian_ntohl {bs : Bytes} (h : bs.length = 4) : bigEndian (ntohl bs).toNat = bs := by
  match bs, h with
  | [b₀, b₁, b₂, b₃], _ =>
    have hvalue : ofLittleEndian [b₃, b₂, b₁, b₀] =
        b₃.toNat + 256 * (b₂.toNat + 256 * (b₁.toNat + 256 * b₀.toNat)) := rfl
    have hlt₀ := b₀.toNat_lt
    have hlt₁ := b₁.toNat_lt
    have hlt₂ := b₂.toNat_lt
    have hlt₃ := b₃.toNat_lt
    have hn : (ntohl [b₀, b₁, b₂, b₃]).toNat = ofLittleEndian [b₃, b₂, b₁, b₀] := by
      change (UInt32.ofNat (ofLittleEndian [b₃, b₂, b₁, b₀])).toNat = _
      rw [UInt32.toNat_ofNat', Nat.mod_eq_of_lt (by rw [hvalue]; omega)]
    have hbyte (n : ℕ) (b : UInt8) (heq : n % 256 = b.toNat) : UInt8.ofNat n = b :=
      UInt8.toNat_inj.mp ((UInt8.toNat_ofNat' ..).trans heq)
    rw [hn, hvalue, bigEndian, hbyte _ b₀ (by omega), hbyte _ b₁ (by omega), hbyte _ b₂ (by omega),
      hbyte _ b₃ (by omega)]

/-- The last eight bits of fourteen. -/
theorem lenForm_fourteen {k : ℕ} (h : k < 64) (r : Reader) :
    (∃ n b tail, LenBytes n [UInt8.ofNat (64 + k), b] ∧ r.rest = b :: tail) ∨
      ∃ r', lenForm (UInt8.ofNat (64 + k)) r = .ok (lenErr, false) r' ∧ r'.kv = r.kv ∧ r'.rest <:+ r.rest := by
  rcases byte_cases r with ⟨b, tail, hr⟩ | hr
  · have hlt := b.toNat_lt
    have hb : UInt8.ofNat (256 * k + b.toNat) = b := UInt8.toNat_inj.mp (by rw [UInt8.toNat_ofNat']; omega)
    have hbytes := LenBytes.fourteen (n := 256 * k + b.toNat) (by omega)
    rw [show (256 * k + b.toNat) / 256 = k by omega, hb] at hbytes
    exact .inl ⟨_, b, tail, hbytes, hr⟩
  · obtain ⟨htop, -⟩ := highBits 1 (by omega) k h
    rw [mul_one] at htop
    obtain ⟨cksm, hnone⟩ := read?_none (r := r) (n := 1) (by rw [hr]; exact Nat.one_pos)
    have hform : lenForm (UInt8.ofNat (64 + k)) r =
        .ok (lenErr, false) { r with rest := [], cksm := cksm } := by
      rw [lenForm, htop, if_neg (by decide), if_neg (by decide),
        if_pos (show UInt8.ofNat 1 = 1 from rfl), bind_ok hnone]
      rfl
    exact .inr ⟨_, hform, rfl, List.nil_suffix⟩

/-- Thirty-two bits, behind the byte that says so. -/
theorem lenForm_thirtyTwo {k : ℕ} (h : k < 64) (r : Reader) :
    (∃ n bs tail, LenBytes n (UInt8.ofNat (128 + k) :: bs) ∧ r.rest = bs ++ tail) ∨
      ∃ r', lenForm (UInt8.ofNat (128 + k)) r = .ok (lenErr, false) r' ∧ r'.kv = r.kv ∧ r'.rest <:+ r.rest := by
  obtain ⟨htop, -⟩ := highBits 2 (by omega) k h
  have hform : lenForm (UInt8.ofNat (128 + k)) =
      read? 4 >>= fun buf => buf.elim (Pure.pure (lenErr, false)) fun len => Pure.pure (ntohl len, false) := by
    rw [lenForm, htop, if_neg (by decide), if_neg (by decide), if_neg (by decide)]
    refine congrArg (read? 4 >>= ·) (funext fun buf => ?_)
    cases buf <;> rfl
  rw [hform]
  rcases read_cases 4 r with ⟨bs, tail, hbs, hr⟩ | hshort
  · by_cases herr : ntohl bs = lenErr
    · have hread := bind_ok (g := fun buf => buf.elim (Pure.pure (lenErr, false)) fun len =>
        Pure.pure (ntohl len, false)) ((consumes_read? hbs).ok hr)
      change _ = EStateM.Result.ok (ntohl bs, false) _ at hread
      rw [herr] at hread
      refine .inr ⟨_, hread, rfl, ?_⟩
      rw [hr]
      exact suffix_append_right bs tail
    · have hlt : (ntohl bs).toNat < 2 ^ 32 - 1 := by
        have hmax := (ntohl bs).toNat_lt
        by_contra hge
        exact herr (UInt32.toNat_inj.mp (show (ntohl bs).toNat = 4294967295 by omega))
      have hbytes := LenBytes.thirtyTwo hlt h
      rw [bigEndian_ntohl hbs] at hbytes
      exact .inl ⟨_, bs, tail, hbytes, hr⟩
  · obtain ⟨cksm, hnone⟩ := read?_none hshort
    exact .inr ⟨_, bind_ok hnone, rfl, List.nil_suffix⟩

/-- **Lengths.** -/
theorem redisReadLen_cases (r : Reader) :
    (∃ n bs tail, LenBytes n bs ∧ r.rest = bs ++ tail) ∨
      (∃ k < 64, ∃ tail, r.rest = UInt8.ofNat (192 + k) :: tail) ∨
      ∃ r', redisReadLen r = .ok (lenErr, false) r' ∧ r'.kv = r.kv ∧ r'.rest <:+ r.rest := by
  rcases byte_cases r with ⟨b, tail, hr⟩ | hr
  · have hlen : redisReadLen r = lenForm b (r.after [b] tail) := bind_ok ((consumes_byte? b).ok hr)
    have hsuffix : tail <:+ r.rest := by
      rw [hr]
      exact List.suffix_cons b tail
    rcases lenForm_byte b with ⟨k, hk, rfl⟩ | ⟨k, hk, rfl⟩ | ⟨k, hk, rfl⟩ | ⟨k, hk, rfl⟩
    · exact .inl ⟨k, _, tail, .six hk, hr⟩
    · rcases lenForm_fourteen hk (r.after [UInt8.ofNat (64 + k)] tail) with
        ⟨n, b, tail', hbytes, htail⟩ | ⟨r', hform, hkv, hrest⟩
      · change tail = b :: tail' at htail
        exact .inl ⟨n, _, tail', hbytes, by rw [hr, htail]; rfl⟩
      · exact .inr (.inr ⟨r', hlen.trans hform, hkv, hrest.trans hsuffix⟩)
    · rcases lenForm_thirtyTwo hk (r.after [UInt8.ofNat (128 + k)] tail) with
        ⟨n, bs, tail', hbytes, htail⟩ | ⟨r', hform, hkv, hrest⟩
      · change tail = bs ++ tail' at htail
        exact .inl ⟨n, _, tail', hbytes, by rw [hr, htail]; rfl⟩
      · exact .inr (.inr ⟨r', hlen.trans hform, hkv, hrest.trans hsuffix⟩)
    · exact .inr (.inl ⟨k, hk, tail, hr⟩)
  · obtain ⟨cksm, hnone⟩ := read?_none (r := r) (n := 1) (by rw [hr]; exact Nat.one_pos)
    exact .inr (.inr ⟨_, bind_ok hnone, rfl, List.nil_suffix⟩)

/-- A special encoding. -/
theorem consumes_redisReadLen_special {k : ℕ} (h : k < 64) :
    Consumes redisReadLen [UInt8.ofNat (192 + k)] (UInt32.ofNat k, true) keeps :=
  consumes_special (lenForm_special h)

theorem Count.lt {n : ℕ} {bs : Bytes} (h : Count n bs) : n < 2 ^ 32 - 1 := by
  cases h with
  | len h => exact h.lt
  | special h => omega

theorem Count.toNat {n : ℕ} {bs : Bytes} (h : Count n bs) : (UInt32.ofNat n).toNat = n := by
  have hn := h.lt
  rw [UInt32.toNat_ofNat', Nat.mod_eq_of_lt (by omega)]

theorem consumes_redisReadCount' {n : ℕ} {bs : Bytes} (h : Count n bs) :
    Consumes redisReadCount bs (UInt32.ofNat n) keeps := by
  cases h with
  | len h => exact consumes_redisReadCount h
  | special h =>
    have hne : UInt32.ofNat n ≠ lenErr := fun heq => by
      have hmax := congrArg UInt32.toNat heq
      rw [(Count.special h).toNat] at hmax
      change n = 4294967295 at hmax
      omega
    refine (consumes_redisReadLen_special h).bindNil (v := keeps) ?_
    dsimp only
    rw [if_neg hne]
    exact Consumes.pure _

theorem redisReadCount_cases (r : Reader) :
    (∃ n bs tail, Count n bs ∧ r.rest = bs ++ tail) ∨ Refused redisReadCount r := by
  rcases redisReadLen_cases r with ⟨n, bs, tail, h, hr⟩ | ⟨k, hk, tail, hr⟩ | ⟨r', hlen, hkv, hrest⟩
  · exact .inl ⟨n, bs, tail, .len h, hr⟩
  · exact .inl ⟨k, _, tail, .special hk, hr⟩
  · refine .inr (.of_bind hlen hkv hrest ?_)
    exact ⟨r', rfl, rfl, List.suffix_rfl⟩

/-! ### Strings and scores -/

/-- A string in one of the forms. -/
theorem consumes_text {s bs : Bytes} (h : Text lzf s bs) : Consumes (redisReadString lzf) bs s keeps := by
  cases h with
  | int8 b => exact consumes_redisReadString (.int8 b)
  | int16 b₀ b₁ => exact consumes_redisReadString (.int16 b₀ b₁)
  | int32 b₀ b₁ b₂ b₃ => exact consumes_redisReadString (.int32 b₀ b₁ b₂ b₃)
  | @compressed n s c clen len hclen hlen hlzf =>
    refine (consumes_redisReadLen_special (k := 3) (by decide)).bind' (m := clen ++ (len ++ c)) ?_
    change Consumes (redisReadLzfStringObject lzf) _ _ _
    refine (consumes_redisReadCount' hclen).bind' ((consumes_redisReadCount' hlen).bind' ?_)
    rw [hclen.toNat, hlen.toNat]
    refine (consumes_read rfl).bindNil (v := keeps) ?_
    rw [hlzf]
    exact Consumes.pure _
  | raw hlen => exact consumes_redisReadString (.raw hlen)

/-- The program behind the length of a string. -/
theorem redisReadString_special {k : ℕ} {tail : Bytes} (hk : k < 64)
    (hr : r.rest = UInt8.ofNat (192 + k) :: tail) :
    redisReadString lzf r =
      (if UInt32.ofNat k = 0 ∨ UInt32.ofNat k = 1 ∨ UInt32.ofNat k = 2 then integerString (UInt32.ofNat k)
        else if UInt32.ofNat k = 3 then redisReadLzfStringObject lzf
        else throw .abort) (r.after [UInt8.ofNat (192 + k)] tail) := by
  refine (bind_ok (@Consumes.ok _ _ _ _ _ tail (consumes_redisReadLen_special hk) hr)).trans ?_
  exact congrFun (if_pos rfl) _

/-- An integer, all of it or not. -/
theorem integer_cases {k : ℕ} (hk : k < 3) {tail : Bytes} (hr : r.rest = UInt8.ofNat (192 + k) :: tail) :
    (∃ s bs tail, Text lzf s bs ∧ r.rest = bs ++ tail) ∨ IntCut r.rest := by
  rcases read_cases (2 ^ k) (r.after [UInt8.ofNat (192 + k)] tail) with ⟨bs, tail', hlen, htail⟩ | hshort
  · refine .inl ?_
    change tail = bs ++ tail' at htail
    subst htail
    match k, hk, bs, hlen with
    | 0, _, [b], _ => exact ⟨_, _, tail', .int8 b, hr⟩
    | 1, _, [b₀, b₁], _ => exact ⟨_, _, tail', .int16 b₀ b₁, hr⟩
    | 2, _, [b₀, b₁, b₂, b₃], _ => exact ⟨_, _, tail', .int32 b₀ b₁ b₂ b₃, hr⟩
  · exact .inr ⟨k, hk, tail, hr, hshort⟩

/-- **A short integer** is an empty string, and the file is at its end. -/
theorem redisReadString_intCut (lzf : Lzf) (h : IntCut r.rest) :
    ∃ cksm, redisReadString lzf r = .ok [] ⟨[], cksm, r.currentDb, r.kv⟩ := by
  obtain ⟨k, hk, part, hr, hshort⟩ := h
  have hstring := @redisReadString_special _ lzf _ _ (show k < 64 by omega) hr
  obtain ⟨cksm, hnone⟩ := read?_none (r := r.after [UInt8.ofNat (192 + k)] part) hshort
  have hread : read (2 ^ k) (r.after [UInt8.ofNat (192 + k)] part) =
      .error .returned ⟨[], cksm, r.currentDb, r.kv⟩ := bind_ok hnone
  refine ⟨cksm, hstring.trans ?_⟩
  -- `RedisReadInteger` fails, and `RedisReadString` does not
  match k, hk with
  | 0, _ =>
    have hint : redisReadInteger 0 (r.after [UInt8.ofNat (192 + 0)] part) = _ := bind_error hread
    change integerString 0 _ = _
    rw [integerString, hint]
  | 1, _ =>
    have hint : redisReadInteger 1 (r.after [UInt8.ofNat (192 + 1)] part) = _ := bind_error hread
    change integerString 1 _ = _
    rw [integerString, hint]
  | 2, _ =>
    have hint : redisReadInteger 2 (r.after [UInt8.ofNat (192 + 2)] part) = _ := bind_error hread
    change integerString 2 _ = _
    rw [integerString, hint]

/-- An encoding that nobody knows. -/
theorem redisReadString_encoding (lzf : Lzf) (h : Encoding r.rest) :
    ∃ r', redisReadString lzf r = .error .abort r' := by
  obtain ⟨b, hb, hle⟩ := h
  obtain ⟨tail, hr⟩ := List.head?_eq_some_iff.mp hb
  have hlt := b.toNat_lt
  have hge : 196 ≤ b.toNat := UInt8.le_iff_toNat_le.mp hle
  have hself : UInt8.ofNat (192 + (b.toNat - 192)) = b := UInt8.toNat_inj.mp (by
    rw [UInt8.toNat_ofNat']
    omega)
  rw [← hself] at hr
  have hne (j : ℕ) (hj : j < 4) : UInt32.ofNat (b.toNat - 192) ≠ UInt32.ofNat j := fun heq => by
    have hnat := congrArg UInt32.toNat heq
    rw [UInt32.toNat_ofNat', UInt32.toNat_ofNat'] at hnat
    omega
  refine ⟨r.after [UInt8.ofNat (192 + (b.toNat - 192))] tail,
    (redisReadString_special (show b.toNat - 192 < 64 by omega) hr).trans ?_⟩
  rw [if_neg (by rintro (h | h | h); exacts [hne 0 (by decide) h, hne 1 (by decide) h, hne 2 (by decide) h]),
    if_neg (show UInt32.ofNat (b.toNat - 192) ≠ 3 from hne 3 (by decide))]
  rfl

theorem encoding_special {k : ℕ} (hk : k < 64) (h : 4 ≤ k) (tail : Bytes) :
    Encoding (UInt8.ofNat (192 + k) :: tail) := by
  refine ⟨_, rfl, UInt8.le_iff_toNat_le.mpr ?_⟩
  rw [UInt8.toNat_ofNat', Nat.mod_eq_of_lt (by omega)]
  change 196 ≤ 192 + k
  omega

/-- A compressed string, or none. -/
theorem redisReadLzfStringObject_cases (lzf : Lzf) (r : Reader) :
    (∃ (n : ℕ) (s c clen len tail : Bytes), Count c.length clen ∧ Count n len ∧ lzf.decompress c n = some s ∧
        r.rest = clen ++ (len ++ c) ++ tail) ∨
      Refused (redisReadLzfStringObject lzf) r := by
  rcases redisReadCount_cases r with ⟨m, clen, tail, hclen, hr⟩ | hno
  · have hm := (consumes_redisReadCount' hclen).ok hr
    have hsuffix : tail <:+ r.rest := by
      rw [hr]
      exact suffix_append_right clen tail
    rcases redisReadCount_cases (r.after clen tail) with ⟨n, len, tail', hlen, htail⟩ | hno
    · change tail = len ++ tail' at htail
      have hn := (consumes_redisReadCount' hlen).ok (r := r.after clen tail) htail
      have hsuffix' : tail' <:+ tail := by
        rw [htail]
        exact suffix_append_right len tail'
      rcases read_cases m ((r.after clen tail).after len tail') with ⟨c, tail'', hc, htail'⟩ | hshort
      · change tail' = c ++ tail'' at htail'
        cases hlzf : lzf.decompress c n with
        | some s =>
          refine .inl ⟨n, s, c, clen, len, tail'', by rw [hc]; exact hclen, hlen, hlzf, ?_⟩
          rw [hr, htail, htail', List.append_assoc, List.append_assoc]
        | none =>
          have hread := (consumes_read hc).ok (r := (r.after clen tail).after len tail') htail'
          refine .inr (.of_bind hm rfl hsuffix (.of_bind hn rfl hsuffix' ?_))
          rw [hclen.toNat, hlen.toNat]
          refine .of_bind hread rfl ?_ ?_
          · change tail'' <:+ tail'
            rw [htail']
            exact suffix_append_right c tail''
          · rw [hlzf]
            exact refused_throw
      · refine .inr (.of_bind hm rfl hsuffix (.of_bind hn rfl hsuffix' ?_))
        rw [hclen.toNat]
        exact (refused_read hshort).bind
    · exact .inr (.of_bind hm rfl hsuffix hno.bind)
  · exact .inr hno.bind

/-- **Strings.** A string is read, or an integer is not all there, or the reader gives up, or nobody knows
the encoding. -/
theorem redisReadString_cases (lzf : Lzf) (r : Reader) :
    (∃ s bs tail, Text lzf s bs ∧ r.rest = bs ++ tail) ∨
      IntCut r.rest ∨ Refused (redisReadString lzf) r ∨ Encoding r.rest := by
  rcases redisReadLen_cases r with ⟨n, bs, tail, h, hr⟩ | ⟨k, hk, tail, hr⟩ | ⟨r', hlen, hkv, hrest⟩
  · rcases read_cases n (r.after bs tail) with ⟨s, tail', hs, htail⟩ | hshort
    · change tail = s ++ tail' at htail
      subst hs
      exact .inl ⟨s, bs ++ s, tail', .raw h, by rw [hr, htail, List.append_assoc]⟩
    · refine .inr (.inr (.inl (.of_bind ((consumes_redisReadLen h).ok hr) rfl ?_ ?_)))
      · rw [hr]
        exact suffix_append_right bs tail
      · dsimp only
        rw [if_neg Bool.false_ne_true, if_neg h.ne_lenErr, h.toNat]
        exact refused_read hshort
  · rcases Nat.lt_or_ge k 3 with h3 | h3
    · exact (integer_cases h3 hr).imp_right .inl
    · rcases Nat.eq_or_lt_of_le h3 with rfl | h4
      · have hsuffix : tail <:+ r.rest := by
          rw [hr]
          exact List.suffix_cons _ tail
        have hstring : redisReadString lzf r =
            redisReadLzfStringObject lzf (r.after [UInt8.ofNat (192 + 3)] tail) :=
          redisReadString_special hk hr
        rcases redisReadLzfStringObject_cases lzf (r.after [UInt8.ofNat (192 + 3)] tail) with
          ⟨n, s, c, clen, len, tail', hclen, hlen, hlzf, htail⟩ | ⟨r', hread, hkv, hrest⟩
        · change tail = _ at htail
          refine .inl ⟨s, _, tail', .compressed hclen hlen hlzf, ?_⟩
          rw [hr, htail]
          rfl
        · exact .inr (.inr (.inl ⟨r', hstring.trans hread, hkv, hrest.trans hsuffix⟩))
      · refine .inr (.inr (.inr ?_))
        rw [hr]
        exact encoding_special hk h4 tail
  · refine .inr (.inr (.inl (.of_bind hlen hkv hrest ?_)))
    exact ⟨r', rfl, rfl, List.suffix_rfl⟩

/-- A score that is too long for the buffer. -/
def LongScore (rest : Bytes) : Prop := ∃ b ∈ rest.head?, 128 ≤ b ∧ b < 253

theorem redisReadDoubleValue_long (libc : Libc) (h : LongScore r.rest) :
    ∃ r', redisReadDoubleValue libc r = .error .wild r' := by
  obtain ⟨b, hb, hle, hlt⟩ := h
  obtain ⟨tail, hr⟩ := List.head?_eq_some_iff.mp hb
  have hne {k : UInt8} (hk : 253 ≤ k) : b ≠ k := fun heq => by
    rw [heq] at hlt
    exact absurd (UInt8.le_iff_toNat_le.mp hk) (Nat.not_le.mpr (UInt8.lt_iff_toNat_lt.mp hlt))
  refine ⟨r.after [b] tail, (bind_ok ((consumes_byte b).ok hr)).trans ?_⟩
  change doubleForm libc b _ = _
  rw [doubleForm, if_neg (hne (by decide)), if_neg (hne (by decide)), if_neg (hne (by decide)), if_pos hle]
  rfl

/-- **Scores.** -/
theorem redisReadDoubleValue_cases (libc : Libc) (r : Reader) :
    (∃ d bs tail, DoubleBytes libc d bs ∧ r.rest = bs ++ tail) ∨
      Refused (redisReadDoubleValue libc) r ∨ LongScore r.rest := by
  rcases byte_cases r with ⟨b, tail, hr⟩ | hr
  · have hbyte := (consumes_byte b).ok hr
    by_cases h255 : b = 255
    · subst h255
      exact .inl ⟨_, _, tail, .negInf, hr⟩
    by_cases h254 : b = 254
    · subst h254
      exact .inl ⟨_, _, tail, .posInf, hr⟩
    by_cases h253 : b = 253
    · subst h253
      exact .inl ⟨_, _, tail, .nan, hr⟩
    by_cases hlong : 128 ≤ b
    · refine .inr (.inr ⟨b, by rw [hr]; rfl, hlong, ?_⟩)
      have hlt := b.toNat_lt
      have hne {k : UInt8} (h : b ≠ k) : b.toNat ≠ k.toNat := fun heq => h (UInt8.toNat_inj.mp heq)
      have h₁ : b.toNat ≠ 255 := hne h255
      have h₂ : b.toNat ≠ 254 := hne h254
      have h₃ : b.toNat ≠ 253 := hne h253
      exact UInt8.lt_iff_toNat_lt.mpr (show b.toNat < 253 by omega)
    · have hshort : b.toNat < 128 := by
        have hnot : ¬(128 : UInt8).toNat ≤ b.toNat := fun hle => hlong (UInt8.le_iff_toNat_le.mpr hle)
        change ¬128 ≤ b.toNat at hnot
        omega
      rcases read_cases b.toNat (r.after [b] tail) with ⟨text, tail', htext, htail⟩ | hno
      · change tail = text ++ tail' at htail
        have hb : UInt8.ofNat text.length = b := UInt8.toNat_inj.mp (by
          rw [UInt8.toNat_ofNat', htext, Nat.mod_eq_of_lt b.toNat_lt])
        have hbytes := @DoubleBytes.text libc text (by omega)
        rw [hb] at hbytes
        exact .inl ⟨_, _, tail', hbytes, by rw [hr, htail]; rfl⟩
      · refine .inr (.inl (.of_bind hbyte rfl ?_ ?_))
        · rw [hr]
          exact List.suffix_cons b tail
        · change Refused (doubleForm libc b) _
          rw [doubleForm, if_neg h255, if_neg h254, if_neg h253, if_neg hlong]
          exact (refused_read hno).bind
  · exact .inr (.inl (refused_byte hr).bind)

end Rdb
end Comms
