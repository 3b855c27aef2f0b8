import Comms.Rdb.Records
import Comms.Rdb.Save

/-!
# Which files are loaded

Any bytes at all may be given as a snapshot. `RedisLoad` takes one token after the other, and where
the next one is not there, it does not return 0.

* `resume_token` — a token that comes next is taken;
* `resume_stuck` — where none comes next, the load ends, with `-1` or without an end;
* `loadFile_ok_iff` — the files that are loaded: a path of tokens, and a checksum;
* `Path.unique` — there is one way to read a file;
* `loadFile_truncated` — a file that has lost some bytes at its end is not loaded.
-/

namespace Comms
namespace Rdb

variable {formats : Formats} {clock : ℕ → UInt64} {pt : Point} {r : Reader} {w w' : Want}
  {bs tail : Bytes} {type : UInt8} {n : ℕ}

/-- What a token leads to: the rest of the load behind it. -/
def Takes (formats : Formats) (clock : ℕ → UInt64) (pt : Point) (w : Want) (r : Reader) (bs : Bytes)
    (w' : Want) (tail : Bytes) : Prop :=
  ∃ pt' r', pt'.ver = pt.ver ∧ tail.length < pt'.fuel ∧ r'.rest = tail ∧ r'.cksm = crc64 r.cksm bs ∧
    resume formats clock pt w r = resume formats clock pt' w' r'

/-- The load ends, and does not return 0. -/
def Ends {α : Type} (f : Load α) (r : Reader) : Prop := ∃ e r', f r = .error e r'

theorem Refused.ends {α : Type} {f : Load α} (h : Refused f r) : Ends f r := by
  obtain ⟨r', hf, -⟩ := h
  exact ⟨_, r', hf⟩

theorem Ends.bind {α β : Type} {f : Load α} {g : α → Load β} (h : Ends f r) : Ends (f >>= g) r := by
  obtain ⟨e, r', hf⟩ := h
  exact ⟨e, r', bind_error hf⟩

/-! ### Tokens that come next -/

/-- A time and a member are put without reading. -/
theorem Reader.members_rest (clock : ℕ → UInt64) (pt : Point) (n : ℕ) (r : Reader) :
    (r.members clock pt n).rest = r.rest ∧ (r.members clock pt n).cksm = r.cksm := by
  unfold Reader.members Reader.timed
  split_ifs <;> exact ⟨rfl, rfl⟩

/-- Bytes that are taken leave less than there is fuel for. -/
theorem fuel_tail (hfuel : r.rest.length < pt.fuel) (hr : r.rest = bs ++ tail) :
    tail.length < pt.fuel := by
  rw [hr, List.length_append] at hfuel
  omega

theorem takes_string {s : Bytes} {c : Content} (h : Text formats.lzf s bs) (htype : OneString type)
    (hc : unpack formats type s = some c) (hfuel : r.rest.length < pt.fuel)
    (hr : r.rest = bs ++ tail) : Takes formats clock pt (.value type) r bs (.type false) tail := by
  have hread := (consumes_text h).ok hr
  have heq : resume formats clock pt (.value type) r =
      afterValue formats clock pt ((r.after bs tail).put pt.key c) := by
    change (redisLoadObject formats type pt.key >>= fun _ => afterValue formats clock pt) r = _
    rw [redisLoadObject_oneString htype, bind_assoc, bind_ok hread]
    exact bind_ok (putUnpacked_eq htype hc)
  obtain ⟨hrest, hcksm⟩ := Reader.members_rest clock pt 0 ((r.after bs tail).put pt.key c)
  exact ⟨pt, _, rfl, fuel_tail hfuel hr, hrest, hcksm, heq.trans (afterValue_eq)⟩

theorem takes_count (h : Count n bs) (htype : Counted type) (hfuel : r.rest.length < pt.fuel)
    (hr : r.rest = bs ++ tail) :
    Takes formats clock pt (.value type) r bs (.members type n) tail := by
  have hread := (consumes_redisReadCount' h).ok hr
  have heq : resume formats clock pt (.value type) r =
      (times n (loadMember formats type pt.key) >>= fun _ => afterValue formats clock pt)
        (r.after bs tail) := by
    change (redisLoadObject formats type pt.key >>= fun _ => afterValue formats clock pt) r = _
    rw [redisLoadObject_counted htype, bind_assoc, bind_ok hread, h.toNat]
  obtain ⟨hrest, hcksm⟩ := Reader.members_rest clock pt n (r.after bs tail)
  exact ⟨pt, _, rfl, fuel_tail hfuel hr, hrest, hcksm, heq.trans (resume_members n)⟩

/-- A key is put, and what is behind it comes next. -/
theorem takes_put (f : Option Item → Option Item) (hfuel : r.rest.length < pt.fuel)
    (hr : r.rest = bs ++ tail)
    (heq : resume formats clock pt w r =
      (kvUpdate pt.key f >>= fun _ => times n (loadMember formats type pt.key) >>= fun _ =>
        afterValue formats clock pt) (r.after bs tail)) :
    Takes formats clock pt w r bs (.members type n) tail := by
  rw [kvUpdate_bind] at heq
  obtain ⟨hrest, hcksm⟩ := Reader.members_rest clock pt n
    { r.after bs tail with kv := (r.after bs tail).kv.update (r.after bs tail).currentDb pt.key f }
  exact ⟨pt, _, rfl, fuel_tail hfuel hr, hrest, hcksm, heq.trans (resume_members n)⟩

theorem takes_first {s : Bytes} (h : Text formats.lzf s bs) (hfuel : r.rest.length < pt.fuel)
    (hr : r.rest = bs ++ tail) :
    Takes formats clock pt (.member type n) r bs (.afterFirst type n) tail := by
  have hread := (consumes_text h).ok hr
  have heq : resume formats clock pt (.member type n) r =
      (secondPart formats type pt.key s >>= fun _ => times n (loadMember formats type pt.key) >>=
        fun _ => afterValue formats clock pt) (r.after bs tail) := by
    change (times (n + 1) (loadMember formats type pt.key) >>= fun _ => afterValue formats clock pt) r
      = _
    rw [times, loadMember, bind_assoc, bind_assoc, bind_ok hread]
  unfold Want.afterFirst
  split
  next hone =>
    rw [secondPart, if_pos hone] at heq
    exact takes_put _ hfuel hr heq
  next hone =>
    exact ⟨{ pt with first := s }, r.after bs tail, rfl, fuel_tail hfuel hr, rfl, rfl, heq⟩

/-- **The next token** is taken. -/
theorem resume_token (hfuel : r.rest.length < pt.fuel) (h : Token formats Known w bs w')
    (hr : r.rest = bs ++ tail) : Takes formats clock pt w r bs w' tail := by
  have htail := fuel_tail hfuel hr
  cases h with
  | timed millis =>
    rw [List.singleton_append] at hr
    obtain ⟨pt', hver, hfuel', heq⟩ := @resume_timed formats clock pt r tail millis hfuel hr
    exact ⟨pt', r.after [if millis then 252 else 253] tail, hver, hfuel', rfl, rfl, heq⟩
  | seconds hlen h =>
    exact ⟨{ pt with expiretime := (Int32.ofNat (ofLittleEndian bs)).toInt64 * 1000 },
      r.after bs tail, rfl, htail, rfl, rfl, resume_seconds hlen h hr⟩
  | millis hlen h =>
    exact ⟨{ pt with expiretime := Int64.ofNat (ofLittleEndian bs) }, r.after bs tail, rfl, htail,
      rfl, rfl, resume_millis hlen h hr⟩
  | selectDb timed =>
    obtain ⟨pt', hver, hfuel', heq⟩ :=
      @resume_type formats clock pt r 254 tail timed hfuel hr (.inr (by decide))
    exact ⟨pt', r.after [254] tail, hver, hfuel', rfl, rfl, heq⟩
  | db h => exact ⟨pt, _, rfl, htail, rfl, rfl, resume_db h hr⟩
  | eof timed =>
    obtain ⟨pt', hver, hfuel', heq⟩ :=
      @resume_type formats clock pt r 255 tail timed hfuel hr (.inr (by decide))
    exact ⟨pt', r.after [255] tail, hver, hfuel', rfl, rfl, heq.trans (congrFun round_eof _)⟩
  | @key timed type h htimed =>
    obtain ⟨pt', hver, hfuel', heq⟩ := @resume_type formats clock pt r type tail timed hfuel hr htimed
    exact ⟨pt', r.after [type] tail, hver, hfuel', rfl, rfl, heq.trans (congrFun (round_key h) _)⟩
  | @name type s bs h htype =>
    have hread := (consumes_text h).ok hr
    have heq : resume formats clock pt (.key type) r =
        (kvUpdate s (fun _ => none) >>= fun _ =>
          resume formats clock { pt with key := s } (.value type)) (r.after bs tail) := by
      rw [resume_key]
      exact bind_ok hread
    rw [kvUpdate_bind] at heq
    refine ⟨{ pt with key := s }, _, rfl, htail, ?_, ?_, heq⟩
    · rfl
    · rfl
  | string h htype hc => exact takes_string h htype hc hfuel hr
  | count h htype => exact takes_count h htype hfuel hr
  | first h => exact takes_first h hfuel hr
  | @score n d bs h =>
    have hread := (consumes_redisReadDoubleValue h).ok hr
    refine takes_put (Item.zAdd d pt.first) hfuel hr ?_
    change (secondPart formats 3 pt.key pt.first >>= fun _ => _) r = _
    rw [secondPart, if_neg (by decide), if_pos rfl, bind_assoc, bind_ok hread]
  | @field n s bs h =>
    have hread := (consumes_text h).ok hr
    refine takes_put (Item.hSet pt.first s) hfuel hr ?_
    change (secondPart formats 4 pt.key pt.first >>= fun _ => _) r = _
    rw [secondPart, if_neg (by decide), if_neg (by decide), bind_assoc, bind_ok hread]

/-! ### Where no token comes next -/

theorem Count.ne_nil (h : Count n bs) : bs ≠ [] := by
  rcases h with ⟨⟨⟩⟩ | - <;> simp

theorem Text.ne_nil {lzf : Lzf} {s : Bytes} (h : Text lzf s bs) : bs ≠ [] := by
  cases h with
  | raw hlen =>
    have := (Count.len hlen).ne_nil
    simp [this]
  | _ => simp

theorem DoubleBytes.ne_nil {libc : Libc} {d : Double} (h : DoubleBytes libc d bs) : bs ≠ [] := by
  cases h <;> simp

theorem ne_nil_of_append (hr : r.rest = bs ++ tail) (h : bs ≠ []) : r.rest ≠ [] := by
  rw [hr]
  exact List.append_ne_nil_of_left_ne_nil h tail

theorem refused_string (lzf : Lzf) (h : r.rest = []) : Refused (redisReadString lzf) r := by
  rcases redisReadString_cases lzf r with ⟨s, bs, tail, htext, hr⟩ | ⟨e, -, part, hr, -⟩ | hno | ⟨b, hb, -⟩
  · exact absurd h (ne_nil_of_append hr htext.ne_nil)
  · rw [h] at hr
    cases hr
  · exact hno
  · rw [h] at hb
    cases hb

theorem refused_count (h : r.rest = []) : Refused redisReadCount r := by
  rcases redisReadCount_cases r with ⟨n, bs, tail, hcount, hr⟩ | hno
  · exact absurd h (ne_nil_of_append hr hcount.ne_nil)
  · exact hno

theorem refused_double (libc : Libc) (h : r.rest = []) : Refused (redisReadDoubleValue libc) r := by
  rcases redisReadDoubleValue_cases libc r with ⟨d, bs, tail, hd, hr⟩ | hno | ⟨b, hb, -⟩
  · exact absurd h (ne_nil_of_append hr hd.ne_nil)
  · exact hno
  · rw [h] at hb
    cases hb

/-- What can come next: a value is of a type that is known. -/
def Want.Fine : Want → Prop
  | .value type => Known type
  | .member type _ => Counted type
  | .second type _ => type = 3 ∨ type = 4
  | _ => True

theorem Want.fine_members (h : Counted type) (n : ℕ) : (Want.members type n).Fine := by
  cases n with
  | zero => trivial
  | succ n => exact h

theorem Token.fine (hw : w.Fine) (h : Token formats Known w bs w') : w'.Fine := by
  cases h with
  | name _ htype => exact htype
  | count _ htype => exact Want.fine_members htype _
  | @first type n s bs _ =>
    unfold Want.afterFirst
    split
    next => exact Want.fine_members hw n
    next hone => exact (or_assoc.mpr hw).resolve_left hone
  | score _ => exact Want.fine_members (by decide) _
  | field _ => exact Want.fine_members (by decide) _
  | _ => trivial

theorem ends_type (timed : Bool) (hfuel : r.rest.length < pt.fuel) (h : r.rest = []) :
    Ends (resume formats clock pt (.type timed)) r := by
  have hread : Refused redisReadType r := (refused_byte h).bind
  cases timed with
  | true => exact hread.bind.ends
  | false =>
    obtain ⟨fuel, hf⟩ := Nat.exists_eq_succ_of_ne_zero (Nat.ne_of_gt (Nat.zero_lt_of_lt hfuel))
    change Ends (loadLoop formats clock pt.fuel >>= fun _ => finish pt) r
    rw [hf, loadLoop_succ, bind_assoc]
    exact hread.bind.ends

/-- A member is asked for, and the file is at its end. -/
theorem ends_second (htype : type = 3 ∨ type = 4) (h : r.rest = []) :
    Ends (resume formats clock pt (.second type n)) r := by
  change Ends (secondPart formats type pt.key pt.first >>= fun _ => _) r
  rcases htype with rfl | rfl
  · rw [secondPart, if_neg (by decide), if_pos rfl, bind_assoc]
    exact (refused_double _ h).bind.ends
  · rw [secondPart, if_neg (by decide), if_neg (by decide), bind_assoc]
    exact (refused_string _ h).bind.ends

/-- A database, or none. -/
theorem db_cases (clock : ℕ → UInt64) (pt : Point) (r : Reader) :
    (∃ n bs tail, Count n bs ∧ r.rest = bs ++ tail) ∨ Ends (resume formats clock pt .db) r := by
  rcases redisReadLen_cases r with ⟨n, bs, tail, h, hr⟩ | ⟨k, hk, tail, hr⟩ | ⟨r', hlen, -, -⟩
  · exact .inl ⟨n, bs, tail, .len h, hr⟩
  · exact .inl ⟨k, _, tail, .special hk, hr⟩
  · refine .inr ⟨.returned, { r' with currentDb := lenErr }, ?_⟩
    change (loadRound formats clock pt.fuel pt.expiretime 254 >>= fun _ => finish pt) r = _
    rw [loadRound, if_neg (by decide), if_pos rfl, bind_assoc]
    exact (bind_ok hlen).trans rfl

/-- **The end of the file**, anywhere in front of the checksum. -/
theorem ends_of_nil (hw : w.Fine) (hfuel : r.rest.length < pt.fuel) (h : r.rest = [])
    (hcksm : w ≠ .cksm) : Ends (resume formats clock pt w) r := by
  cases w with
  | type timed => exact ends_type timed hfuel h
  | time millis =>
    cases millis with
    | false => exact (refused_read (by rw [h]; decide)).bind.bind.ends
    | true => exact (refused_read (by rw [h]; decide)).bind.bind.ends
  | db =>
    refine (db_cases clock pt r).resolve_left ?_
    rintro ⟨n, bs, tail, hcount, hr⟩
    exact ne_nil_of_append hr hcount.ne_nil h
  | key type =>
    rw [resume_key]
    exact (refused_string _ h).bind.ends
  | value type =>
    change Ends (redisLoadObject formats type pt.key >>= fun _ => _) r
    rcases hw with hone | hcounted
    · rw [redisLoadObject_oneString hone, bind_assoc]
      exact (refused_string _ h).bind.ends
    · rw [redisLoadObject_counted hcounted, bind_assoc]
      exact (refused_count h).bind.ends
  | member type n =>
    change Ends (times (n + 1) (loadMember formats type pt.key) >>= fun _ => _) r
    rw [times, loadMember, bind_assoc, bind_assoc]
    exact (refused_string _ h).bind.ends
  | second type n => exact ends_second hw h
  | cksm => exact absurd rfl hcksm

/-- A string where one comes next: it is there, or the load ends. What comes behind a string is `k`,
and behind an integer that is not all there the file is at its end. -/
theorem string_cases {k : Bytes → Load Unit} (r : Reader)
    (hcut : ∀ r' : Reader, r'.rest = [] → Ends (k []) r') :
    (∃ s bs tail, Text formats.lzf s bs ∧ r.rest = bs ++ tail) ∨
      Ends (redisReadString formats.lzf >>= k) r := by
  rcases redisReadString_cases formats.lzf r with htext | hcutr | hno | hunknown
  · exact .inl htext
  · obtain ⟨cksm, hstring⟩ := redisReadString_intCut formats.lzf hcutr
    obtain ⟨e, r', hk⟩ := hcut ⟨[], cksm, r.currentDb, r.kv⟩ rfl
    exact .inr ⟨e, r', (bind_ok hstring).trans hk⟩
  · exact .inr hno.bind.ends
  · obtain ⟨r', habort⟩ := redisReadString_encoding formats.lzf hunknown
    exact .inr ⟨.abort, r', bind_error habort⟩

/-- A value of a type that nobody knows. -/
theorem ends_unknown (h : ¬Known type) : Ends (resume formats clock pt (.value type)) r := by
  refine ⟨.abort, r, ?_⟩
  change (redisLoadObject formats type pt.key >>= fun _ => _) r = _
  rw [redisLoadObject_unknown h]
  exact bind_error rfl

/-- Behind the name of a key. -/
theorem ends_value_of_nil (hfuel : 0 < pt.fuel) (h : r.rest = []) :
    Ends (resume formats clock pt (.value type)) r := by
  by_cases hknown : Known type
  · exact ends_of_nil hknown (by rwa [h]) h (by simp)
  · exact ends_unknown hknown

/-- A value in an empty string: nothing is left behind it. -/
theorem ends_unpacked (hone : OneString type) (hfuel : 0 < pt.fuel) (h : r.rest = []) (s : Bytes) :
    Ends (putUnpacked formats type pt.key s >>= fun _ => afterValue formats clock pt) r := by
  cases hc : unpack formats type s with
  | none =>
    obtain ⟨r', hwild⟩ := @putUnpacked_none formats pt.key r type s hone hc
    exact ⟨.wild, r', bind_error hwild⟩
  | some c =>
    have hput : putUnpacked formats type pt.key s r = .ok () (r.put pt.key c) :=
      putUnpacked_eq hone hc
    obtain ⟨hrest, -⟩ := Reader.members_rest clock pt 0 (r.put pt.key c)
    have hnil : ((r.put pt.key c).timed clock pt).rest = [] := hrest.trans h
    obtain ⟨e, r', hend⟩ : Ends (resume formats clock pt (.type false)) _ :=
      ends_type false (by rw [hnil]; exact hfuel) hnil
    exact ⟨e, r', (bind_ok hput).trans (afterValue_eq.trans hend)⟩

theorem Want.members_ne_cksm (type : UInt8) (n : ℕ) : Want.members type n ≠ .cksm := by
  cases n <;> simp [Want.members]

/-- A member that is put, and the file is at its end. -/
theorem ends_put (htype : Counted type) (hfuel : 0 < pt.fuel) (h : r.rest = []) (n : ℕ)
    (f : Option Item → Option Item) :
    Ends (kvUpdate pt.key f >>= fun _ => times n (loadMember formats type pt.key) >>= fun _ =>
      afterValue formats clock pt) r := by
  obtain ⟨hrest, -⟩ := Reader.members_rest clock pt n
    { r with kv := r.kv.update r.currentDb pt.key f }
  have hnil := hrest.trans h
  obtain ⟨e, r', hend⟩ : Ends (resume formats clock pt (.members type n)) _ :=
    ends_of_nil (Want.fine_members htype n) (by rw [hnil]; exact hfuel) hnil
      (Want.members_ne_cksm type n)
  exact ⟨e, r', kvUpdate_bind.trans ((resume_members n).trans hend)⟩

/-- A second part, and the file is at its end. -/
theorem ends_secondPart (htype : Counted type) (hfuel : 0 < pt.fuel) (h : r.rest = []) (n : ℕ)
    (s : Bytes) :
    Ends (secondPart formats type pt.key s >>= fun _ => times n (loadMember formats type pt.key) >>=
      fun _ => afterValue formats clock pt) r := by
  by_cases hone : type = 1 ∨ type = 2
  · rw [secondPart, if_pos hone]
    exact ends_put htype hfuel h n _
  · exact @ends_second formats clock { pt with first := s } r type n
      ((or_assoc.mpr htype).resolve_left hone) h

/-- A type comes next, if anything does. -/
theorem token_of_byte (timed : Bool) (b : UInt8) :
    ∃ w', Token formats Known (.type timed) [b] w' := by
  by_cases h254 : b = 254
  · subst h254
    exact ⟨_, .selectDb timed⟩
  by_cases h255 : b = 255
  · subst h255
    exact ⟨_, .eof timed⟩
  have hlt : b < 254 := by
    have h₁ : b.toNat ≠ 254 := fun heq => h254 (UInt8.toNat_inj.mp heq)
    have h₂ : b.toNat ≠ 255 := fun heq => h255 (UInt8.toNat_inj.mp heq)
    have h₃ := b.toNat_lt
    exact UInt8.lt_iff_toNat_lt.mpr (show b.toNat < 254 by omega)
  cases timed with
  | true => exact ⟨_, .key hlt (.inl rfl)⟩
  | false =>
    by_cases h252 : b = 252
    · subst h252
      exact ⟨_, .timed true⟩
    by_cases h253 : b = 253
    · subst h253
      exact ⟨_, .timed false⟩
    exact ⟨_, .key hlt (.inr ⟨h252, h253⟩)⟩

/-- A time comes next. -/
theorem time_cases (millis : Bool) :
    (∃ bs w' tail, Token formats Known (.time millis) bs w' ∧ r.rest = bs ++ tail) ∨
      Ends (resume formats clock pt (.time millis)) r := by
  cases millis with
  | false =>
    rcases read_cases 4 r with ⟨bs, tail, hlen, hr⟩ | hshort
    · by_cases h : (Int32.ofNat (ofLittleEndian bs)).toInt64 = -1
      · have hread := ((consumes_read hlen).map
          fun buf => (Int32.ofNat (ofLittleEndian buf)).toInt64).ok hr
        refine .inr ⟨.returned, r.after bs tail, (bind_ok hread).trans ?_⟩
        rw [if_pos h]
        rfl
      · exact .inl ⟨bs, _, tail, .seconds hlen h, hr⟩
    · exact .inr (refused_read hshort).bind.bind.ends
  | true =>
    rcases read_cases 8 r with ⟨bs, tail, hlen, hr⟩ | hshort
    · by_cases h : Int64.ofNat (ofLittleEndian bs) = -1
      · have hread := ((consumes_read hlen).map fun buf => Int64.ofNat (ofLittleEndian buf)).ok hr
        refine .inr ⟨.returned, r.after bs tail, (bind_ok hread).trans ?_⟩
        rw [if_pos h]
        rfl
      · exact .inl ⟨bs, _, tail, .millis hlen h, hr⟩
    · exact .inr (refused_read hshort).bind.bind.ends

/-- A value in a string comes next, or the number of members. -/
theorem value_cases {type : UInt8} (hpos : 0 < pt.fuel) (hw : Known type) :
    (∃ bs w' tail, Token formats Known (.value type) bs w' ∧ r.rest = bs ++ tail) ∨
      Ends (resume formats clock pt (.value type)) r := by
  have hvalue : resume formats clock pt (.value type) =
      (redisLoadObject formats type pt.key >>= fun _ => afterValue formats clock pt) := rfl
  rcases hw with hone | hcounted
  · rw [hvalue, redisLoadObject_oneString hone, bind_assoc]
    rcases @string_cases formats (fun s => putUnpacked formats type pt.key s >>= fun _ =>
        afterValue formats clock pt) r (fun r' hr' => ends_unpacked hone hpos hr' []) with
      ⟨s, bs, tail, htext, hr⟩ | hend
    · cases hc : unpack formats type s with
      | some c => exact .inl ⟨bs, _, tail, .string htext hone hc, hr⟩
      | none =>
        obtain ⟨r', hwild⟩ := @putUnpacked_none formats pt.key (r.after bs tail) type s hone hc
        exact .inr ⟨.wild, r', (bind_ok ((consumes_text htext).ok hr)).trans
          (bind_error hwild)⟩
    · exact .inr hend
  · rcases redisReadCount_cases r with ⟨n, bs, tail, hcount, hr⟩ | hno
    · exact .inl ⟨bs, _, tail, .count hcount hcounted, hr⟩
    · rw [hvalue, redisLoadObject_counted hcounted, bind_assoc]
      exact .inr hno.bind.ends

/-- The first part of a member comes next. -/
theorem member_cases {type : UInt8} {n : ℕ} (hpos : 0 < pt.fuel) (hw : Counted type) :
    (∃ bs w' tail, Token formats Known (.member type n) bs w' ∧ r.rest = bs ++ tail) ∨
      Ends (resume formats clock pt (.member type n)) r := by
  have hmember : resume formats clock pt (.member type n) =
      (redisReadString formats.lzf >>= fun s => secondPart formats type pt.key s >>= fun _ =>
        times n (loadMember formats type pt.key) >>= fun _ => afterValue formats clock pt) := by
    change (times (n + 1) (loadMember formats type pt.key) >>= fun _ => _) = _
    rw [times, loadMember, bind_assoc, bind_assoc]
  rw [hmember]
  rcases @string_cases formats (fun s => secondPart formats type pt.key s >>= fun _ =>
      times n (loadMember formats type pt.key) >>= fun _ => afterValue formats clock pt) r
      (fun r' hr' => ends_secondPart hw hpos hr' n []) with ⟨s, bs, tail, htext, hr⟩ | hend
  · exact .inl ⟨bs, _, tail, .first htext, hr⟩
  · exact .inr hend

/-- The score or the value of a member comes next. -/
theorem second_cases {type : UInt8} {n : ℕ} (hpos : 0 < pt.fuel) (hw : type = 3 ∨ type = 4) :
    (∃ bs w' tail, Token formats Known (.second type n) bs w' ∧ r.rest = bs ++ tail) ∨
      Ends (resume formats clock pt (.second type n)) r := by
  rcases hw with rfl | rfl
  · have hsecond : resume formats clock pt (.second 3 n) =
        (redisReadDoubleValue formats.libc >>= fun score =>
          kvUpdate pt.key (Item.zAdd score pt.first) >>= fun _ =>
            times n (loadMember formats 3 pt.key) >>= fun _ => afterValue formats clock pt) := by
      change (secondPart formats 3 pt.key pt.first >>= fun _ => _) = _
      rw [secondPart, if_neg (by decide), if_pos rfl, bind_assoc]
    rw [hsecond]
    rcases redisReadDoubleValue_cases formats.libc r with ⟨d, bs, tail, hd, hr⟩ | hno | hlong
    · exact .inl ⟨bs, _, tail, .score hd, hr⟩
    · exact .inr hno.bind.ends
    · obtain ⟨r', hwild⟩ := redisReadDoubleValue_long formats.libc hlong
      exact .inr ⟨.wild, r', bind_error hwild⟩
  · have hsecond : resume formats clock pt (.second 4 n) =
        (redisReadString formats.lzf >>= fun s => kvUpdate pt.key (Item.hSet pt.first s) >>= fun _ =>
          times n (loadMember formats 4 pt.key) >>= fun _ => afterValue formats clock pt) := by
      change (secondPart formats 4 pt.key pt.first >>= fun _ => _) = _
      rw [secondPart, if_neg (by decide), if_neg (by decide), bind_assoc]
    rw [hsecond]
    rcases @string_cases formats (fun s => kvUpdate pt.key (Item.hSet pt.first s) >>= fun _ =>
        times n (loadMember formats 4 pt.key) >>= fun _ => afterValue formats clock pt) r
        (fun r' hr' => ends_put (by decide) hpos hr' n _) with ⟨s, bs, tail, htext, hr⟩ | hend
    · exact .inl ⟨bs, _, tail, .field htext, hr⟩
    · exact .inr hend

/-- **Any bytes**: a token comes next, or the load ends. -/
theorem resume_cases (hw : w.Fine) (hfuel : r.rest.length < pt.fuel) :
    (∃ bs w' tail, Token formats Known w bs w' ∧ r.rest = bs ++ tail) ∨
      Ends (resume formats clock pt w) r ∨ w = .cksm := by
  have hpos : 0 < pt.fuel := Nat.zero_lt_of_lt hfuel
  cases w with
  | type timed =>
    rcases byte_cases r with ⟨b, tail, hr⟩ | hr
    · obtain ⟨w', htoken⟩ := @token_of_byte formats timed b
      exact .inl ⟨[b], w', tail, htoken, hr⟩
    · exact .inr (.inl (ends_type timed hfuel hr))
  | time millis => exact (time_cases millis).imp_right .inl
  | db =>
    rcases @db_cases formats clock pt r with ⟨n, bs, tail, h, hr⟩ | hend
    · exact .inl ⟨bs, _, tail, .db h, hr⟩
    · exact .inr (.inl hend)
  | key type =>
    rw [resume_key]
    rcases @string_cases formats (fun key => kvUpdate key (fun _ => none) >>= fun _ =>
        resume formats clock { pt with key := key } (.value type)) r
        (fun r' hr' => @ends_value_of_nil formats clock { pt with key := [] }
          { r' with kv := r'.kv.update r'.currentDb [] fun _ => none } type hpos hr') with
      ⟨s, bs, tail, htext, hr⟩ | hend
    · by_cases hknown : Known type
      · exact .inl ⟨bs, _, tail, .name htext hknown, hr⟩
      · obtain ⟨e, r', hunknown⟩ := @ends_unknown formats clock { pt with key := s }
          { r.after bs tail with kv := r.kv.update r.currentDb s fun _ => none } type hknown
        exact .inr (.inl ⟨e, r', (bind_ok ((consumes_text htext).ok hr)).trans hunknown⟩)
    · exact .inr (.inl hend)
  | value type => exact (value_cases hpos hw).imp_right .inl
  | member type n => exact (member_cases hpos hw).imp_right .inl
  | second type n => exact (second_cases hpos hw).imp_right .inl
  | cksm => exact .inr (.inr rfl)

/-! ### Whole files -/

theorem Token.ne_nil (h : Token formats Known w bs w') : bs ≠ [] := by
  cases h with
  | seconds hlen _ => exact List.ne_nil_of_length_pos (by omega)
  | millis hlen _ => exact List.ne_nil_of_length_pos (by omega)
  | db h => exact h.ne_nil
  | name h _ => exact h.ne_nil
  | string h _ _ => exact h.ne_nil
  | count h _ => exact h.ne_nil
  | first h => exact h.ne_nil
  | score h => exact h.ne_nil
  | field h => exact h.ne_nil
  | _ => simp

/-- A load that has come to `w` behind `p`. -/
def LoadsTo (formats : Formats) (clock : ℕ → UInt64) (store : Store) (ver : ℤ) (p : Bytes) (w : Want)
    (tail : Bytes) : Prop :=
  ∃ pt r, pt.ver = ver ∧ tail.length < pt.fuel ∧ r.rest = tail ∧ r.cksm = crc64 0 p ∧
    redisLoad formats clock ⟨p ++ tail, 0, 0, store⟩ = resume formats clock pt w r

variable {store : Store} {ver : ℤ} {p q : Bytes}

theorem loadsTo_header (h : Header ver bs) (tail : Bytes) :
    LoadsTo formats clock store ver bs (.type false) tail := by
  have hheader := consumes_redisReadHeader h ⟨bs ++ tail, 0, 0, store⟩ tail rfl
  refine ⟨⟨ver, tail.length + 1, -1, [], []⟩, ⟨tail, crc64 0 bs, 0, store⟩, rfl, Nat.lt_succ_self _,
    rfl, rfl, ?_⟩
  exact bind_ok (f := modify fun r : Reader => { r with currentDb := 0 }) rfl |>.trans
    ((bind_ok hheader).trans rfl)

theorem LoadsTo.token (h : LoadsTo formats clock store ver p w (bs ++ tail))
    (htoken : Token formats Known w bs w') :
    LoadsTo formats clock store ver (p ++ bs) w' tail := by
  obtain ⟨pt, r, hver, hfuel, hrest, hcksm, heq⟩ := h
  rw [← hrest] at hfuel
  obtain ⟨pt', r', hver', hfuel', hrest', hcksm', heq'⟩ :=
    @resume_token formats clock pt r w w' bs tail hfuel htoken hrest
  refine ⟨pt', r', hver'.trans hver, hfuel', hrest', ?_, ?_⟩
  · rw [hcksm', hcksm, crc64_append]
  · rw [List.append_assoc, heq, heq']

/-- Behind a path of tokens. -/
theorem loadsTo_of_path (h : Path formats Known ver p w) (tail : Bytes) :
    LoadsTo formats clock store ver p w tail := by
  induction h generalizing tail with
  | header h => exact loadsTo_header h tail
  | token _ htoken ih => exact (ih _).token htoken

theorem Path.fine (h : Path formats Known ver p w) : w.Fine := by
  induction h with
  | header _ => trivial
  | token _ htoken ih => exact htoken.fine ih

/-- A path goes on until the checksum, or the load ends. -/
theorem path_cases {p : Bytes} {w : Want} (h : Path formats Known ver p w) (tail : Bytes) :
    (∃ p' tail', Path formats Known ver p' .cksm ∧ p ++ tail = p' ++ tail') ∨
      Ends (redisLoad formats clock) ⟨p ++ tail, 0, 0, store⟩ := by
  induction hlen : tail.length using Nat.strong_induction_on generalizing p w tail with
  | _ len ih =>
    obtain ⟨pt, r, -, hfuel, hrest, -, heq⟩ := @loadsTo_of_path formats clock w store ver p h tail
    rw [← hrest] at hfuel
    rcases @resume_cases formats clock pt r w h.fine hfuel with
      ⟨bs, w', tail', htoken, hr⟩ | ⟨e, r', hend⟩ | rfl
    · have htail : tail = bs ++ tail' := hrest.symm.trans hr
      have hshort : tail'.length < len := by
        have hpos := List.length_pos_iff.mpr htoken.ne_nil
        rw [← hlen, htail, List.length_append]
        omega
      rw [htail, ← List.append_assoc]
      exact ih _ hshort (h.token htoken) tail' rfl
    · exact .inr ⟨e, r', heq.trans hend⟩
    · exact .inl ⟨p, tail, h, rfl⟩

/-- A header, or none. -/
theorem header_cases (r : Reader) :
    (∃ ver bs tail, Header ver bs ∧ r.rest = bs ++ tail) ∨ Ends redisReadHeader r := by
  rcases read_cases 9 r with ⟨bs, tail, hlen, hr⟩ | hshort
  · have hread := (consumes_read hlen).ok hr
    by_cases hmagic : bs.take 5 = [82, 69, 68, 73, 83]
    · by_cases hver : (strtol (bs.drop 5 ++ [0])).1 < 1 ∨ 6 < (strtol (bs.drop 5 ++ [0])).1
      · refine .inr ⟨.returned, r.after bs tail, (bind_ok hread).trans ?_⟩
        rw [if_neg (not_not.mpr hmagic), if_pos hver]
        rfl
      · exact .inl ⟨_, bs, tail, ⟨hlen, hmagic, rfl, by omega, by omega⟩, hr⟩
    · refine .inr ⟨.returned, r.after bs tail, (bind_ok hread).trans ?_⟩
      rw [if_pos hmagic]
      rfl
  · exact .inr (refused_read hshort).bind.ends

/-- What is behind the last token: eight bytes that are 0 or the checksum of `p`, from version 5 on.
-/
def Checked (ver : ℤ) (p tail : Bytes) : Prop :=
  5 ≤ ver → 8 ≤ tail.length ∧
    (UInt64.ofNat (ofLittleEndian (tail.take 8)) = 0 ∨
      UInt64.ofNat (ofLittleEndian (tail.take 8)) = crc64 0 p)

/-- What is left behind the checksum. -/
def behindCksm (ver : ℤ) (tail : Bytes) : Bytes := if 5 ≤ ver then tail.drop 8 else tail

/-- The checksum is read, and is right. -/
theorem finish_ok_iff (hrest : r.rest = tail) (hcksm : r.cksm = crc64 0 p) (rest : Bytes) :
    (∃ r', finish pt r = .ok () r' ∧ r'.rest = rest) ↔
      Checked pt.ver p tail ∧ rest = behindCksm pt.ver tail := by
  subst hrest
  unfold finish Checked behindCksm
  by_cases hver : 5 ≤ pt.ver
  swap
  · rw [if_neg hver, if_neg hver]
    constructor
    · rintro ⟨r', hr', rfl⟩
      obtain ⟨⟩ := hr'
      exact ⟨fun h => absurd h hver, rfl⟩
    · rintro ⟨-, rfl⟩
      exact ⟨r, rfl, rfl⟩
  rw [if_pos hver, if_pos hver]
  rcases read_cases 8 r with ⟨bs, tail, hlen, hr⟩ | hshort
  · have hget : (get : Load Reader) r = .ok r r := rfl
    have hread := (consumes_read hlen).ok hr
    have htake : r.rest.take 8 = bs := by rw [hr, ← hlen, List.take_left]
    have hdrop : r.rest.drop 8 = tail := by rw [hr, ← hlen, List.drop_left]
    have hle : 8 ≤ r.rest.length := by
      rw [hr, List.length_append]
      omega
    have heq : redisReadCksm r = _ := (bind_ok hget).trans (bind_ok hread)
    rw [heq, htake, hdrop, ← hcksm]
    by_cases hwrong : UInt64.ofNat (ofLittleEndian bs) ≠ 0 ∧ UInt64.ofNat (ofLittleEndian bs) ≠ r.cksm
    · rw [if_pos hwrong]
      refine iff_of_false ?_ ?_
      · rintro ⟨r', hr', -⟩
        cases hr'
      · rintro ⟨hok, -⟩
        rcases (hok hver).2 with h | h
        · exact hwrong.1 h
        · exact hwrong.2 h
    · rw [if_neg hwrong]
      constructor
      · rintro ⟨r', hr', rfl⟩
        obtain ⟨⟩ := hr'
        exact ⟨fun _ => ⟨hle, by tauto⟩, rfl⟩
      · rintro ⟨-, rfl⟩
        exact ⟨_, rfl, rfl⟩
  · refine iff_of_false ?_ (fun h => absurd (h.1 hver).1 (Nat.not_le.mpr hshort))
    rintro ⟨r', hr', -⟩
    have hget : (get : Load Reader) r = .ok r r := rfl
    obtain ⟨r₁, hno, -⟩ := refused_read hshort
    have heq : redisReadCksm r = .error .returned r₁ := (bind_ok hget).trans (bind_error hno)
    rw [heq] at hr'
    cases hr'

/-- **The files that are loaded.** A load returns 0 exactly for a path of tokens from the header to
the end, and behind it, from version 5 on, a checksum that is 0 or right. -/
theorem redisLoad_ok_iff (clock : ℕ → UInt64) (store : Store) (bs rest : Bytes) :
    (∃ r', redisLoad formats clock ⟨bs, 0, 0, store⟩ = .ok () r' ∧ r'.rest = rest) ↔
      ∃ ver p tail, Path formats Known ver p .cksm ∧ bs = p ++ tail ∧ Checked ver p tail ∧
        rest = behindCksm ver tail := by
  have hpath {ver : ℤ} {p tail : Bytes} (h : Path formats Known ver p .cksm) :
      (∃ r', redisLoad formats clock ⟨p ++ tail, 0, 0, store⟩ = .ok () r' ∧ r'.rest = rest) ↔
        Checked ver p tail ∧ rest = behindCksm ver tail := by
    obtain ⟨pt, r, rfl, -, hrest, hcksm, heq⟩ :=
      @loadsTo_of_path formats clock .cksm store ver p h tail
    rw [heq]
    exact finish_ok_iff hrest hcksm rest
  constructor
  · rintro ⟨r', hok, hrest⟩
    have hno : ¬Ends (redisLoad formats clock) ⟨bs, 0, 0, store⟩ := by
      rintro ⟨e, r₁, hend⟩
      rw [hok] at hend
      cases hend
    rcases header_cases ⟨bs, 0, 0, store⟩ with ⟨ver, hd, tail, hheader, hbs⟩ | hend
    · change bs = hd ++ tail at hbs
      subst hbs
      rcases @path_cases formats clock store ver hd (.type false) (.header hheader) tail with
        ⟨p, tail', h, heq⟩ | hend
      · rw [heq] at hok ⊢
        obtain ⟨hchecked, hbehind⟩ := (hpath h).mp ⟨r', hok, hrest⟩
        exact ⟨ver, p, tail', h, rfl, hchecked, hbehind⟩
      · exact absurd hend hno
    · exact absurd hend.bind hno
  · rintro ⟨ver, p, tail, h, rfl, hchecked⟩
    exact (hpath h).mpr hchecked

/-! ### One way to read -/

/-- Two programs' bytes at the front of the same file. -/
theorem Consumes.unique {α : Type} {f : Load α} {a a' : α} {bs bs' tail tail' : Bytes}
    (h : Consumes f bs a keeps) (h' : Consumes f bs' a' keeps) (heq : bs ++ tail = bs' ++ tail') :
    a = a' ∧ bs = bs' := by
  have hf := h ⟨bs ++ tail, 0, 0, fun _ _ => none⟩ tail rfl
  rw [h' ⟨bs ++ tail, 0, 0, fun _ _ => none⟩ tail' heq] at hf
  obtain ⟨rfl, hr⟩ := EStateM.Result.ok.inj hf
  have htail : tail' = tail := congrArg Reader.rest hr
  rw [htail] at heq
  exact ⟨rfl, List.append_cancel_right heq⟩

/-- What a type says. -/
def typeWant (timed : Bool) (b : UInt8) : Want :=
  if b = 254 then .db
  else if b = 255 then .cksm
  else if timed = false ∧ b = 252 then .time true
  else if timed = false ∧ b = 253 then .time false
  else .key b

theorem Token.of_type {timed : Bool} (h : Token formats Known (.type timed) bs w') :
    ∃ b, bs = [b] ∧ w' = typeWant timed b := by
  cases h with
  | timed millis => cases millis <;> exact ⟨_, rfl, rfl⟩
  | selectDb _ => exact ⟨_, rfl, rfl⟩
  | eof _ => exact ⟨_, rfl, rfl⟩
  | @key timed type hlt htimed =>
    refine ⟨type, rfl, ?_⟩
    have hne {k : UInt8} (hk : 254 ≤ k) : type ≠ k := fun heq => by
      rw [heq] at hlt
      exact absurd (UInt8.le_iff_toNat_le.mp hk) (Nat.not_le.mpr (UInt8.lt_iff_toNat_lt.mp hlt))
    unfold typeWant
    rw [if_neg (hne (by decide)), if_neg (hne (by decide)), if_neg, if_neg]
    · rintro ⟨rfl, rfl⟩
      simp at htimed
    · rintro ⟨rfl, rfl⟩
      simp at htimed

theorem not_oneString_counted (h : OneString type) (h' : Counted type) : False := by
  rcases h with rfl | rfl | rfl | rfl | rfl | rfl <;> exact absurd h' (by decide)

/-- **Tokens.** What comes next is one token, or none. -/
theorem Token.unique {w₁ w₂ : Want} {bs₁ bs₂ tail₁ tail₂ : Bytes}
    (h₁ : Token formats Known w bs₁ w₁) (h₂ : Token formats Known w bs₂ w₂)
    (heq : bs₁ ++ tail₁ = bs₂ ++ tail₂) : bs₁ = bs₂ ∧ w₁ = w₂ := by
  cases w with
  | type timed =>
    obtain ⟨b, rfl, rfl⟩ := h₁.of_type
    obtain ⟨b', rfl, rfl⟩ := h₂.of_type
    obtain ⟨rfl, -⟩ := List.cons.inj heq
    exact ⟨rfl, rfl⟩
  | time millis =>
    cases h₁ with
    | seconds hlen _ =>
      cases h₂ with
      | seconds hlen' _ => exact ⟨(List.append_inj heq (hlen.trans hlen'.symm)).1, rfl⟩
    | millis hlen _ =>
      cases h₂ with
      | millis hlen' _ => exact ⟨(List.append_inj heq (hlen.trans hlen'.symm)).1, rfl⟩
  | db =>
    cases h₁ with
    | db h => cases h₂ with
      | db h' =>
        exact ⟨((consumes_redisReadCount' h).unique (consumes_redisReadCount' h') heq).2, rfl⟩
  | key type =>
    cases h₁ with
    | name h _ => cases h₂ with
      | name h' _ => exact ⟨((consumes_text h).unique (consumes_text h') heq).2, rfl⟩
  | value type =>
    cases h₁ with
    | string h hone _ =>
      cases h₂ with
      | string h' _ _ => exact ⟨((consumes_text h).unique (consumes_text h') heq).2, rfl⟩
      | count _ hcounted => exact (not_oneString_counted hone hcounted).elim
    | count h hcounted =>
      cases h₂ with
      | string _ hone _ => exact (not_oneString_counted hone hcounted).elim
      | count h' _ =>
        obtain ⟨hn, hbs⟩ := (consumes_redisReadCount' h).unique (consumes_redisReadCount' h') heq
        have hn' := congrArg UInt32.toNat hn
        rw [h.toNat, h'.toNat] at hn'
        exact ⟨hbs, by rw [hn']⟩
  | member type n =>
    cases h₁ with
    | first h => cases h₂ with
      | first h' => exact ⟨((consumes_text h).unique (consumes_text h') heq).2, rfl⟩
  | second type n =>
    cases h₁ with
    | score h => cases h₂ with
      | score h' =>
        exact ⟨((consumes_redisReadDoubleValue h).unique (consumes_redisReadDoubleValue h') heq).2, rfl⟩
    | field h => cases h₂ with
      | field h' => exact ⟨((consumes_text h).unique (consumes_text h') heq).2, rfl⟩
  | cksm => cases h₁

/-- Tokens in a row, from `w`. -/
inductive Tokens (formats : Formats) : Want → Bytes → Want → Prop
  | nil (w : Want) : Tokens formats w [] w
  | cons {w w' w'' : Want} {bs cs : Bytes} (h : Token formats Known w bs w')
      (hs : Tokens formats w' cs w'') : Tokens formats w (bs ++ cs) w''

theorem Tokens.concat {w₀ : Want} {cs : Bytes} (hs : Tokens formats w₀ cs w)
    (h : Token formats Known w bs w') : Tokens formats w₀ (cs ++ bs) w' := by
  induction hs with
  | nil w =>
    have := Tokens.cons h (.nil _)
    rwa [List.append_nil] at this
  | cons h₀ _ ih =>
    rw [List.append_assoc]
    exact .cons h₀ (ih h)

theorem Path.tokens (h : Path formats Known ver p w) :
    ∃ hd cs, Header ver hd ∧ Tokens formats (.type false) cs w ∧ p = hd ++ cs := by
  induction h with
  | header h => exact ⟨_, [], h, .nil _, (List.append_nil _).symm⟩
  | token _ htoken ih =>
    obtain ⟨hd, cs, hheader, htokens, rfl⟩ := ih
    exact ⟨hd, _, hheader, htokens.concat htoken, List.append_assoc ..⟩

theorem Tokens.unique {bs₁ bs₂ tail₁ tail₂ : Bytes} (h₁ : Tokens formats w bs₁ .cksm)
    (h₂ : Tokens formats w bs₂ .cksm) (heq : bs₁ ++ tail₁ = bs₂ ++ tail₂) : bs₁ = bs₂ := by
  generalize hend : Want.cksm = e at h₁
  induction h₁ generalizing bs₂ with
  | nil w =>
    subst hend
    cases h₂ with
    | nil => rfl
    | cons h _ => cases h
  | @cons w w' w'' bs cs h hs ih =>
    subst hend
    cases h₂ with
    | nil => cases h
    | @cons _ w₂ _ bs' cs' h' hs' =>
      rw [List.append_assoc, List.append_assoc] at heq
      obtain ⟨rfl, rfl⟩ := h.unique h' heq
      rw [ih hs' (List.append_cancel_left heq) rfl]

/-- **Files.** There is one way to read a file. -/
theorem Path.unique {ver₁ ver₂ : ℤ} {p₁ p₂ tail₁ tail₂ : Bytes}
    (h₁ : Path formats Known ver₁ p₁ .cksm) (h₂ : Path formats Known ver₂ p₂ .cksm)
    (heq : p₁ ++ tail₁ = p₂ ++ tail₂) : ver₁ = ver₂ ∧ p₁ = p₂ := by
  obtain ⟨hd₁, cs₁, hheader₁, htokens₁, rfl⟩ := h₁.tokens
  obtain ⟨hd₂, cs₂, hheader₂, htokens₂, rfl⟩ := h₂.tokens
  rw [List.append_assoc, List.append_assoc] at heq
  obtain ⟨rfl, hrest⟩ := List.append_inj heq (hheader₁.1.trans hheader₂.1.symm)
  rw [htokens₁.unique htokens₂ hrest]
  exact ⟨hheader₁.2.2.1.symm.trans hheader₂.2.2.1, rfl⟩

/-! ### Files that are cut -/

/-- Of a file that is read to its end, no first part is loaded. -/
theorem redisLoad_cut {r' : Reader} (hok : redisLoad formats clock ⟨bs, 0, 0, store⟩ = .ok () r')
    (hend : r'.rest = []) (hq : q <+: bs) (hne : q ≠ bs) (kv : Store) :
    loadFile formats clock q store ≠ .ok kv := by
  intro hload
  obtain ⟨ver, p, tail, hpath, rfl, -, hbehind⟩ :=
    (redisLoad_ok_iff clock store bs []).mp ⟨r', hok, hend⟩
  obtain ⟨r₁, hok₁⟩ : ∃ r₁, redisLoad formats clock ⟨q, 0, 0, store⟩ = .ok () r₁ := by
    unfold loadFile at hload
    split at hload
    next r₁ heq => exact ⟨r₁, heq⟩
    next => cases hload
  obtain ⟨ver₁, p₁, tail₁, hpath₁, rfl, hchecked, -⟩ :=
    (redisLoad_ok_iff clock store q r₁.rest).mp ⟨r₁, hok₁, rfl⟩
  obtain ⟨behind, hbs⟩ := hq
  rw [List.append_assoc] at hbs
  obtain ⟨rfl, rfl⟩ := hpath₁.unique hpath hbs
  have htail : tail₁ ++ behind = tail := List.append_cancel_left hbs
  subst htail
  refine hne ?_
  have hnil : behind = [] := by
    unfold behindCksm at hbehind
    split at hbehind
    next hver =>
      -- the checksum is in the part, so nothing is behind it
      have hle := (hchecked hver).1
      have hlen := congrArg List.length hbehind
      rw [List.length_drop, List.length_append, List.length_nil] at hlen
      exact List.length_eq_zero_iff.mp (by omega)
    next => exact (List.append_eq_nil_iff.mp hbehind.symm).2
  rw [hnil, List.append_nil]

/-- A file with a checksum is read to its end. -/
theorem redisLoad_file (file : RdbFile formats) (clock : ℕ → UInt64) (store : Store)
    (hok : ¬file.Refused) (hver : 5 ≤ file.ver) :
    ∃ r', redisLoad formats clock ⟨file.bytes, 0, 0, store⟩ = .ok () r' ∧ r'.rest = [] := by
  obtain ⟨fuel, hfuel⟩ := exists_fuel file
  obtain ⟨db, hloop⟩ := @loadLoop_recs formats clock (255 :: file.footer)
    ⟨file.recs.flatMap Prod.snd ++ 255 :: file.footer, crc64 0 file.header, 0, store⟩ file.recs
    (fuel + 1) file.hrecs (fun p hp hbad => hok ⟨p, hp, hbad⟩) rfl
  obtain ⟨hlen, hcksm⟩ := file.hfooter hver
  rw [redisLoad_eq, hfuel, bind_ok (hloop.trans (loadLoop_eof fuel rfl)), if_pos hver]
  refine ⟨_, redisReadCksm_eq hlen (List.append_nil _).symm
    (hcksm.imp_right fun heq => heq.trans ?_), rfl⟩
  rw [crc64_append, crc64_append]
  rfl

/-- **A snapshot that has lost some bytes at its end** is not loaded, wherever it is cut: in a
string, in a number, between two keys, or in the checksum. -/
theorem loadFile_truncated (file : RdbFile formats) (clock : ℕ → UInt64) (store : Store)
    (hok : ¬file.Refused) (hver : 5 ≤ file.ver) (hq : q <+: file.bytes) (hne : q ≠ file.bytes)
    (kv : Store) : loadFile formats clock q store ≠ .ok kv := by
  obtain ⟨r', hload, hend⟩ := redisLoad_file file clock store hok hver
  exact redisLoad_cut hload hend hq hne kv

/-- The key `k` with the number 5, in database 0, in the first version that has a checksum. -/
def numberFile : RdbFile plainFormats where
  ver := 5
  header := [82, 69, 68, 73, 83, 48, 48, 48, 53]
  recs := [(.key .none [107] (.string [53]), [0, 1, 107, 0xC0, 5])]
  footer := [0, 0, 0, 0, 0, 0, 0, 0]
  hheader := ⟨rfl, rfl, by decide +kernel, by decide, by decide⟩
  hrecs := List.forall_mem_singleton.mpr
    (@RecBytes.key plainFormats .none 0 [107] [1, 107] [0xC0, 5] [] _ .none
      (@StringBytes.raw _ [107] [1] (.six (by decide))) (.string (.int8 5)))
  hfooter _ := ⟨rfl, .inl rfl⟩

/-- Cut in front of the 5: the reader takes the number for an empty string, and goes on. -/
theorem loadFile_truncated_number :
    loadFile plainFormats (fun _ => 0) (numberFile.bytes.take 13) .empty ≠ .ok .empty := by
  refine loadFile_truncated numberFile _ _ ?_ (by decide) (List.take_prefix _ _) (by decide) _
  rintro ⟨p, hp, hbad⟩
  obtain rfl := List.mem_singleton.mp hp
  exact absurd hbad (by decide)

end Rdb
end Comms
