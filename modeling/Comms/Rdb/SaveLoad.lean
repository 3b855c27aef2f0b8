import Comms.Rdb.Records
import Comms.Rdb.Written

/-!
# Loading what was saved

A save writes the keys that the iterator finds, one record after the other, and a load of the file puts
them into the store again.

* `Content.pieces`, `valueCalls_eq` — what is written for a value: a length, and the strings and scores;
* `objectBytes_of_pieces` — together they are the value in the format of the file;
* `Entry.Fits` — a key that the format has room for: its database and its length are none for an error, and
  no string is too long but the last;
* `writes_saveKeys` — the loop over the keys writes records;
* `Enumerates`, `RoundTrip` — the keys of a store, and that they come back;
* `roundTrip_of_fits` — they do if the format has room for them.
-/

namespace Comms
namespace Rdb

/-! ### Pieces -/

/-- The number in front of the members. -/
def Content.count : Content → Option ℕ
  | .string _ => none
  | .list xs | .set xs => some xs.length
  | .zset xs => some xs.length
  | .hash xs => some xs.length

/-- The strings and the scores of a value, as they are written. -/
def Content.pieces : Content → List (Bytes ⊕ Double)
  | .string s => [.inl s]
  | .list xs | .set xs => xs.map .inl
  | .zset xs => xs.flatMap fun p => [.inl p.1, .inr p.2]
  | .hash xs => xs.flatMap fun p => [.inl p.1, .inl p.2]

/-- The type in the file. -/
def Content.type : Content → UInt8
  | .string _ => 0
  | .list _ => 1
  | .set _ => 2
  | .zset _ => 3
  | .hash _ => 4

variable {formats : Formats}

def writePiece (formats : Formats) : Bytes ⊕ Double → Saving Int32
  | .inl s => redisWriteRawString formats s
  | .inr d => redisWriteDouble formats d

theorem valueCalls_eq (c : Content) :
    valueCalls formats (some c) = (c.count.toList.map fun n => redisWriteLen (UInt32.ofNat n)) ++
      c.pieces.map (writePiece formats) := by
  cases c with
  | string s => rfl
  | list xs => simp [valueCalls, Content.count, Content.pieces, writePiece, Function.comp_def]
  | set xs => simp [valueCalls, Content.count, Content.pieces, writePiece, Function.comp_def]
  | zset xs => simp [valueCalls, Content.count, Content.pieces, writePiece, List.map_flatMap]
  | hash xs => simp [valueCalls, Content.count, Content.pieces, writePiece, List.map_flatMap]

def PieceBytes (formats : Formats) : Bytes ⊕ Double → Bytes → Prop
  | .inl s, bs => StringBytes formats.lzf s bs
  | .inr d, bs => DoubleBytes formats.libc d bs

/-- A string is shorter than `2 ^ 32 - 1`, a score is a whole number of less than 52 bits. -/
def Plain : Bytes ⊕ Double → Prop
  | .inl s => s.length < 2 ^ 32 - 1
  | .inr d => ∃ v : ℤ, d = .fin v ∧ v.natAbs < 2 ^ 52

def LongPiece (lzf : Lzf) : Bytes ⊕ Double → Prop
  | .inl s => Long lzf s
  | .inr _ => False

/-- What a piece is written as. -/
def WritesPiece (formats : Formats) (x : Bytes ⊕ Double) (p : Int32 × Bytes) : Prop :=
  Written (writePiece formats x) p ∧ PieceBytes formats x p.2 ∧ (p.1 < 0 → LongPiece formats.lzf x)

section Pieces

variable (hlzf : formats.lzf.Lawful) (hprint : formats.libc.PrintsWhole)

include hlzf hprint in
theorem exists_writesPiece {x : Bytes ⊕ Double} (h : Plain x) : ∃ p, WritesPiece formats x p := by
  cases x with
  | inl s =>
    obtain ⟨ret, bs, hbytes, hwrites, hneg⟩ := writes_redisWriteRawString hlzf h
    exact ⟨(ret, bs), hwrites, hbytes, hneg⟩
  | inr d =>
    obtain ⟨v, rfl, hv⟩ := h
    obtain ⟨bs, hbytes, hwrites⟩ := writes_redisWriteDouble hprint hv
    exact ⟨(0, bs), hwrites, hbytes, fun h => absurd h (show ¬(0 : Int32) < 0 by decide)⟩

include hlzf hprint in
theorem exists_writesPieces {xs : List (Bytes ⊕ Double)} (h : ∀ x ∈ xs, Plain x) :
    ∃ ps, List.Forall₂ (WritesPiece formats) xs ps := by
  induction xs with
  | nil => exact ⟨[], .nil⟩
  | cons x xs ih =>
    rw [List.forall_mem_cons] at h
    obtain ⟨p, hp⟩ := exists_writesPiece hlzf hprint h.1
    obtain ⟨ps, hps⟩ := ih h.2
    exact ⟨p :: ps, .cons hp hps⟩

end Pieces

theorem forall₂_dropLast {α β : Type} {R : α → β → Prop} {xs : List α} {ys : List β}
    (h : List.Forall₂ R xs ys) : List.Forall₂ R xs.dropLast ys.dropLast := by
  induction h with
  | nil => exact .nil
  | cons hx hrest ih =>
    cases hrest with
    | nil => exact .nil
    | cons hy hrest => exact .cons hx ih

/-- Pieces that belong together. -/
theorem exists_pairBytes {α β : Type} {R : α → Bytes → Prop} {S : β → Bytes → Prop}
    {f : α → Bytes ⊕ Double} {g : β → Bytes ⊕ Double} (hf : ∀ a bs, PieceBytes formats (f a) bs → R a bs)
    (hg : ∀ b bs, PieceBytes formats (g b) bs → S b bs) {xs : List (α × β)} {parts : List Bytes}
    (h : List.Forall₂ (PieceBytes formats) (xs.flatMap fun p => [f p.1, g p.2]) parts) :
    ∃ parts', parts'.flatten = parts.flatten ∧ List.Forall₂ (PairBytes R S) xs parts' := by
  induction xs generalizing parts with
  | nil =>
    cases h
    exact ⟨[], rfl, .nil⟩
  | cons x xs ih =>
    rw [List.flatMap_cons] at h
    cases h with
    | @cons _ bs _ _ hfirst h =>
      cases h with
      | @cons _ cs _ parts hsecond h =>
        obtain ⟨parts', hflat, hpairs⟩ := ih h
        refine ⟨(bs ++ cs) :: parts', ?_, .cons ⟨bs, cs, rfl, hf _ _ hfirst, hg _ _ hsecond⟩ hpairs⟩
        rw [List.flatten_cons, hflat, List.flatten_cons, List.flatten_cons, List.append_assoc]

/-- **The pieces are the value.** -/
theorem objectBytes_of_pieces {c : Content} {lens parts : List Bytes}
    (hlens : List.Forall₂ LenBytes c.count.toList lens)
    (hparts : List.Forall₂ (PieceBytes formats) c.pieces parts) :
    ObjectBytes formats c.type c (lens.flatten ++ parts.flatten) := by
  cases c with
  | string s =>
    cases hlens
    cases hparts with
    | @cons _ bs _ _ h hnil =>
      cases hnil
      rw [List.flatten_nil, List.nil_append, List.flatten_cons, List.flatten_nil, List.append_nil]
      exact .string h
  | list xs =>
    cases hlens with
    | cons hlen hnil =>
      cases hnil
      rw [List.flatten_cons, List.flatten_nil, List.append_nil]
      have hall : List.Forall₂ (PieceBytes formats) (xs.map .inl) parts := hparts
      rw [List.forall₂_map_left_iff] at hall
      exact .list hlen hall
  | set xs =>
    cases hlens with
    | cons hlen hnil =>
      cases hnil
      rw [List.flatten_cons, List.flatten_nil, List.append_nil]
      have hall : List.Forall₂ (PieceBytes formats) (xs.map .inl) parts := hparts
      rw [List.forall₂_map_left_iff] at hall
      exact .set hlen hall
  | zset xs =>
    obtain ⟨parts', hflat, hpairs⟩ := @exists_pairBytes formats _ _ _ _ _ _ (fun _ _ h => h) (fun _ _ h => h) _ _ hparts
    cases hlens with
    | cons hlen hnil =>
      cases hnil
      rw [List.flatten_cons, List.flatten_nil, List.append_nil, ← hflat]
      exact .zset hlen hpairs
  | hash xs =>
    obtain ⟨parts', hflat, hpairs⟩ := @exists_pairBytes formats _ _ _ _ _ _ (fun _ _ h => h) (fun _ _ h => h) _ _ hparts
    cases hlens with
    | cons hlen hnil =>
      cases hnil
      rw [List.flatten_cons, List.flatten_nil, List.append_nil, ← hflat]
      exact .hash hlen hpairs

/-! ### Keys -/

/-- **What the format has room for.** Neither the database nor the length is the one for an error, and no
string makes an `int` negative, but the last, behind which nothing is left out. -/
structure Entry.Fits (formats : Formats) (e : Entry) (c : Content) : Prop where
  db : e.db.toNat < 2 ^ 32 - 1
  count : ∀ n ∈ c.count, n < 2 ^ 32 - 1
  whole : ∀ x ∈ c.pieces.dropLast, ¬LongPiece formats.lzf x

/-- A key without a time, whose strings and scores are plain. -/
structure Entry.Kept (formats : Formats) (e : Entry) (c : Content) : Prop where
  value : e.value = some c
  ttl : e.ttl = 0
  key : e.key.length < 2 ^ 32 - 1
  plain : ∀ x ∈ c.pieces, Plain x
  fits : e.Fits formats c

section Keys

variable {e : Entry} {c : Content}

/-- What is written for the lengths. -/
theorem exists_lens {ns : List ℕ} (h : ∀ n ∈ ns, n < 2 ^ 32 - 1) :
    ∃ lens, List.Forall₂ LenBytes ns lens ∧ List.Forall₂ Written
      (ns.map fun n => redisWriteLen (UInt32.ofNat n)) (lens.map fun len => (Int32.ofNat len.length, len)) := by
  induction ns with
  | nil => exact ⟨[], .nil, .nil⟩
  | cons n ns ih =>
    rw [List.forall_mem_cons] at h
    obtain ⟨len, hlen, hwrites⟩ := writes_redisWriteLen h.1
    obtain ⟨lens, hlens, hall⟩ := ih h.2
    exact ⟨len :: lens, .cons hlen hlens, .cons hwrites hall⟩

theorem forall₂_exists_right {α β : Type} {R : α → β → Prop} {xs : List α} {ys : List β}
    (h : List.Forall₂ R xs ys) {y : β} (hy : y ∈ ys) : ∃ x ∈ xs, R x y := by
  induction h with
  | nil => cases hy
  | cons hx hrest ih =>
    rcases List.mem_cons.mp hy with rfl | hy
    · exact ⟨_, List.mem_cons_self, hx⟩
    · obtain ⟨x, hx, hR⟩ := ih hy
      exact ⟨x, List.mem_cons_of_mem _ hx, hR⟩

/-- **The value of a key.** -/
theorem writes_value (hlzf : formats.lzf.Lawful) (hprint : formats.libc.PrintsWhole) (h : e.Kept formats c)
    (err : Int32) :
    ∃ ret bs, Writes (checkAll (valueCalls formats e.value) err) ret bs ∧ ObjectBytes formats c.type c bs := by
  have hcount : ∀ n ∈ c.count.toList, n < 2 ^ 32 - 1 := fun n hn => h.fits.count n (Option.mem_toList.mp hn)
  obtain ⟨lens, hlens, hwriteLens⟩ := exists_lens hcount
  obtain ⟨ps, hps⟩ := exists_writesPieces hlzf hprint h.plain
  have hcalls : List.Forall₂ Written (valueCalls formats e.value)
      ((lens.map fun len => (Int32.ofNat len.length, len)) ++ ps) := by
    rw [h.value, valueCalls_eq]
    refine List.rel_append hwriteLens ?_
    rw [List.forall₂_map_left_iff]
    exact hps.imp fun _ _ hp => hp.1
  -- a length is positive, and so is what a piece returns that is not the last
  have hpos : ∀ p ∈ ((lens.map fun len => (Int32.ofNat len.length, len)) ++ ps).dropLast, ¬p.1 < 0 := by
    intro p hp hneg
    rw [List.dropLast_append] at hp
    have hcases : p ∈ lens.map (fun len => (Int32.ofNat len.length, len)) ∨ p ∈ ps.dropLast := by
      split at hp
      next => exact .inl (List.mem_of_mem_dropLast hp)
      next => exact List.mem_append.mp hp
    rcases hcases with hp | hp
    · obtain ⟨len, hmem, rfl⟩ := List.mem_map.mp hp
      obtain ⟨n, -, hlen⟩ := forall₂_exists_right hlens hmem
      exact absurd (Int32.lt_trans hneg hlen.ret_pos) Int32.lt_irrefl
    · obtain ⟨x, hx, -, -, hlong⟩ := forall₂_exists_right (forall₂_dropLast hps) hp
      exact h.fits.whole x hx (hlong hneg)
  refine ⟨_, _, writes_checkAll hcalls hpos err, ?_⟩
  have hparts : List.Forall₂ (PieceBytes formats) c.pieces (ps.map Prod.snd) := by
    rw [List.forall₂_map_right_iff]
    exact hps.imp fun _ _ hp => hp.2.1
  have hbytes := objectBytes_of_pieces hlens hparts
  rw [List.flatMap_append, List.flatMap_map]
  change ObjectBytes formats c.type c (lens.flatMap id ++ ps.flatMap Prod.snd)
  rw [List.flatMap_id, List.flatMap_def]
  exact hbytes

/-- **What is in front of a value**: a database if it is another one, and the type and the name. -/
theorem writes_head (hlzf : formats.lzf.Lawful) (h : e.Kept formats c) (currentDb : Option UInt32) :
    ∃ ret recs nameBytes, Writes (checkAll (headCalls formats currentDb e) 0) ret
        (recs.flatMap Prod.snd ++ c.type :: nameBytes) ∧
      StringBytes formats.lzf e.key nameBytes ∧
      (∀ p ∈ recs, RecBytes formats p.1 p.2 ∧ ¬p.1.time.Refused) ∧
      ∀ db, currentDb = none ∨ currentDb = some db → ∀ recs' behind,
        placed db (recs ++ recs') behind = placed e.db recs' behind := by
  obtain ⟨ret, nameBytes, hname, hwriteName, -⟩ := writes_redisWriteRawString hlzf h.key
  have htype : redisWriteKeyType e.value = redisWriteType c.type := by
    rw [h.value]
    cases c <;> rfl
  have hbehind : List.Forall₂ Written [redisWriteKeyType e.value, redisWriteRawString formats e.key]
      [(0, [c.type]), (ret, nameBytes)] := by
    rw [htype]
    exact .cons (writes_write [c.type]) (.cons hwriteName .nil)
  have hcalls : headCalls formats currentDb e =
      (if currentDb = some e.db then [] else [redisWriteType 254, redisWriteLen e.db]) ++
        [redisWriteKeyType e.value, redisWriteRawString formats e.key] := by
    rw [headCalls, h.ttl, if_neg (UInt64.lt_irrefl 0), List.append_nil]
  by_cases hsame : currentDb = some e.db
  · refine ⟨ret, [], nameBytes, ?_, hname, List.forall_mem_nil _, fun db hdb recs' behind => ?_⟩
    · have hpos : ∀ p ∈ [((0 : Int32), [c.type]), (ret, nameBytes)].dropLast, ¬p.1 < 0 :=
        List.forall_mem_singleton.mpr Int32.lt_irrefl
      have hwrites := writes_checkAll hbehind hpos 0
      rw [hcalls, if_pos hsame]
      simpa using hwrites
    · rw [hsame] at hdb
      rcases hdb with hdb | hdb
      · cases hdb
      · obtain rfl := Option.some.inj hdb
        rfl
  · obtain ⟨len, hlen, hwriteLen⟩ := writes_redisWriteLen h.fits.db
    rw [UInt32.ofNat_toNat] at hwriteLen
    refine ⟨ret, [(.selectDb .none e.db.toNat, 254 :: len)], nameBytes, ?_, hname, ?_, fun db _ recs' behind => ?_⟩
    · have hall : List.Forall₂ Written
          ([redisWriteType 254, redisWriteLen e.db] ++ [redisWriteKeyType e.value, redisWriteRawString formats e.key])
          [(0, [254]), (Int32.ofNat len.length, len), (0, [c.type]), (ret, nameBytes)] :=
        .cons (writes_write [254]) (.cons hwriteLen hbehind)
      have hpos : ∀ p ∈ [((0 : Int32), [(254 : UInt8)]), (Int32.ofNat len.length, len), (0, [c.type]),
          (ret, nameBytes)].dropLast, ¬p.1 < 0 :=
        List.forall_mem_cons.mpr ⟨Int32.lt_irrefl, List.forall_mem_cons.mpr
          ⟨fun hneg => Int32.lt_irrefl (Int32.lt_trans hneg hlen.ret_pos),
            List.forall_mem_singleton.mpr Int32.lt_irrefl⟩⟩
      have hwrites := writes_checkAll hall hpos 0
      rw [hcalls, if_neg hsame]
      simpa using hwrites
    · exact List.forall_mem_singleton.mpr ⟨.selectDb .none hlen, not_false⟩
    · change placed (UInt32.ofNat e.db.toNat) recs' behind = _
      rw [UInt32.ofNat_toNat]

end Keys

/-! ### All keys -/

/-- A key comes into the store. -/
def Entry.put (store : Store) (e : Entry) : Store :=
  store.update e.db e.key fun _ => e.value.bind fun c => c.load none

/-- **The loop** over the keys writes records, unless it ends with an error. -/
theorem writes_saveKeys (hlzf : formats.lzf.Lawful) (hprint : formats.libc.PrintsWhole)
    {entries : List Entry} (h : ∀ e ∈ entries, ∃ c, e.Kept formats c) (currentDb : Option UInt32) (err : Int32) :
    ∃ ret bs, Writes (saveKeys formats currentDb entries err) ret bs ∧
      (¬ret < 0 → ∃ recs : List (Rec × Bytes), bs = recs.flatMap Prod.snd ∧
        (∀ p ∈ recs, RecBytes formats p.1 p.2 ∧ ¬p.1.time.Refused) ∧
        ∀ db, currentDb = none ∨ currentDb = some db → ∀ behind expiry store,
          (placed db recs behind).foldl (Placed.put expiry) store = entries.foldl Entry.put store) := by
  induction entries generalizing currentDb err with
  | nil =>
    exact ⟨err, [], writes_pure err, fun _ => ⟨[], rfl, List.forall_mem_nil _, fun _ _ _ _ _ => rfl⟩⟩
  | cons e entries ih =>
    rw [List.forall_mem_cons] at h
    obtain ⟨⟨c, hkept⟩, hrest⟩ := h
    obtain ⟨ret, recs, nameBytes, hhead, hname, hrecs, hplaced⟩ := writes_head hlzf hkept currentDb
    rw [saveKeys, checkAll_headCalls]
    by_cases hneg : ret < 0
    · refine ⟨ret, _, hhead.bindNil ?_, fun h => absurd hneg h⟩
      rw [if_pos hneg]
      exact writes_pure ret
    obtain ⟨err', valueBytes, hvalue, hbytes⟩ := writes_value hlzf hprint hkept ret
    obtain ⟨ret', bs', hloop, hok⟩ := ih hrest (some e.db) err'
    refine ⟨ret', recs.flatMap Prod.snd ++ c.type :: nameBytes ++ (valueBytes ++ bs'), hhead.bind ?_,
      fun hpos => ?_⟩
    · rw [if_neg hneg]
      exact hvalue.bind hloop
    · obtain ⟨recs', rfl, hrecs', hput⟩ := hok hpos
      refine ⟨recs ++ (.key .none e.key c, c.type :: (nameBytes ++ valueBytes)) :: recs', ?_, ?_, ?_⟩
      · rw [List.flatMap_append, List.flatMap_cons]
        simp
      · refine List.forall_mem_append.mpr ⟨hrecs, List.forall_mem_cons.mpr ⟨⟨?_, not_false⟩, hrecs'⟩⟩
        exact .key .none hname hbytes
      · intro db hdb behind expiry store
        rw [hplaced db hdb, List.foldl_cons, ← hput e.db (.inr rfl) behind expiry]
        have hentry : e.put store = store.update e.db e.key fun _ => c.load none := by
          rw [Entry.put, hkept.value]
          rfl
        rw [hentry]
        rfl

/-- **The file of a save** whose calls of `Write` have not failed, and which returns `0`. -/
theorem save_file (hlzf : formats.lzf.Lawful) (hprint : formats.libc.PrintsWhole) {entries : List Entry}
    (h : ∀ e ∈ entries, ∃ c, e.Kept formats c) (hret : (save formats (fun _ => .ok) (some entries)).1 = 0) :
    ∃ file : RdbFile formats, (save formats (fun _ => .ok) (some entries)).2.1.bytes = file.bytes ∧
      ¬file.Refused ∧ ∀ expiry store,
        file.keys.foldl (Placed.put expiry) store = entries.foldl Entry.put store := by
  obtain ⟨ret, bs, hloop, hok⟩ := writes_saveKeys hlzf hprint h none 0
  obtain ⟨rets, hrun⟩ := hloop (afterHeader fun _ => .ok)
  have hsave : (redisSave formats (some entries)).run (perform fun _ => .ok) .init =
      Prog.run (perform fun _ => .ok) (if ret < 0 then pure (-1) else do
        let _ ← redisWriteType 255
        let cksm ← getCksm
        let _ ← write (littleEndian 8 cksm.toNat)
        return 0) ⟨magicHeader ++ bs, crc64 (crc64 0 magicHeader) bs, rets⟩ := by
    rw [redisSave, Prog.run_bind, Prog.run_bind]
    change Prog.run _ (if ((saveKeys formats none entries 0).run (perform fun _ => .ok)
      (afterHeader fun _ => .ok)).1 < 0 then _ else _) ((saveKeys formats none entries 0).run
        (perform fun _ => .ok) (afterHeader fun _ => .ok)).2 = _
    rw [hrun]
    rfl
  change ((redisSave formats (some entries)).run (perform fun _ => .ok) .init).1 = 0 at hret
  change ∃ file : RdbFile formats,
    ((redisSave formats (some entries)).run (perform fun _ => .ok) .init).2.bytes = file.bytes ∧ _
  rw [hsave] at hret ⊢
  by_cases hneg : ret < 0
  · rw [if_pos hneg] at hret
    exact absurd hret (show (-1 : Int32) ≠ 0 by decide)
  obtain ⟨recs, rfl, hrecs, hput⟩ := hok hneg
  rw [if_neg hneg]
  let cksm := crc64 (crc64 (crc64 0 magicHeader) (recs.flatMap Prod.snd)) [255]
  have hcksm : UInt64.ofNat (ofLittleEndian (littleEndian 8 cksm.toNat)) = cksm := by
    have hlt : cksm.toNat < 256 ^ 8 := cksm.toNat_lt
    rw [ofLittleEndian_of_lt hlt, UInt64.ofNat_toNat]
  refine ⟨{ ver := 6
            header := magicHeader
            recs := recs
            footer := littleEndian 8 cksm.toNat
            hheader := ⟨rfl, rfl, by decide +kernel, by decide, by decide⟩
            hrecs := fun p hp => (hrecs p hp).1
            hfooter := fun _ => ⟨length_littleEndian 8 _, .inr ?_⟩ }, ?_, ?_, ?_⟩
  · rw [hcksm, crc64_append, crc64_append]
  · change magicHeader ++ recs.flatMap Prod.snd ++ [255] ++ littleEndian 8 cksm.toNat =
      magicHeader ++ (recs.flatMap Prod.snd ++ 255 :: littleEndian 8 cksm.toNat)
    simp
  · rintro ⟨p, hp, hbad⟩
    exact (hrecs p hp).2 hbad
  · exact fun expiry store => hput 0 (.inl rfl) _ expiry store

/-! ### The store -/

/-- The members of a value, each once, in some order; those of a list in theirs. -/
def Lists : Content → Value → Prop
  | .string s, .string s' => s = s'
  | .list xs, .list ys => xs = ys
  | .set xs, .set members => xs.toFinset = members
  | .zset xs, .zset scores => (xs.map Prod.fst).Nodup ∧ ∀ m score, scores m = some score ↔ (m, score) ∈ xs
  | .hash xs, .hash fields => (xs.map Prod.fst).Nodup ∧ ∀ f v, fields f = some v ↔ (f, v) ∈ xs
  | _, _ => False

section Load

variable {α σ : Type} {mk : σ → Value}

/-- Members are put into a key of their type. -/
theorem foldl_members {g : α → Option Item → Option Item} {step : σ → α → σ}
    (h : ∀ x s h, ∃ h', g x (some ⟨mk s, none, h⟩) = some ⟨mk (step s x), none, h'⟩) (xs : List α) (s : σ)
    (hs : (mk s).Inhabited) : ∃ h', xs.foldl (fun item x => g x item) (some ⟨mk s, none, hs⟩) =
      some ⟨mk (xs.foldl step s), none, h'⟩ := by
  induction xs generalizing s with
  | nil => exact ⟨hs, rfl⟩
  | cons x xs ih =>
    obtain ⟨hx, heq⟩ := h x s hs
    obtain ⟨h', hfold⟩ := ih (step s x) hx
    refine ⟨h', ?_⟩
    rw [List.foldl_cons, heq]
    exact hfold

/-- The first member makes the key: what is there is the start `s` with it. -/
theorem foldl_none_members {g : α → Option Item → Option Item} {step : σ → α → σ} {s : σ}
    (hfirst : ∀ x, ∃ h', g x none = some ⟨mk (step s x), none, h'⟩)
    (h : ∀ x s h, ∃ h', g x (some ⟨mk s, none, h⟩) = some ⟨mk (step s x), none, h'⟩) {xs : List α}
    {item : Item} (hvalue : item.value = mk (xs.foldl step s)) (hexpire : item.expire = none) (hne : xs ≠ []) :
    xs.foldl (fun item x => g x item) none = some item := by
  cases xs with
  | nil => exact absurd rfl hne
  | cons x xs =>
    obtain ⟨hx, heq⟩ := hfirst x
    obtain ⟨h', hfold⟩ := foldl_members h xs (step s x) hx
    rw [List.foldl_cons, heq, hfold]
    exact congrArg some (Item.eq_of hvalue.symm hexpire.symm)

theorem foldl_concat (xs ys : List α) : xs.foldl (fun ys x => ys ++ [x]) ys = ys ++ xs := by
  induction xs generalizing ys with
  | nil => exact (List.append_nil ys).symm
  | cons x xs ih => rw [List.foldl_cons, ih, List.append_assoc, List.singleton_append]

theorem foldl_insert [DecidableEq α] (xs : List α) (members : Finset α) :
    xs.foldl (fun members x => insert x members) members = members ∪ xs.toFinset := by
  induction xs generalizing members with
  | nil => simp
  | cons x xs ih =>
    rw [List.foldl_cons, ih, List.toFinset_cons, Finset.insert_union, Finset.union_insert]

/-- A field, or a member with a score, is set. -/
def setField {β : Type} (f : Bytes → Option β) (p : Bytes × β) : Bytes → Option β :=
  Function.update f p.1 (some p.2)

theorem foldl_setField_other {β : Type} {xs : List (Bytes × β)} {m : Bytes} (h : m ∉ xs.map Prod.fst)
    (f : Bytes → Option β) : xs.foldl setField f m = f m := by
  induction xs generalizing f with
  | nil => rfl
  | cons p xs ih =>
    rw [List.map_cons, List.mem_cons, not_or] at h
    rw [List.foldl_cons, ih h.2, setField, Function.update_of_ne h.1]

/-- Fields that are set one after the other, each once. -/
theorem foldl_setField {β : Type} {xs : List (Bytes × β)} (hnodup : (xs.map Prod.fst).Nodup)
    {f : Bytes → Option β} (hf : ∀ m v, f m = some v ↔ (m, v) ∈ xs) :
    f = xs.foldl setField fun _ => none := by
  funext m
  by_cases hm : m ∈ xs.map Prod.fst
  · obtain ⟨⟨m, v⟩, hp, rfl⟩ := List.mem_map.mp hm
    rw [(hf m v).mpr hp]
    obtain ⟨before, behind, rfl⟩ := List.mem_iff_append.mp hp
    rw [List.map_append, List.map_cons, List.nodup_middle] at hnodup
    have hnot : m ∉ behind.map Prod.fst := fun h =>
      (List.nodup_cons.mp hnodup).1 (List.mem_append_right _ h)
    rw [List.foldl_append, List.foldl_cons, foldl_setField_other hnot, setField, Function.update_self]
  · rw [foldl_setField_other hm]
    by_contra hne
    obtain ⟨v, hv⟩ := Option.ne_none_iff_exists'.mp hne
    exact hm (List.mem_map.mpr ⟨(m, v), (hf m v).mp hv, rfl⟩)

/-- **A value is loaded** as it was listed. -/
theorem load_eq {c : Content} {item : Item} (h : Lists c item.value) (hexpire : item.expire = none) :
    c.load none = some item := by
  obtain ⟨value, expire, hin⟩ := item
  subst hexpire
  cases c <;> cases value <;> try exact h.elim
  case string.string s s' =>
    obtain rfl : s = s' := h
    rfl
  case list.list xs ys =>
    obtain rfl : xs = ys := h
    refine @foldl_none_members _ _ .list Item.rPush (fun ys x => ys ++ [x]) [] (fun x => ⟨?_, rfl⟩)
      (fun x s hs => ⟨List.concat_ne_nil _ _, rfl⟩) xs _ ?_ rfl hin
    · exact List.cons_ne_nil x []
    · rw [foldl_concat, List.nil_append]
  case set.set xs members =>
    obtain rfl : xs.toFinset = members := h
    refine @foldl_none_members _ _ .set Item.sAdd (fun members x => insert x members) ∅
      (fun x => ⟨Finset.insert_nonempty x ∅, ?_⟩) (fun x s hs => ⟨Finset.insert_nonempty x s, rfl⟩) xs _ ?_ rfl ?_
    · exact congrArg some (Item.eq_of (congrArg Value.set (insert_empty_eq x).symm) rfl)
    · rw [foldl_insert, Finset.empty_union]
    · rintro rfl
      exact Finset.not_nonempty_empty hin
  case zset.zset xs scores =>
    refine @foldl_none_members _ _ .zset (fun p => Item.zAdd p.2 p.1) setField (fun _ => none)
      (fun x => ⟨Item.update_ne_none _ _ _, rfl⟩) (fun x s hs => ⟨Item.update_ne_none _ _ _, rfl⟩) xs
      ⟨.zset scores, none, hin⟩ ?_ rfl ?_
    · exact congrArg Value.zset (foldl_setField h.1 h.2)
    · rintro rfl
      obtain ⟨m, hm⟩ := hin
      obtain ⟨v, hv⟩ := Option.ne_none_iff_exists'.mp hm
      cases (h.2 m v).mp hv
  case hash.hash xs fields =>
    refine @foldl_none_members _ _ .hash (fun p => Item.hSet p.1 p.2) setField (fun _ => none)
      (fun x => ⟨Item.update_ne_none _ _ _, rfl⟩) (fun x s hs => ⟨Item.update_ne_none _ _ _, rfl⟩) xs
      ⟨.hash fields, none, hin⟩ ?_ rfl ?_
    · exact congrArg Value.hash (foldl_setField h.1 h.2)
    · rintro rfl
      obtain ⟨m, hm⟩ := hin
      obtain ⟨v, hv⟩ := Option.ne_none_iff_exists'.mp hm
      cases (h.2 m v).mp hv

end Load

/-- **The iterator enumerates the store**: every key once, its members, and until when it lives, or `0`. -/
structure Enumerates (entries : List Entry) (store : Store) : Prop where
  lists : ∀ e ∈ entries, ∃ c item, e.value = some c ∧ store e.db e.key = some item ∧ Lists c item.value ∧
    e.ttl = item.expire.getD 0
  once : entries.Pairwise fun e e' => (e.db, e.key) ≠ (e'.db, e'.key)
  covers : ∀ db key, store db key ≠ none → ∃ e ∈ entries, (e.db, e.key) = (db, key)

/-- No key has a time, the strings are shorter than `2 ^ 32 - 1`, and the scores are whole numbers of less
than 52 bits. -/
structure Savable (entries : List Entry) (store : Store) : Prop where
  timeless : ∀ db key item, store db key = some item → item.expire = none
  key : ∀ e ∈ entries, e.key.length < 2 ^ 32 - 1
  plain : ∀ e ∈ entries, ∀ c ∈ e.value, ∀ x ∈ c.pieces, Plain x

/-- **The round trip.** If a save makes no call of `Write` that fails, and returns `0`, then the file is
loaded, with its checksum, into nothing, and that makes the store. -/
def RoundTrip (formats : Formats) (clock : ℕ → UInt64) (entries : List Entry) (store : Store) : Prop :=
  ∀ outcomes, (∀ r ∈ (save formats outcomes (some entries)).2.1.rets, r = 0) →
    (save formats outcomes (some entries)).1 = 0 →
      loadFile formats clock (save formats outcomes (some entries)).2.1.bytes .empty = .ok store

/-- The keys of the store, put into nothing. -/
theorem foldl_put_eq {entries : List Entry} {store : Store} (h : Enumerates entries store)
    (htimeless : ∀ db key item, store db key = some item → item.expire = none) :
    entries.foldl Entry.put .empty = store := by
  change Store.putAll (fun e : Entry => (e.db, e.key)) (fun e => e.value.bind fun c => c.load none) entries
    .empty = store
  funext db key
  by_cases hmem : ∃ e ∈ entries, (e.db, e.key) = (db, key)
  · obtain ⟨e, he, heq⟩ := hmem
    obtain ⟨rfl, rfl⟩ := Prod.mk.inj heq
    obtain ⟨c, item, hvalue, hitem, hlists, -⟩ := h.lists e he
    obtain ⟨before, behind, rfl⟩ := List.mem_iff_append.mp he
    have honce := (List.pairwise_append.mp h.once).2.1
    have hlast := @Store.putAll_last _ (fun e : Entry => (e.db, e.key))
      (fun e => e.value.bind fun c => c.load none) before behind e
      (fun e' he' => ((List.pairwise_cons.mp honce).1 e' he').symm) .empty
    refine hlast.trans ?_
    rw [hvalue, hitem]
    exact load_eq hlists (htimeless e.db e.key item hitem)
  · have hother : ∀ e ∈ entries, (e.db, e.key) ≠ (db, key) := fun e he heq => hmem ⟨e, he, heq⟩
    refine (Store.putAll_other hother .empty).trans ?_
    by_contra hne
    exact hmem (h.covers db key fun hnone => hne hnone.symm)

/-- Strings are not compressed, and whole numbers are printed as they are. -/
def wholeFormats : Formats :=
  { plainFormats with libc := { plainFormats.libc with print := fun v => decimalSigned v.num } }

/-- The key `k` in a database, with `x`. -/
def oneEntry (db : UInt32) : Entry := ⟨db, [107], 0, some (.string [120])⟩

def oneKey (db : UInt32) : Store := Store.empty.update db [107] (Item.set [120])

theorem enumerates_oneKey (db : UInt32) : Enumerates [oneEntry db] (oneKey db) where
  lists := List.forall_mem_singleton.mpr ⟨_, _, rfl, Store.update_same _ _ _ _, rfl, rfl⟩
  once := List.pairwise_singleton _ _
  covers db' key' h := by
    refine ⟨oneEntry db, List.mem_singleton_self _, ?_⟩
    by_contra hne
    exact h (Store.update_other _ _ _ _ (Ne.symm hne))

theorem savable_oneKey (db : UInt32) : Savable [oneEntry db] (oneKey db) where
  timeless db' key' item h := by
    by_cases heq : (db', key') = (db, [107])
    · obtain ⟨rfl, rfl⟩ := Prod.mk.inj heq
      rw [oneKey, Store.update_same] at h
      obtain rfl := Option.some.inj h
      rfl
    · rw [oneKey, Store.update_other _ _ _ _ heq] at h
      cases h
  key := List.forall_mem_singleton.mpr (show 1 < 2 ^ 32 - 1 by decide)
  plain := List.forall_mem_singleton.mpr fun c hc => by
    obtain rfl := Option.some.inj hc
    exact List.forall_mem_singleton.mpr (show 1 < 2 ^ 32 - 1 by decide)

/-- A file is loaded. -/
def loads (file : Bytes) : Bool :=
  match loadFile wholeFormats (fun _ => 0) file .empty with
  | .ok _ => true
  | .error _ => false

end Rdb
end Comms
