import Comms.Codec.ReplyRoundTrip

/-!
# Reply trees

A handler fills a `RedisReply` with the `fill_*` helpers, nests replies with `AddMember` and
`ReserveMember`, and the tree goes to a client through `RedisReplyEncoder::Encode` or to a script
through `redisProtocolToLuaType`. Both switch on the type, which is kept in eight bits: the type of a
double does not fit, and neither switch knows what is left of it.

* `ReplyNode` — `RedisReply` as it is kept, `ReplyTree` — the trees a handler builds of it;
* `ReplyNode.encode`, `ReplyTree.resp` — what is written and what should be;
* `ReplyNode.toLua`, `ReplyTree.lua` — the values pushed for a script and those meant;
* `reply_arrives_iff` — the trees that arrive.
-/

namespace Comms

/-! ### Replies as they are kept -/

/-! The `REDIS_REPLY_*` types. -/

def typeString : ℕ := 1
def typeArray : ℕ := 2
def typeInteger : ℕ := 3
def typeNil : ℕ := 4
def typeStatus : ℕ := 5
def typeError : ℕ := 6
def typeDouble : ℕ := 1001

/-- `RedisReply` without its pool. `type` is a bit-field of eight bits. `elements` that are `NULL`
are empty here. -/
structure ReplyNode (Num : Type) where
  type : UInt8
  str : Bytes
  integer : Int64
  double : Num
  elements : List (ReplyNode Num)

namespace ReplyNode

variable {Num : Type}

/-- `RedisReply()`, and what `Clear` leaves. -/
def fresh [Zero Num] : ReplyNode Num := ⟨0, [], 0, 0, []⟩

/-- `reply.type = type`. -/
def setType (r : ReplyNode Num) (type : ℕ) : ReplyNode Num := { r with type := UInt8.ofNat type }

/-- `fill_error_reply`; `text` is the format filled in. `buf` takes 1018 bytes of it. -/
def fillError (r : ReplyNode Num) (text : Bytes) : ReplyNode Num :=
  { r.setType typeError with str := [69, 82, 82, 32] ++ (cStr text).take 1018 }

/-- `fill_fix_error_reply`. -/
def fillFixError (r : ReplyNode Num) (err : Bytes) : ReplyNode Num :=
  { r.setType typeError with str := err }

/-- `fill_status_reply`, of a C string. -/
def fillStatus (r : ReplyNode Num) (s : Bytes) : ReplyNode Num :=
  { r.setType typeStatus with str := cStr s }

/-- `fill_ok_reply`. -/
def fillOk (r : ReplyNode Num) : ReplyNode Num :=
  { r.setType typeStatus with integer := RedisReply.statusOk }

/-- `fill_pong_reply`. -/
def fillPong (r : ReplyNode Num) : ReplyNode Num :=
  { r.setType typeStatus with integer := RedisReply.statusPong }

/-- `fill_int_reply`. -/
def fillInt (r : ReplyNode Num) (v : Int64) : ReplyNode Num :=
  { r.setType typeInteger with integer := v }

/-- `fill_double_reply`. -/
def fillDouble (r : ReplyNode Num) (v : Num) : ReplyNode Num :=
  { r.setType typeDouble with double := v }

/-- `fill_str_reply`. -/
def fillStr (r : ReplyNode Num) (v : Bytes) : ReplyNode Num :=
  { r.setType typeString with str := v }

/-- `AddMember`, and the member it returns filled as `member`. -/
def addMember (r : ReplyNode Num) (member : ReplyNode Num) : ReplyNode Num :=
  { r.setType typeArray with elements := r.elements ++ [member] }

/-- `ReserveMember`, and the members it adds filled as `members`. -/
def reserveMember (r : ReplyNode Num) (members : List (ReplyNode Num)) : ReplyNode Num :=
  { r.setType typeArray with elements := r.elements ++ members }

/-! ### The encoder -/

mutual

/-- `RedisReplyEncoder::Encode`: what it appends to the buffer, and whether it returns `true`. -/
def encode (fastDtoa : Num → Bytes) : ReplyNode Num → Bytes × Bool
  | ⟨type, str, integer, double, elements⟩ =>
    if type.toNat = typeNil then ([36, 45, 49] ++ kCRLF, true)
    else if type.toNat = typeString then
      if str.length = 0 then ([36, 48] ++ kCRLF ++ kCRLF, true)
      else (36 :: (decimalInt str.length ++ kCRLF) ++ str ++ kCRLF, true)
    else if type.toNat = typeError then (45 :: (cStr str ++ kCRLF), true)
    else if type.toNat = typeInteger then
      (58 :: (decimalSigned integer.toInt ++ kCRLF), true)
    else if type.toNat = typeDouble then
      (36 :: (decimalInt (fastDtoa double).length ++ kCRLF) ++ (cStr (fastDtoa double) ++ kCRLF),
        true)
    else if type.toNat = typeArray then
      let (bytes, ok) := encodeAll fastDtoa elements
      (42 :: (decimalInt elements.length ++ kCRLF) ++ bytes, ok)
    else if type.toNat = typeStatus then
      if integer = RedisReply.statusOk then ([43, 79, 75] ++ kCRLF, true)
      else if integer = RedisReply.statusPong then ([43, 80, 79, 78, 71] ++ kCRLF, true)
      else (43 :: (cStr str ++ kCRLF), true)
    -- `Recv unexpected redis reply type`
    else ([], false)

/-- The members of an array, up to one that is refused. -/
def encodeAll (fastDtoa : Num → Bytes) : List (ReplyNode Num) → Bytes × Bool
  | [] => ([], true)
  | r :: rs =>
    let (bytes, ok) := encode fastDtoa r
    if ok then
      let (rest, ok) := encodeAll fastDtoa rs
      (bytes ++ rest, ok)
    else (bytes, false)

end

end ReplyNode

/-! ### Trees -/

/-- How a handler fills a node that is no array. -/
inductive ReplyLeaf (Num : Type)
  | nil
  | error (text : Bytes)
  | fixError (err : Bytes)
  | status (s : Bytes)
  | ok
  | pong
  | int (v : Int64)
  | double (v : Num)
  | str (v : Bytes)

/-- The trees a handler builds; every node is filled. -/
inductive ReplyTree (Num : Type)
  | leaf (l : ReplyLeaf Num)
  | array (members : List (ReplyTree Num))

/-- What holds of the leaves, and of an array when it holds of its members, holds of all trees. -/
theorem ReplyTree.induction {Num : Type} {P : ReplyTree Num → Prop} (leaf : ∀ l, P (.leaf l))
    (array : ∀ members, (∀ m ∈ members, P m) → P (.array members)) : ∀ t, P t
  | .leaf l => leaf l
  | .array members => array members fun m _ => ReplyTree.induction leaf array m

section Trees

variable {Num : Type} [Zero Num]

/-- The helper applied to a new node. -/
def ReplyLeaf.build : ReplyLeaf Num → ReplyNode Num
  | nil => ReplyNode.fresh.setType typeNil
  | error text => ReplyNode.fresh.fillError text
  | fixError err => ReplyNode.fresh.fillFixError err
  | status s => ReplyNode.fresh.fillStatus s
  | ok => ReplyNode.fresh.fillOk
  | pong => ReplyNode.fresh.fillPong
  | int v => ReplyNode.fresh.fillInt v
  | double v => ReplyNode.fresh.fillDouble v
  | str v => ReplyNode.fresh.fillStr v

/-- The node of a tree. -/
def ReplyTree.build : ReplyTree Num → ReplyNode Num
  | leaf l => l.build
  | array members => ReplyNode.fresh.reserveMember (members.map ReplyTree.build)

omit [Zero Num] in
/-- Members that are added one by one are members that were reserved. -/
theorem ReplyNode.foldl_addMember (r : ReplyNode Num) (members : List (ReplyNode Num)) :
    members.foldl ReplyNode.addMember (r.reserveMember []) = r.reserveMember members := by
  have hgen : ∀ (members done : List (ReplyNode Num)),
      members.foldl ReplyNode.addMember (r.reserveMember done) = r.reserveMember (done ++ members) := by
    intro members
    induction members with
    | nil => intro done; rw [List.append_nil]; rfl
    | cons m members ih =>
      intro done
      rw [List.foldl_cons, show (r.reserveMember done).addMember m = r.reserveMember (done ++ [m]) by
        unfold ReplyNode.addMember ReplyNode.reserveMember ReplyNode.setType; simp, ih, List.append_assoc]
      rfl
  exact hgen members []

/-! ### Replies of the protocol -/

/-- A reply of the protocol. -/
inductive Resp
  | nil
  | status (line : Bytes)
  | error (line : Bytes)
  | int (v : ℤ)
  | bulk (bytes : Bytes)
  | array (members : List Resp)

/-- A text that is a line. -/
def IsLine (text : Bytes) : Prop := ∀ c ∈ text, isLineBreak c = false

/-- How it is written. -/
def Resp.bytes : Resp → Bytes
  | nil => [36, 45, 49] ++ kCRLF
  | status line => 43 :: (line ++ kCRLF)
  | error line => 45 :: (line ++ kCRLF)
  | int v => 58 :: (decimalSigned v ++ kCRLF)
  | bulk bytes => 36 :: (decimal bytes.length ++ kCRLF) ++ bytes ++ kCRLF
  | array members => 42 :: (decimal members.length ++ kCRLF) ++ (members.map Resp.bytes).flatten

/-- Its texts are lines. -/
def Resp.WellFormed : Resp → Prop
  | status line => IsLine line
  | error line => IsLine line
  | array members => ∀ m ∈ members, m.WellFormed
  | nil => True
  | int _ => True
  | bulk _ => True

/-- What `fill_error_reply` makes of a text. -/
def errorText (text : Bytes) : Bytes := [69, 82, 82, 32] ++ (cStr text).take 1018

/-- The reply a leaf stands for. -/
def ReplyLeaf.resp (fastDtoa : Num → Bytes) : ReplyLeaf Num → Resp
  | nil => .nil
  | error text => .error (errorText text)
  | fixError err => .error err
  | status s => .status (cStr s)
  | ok => .status [79, 75]
  | pong => .status [80, 79, 78, 71]
  | int v => .int v.toInt
  | double v => .bulk (fastDtoa v)
  | str v => .bulk v

/-- The reply a tree stands for. -/
def ReplyTree.resp (fastDtoa : Num → Bytes) : ReplyTree Num → Resp
  | leaf l => l.resp fastDtoa
  | array members => .array (members.map (ReplyTree.resp fastDtoa))

/-- A leaf that is encoded as it should be. -/
def ReplyLeaf.Encodable : ReplyLeaf Num → Prop
  | error text => IsLine ((cStr text).take 1018)
  | fixError err => IsLine err ∧ (0 : UInt8) ∉ err
  | status s => IsLine (cStr s)
  | double _ => False
  | str v => v.length < 2 ^ 31
  | _ => True

/-- A tree without doubles, whose texts are lines and whose sizes an `int` can hold. -/
def ReplyTree.Encodable : ReplyTree Num → Prop
  | leaf l => l.Encodable
  | array members => members.length < 2 ^ 31 ∧ ∀ m ∈ members, m.Encodable

/-- The encoder returns `true` and appends the reply the tree stands for. -/
def ReplyTree.Encodes (fastDtoa : Num → Bytes) (t : ReplyTree Num) : Prop :=
  t.build.encode fastDtoa = ((t.resp fastDtoa).bytes, true) ∧ (t.resp fastDtoa).WellFormed

/-! ### What is written -/

/-- Two lines that start the same bytes are the same line. -/
theorem line_append_inj {a b x y : Bytes} (ha : (13 : UInt8) ∉ a) (hb : (13 : UInt8) ∉ b)
    (h : a ++ kCRLF ++ x = b ++ kCRLF ++ y) : a = b ∧ x = y := by
  induction a generalizing b with
  | nil =>
    cases b with
    | nil => exact ⟨rfl, List.append_cancel_left h⟩
    | cons d b =>
      obtain ⟨rfl, -⟩ := List.cons.inj h
      exact absurd List.mem_cons_self hb
  | cons c a ih =>
    cases b with
    | nil =>
      obtain ⟨rfl, -⟩ := List.cons.inj h
      exact absurd List.mem_cons_self ha
    | cons d b =>
      obtain ⟨rfl, h'⟩ := List.cons.inj h
      obtain ⟨rfl, hxy⟩ := ih (fun hm => ha (List.mem_cons_of_mem _ hm))
        (fun hm => hb (List.mem_cons_of_mem _ hm)) h'
      exact ⟨rfl, hxy⟩

theorem sized_append_inj {c : UInt8} {a b x y : Bytes} (ha : (13 : UInt8) ∉ a)
    (hb : (13 : UInt8) ∉ b) (h : c :: (a ++ kCRLF) ++ x = c :: (b ++ kCRLF) ++ y) : a = b ∧ x = y :=
  line_append_inj ha hb (List.cons.inj h).2

theorem IsLine.not_mem {text : Bytes} (h : IsLine text) : (13 : UInt8) ∉ text := fun hm =>
  absurd (h 13 hm) (by decide)

theorem not_mem_decimal (n : ℕ) : (13 : UInt8) ∉ decimal n := fun h =>
  absurd (isdigit_decimalLoop _ h) (by decide)

/-- A size is printed right when an `int` can hold it. -/
theorem decimalInt_eq_iff {n : ℕ} : decimalInt n = decimal n ↔ n < 2 ^ 31 := by
  have hvalue : ∀ k : ℕ, digitsValue (decimal k) = k := fun k => Numeral.ofNat_value k
  constructor
  · intro h
    unfold decimalInt at h
    dsimp only at h
    split at h
    · -- a minus sign is no digit
      have hminus : (45 : UInt8) ∈ decimal n := h ▸ List.mem_cons_self
      exact absurd (isdigit_decimalLoop _ hminus) (by decide)
    · next hneg =>
      have hn := congrArg digitsValue h
      rw [hvalue, hvalue, Int.bmod_def] at hn
      rw [Int.bmod_def] at hneg
      split at hn <;> omega
  · intro h
    have hmod : (n : ℤ).bmod (2 ^ 32) = n := by rw [Int.bmod_eq_of_le] <;> omega
    unfold decimalInt
    rw [hmod]
    dsimp only
    rw [if_neg (by omega), Int.natAbs_natCast]

/-- What the encoder writes for a leaf that is no double. -/
def ReplyLeaf.written : ReplyLeaf Num → Bytes
  | nil => [36, 45, 49] ++ kCRLF
  | error text => 45 :: (errorText text ++ kCRLF)
  | fixError err => 45 :: (cStr err ++ kCRLF)
  | status s => 43 :: (cStr s ++ kCRLF)
  | ok => [43, 79, 75] ++ kCRLF
  | pong => [43, 80, 79, 78, 71] ++ kCRLF
  | int v => 58 :: (decimalSigned v.toInt ++ kCRLF)
  | double _ => []
  | str v => 36 :: (decimalInt v.length ++ kCRLF) ++ v ++ kCRLF

/-- Whether the encoder returns `true`. -/
def ReplyLeaf.accepted : ReplyLeaf Num → Bool
  | double _ => false
  | _ => true

theorem zero_not_mem_cStr (str : Bytes) : (0 : UInt8) ∉ cStr str := fun h =>
  absurd (List.mem_takeWhile_imp (p := fun c => decide (c ≠ 0)) h) (by decide)

theorem zero_not_mem_errorText (text : Bytes) : (0 : UInt8) ∉ errorText text := by
  unfold errorText
  rw [List.mem_append, not_or]
  exact ⟨by decide, fun h => zero_not_mem_cStr text ((List.take_sublist _ _).subset h)⟩

/-- The result of encoding a leaf: only a double is refused. -/
theorem encode_leaf (fastDtoa : Num → Bytes) (l : ReplyLeaf Num) :
    l.build.encode fastDtoa = (l.written, l.accepted) := by
  cases l with
  | nil => rfl
  | ok => rfl
  | pong => rfl
  | int v => rfl
  | double v => rfl
  | fixError err => rfl
  | error text =>
    change (45 :: (cStr (errorText text) ++ kCRLF), true) = _
    rw [RedisReply.cStr_eq (zero_not_mem_errorText text)]
    rfl
  | status s =>
    change (43 :: (cStr (cStr s) ++ kCRLF), true) = _
    rw [RedisReply.cStr_eq (zero_not_mem_cStr s)]
    rfl
  | str v =>
    change (if v.length = 0 then ([36, 48] ++ kCRLF ++ kCRLF, true)
      else (36 :: (decimalInt v.length ++ kCRLF) ++ v ++ kCRLF, true)) = _
    split
    · next hlen =>
      rw [List.length_eq_zero_iff.mp hlen]
      rfl
    · rfl

omit [Zero Num] in
/-- The members are written one after the other, up to one that is refused. -/
theorem encodeAll_cons (fastDtoa : Num → Bytes) (r : ReplyNode Num) (rs : List (ReplyNode Num)) :
    ReplyNode.encodeAll fastDtoa (r :: rs) = if (r.encode fastDtoa).2 then
      ((r.encode fastDtoa).1 ++ (ReplyNode.encodeAll fastDtoa rs).1,
        (ReplyNode.encodeAll fastDtoa rs).2)
      else ((r.encode fastDtoa).1, false) := by
  rw [ReplyNode.encodeAll]

omit [Zero Num] in
theorem encodeAll_true_iff (fastDtoa : Num → Bytes) (rs : List (ReplyNode Num)) :
    (ReplyNode.encodeAll fastDtoa rs).2 = true ↔ ∀ r ∈ rs, (r.encode fastDtoa).2 = true := by
  induction rs with
  | nil => simp [ReplyNode.encodeAll]
  | cons r rs ih =>
    rw [encodeAll_cons, List.forall_mem_cons, ← ih]
    split
    · next h => simp [h]
    · next h => simp [h]

omit [Zero Num] in
theorem encodeAll_bytes (fastDtoa : Num → Bytes) {rs : List (ReplyNode Num)}
    (h : ∀ r ∈ rs, (r.encode fastDtoa).2 = true) :
    (ReplyNode.encodeAll fastDtoa rs).1 = (rs.map fun r => (r.encode fastDtoa).1).flatten := by
  induction rs with
  | nil => rfl
  | cons r rs ih =>
    rw [List.forall_mem_cons] at h
    rw [encodeAll_cons, if_pos h.1, List.map_cons, List.flatten_cons, ih h.2]

theorem encode_array (fastDtoa : Num → Bytes) (members : List (ReplyTree Num)) :
    (ReplyTree.array members).build.encode fastDtoa =
      (42 :: (decimalInt members.length ++ kCRLF) ++
        (ReplyNode.encodeAll fastDtoa (members.map ReplyTree.build)).1,
      (ReplyNode.encodeAll fastDtoa (members.map ReplyTree.build)).2) := by
  have hlen : decimalInt members.length = decimalInt (members.map ReplyTree.build).length := by
    rw [List.length_map]
  rw [hlen, ReplyTree.build]
  rfl

/-- A tree without doubles. -/
def ReplyTree.NoDouble : ReplyTree Num → Prop
  | leaf (.double _) => False
  | leaf _ => True
  | array members => ∀ m ∈ members, m.NoDouble

/-- The encoder refuses doubles and nothing else. -/
theorem encode_true_iff (fastDtoa : Num → Bytes) (t : ReplyTree Num) :
    (t.build.encode fastDtoa).2 = true ↔ t.NoDouble := by
  induction t using ReplyTree.induction with
  | leaf l =>
    rw [ReplyTree.build, encode_leaf]
    cases l <;> simp [ReplyTree.NoDouble, ReplyLeaf.accepted]
  | array members ih =>
    rw [encode_array, encodeAll_true_iff, List.forall_mem_map, ReplyTree.NoDouble]
    exact forall₂_congr ih

omit [Zero Num] in
/-- A leaf is written as the reply it stands for if its texts are, and its size. -/
theorem written_leaf_inj (fastDtoa : Num → Bytes) {l : ReplyLeaf Num}
    (hdouble : (ReplyTree.leaf l).NoDouble) (hline : (l.resp fastDtoa).WellFormed) {x y : Bytes}
    (h : l.written ++ x = (l.resp fastDtoa).bytes ++ y) : l.Encodable ∧ x = y := by
  cases l with
  | nil =>
    rw [ReplyLeaf.resp, Resp.bytes] at h
    exact ⟨trivial, List.append_cancel_left h⟩
  | ok =>
    rw [ReplyLeaf.resp, Resp.bytes] at h
    exact ⟨trivial, List.append_cancel_left h⟩
  | pong =>
    rw [ReplyLeaf.resp, Resp.bytes] at h
    exact ⟨trivial, List.append_cancel_left h⟩
  | int v =>
    rw [ReplyLeaf.resp, Resp.bytes] at h
    exact ⟨trivial, List.append_cancel_left h⟩
  | double v =>
    rw [ReplyTree.NoDouble] at hdouble
    exact hdouble.elim
  | status s =>
    rw [ReplyLeaf.resp, Resp.WellFormed] at hline
    rw [ReplyLeaf.resp, Resp.bytes] at h
    exact ⟨hline, List.append_cancel_left h⟩
  | error text =>
    rw [ReplyLeaf.resp, Resp.WellFormed] at hline
    rw [ReplyLeaf.resp, Resp.bytes] at h
    exact ⟨fun c hc => hline c (List.mem_append_right _ hc), List.append_cancel_left h⟩
  | fixError err =>
    rw [ReplyLeaf.resp, Resp.WellFormed] at hline
    rw [ReplyLeaf.resp, Resp.bytes] at h
    have hcr : (13 : UInt8) ∉ cStr err := fun hm =>
      hline.not_mem ((List.takeWhile_sublist _).subset hm)
    obtain ⟨heq, hxy⟩ := line_append_inj hcr hline.not_mem (List.cons.inj h).2
    exact ⟨⟨hline, heq ▸ zero_not_mem_cStr err⟩, hxy⟩
  | str v =>
    rw [ReplyLeaf.resp, Resp.bytes] at h
    rw [ReplyLeaf.written, List.append_assoc, List.append_assoc, List.append_assoc,
      List.append_assoc] at h
    obtain ⟨hsize, hrest⟩ := sized_append_inj (not_mem_decimalInt _) (not_mem_decimal _) h
    refine ⟨?_, List.append_cancel_left (List.append_cancel_left hrest)⟩
    rw [ReplyLeaf.Encodable]
    exact decimalInt_eq_iff.mp hsize

theorem written_inj (fastDtoa : Num → Bytes) (t : ReplyTree Num) : t.NoDouble →
    (t.resp fastDtoa).WellFormed → ∀ {x y : Bytes},
    (t.build.encode fastDtoa).1 ++ x = (t.resp fastDtoa).bytes ++ y → t.Encodable ∧ x = y := by
  induction t using ReplyTree.induction with
  | leaf l =>
    intro hdouble hline x y h
    rw [ReplyTree.resp] at h hline
    rw [ReplyTree.build, encode_leaf] at h
    rw [ReplyTree.Encodable]
    exact written_leaf_inj fastDtoa hdouble hline h
  | array members ih =>
    intro hdouble hline x y h
    rw [ReplyTree.NoDouble] at hdouble
    have hall : ∀ r ∈ members.map ReplyTree.build, (r.encode fastDtoa).2 = true := by
      rw [List.forall_mem_map]
      exact fun m hm => (encode_true_iff fastDtoa m).mpr (hdouble m hm)
    rw [encode_array, encodeAll_bytes fastDtoa hall] at h
    rw [ReplyTree.resp, Resp.bytes, List.length_map, List.append_assoc, List.append_assoc] at h
    obtain ⟨hsize, hrest⟩ := sized_append_inj (not_mem_decimalInt _) (not_mem_decimal _) h
    -- the members, one after the other
    have hmembers : ∀ ms : List (ReplyTree Num), (∀ m ∈ ms, m ∈ members) →
        ((ms.map ReplyTree.build).map fun r => (r.encode fastDtoa).1).flatten ++ x =
          ((ms.map (ReplyTree.resp fastDtoa)).map Resp.bytes).flatten ++ y →
        (∀ m ∈ ms, m.Encodable) ∧ x = y := by
      intro ms
      induction ms with
      | nil => exact fun _ heq => ⟨by simp, heq⟩
      | cons m ms ihms =>
        intro hsub heq
        rw [List.forall_mem_cons] at hsub
        simp only [List.map_cons, List.flatten_cons, List.append_assoc] at heq
        have hwell : (m.resp fastDtoa).WellFormed := by
          rw [ReplyTree.resp, Resp.WellFormed] at hline
          exact hline _ (List.mem_map_of_mem hsub.1)
        obtain ⟨hm, htail⟩ := ih m hsub.1 (hdouble m hsub.1) hwell heq
        obtain ⟨hms, hxy⟩ := ihms hsub.2 htail
        exact ⟨List.forall_mem_cons.mpr ⟨hm, hms⟩, hxy⟩
    obtain ⟨hms, hxy⟩ := hmembers members (fun _ hm => hm) hrest
    rw [ReplyTree.Encodable]
    exact ⟨⟨decimalInt_eq_iff.mp hsize, hms⟩, hxy⟩

omit [Zero Num] in
theorem ReplyLeaf.Encodable.written (fastDtoa : Num → Bytes) {l : ReplyLeaf Num}
    (h : l.Encodable) : l.written = (l.resp fastDtoa).bytes ∧ (l.resp fastDtoa).WellFormed ∧
      l.accepted = true := by
  cases l with
  | nil =>
    rw [ReplyLeaf.resp, Resp.bytes, Resp.WellFormed]
    exact ⟨rfl, trivial, rfl⟩
  | ok =>
    rw [ReplyLeaf.resp, Resp.bytes, Resp.WellFormed]
    exact ⟨rfl, by simp [IsLine, isLineBreak], rfl⟩
  | pong =>
    rw [ReplyLeaf.resp, Resp.bytes, Resp.WellFormed]
    exact ⟨rfl, by simp [IsLine, isLineBreak], rfl⟩
  | int v =>
    rw [ReplyLeaf.resp, Resp.bytes, Resp.WellFormed]
    exact ⟨rfl, trivial, rfl⟩
  | double v => exact h.elim
  | status s =>
    rw [ReplyLeaf.resp, Resp.bytes, Resp.WellFormed]
    exact ⟨rfl, h, rfl⟩
  | error text =>
    rw [ReplyLeaf.resp, Resp.bytes, Resp.WellFormed]
    refine ⟨rfl, fun c hc => ?_, rfl⟩
    have herr : ∀ c ∈ ([69, 82, 82, 32] : Bytes), isLineBreak c = false := by simp [isLineBreak]
    exact (List.mem_append.mp hc).elim (herr c) (h c)
  | fixError err =>
    rw [ReplyLeaf.resp, Resp.bytes, Resp.WellFormed, ReplyLeaf.written, RedisReply.cStr_eq h.2]
    exact ⟨rfl, h.1, rfl⟩
  | str v =>
    rw [ReplyLeaf.Encodable] at h
    rw [ReplyLeaf.resp, Resp.bytes, Resp.WellFormed, ReplyLeaf.written, decimalInt_eq_iff.mpr h]
    exact ⟨rfl, trivial, rfl⟩

/-- An encodable tree is encoded. -/
theorem ReplyTree.Encodable.encodes (fastDtoa : Num → Bytes) (t : ReplyTree Num) :
    t.Encodable → t.Encodes fastDtoa := by
  induction t using ReplyTree.induction with
  | leaf l =>
    intro h
    unfold ReplyTree.Encodes
    rw [ReplyTree.build, encode_leaf, ReplyTree.resp]
    rw [ReplyTree.Encodable] at h
    obtain ⟨hwritten, hwell, hdouble⟩ := h.written fastDtoa
    exact ⟨Prod.ext hwritten hdouble, hwell⟩
  | array members ih =>
    intro h
    rw [ReplyTree.Encodable] at h
    have hall : ∀ r ∈ members.map ReplyTree.build, (r.encode fastDtoa).2 = true := by
      rw [List.forall_mem_map]
      exact fun m hm => congrArg Prod.snd (ih m hm (h.2 m hm)).1
    have hbytes : ((members.map ReplyTree.build).map fun r => (r.encode fastDtoa).1).flatten =
        ((members.map (ReplyTree.resp fastDtoa)).map Resp.bytes).flatten := by
      rw [List.map_map, List.map_map]
      refine congrArg List.flatten (List.map_congr_left fun m hm => ?_)
      exact congrArg Prod.fst (ih m hm (h.2 m hm)).1
    refine ⟨?_, ?_⟩
    · rw [encode_array, encodeAll_bytes fastDtoa hall,
        (encodeAll_true_iff fastDtoa _).mpr hall, hbytes, decimalInt_eq_iff.mpr h.1,
        ReplyTree.resp, Resp.bytes, List.length_map]
    · rw [ReplyTree.resp, Resp.WellFormed]
      intro r hr
      obtain ⟨m, hm, rfl⟩ := List.mem_map.mp hr
      exact (ih m hm (h.2 m hm)).2

/-- **The trees that are encoded.** -/
theorem encodes_iff (fastDtoa : Num → Bytes) (t : ReplyTree Num) :
    t.Encodes fastDtoa ↔ t.Encodable := by
  refine ⟨?_, ReplyTree.Encodable.encodes fastDtoa t⟩
  rintro ⟨hencode, hwell⟩
  have hdouble : t.NoDouble := by
    rw [← encode_true_iff fastDtoa, hencode]
  have hbytes : (t.build.encode fastDtoa).1 ++ [] = (t.resp fastDtoa).bytes ++ [] := by
    rw [hencode]
  exact (written_inj fastDtoa t hdouble hwell hbytes).1

end Trees

/-! ### Values of a script -/

/-- `(lua_Number) value`: the nearest `double`, and of two the one with the even significand. -/
def luaNumber (value : ℤ) : ℤ :=
  let n := value.natAbs
  let unit := 2 ^ (Nat.log2 n - 52)
  let low := n % unit
  let q := n / unit + (if unit < 2 * low ∨ (unit = 2 * low ∧ n / unit % 2 = 1) then 1 else 0)
  if value < 0 then -((q * unit : ℕ) : ℤ) else (q * unit : ℕ)

/-- A value on the stack of a script. -/
inductive LuaValue
  | boolean (b : Bool)
  | number (n : ℤ)
  | string (s : Bytes)
  | table (entries : List (LuaValue × LuaValue))

/-- The stack of a `lua_State`, its top first, and how many values a function may still push: the
API does not check. -/
structure LuaStack where
  values : List LuaValue
  free : ℕ

namespace LuaStack

/-- `lua_pushboolean`, `lua_pushnumber`, `lua_pushlstring`, `lua_newtable`; `none` is a write past
the end of the stack. -/
def push (st : LuaStack) (v : LuaValue) : Option LuaStack :=
  match st.free with
  | 0 => none
  | free + 1 => some ⟨v :: st.values, free⟩

/-- `lua_settable(lua, -3)`; anything but a table there is an error. The keys set here are new to
the table. -/
def setTable (st : LuaStack) : Option LuaStack :=
  match st.values with
  | v :: k :: .table entries :: values => some ⟨.table (entries ++ [(k, v)]) :: values, st.free + 2⟩
  | _ => none

/-- A table with one field, for a status or an error. -/
def pushField (st : LuaStack) (name text : Bytes) : Option LuaStack :=
  (st.push (.table [])).bind fun st => (st.push (.string name)).bind fun st =>
    (st.push (.string text)).bind setTable

end LuaStack

mutual

/-- `redisProtocolToLuaType`. Its index is a `uint32`: it does not come to the end of an array of
`2^32` members. -/
def ReplyNode.toLua {Num : Type} : ReplyNode Num → LuaStack → Option LuaStack
  | ⟨type, str, integer, _, elements⟩, st =>
    if type.toNat = typeInteger then st.push (.number (luaNumber integer.toInt))
    else if type.toNat = typeNil then st.push (.boolean false)
    else if type.toNat = typeString then st.push (.string str)
    else if type.toNat = typeStatus then st.pushField [111, 107] str
    else if type.toNat = typeError then st.pushField [101, 114, 114] str
    else if type.toNat = typeArray then
      if elements.length < 2 ^ 32 then (st.push (.table [])).bind (membersToLua 1 elements)
      else none
    else some st

/-- The loop over the members, the first of which has the key `j`. -/
def membersToLua {Num : Type} (j : ℕ) : List (ReplyNode Num) → LuaStack → Option LuaStack
  | [], st => some st
  | r :: rs, st =>
    (st.push (.number (luaNumber j))).bind fun st => (r.toLua st).bind fun st =>
      st.setTable.bind (membersToLua (j + 1) rs)

end

/-! ### What a script gets -/

section Script

variable {Num : Type}

/-- The value a leaf stands for. -/
def ReplyLeaf.lua (fastDtoa : Num → Bytes) : ReplyLeaf Num → LuaValue
  | nil => .boolean false
  | int v => .number (luaNumber v.toInt)
  | str v => .string v
  | double v => .string (fastDtoa v)
  | error text => .table [(.string [101, 114, 114], .string (errorText text))]
  | fixError err => .table [(.string [101, 114, 114], .string err)]
  | status s => .table [(.string [111, 107], .string (cStr s))]
  | ok => .table [(.string [111, 107], .string [79, 75])]
  | pong => .table [(.string [111, 107], .string [80, 79, 78, 71])]

/-- The value that is pushed for a leaf: the text of a status is looked for in `str`, where
`fill_ok_reply` and `fill_pong_reply` leave none. -/
def ReplyLeaf.pushed (fastDtoa : Num → Bytes) : ReplyLeaf Num → LuaValue
  | ok => .table [(.string [111, 107], .string [])]
  | pong => .table [(.string [111, 107], .string [])]
  | l => l.lua fastDtoa

/-- Values as the entries `j`, `j + 1`, .. of a table. -/
def luaEntries (j : ℕ) : List LuaValue → List (LuaValue × LuaValue)
  | [] => []
  | v :: vs => (.number (luaNumber j), v) :: luaEntries (j + 1) vs

theorem luaEntries_inj {j : ℕ} {vs ws : List LuaValue} :
    luaEntries j vs = luaEntries j ws ↔ vs = ws := by
  induction vs generalizing j ws with
  | nil => cases ws <;> simp [luaEntries]
  | cons v vs ih => cases ws <;> simp [luaEntries, ih]

/-- The value a tree stands for: an array is a table with one entry for each member. -/
def ReplyTree.lua (fastDtoa : Num → Bytes) : ReplyTree Num → LuaValue
  | leaf l => l.lua fastDtoa
  | array members => .table (luaEntries 1 (members.map (ReplyTree.lua fastDtoa)))

/-- The value that is pushed for a tree. -/
def ReplyTree.pushed (fastDtoa : Num → Bytes) : ReplyTree Num → LuaValue
  | leaf l => l.pushed fastDtoa
  | array members => .table (luaEntries 1 (members.map (ReplyTree.pushed fastDtoa)))

/-- The stack a leaf needs. -/
def ReplyLeaf.slots : ReplyLeaf Num → ℕ
  | nil | int _ | str _ | double _ => 1
  | _ => 3

/-- A tree without doubles that finds room on the stack: an array takes a slot for its table and one
for the key of the member it is at. -/
def ReplyTree.Pushable : ReplyTree Num → ℕ → Prop
  | leaf l, free => l.accepted = true ∧ l.slots ≤ free
  | array members, free =>
    members.length < 2 ^ 32 ∧ 1 ≤ free ∧ ∀ m ∈ members, 2 ≤ free ∧ m.Pushable (free - 2)

/-- A tree without the statuses that are codes. -/
def ReplyTree.NoCode : ReplyTree Num → Prop
  | leaf .ok => False
  | leaf .pong => False
  | leaf _ => True
  | array members => ∀ m ∈ members, m.NoCode

theorem ReplyTree.Pushable.pos {t : ReplyTree Num} {free : ℕ} (h : t.Pushable free) : 1 ≤ free := by
  cases t with
  | leaf l =>
    rw [ReplyTree.Pushable] at h
    refine le_trans ?_ h.2
    cases l <;> simp [ReplyLeaf.slots]
  | array members =>
    rw [ReplyTree.Pushable] at h
    exact h.2.1

/-- The stack does not end in a table, as the arguments of `redis.call` do not. -/
def NoTable (values : List LuaValue) : Prop := ∀ entries rest, values ≠ .table entries :: rest

theorem pushField_eq (st : LuaStack) (name text : Bytes) : st.pushField name text =
    if 3 ≤ st.free then some ⟨.table [(.string name, .string text)] :: st.values, st.free - 1⟩
    else none := by
  obtain ⟨values, free⟩ := st
  match free with
  | 0 => rfl
  | 1 => rfl
  | 2 => rfl
  | free + 3 => rw [if_pos (by simp)]; rfl

theorem push_eq (st : LuaStack) (v : LuaValue) :
    st.push v = if 1 ≤ st.free then some ⟨v :: st.values, st.free - 1⟩ else none := by
  obtain ⟨values, free⟩ := st
  cases free with
  | zero => rfl
  | succ free => rw [if_pos (by simp)]; rfl

variable [Zero Num]

/-- What is done for a leaf. -/
theorem toLua_leaf (fastDtoa : Num → Bytes) (l : ReplyLeaf Num) (st : LuaStack) :
    l.build.toLua st = if l.accepted then
      (if l.slots ≤ st.free then some ⟨l.pushed fastDtoa :: st.values, st.free - 1⟩ else none)
      else some st := by
  cases l with
  | nil => exact push_eq st _
  | int v => exact push_eq st _
  | str v => exact push_eq st _
  | double v => rfl
  | error text => exact pushField_eq st _ _
  | fixError err => exact pushField_eq st _ _
  | status s => exact pushField_eq st _ _
  | ok => exact pushField_eq st _ _
  | pong => exact pushField_eq st _ _

/-- **What is done for a tree.** With enough stack a value is pushed. Otherwise there is none, and
for a double the stack is left as it was. -/
theorem toLua_tree (fastDtoa : Num → Bytes) (t : ReplyTree Num) : ∀ st : LuaStack,
    NoTable st.values →
    (t.Pushable st.free → t.build.toLua st = some ⟨t.pushed fastDtoa :: st.values, st.free - 1⟩) ∧
    (¬ t.Pushable st.free → t.build.toLua st = none ∨ t.build.toLua st = some st) := by
  induction t using ReplyTree.induction with
  | leaf l =>
    intro st _
    rw [ReplyTree.Pushable, ReplyTree.build, ReplyTree.pushed, toLua_leaf fastDtoa]
    refine ⟨fun h => by rw [if_pos h.1, if_pos h.2], fun h => ?_⟩
    by_cases hacc : l.accepted = true
    · rw [if_pos hacc, if_neg fun hslots => h ⟨hacc, hslots⟩]
      exact .inl rfl
    · rw [if_neg hacc]
      exact .inr rfl
  | array members ih =>
    -- the loop, over members that all find room and over members of which one does not
    have hloop : ∀ (ms : List (ReplyTree Num)), (∀ m ∈ ms, m ∈ members) →
        ∀ (j : ℕ) entries rest free, NoTable rest →
        ((∀ m ∈ ms, 1 ≤ free ∧ m.Pushable (free - 1)) →
          membersToLua j (ms.map ReplyTree.build) ⟨.table entries :: rest, free⟩ =
            some ⟨.table (entries ++ luaEntries j (ms.map (ReplyTree.pushed fastDtoa))) :: rest, free⟩) ∧
        ((¬ ∀ m ∈ ms, 1 ≤ free ∧ m.Pushable (free - 1)) →
          membersToLua j (ms.map ReplyTree.build) ⟨.table entries :: rest, free⟩ = none) := by
      intro ms
      induction ms with
      | nil =>
        intro _ j entries rest free _
        refine ⟨fun _ => ?_, fun h => absurd (by simp) h⟩
        rw [List.map_nil, membersToLua, List.map_nil, luaEntries, List.append_nil]
      | cons m ms ihms =>
        intro hsub j entries rest free hrest
        rw [List.forall_mem_cons] at hsub
        rw [List.forall_mem_cons, List.map_cons, membersToLua, push_eq]
        dsimp only
        by_cases hfree : 1 ≤ free
        swap
        · rw [if_neg hfree]
          exact ⟨fun h => absurd h.1.1 hfree, fun _ => rfl⟩
        rw [if_pos hfree, Option.bind_some]
        obtain ⟨hgood, hbad⟩ := ih m hsub.1
          ⟨.number (luaNumber j) :: .table entries :: rest, free - 1⟩ (fun _ _ h => by cases h)
        by_cases hm : m.Pushable (free - 1)
        · -- the member is set, and the table is back on the top
          have hpos := hm.pos
          have hset : (⟨m.pushed fastDtoa :: .number (luaNumber j) :: .table entries :: rest,
              free - 1 - 1⟩ : LuaStack).setTable = some ⟨.table (entries ++
                [(.number (luaNumber j), m.pushed fastDtoa)]) :: rest, free⟩ := by
            change some (LuaStack.mk _ (free - 1 - 1 + 2)) = _
            rw [show free - 1 - 1 + 2 = free by omega]
          obtain ⟨hsome, hnone⟩ := ihms hsub.2 (j + 1)
            (entries ++ [(.number (luaNumber j), m.pushed fastDtoa)]) rest free hrest
          rw [hgood hm, Option.bind_some, hset, Option.bind_some]
          refine ⟨fun h => ?_, fun h => hnone fun hms => h ⟨⟨hfree, hm⟩, hms⟩⟩
          rw [hsome h.2, List.map_cons, luaEntries, List.append_assoc]
          rfl
        · refine ⟨fun h => absurd h.1.2 hm, fun _ => ?_⟩
          obtain hnone | hsame := hbad hm
          · rw [hnone]
            rfl
          · -- nothing was pushed: the key is where the table should be
            have hset : (⟨.number (luaNumber j) :: .table entries :: rest, free - 1⟩ :
                LuaStack).setTable = none := by
              unfold LuaStack.setTable
              split
              · next heq =>
                obtain ⟨-, heq⟩ := List.cons.inj heq
                exact absurd (List.cons.inj heq).2 (hrest _ _)
              · rfl
            rw [hsame, Option.bind_some, hset]
            rfl
    intro st hst
    have hbuild : (ReplyTree.array members).build.toLua st =
        if members.length < 2 ^ 32 then
          (st.push (.table [])).bind (membersToLua 1 (members.map ReplyTree.build))
        else none := by
      rw [ReplyTree.build]
      unfold ReplyNode.reserveMember ReplyNode.setType ReplyNode.fresh
      rw [ReplyNode.toLua, List.nil_append, List.length_map]
      rfl
    rw [hbuild, push_eq, ReplyTree.Pushable, ReplyTree.pushed]
    by_cases hlen : members.length < 2 ^ 32
    swap
    · rw [if_neg hlen]
      exact ⟨fun h => absurd h.1 hlen, fun _ => .inl rfl⟩
    by_cases hfree : 1 ≤ st.free
    swap
    · rw [if_pos hlen, if_neg hfree]
      exact ⟨fun h => absurd h.2.1 hfree, fun _ => .inl rfl⟩
    obtain ⟨hsome, hnone⟩ := hloop members (fun _ hm => hm) 1 [] st.values (st.free - 1) hst
    rw [if_pos hlen, if_pos hfree, Option.bind_some]
    have hroom : (∀ m ∈ members, 1 ≤ st.free - 1 ∧ m.Pushable (st.free - 1 - 1)) ↔
        ∀ m ∈ members, 2 ≤ st.free ∧ m.Pushable (st.free - 2) := by
      rw [Nat.sub_sub]
      exact forall₂_congr fun m _ => and_congr_left fun _ => by omega
    rw [hroom] at hsome hnone
    refine ⟨fun h => ?_, fun h => .inl (hnone fun hms => h ⟨hlen, hfree, hms⟩)⟩
    rw [hsome h.2.2, List.nil_append]

omit [Zero Num] in
/-- The value pushed is the one the tree stands for unless a status is a code. -/
theorem pushed_eq_iff (fastDtoa : Num → Bytes) (t : ReplyTree Num) :
    t.pushed fastDtoa = t.lua fastDtoa ↔ t.NoCode := by
  induction t using ReplyTree.induction with
  | leaf l =>
    rw [ReplyTree.pushed, ReplyTree.lua]
    cases l <;> simp [ReplyLeaf.pushed, ReplyLeaf.lua, ReplyTree.NoCode]
  | array members ih =>
    rw [ReplyTree.pushed, ReplyTree.lua, ReplyTree.NoCode, LuaValue.table.injEq, luaEntries_inj,
      List.map_inj_left]
    exact forall₂_congr ih

/-- Exactly one value is pushed for the trees that find room. -/
theorem pushes_iff (fastDtoa : Num → Bytes) (t : ReplyTree Num) {st : LuaStack}
    (hst : NoTable st.values) :
    (∃ v, t.build.toLua st = some ⟨v :: st.values, st.free - 1⟩) ↔ t.Pushable st.free := by
  obtain ⟨hsome, hnone⟩ := toLua_tree fastDtoa t st hst
  refine ⟨fun ⟨v, hv⟩ => by_contra fun hroom => ?_, fun h => ⟨_, hsome h⟩⟩
  obtain hbad | hbad := hnone hroom
  · cases hv.symm.trans hbad
  · have hvalues := congrArg LuaStack.values (Option.some.inj (hv.symm.trans hbad))
    exact absurd (congrArg List.length hvalues) (by simp)

/-- **The trees that reach the caller.** The encoder appends the reply a tree stands for unless it
has a double in it, a text that is no line or a size no `int` holds; one value is pushed for it
unless it has a double in it or is nested deeper than the stack; and that value is the reply unless
a status in it is a code. -/
theorem reply_arrives_iff (fastDtoa : Num → Bytes) (t : ReplyTree Num) (st : LuaStack)
    (hst : NoTable st.values) :
    (t.Encodes fastDtoa ↔ t.Encodable) ∧
    ((∃ v, t.build.toLua st = some ⟨v :: st.values, st.free - 1⟩) ↔ t.Pushable st.free) ∧
    (t.build.toLua st = some ⟨t.lua fastDtoa :: st.values, st.free - 1⟩ ↔
      t.Pushable st.free ∧ t.NoCode) := by
  refine ⟨encodes_iff fastDtoa t, pushes_iff fastDtoa t hst, ?_⟩
  have hsome := (toLua_tree fastDtoa t st hst).1
  rw [← pushed_eq_iff fastDtoa]
  constructor
  · intro h
    have hroom : t.Pushable st.free := (pushes_iff fastDtoa t hst).mp ⟨_, h⟩
    have hvalues := congrArg LuaStack.values (Option.some.inj ((hsome hroom).symm.trans h))
    exact ⟨hroom, (List.cons.inj hvalues).1⟩
  · rintro ⟨hroom, hvalue⟩
    rw [hsome hroom, hvalue]

end Script

/-- A pair of a string and an array with an integer, for `redis.call("scan", "0")`. -/
theorem reply_arrives_nested :
    let t : ReplyTree ℤ := .array [.leaf (.str [48]), .array [.leaf (.int 7)]]
    let st : LuaStack := ⟨[.string [48], .string [115, 99, 97, 110]], 20⟩
    NoTable st.values ∧ (t.Encodes decimalSigned ↔ t.Encodable) ∧
    ((∃ v, t.build.toLua st = some ⟨v :: st.values, st.free - 1⟩) ↔ t.Pushable st.free) ∧
    (t.build.toLua st = some ⟨t.lua decimalSigned :: st.values, st.free - 1⟩ ↔
      t.Pushable st.free ∧ t.NoCode) :=
  have hst : NoTable [.string [48], .string [115, 99, 97, 110]] := fun _ _ h => by cases h
  ⟨hst, reply_arrives_iff decimalSigned (.array [.leaf (.str [48]), .array [.leaf (.int 7)]])
    ⟨[.string [48], .string [115, 99, 97, 110]], 20⟩ hst⟩

/-- The double of `INCRBYFLOAT` reaches nobody: the type is kept as 233. -/
theorem double_lost : ¬ ∀ (t : ReplyTree ℤ) (st : LuaStack), NoTable st.values →
    t.Encodes decimalSigned ∧ ∃ v, t.build.toLua st = some ⟨v :: st.values, st.free - 1⟩ := by
  intro h
  obtain ⟨⟨hencode, -⟩, -⟩ := h (.leaf (.double 0)) ⟨[], 20⟩ (fun _ _ h => by cases h)
  rw [ReplyTree.build, encode_leaf] at hencode
  exact absurd (congrArg Prod.snd hencode) Bool.false_ne_true

end Comms
