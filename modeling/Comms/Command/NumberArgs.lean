import Comms.Command.Numbers
import Comms.Command.SmallKv

/-!
# Numbers on their way to the store

A handler parses a number at one width and hands it to the store at another, negated or multiplied on
the way: `SET` keeps its `EX` in an `int32_t`, `DECRBY` negates an `int64`, `EXPIREAT` multiplies a
`uint64` by `1000` and `SCAN` a `uint32` by `10`.

* `scan` — the `SCAN` family, with the call it makes;
* `setNumbers`, `setOptions_eq` — the options of `SET` before they are narrowed;
* `Passes` — the number arrives as it is, or the command is refused;
* `passes_iff` — the numbers that do.
-/

namespace Comms

/-! ### `SCAN` -/

/-- `cmd.GetType()` of the commands that share `Scan`. -/
inductive ScanType
  | scan
  | sscan
  | hscan
  | zscan
deriving DecidableEq, Repr

/-- `Scan`, `SScan`, `HScan` or `ZScan` of the store. -/
structure ScanCall where
  type : ScanType
  /-- The key, which `Scan` does not take. -/
  key : Option Bytes
  cursor : ℕ
  pattern : Bytes
  limit : ℕ
deriving DecidableEq, Repr

/-- `limit` and `pattern`. -/
structure ScanOptions where
  limit : ℕ
  pattern : Bytes
deriving DecidableEq, Repr

/-- The loop over the options of `SCAN`; the error is the text of the reply. -/
def scanOptions : List Bytes → ScanOptions → Except String ScanOptions
  | [], o => .ok o
  | opt :: rest, o =>
    if eqNoCase opt [99, 111, 117, 110, 116] then
      match rest with
      | [] => .error "value is not an integer or out of range"
      | n :: rest =>
        match stringToUInt32 n with
        | none => .error "value is not an integer or out of range"
        | some limit => scanOptions rest { o with limit := limit }
    else if eqNoCase opt [109, 97, 116, 99, 104] then
      match rest with
      | [] => .error "'MATCH' need one args followed"
      | pattern :: rest => scanOptions rest { o with pattern := pattern }
    else .error "Syntax error, try scan 0 "

/-- What `Scan` did: its reply and the call it made. -/
structure Scanned (Num : Type) where
  reply : Reply Num
  call : Option ScanCall

/-- `arg_start`, where the cursor stands. -/
def ScanType.argStart : ScanType → ℕ
  | .scan => 0
  | _ => 1

/-- `Scan`. `store` answers with the new cursor and the elements found. -/
def scan {Num : Type} (store : ScanCall → ℤ × List Bytes) (type : ScanType) (args : List Bytes) :
    Scanned Num :=
  match scanOptions (args.drop (type.argStart + 1)) ⟨1000, []⟩ with
  | .error text => ⟨.fillError text, none⟩
  | .ok o =>
    match stringToUInt32 (arg args type.argStart) with
    | none => ⟨.fillError "value is not an integer or out of range", none⟩
    | some cursor =>
      let call : ScanCall :=
        { type := type, key := if type = .scan then none else some (arg args 0), cursor := cursor
          pattern := o.pattern
          -- `uint32 scan_count_limit = limit * 10`
          limit := o.limit * 10 % 2 ^ 32 }
      ⟨.array [.int (store call).1, .strArray (store call).2], some call⟩

/-! ### The options of `SET` -/

/-- The loop over the options of `SET`, with `EX` as the number it is. -/
def setNumbers : List Bytes → SetOptions → Except String SetOptions
  | [], o => .ok o
  | opt :: rest, o =>
    if eqNoCase opt [112, 120] || eqNoCase opt [101, 120] then
      match rest with
      | [] => .error "value is not an integer or out of range"
      | n :: rest =>
        match rawToInt64 n with
        | none => .error "value is not an integer or out of range"
        | some iv =>
          if iv < 0 then .error "value is not an integer or out of range"
          else if eqNoCase opt [112, 120] then setNumbers rest { o with px := iv }
          else setNumbers rest { o with ex := iv }
    else if eqNoCase opt [120, 120] then setNumbers rest { o with nxXx := 1 }
    else if eqNoCase opt [110, 120] then setNumbers rest { o with nxXx := 0 }
    else .error "syntax error"

/-- `int32_t ex`. -/
def SetOptions.narrow (o : SetOptions) : SetOptions := { o with ex := o.ex.bmod (2 ^ 32) }

/-- **The loop of the handler** keeps the numbers narrowed. -/
theorem setOptions_eq (opts : List Bytes) (o : SetOptions) :
    setOptions opts o.narrow = (setNumbers opts o).map SetOptions.narrow := by
  induction opts, o using setNumbers.induct with
  | case1 o => rfl
  | case2 opt o hopt =>
    rw [setOptions, setNumbers, if_pos hopt, if_pos hopt]
    rfl
  | case3 opt o hopt n rest hn =>
    rw [setOptions, setNumbers, if_pos hopt, if_pos hopt]
    simp only [hn]
    rfl
  | case4 opt o hopt n rest iv hn hneg =>
    rw [setOptions, setNumbers, if_pos hopt, if_pos hopt]
    simp only [hn, if_pos hneg]
    rfl
  | case5 opt o hopt n rest iv hn hneg hpx ih =>
    rw [setOptions, setNumbers, if_pos hopt, if_pos hopt]
    simp only [hn, if_neg hneg, if_pos hpx]
    exact ih
  | case6 opt o hopt n rest iv hn hneg hpx ih =>
    rw [setOptions, setNumbers, if_pos hopt, if_pos hopt]
    simp only [hn, if_neg hneg, if_neg hpx]
    exact ih
  | case7 opt rest o hopt hxx ih =>
    unfold setOptions setNumbers
    rw [if_neg hopt, if_neg hopt, if_pos hxx, if_pos hxx]
    exact ih
  | case8 opt rest o hopt hxx hnx ih =>
    unfold setOptions setNumbers
    rw [if_neg hopt, if_neg hopt, if_neg hxx, if_neg hxx, if_pos hnx,
      if_pos hnx]
    exact ih
  | case9 opt rest o hopt hxx hnx =>
    unfold setOptions setNumbers
    rw [if_neg hopt, if_neg hopt, if_neg hxx, if_neg hxx, if_neg hnx,
      if_neg hnx]
    rfl

theorem rawToInt64_holds {raw : Bytes} {v : ℤ} (h : rawToInt64 raw = some v) :
    IntType.int64.Holds v := by
  have hvalue : v = 0 ∨ (∃ n : ℕ, v = -(n : ℤ) ∧ n ≤ 2 ^ 63) ∨ ∃ n : ℕ, v = n ∧ n < 2 ^ 63 := by
    simp only [rawToInt64] at h
    split_ifs at h
    · exact .inl (Option.some.inj h).symm
    · exact .inr (.inl ⟨_, (Option.some.inj h).symm, by omega⟩)
    · exact .inr (.inr ⟨_, (Option.some.inj h).symm, by omega⟩)
  change -2 ^ 63 ≤ v ∧ v < 2 ^ 63
  rcases hvalue with rfl | ⟨n, rfl, hn⟩ | ⟨n, rfl, hn⟩
  · decide
  · omega
  · omega

/-- The numbers among the options of `SET`: `-1`, or what `raw_toint64` read. -/
def SetOptions.Read (o : SetOptions) : Prop := -1 ≤ o.ex ∧ IntType.int64.Holds o.px

theorem setNumbers_read {opts : List Bytes} {o o' : SetOptions} (ho : o.Read)
    (h : setNumbers opts o = .ok o') : o'.Read := by
  induction opts, o using setNumbers.induct with
  | case1 o =>
    obtain rfl := Except.ok.inj h
    exact ho
  | case2 opt o hopt =>
    rw [setNumbers, if_pos hopt] at h
    cases h
  | case3 opt o hopt n rest hn =>
    rw [setNumbers, if_pos hopt] at h
    simp only [hn] at h
    cases h
  | case4 opt o hopt n rest iv hn hneg =>
    rw [setNumbers, if_pos hopt] at h
    simp only [hn, if_pos hneg] at h
    cases h
  | case5 opt o hopt n rest iv hn hneg hpx ih =>
    rw [setNumbers, if_pos hopt] at h
    simp only [hn, if_neg hneg, if_pos hpx] at h
    exact ih ⟨ho.1, rawToInt64_holds hn⟩ h
  | case6 opt o hopt n rest iv hn hneg hpx ih =>
    rw [setNumbers, if_pos hopt] at h
    simp only [hn, if_neg hneg, if_neg hpx] at h
    exact ih ⟨by change -1 ≤ iv; omega, ho.2⟩ h
  | case7 opt rest o hopt hxx ih =>
    unfold setNumbers at h
    rw [if_neg hopt, if_pos hxx] at h
    exact ih ho h
  | case8 opt rest o hopt hxx hnx ih =>
    unfold setNumbers at h
    rw [if_neg hopt, if_neg hxx, if_pos hnx] at h
    exact ih ho h
  | case9 opt rest o hopt hxx hnx =>
    unfold setNumbers at h
    rw [if_neg hopt, if_neg hxx, if_neg hnx] at h
    cases h

/-! ### What arrives -/

section Passes

variable {V Num : Type}

/-- A number that fits the parameter of the call arrives there; with any other the command is
refused. -/
def Passes (s : Keyspace V) (o : Outcome V Num) (fits : Prop) (call : KvCall Num) : Prop :=
  (fits → o.calls = [call]) ∧
    (¬ fits → o.calls = [] ∧ o.store = s ∧ ∃ text, o.reply = .fillError text)

/-- The same for a call of the `SCAN` family. -/
def Scanned.Passes (o : Scanned Num) (fits : Prop) (call : ScanCall) : Prop :=
  (fits → o.call = some call) ∧ (¬ fits → o.call = none ∧ ∃ text, o.reply = .fillError text)

/-- A handler that makes a call in any case passes a number on if it fits and is not changed. -/
theorem passes_iff_of_calls {s : Keyspace V} {o : Outcome V Num} {fits : Prop}
    {call made : KvCall Num} (h : o.calls = [made]) (hmade : fits ↔ made = call) :
    Passes s o fits call ↔ fits := by
  constructor
  · rintro ⟨-, hnot⟩
    by_contra hfits
    rw [h] at hnot
    cases (hnot hfits).1
  · intro hfits
    exact ⟨fun _ => by rw [h, hmade.mp hfits], fun hnot => absurd hfits hnot⟩

variable (kv : Kv V Num) (s : Keyspace V) (env : CallEnv)

/-- `SET` with the numbers of its options. -/
theorem set_passes_iff {args : List Bytes} {o : SetOptions}
    (h : setNumbers (args.drop 2) ⟨-1, -1, -1⟩ = .ok o) :
    Passes s (Comms.set kv s env args) (IntType.int32.Holds o.ex ∧ IntType.int64.Holds o.px)
      (.set (arg args 0) (arg args 1) o.ex o.px o.nxXx) ↔ o.ex < 2 ^ 31 := by
  obtain ⟨hex, hpx⟩ := setNumbers_read (o := ⟨-1, -1, -1⟩) ⟨le_rfl, by decide⟩ h
  have hnarrow := setOptions_eq (args.drop 2) ⟨-1, -1, -1⟩
  rw [h, show (⟨-1, -1, -1⟩ : SetOptions).narrow = ⟨-1, -1, -1⟩ by decide] at hnarrow
  have hcalls : (Comms.set kv s env args).calls =
      [.set (arg args 0) (arg args 1) (o.ex.bmod (2 ^ 32)) o.px o.nxXx] := by
    unfold Comms.set
    rw [hnarrow]
    exact runCall_calls ..
  have hfits : IntType.int32.Holds o.ex ∧ IntType.int64.Holds o.px ↔ o.ex < 2 ^ 31 := by
    change (-2 ^ 31 ≤ o.ex ∧ o.ex < 2 ^ 31) ∧ _ ↔ _
    exact ⟨fun h => h.1.2, fun h => ⟨⟨by omega, h⟩, hpx⟩⟩
  rw [passes_iff_of_calls hcalls, hfits]
  rw [hfits, KvCall.set.injEq]
  rw [Int.bmod_def]
  constructor
  · intro hlt
    exact ⟨rfl, rfl, by split <;> omega, rfl, rfl⟩
  · rintro ⟨-, -, hmod, -, -⟩
    split at hmod <;> omega

theorem decrby_passes_iff {args : List Bytes} {n : ℤ} (h : stringToInt64 (arg args 1) = some n) :
    Passes s (Comms.decrby kv s env args) (IntType.int64.Holds (-n)) (.incrBy (arg args 0) (-n)) ↔
      n ≠ -2 ^ 63 := by
  have hcalls : (Comms.decrby kv s env args).calls =
      [.incrBy (arg args 0) ((-n).bmod (2 ^ 64))] := by
    unfold Comms.decrby withInt64
    rw [h]
    exact runCall_calls ..
  have hn : IntType.int64.Holds n := stringToInt64_holds h
  change -2 ^ 63 ≤ n ∧ n < 2 ^ 63 at hn
  have hfits : IntType.int64.Holds (-n) ↔ n ≠ -2 ^ 63 := by
    change -2 ^ 63 ≤ -n ∧ -n < 2 ^ 63 ↔ _
    omega
  rw [passes_iff_of_calls hcalls, hfits]
  rw [hfits, KvCall.incrBy.injEq, Int.bmod_def]
  constructor
  · intro hne
    exact ⟨rfl, by split <;> omega⟩
  · rintro ⟨-, hmod⟩
    split at hmod <;> omega

theorem expireat_passes_iff {args : List Bytes} {n : ℕ}
    (h : stringToUInt64 (arg args 1) = some n) :
    Passes s (Comms.expireat kv s env args) (IntType.uint64.Holds (n * 1000))
      (.pexpireat (arg args 0) (n * 1000)) ↔ n * 1000 < 2 ^ 64 := by
  have hcalls : (Comms.expireat kv s env args).calls =
      [.pexpireat (arg args 0) (n * 1000 % 2 ^ 64)] := by
    unfold Comms.expireat withUInt64
    rw [h]
    exact runCall_calls ..
  have hfits : IntType.uint64.Holds (n * 1000) ↔ n * 1000 < 2 ^ 64 := by
    change (0 : ℤ) ≤ n * 1000 ∧ (n : ℤ) * 1000 < 2 ^ 64 ↔ _
    omega
  rw [passes_iff_of_calls hcalls, hfits]
  rw [hfits, KvCall.pexpireat.injEq]
  constructor
  · intro hlt
    exact ⟨rfl, Nat.mod_eq_of_lt hlt⟩
  · rintro ⟨-, hmod⟩
    omega

theorem scan_passes_iff (store : ScanCall → ℤ × List Bytes) (type : ScanType) {args : List Bytes}
    {o : ScanOptions} {cursor : ℕ}
    (ho : scanOptions (args.drop (type.argStart + 1)) ⟨1000, []⟩ = .ok o)
    (hcursor : stringToUInt32 (arg args type.argStart) = some cursor) :
    (scan store type args : Scanned Num).Passes (IntType.uint32.Holds (10 * o.limit))
      { type := type, key := if type = .scan then none else some (arg args 0), cursor := cursor
        pattern := o.pattern, limit := 10 * o.limit } ↔ 10 * o.limit < 2 ^ 32 := by
  have hfits : IntType.uint32.Holds (10 * o.limit) ↔ 10 * o.limit < 2 ^ 32 := by
    change (0 : ℤ) ≤ 10 * o.limit ∧ 10 * (o.limit : ℤ) < 2 ^ 32 ↔ _
    omega
  unfold Scanned.Passes scan
  rw [ho]
  dsimp only
  rw [hcursor, hfits]
  dsimp only
  constructor
  · rintro ⟨-, hnot⟩
    by_contra hlt
    cases (hnot hlt).1
  · intro hlt
    refine ⟨fun _ => ?_, fun hnot => absurd hlt hnot⟩
    rw [Nat.mul_comm o.limit, Nat.mod_eq_of_lt hlt]

/-- **The numbers that arrive as they are.** `EX` below `2^31` and every `PX`; every decrement but
`-2^63`; a point in time whose milliseconds fit 64 bits; a count of which ten times fit 32 bits. -/
theorem number_arrives_iff :
    (∀ args o, setNumbers (args.drop 2) ⟨-1, -1, -1⟩ = .ok o →
      (Passes s (Comms.set kv s env args) (IntType.int32.Holds o.ex ∧ IntType.int64.Holds o.px)
        (.set (arg args 0) (arg args 1) o.ex o.px o.nxXx) ↔ o.ex < 2 ^ 31)) ∧
    (∀ args n, stringToInt64 (arg args 1) = some n →
      (Passes s (Comms.decrby kv s env args) (IntType.int64.Holds (-n))
        (.incrBy (arg args 0) (-n)) ↔ n ≠ -2 ^ 63)) ∧
    (∀ args n, stringToUInt64 (arg args 1) = some n →
      (Passes s (Comms.expireat kv s env args) (IntType.uint64.Holds (n * 1000))
        (.pexpireat (arg args 0) (n * 1000)) ↔ n * 1000 < 2 ^ 64)) ∧
    ∀ (store : ScanCall → ℤ × List Bytes) type args o cursor,
      scanOptions (args.drop (type.argStart + 1)) ⟨1000, []⟩ = .ok o →
      stringToUInt32 (arg args type.argStart) = some cursor →
      ((scan store type args : Scanned Num).Passes (IntType.uint32.Holds (10 * o.limit))
        { type := type, key := if type = .scan then none else some (arg args 0), cursor := cursor
          pattern := o.pattern, limit := 10 * o.limit } ↔ 10 * o.limit < 2 ^ 32) :=
  ⟨fun _ _ h => set_passes_iff kv s env h, fun _ _ h => decrby_passes_iff kv s env h,
    fun _ _ h => expireat_passes_iff kv s env h,
    fun store type _ _ _ ho hcursor => scan_passes_iff store type ho hcursor⟩

end Passes

/-- `SET k v EX 60`, `DECRBY k 7`, `EXPIREAT k 7` and `SCAN 0 COUNT 7`. -/
theorem number_arrives_small :
    (Passes (fun _ _ => none) (Comms.set smallKv (fun _ _ => none) ⟨0, false, true, true⟩
        [[107], [118], [69, 88], [54, 48]]) (IntType.int32.Holds 60 ∧ IntType.int64.Holds (-1))
      (.set [107] [118] 60 (-1) (-1)) ↔ (60 : ℤ) < 2 ^ 31) ∧
    (Passes (fun _ _ => none) (Comms.decrby smallKv (fun _ _ => none) ⟨0, false, true, true⟩
        [[107], [55]]) (IntType.int64.Holds (-7)) (.incrBy [107] (-7)) ↔ (7 : ℤ) ≠ -2 ^ 63) ∧
    (Passes (fun _ _ => none) (Comms.expireat smallKv (fun _ _ => none) ⟨0, false, true, true⟩
        [[107], [55]]) (IntType.uint64.Holds ((7 : ℕ) * 1000)) (.pexpireat [107] (7 * 1000)) ↔
      7 * 1000 < 2 ^ 64) ∧
    ((scan (fun _ => (0, [])) .scan [[48], [67, 79, 85, 78, 84], [55]] : Scanned ℤ).Passes
      (IntType.uint32.Holds (10 * (7 : ℕ))) ⟨.scan, none, 0, [], 10 * 7⟩ ↔ 10 * 7 < 2 ^ 32) :=
  ⟨(number_arrives_iff smallKv (fun _ _ => none) ⟨0, false, true, true⟩).1
      [[107], [118], [69, 88], [54, 48]] ⟨60, -1, -1⟩ (by decide),
    (number_arrives_iff smallKv (fun _ _ => none) ⟨0, false, true, true⟩).2.1 [[107], [55]] 7
      (by decide),
    (number_arrives_iff smallKv (fun _ _ => none) ⟨0, false, true, true⟩).2.2.1 [[107], [55]] 7
      (by decide),
    (number_arrives_iff smallKv (fun _ _ => none) ⟨0, false, true, true⟩).2.2.2
      (fun _ => (0, [])) .scan [[48], [67, 79, 85, 78, 84], [55]] ⟨7, []⟩ 0 (by decide)
      (by decide)⟩

/-- `SET k v EX 2147483648` passes `-2147483648`. -/
theorem ex_narrowed :
    ¬ ∀ args o, setNumbers (args.drop 2) ⟨-1, -1, -1⟩ = .ok o →
      Passes (fun _ _ => none) (Comms.set smallKv (fun _ _ => none) ⟨0, false, true, true⟩ args)
        (IntType.int32.Holds o.ex ∧ IntType.int64.Holds o.px)
        (.set (arg args 0) (arg args 1) o.ex o.px o.nxXx) := by
  intro h
  have hset := h [[107], [118], [69, 88], [50, 49, 52, 55, 52, 56, 51, 54, 52, 56]]
    ⟨2147483648, -1, -1⟩ (by decide)
  have hcalls := (hset.2 (by decide)).1
  exact absurd hcalls (by decide)

end Comms
