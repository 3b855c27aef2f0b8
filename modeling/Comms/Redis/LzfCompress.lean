import Comms.Redis.LzfDecompress
import Mathlib.Data.UInt
import Mathlib.Logic.Function.Basic

/-!
# `lzf_compress`

`lzf_compress` of `common/redis/lzf_c.c`, with the settings of `lzfP.h`: `HLOG` is 16, `VERY_FAST`
is set, `INIT_HTAB` is not. The slots of the hash table are addresses, and hold at the start what
the stack holds. As in `Comms.Redis.LzfDecompress`, a step that would read or write outside of an
array gives `none`.

* `frst`, `next`, `idx`, `isMatch`, `matchLen`, `stopRun`, `putReference`, `putLiteral`, `rehash`,
  `lzfCompressStep`, `lzfCompress` — from the source;
* `Running`, `Between` — the output inside of a run of literals, and between two pieces;
* `isMatch_true`, `matchLen_eq` — a slot that passes the tests points to a repeat;
* `lzfCompress_pieces` — the output is the bytes of pieces of the input, and no step leaves the
  arrays, if that of the output has one byte more than is allowed for.
-/

namespace Comms
namespace Redis

open BackReference

section Source

variable (base : UInt64) (input : Bytes) (outLen : ℕ)

/-- The address of `in_data[i]`. -/
def addr (i : ℕ) : UInt64 := base + UInt64.ofNat i

/-- `*p`, of the input. -/
def deref (p : UInt64) : Option UInt8 :=
  if base ≤ p then input[(p - base).toNat]? else none

/-- `FRST (ip)`. -/
def frst (ip : ℕ) : Option UInt32 := do
  let p0 ← input[ip]?
  let p1 ← input[ip + 1]?
  return p0.toUInt32 <<< 8 ||| p1.toUInt32

/-- `NEXT (v, ip)`. -/
def next (v : UInt32) (ip : ℕ) : Option UInt32 := do
  let p2 ← input[ip + 2]?
  return v <<< 8 ||| p2.toUInt32

/-- `IDX (h)`. -/
def idx (h : UInt32) : UInt16 := (h >>> 8 - h * 5).toUInt16

/-- `ref[len] == ip[len]`. -/
def sameAt (ref : UInt64) (ip len : ℕ) : Option Bool := do
  let r ← deref base input (ref + UInt64.ofNat len)
  let i ← input[ip + len]?
  return r == i

/-- The three tests before a match. The slot is only followed if it points to one of the `MAX_OFF`
bytes before `ip`. -/
def isMatch (ref : UInt64) (ip : ℕ) : Option Bool :=
  if addr base ip - ref - 1 < 8192 ∧ ip + 4 < input.length ∧ base < ref then do
    let first ← sameAt base input ref ip 0
    let second ← sameAt base input ref ip 1
    if first && second then sameAt base input ref ip 2 else return false
  else return false

/-- `len++; if (ref[len] != ip[len]) break;`, `n` times: `len`, and whether it was the `break`. -/
def unrolled (ref : UInt64) (ip : ℕ) : ℕ → ℕ → Option (ℕ × Bool)
  | 0, len => some (len, false)
  | n + 1, len => do
    if ← sameAt base input ref ip (len + 1) then unrolled ref ip n (len + 1) else return (len + 1, true)

/-- `do len++; while (len < maxlen && ref[len] == ip[len]);` -/
def compareUpTo (ref : UInt64) (ip maxlen : ℕ) : ℕ → ℕ → Option ℕ
  | 0, _ => none
  | n + 1, len =>
    if len + 1 < maxlen then do
      if ← sameAt base input ref ip (len + 1) then compareUpTo ref ip maxlen n (len + 1) else return len + 1
    else return len + 1

/-- `for (;;)`: the number of bytes of the match. -/
def matchLen (ref : UInt64) (ip : ℕ) : Option ℕ :=
  let left := input.length - ip - 2
  let maxlen := if 264 < left then 264 else left
  if 16 < maxlen then do
    let (len, broke) ← unrolled base input ref ip 16 2
    if broke then return len else compareUpTo base input ref ip maxlen (maxlen + 1) len
  else compareUpTo base input ref ip maxlen (maxlen + 1) 2

/-- The variables of the loop. -/
structure Compressor where
  ip : ℕ
  op : ℕ
  lit : ℕ
  hval : UInt32
  htab : UInt16 → UInt64
  out : Bytes

/-- Stop the run, and undo it if it has no bytes. -/
def stopRun (s : Compressor) : Option Compressor := do
  let out ← storeAt s.out (s.op - s.lit - 1) (UInt8.ofNat s.lit - 1)
  return { s with out, op := if s.lit = 0 then s.op - 1 else s.op }

/-- The bytes of a match, `len` being two less than it has. -/
def putReference (off : UInt64) (len : ℕ) (s : Compressor) : Option Compressor :=
  if len < 7 then do
    let out ← storeAt s.out s.op (off >>> 8 + UInt64.ofNat (len * 32)).toUInt8
    let out ← storeAt out (s.op + 1) off.toUInt8
    return { s with out, op := s.op + 2 }
  else do
    let out ← storeAt s.out s.op (off >>> 8 + UInt64.ofNat (7 * 32)).toUInt8
    let out ← storeAt out (s.op + 1) (UInt8.ofNat (len - 7))
    let out ← storeAt out (s.op + 2) off.toUInt8
    return { s with out, op := s.op + 3 }

/-- `lit++; *op++ = *ip++;`, and a run of `MAX_LIT` bytes ends. -/
def putLiteral (s : Compressor) : Option Compressor := do
  let b ← input[s.ip]?
  let out ← storeAt s.out s.op b
  if s.lit + 1 = 32 then do
    let out ← storeAt out (s.op + 1 - 32 - 1) 31
    return { s with ip := s.ip + 1, op := s.op + 1 + 1, lit := 0, out }
  else return { s with ip := s.ip + 1, op := s.op + 1, lit := s.lit + 1, out }

/-- `htab[IDX (hval)] = ip` for the last two bytes of a match. -/
def rehash (s : Compressor) : Option Compressor := do
  let ip := s.ip - 2
  let hval ← frst input ip
  let hval ← next input hval ip
  let htab := Function.update s.htab (idx hval) (addr base ip)
  let hval ← next input hval (ip + 1)
  let htab := Function.update htab (idx hval) (addr base (ip + 1))
  return { s with ip := ip + 2, hval, htab }

/-- How the body of the loop ends: at its end, with `break`, or with `return 0`. -/
inductive Next
  | again (s : Compressor)
  | leave (s : Compressor)
  | full (s : Compressor)

/-- A match found at `ref`. -/
def takeMatch (ref : UInt64) (s : Compressor) : Option Next := do
  let off := addr base s.ip - ref - 1
  let s ← stopRun s
  if outLen ≤ s.op + 3 + 1 then return .full s
  let len ← matchLen base input ref s.ip
  let s ← putReference off (len - 2) s
  let s := { s with ip := s.ip + len, lit := 0, op := s.op + 1 }
  if input.length ≤ s.ip + 2 then return .leave s
  return .again (← rehash base input s)

/-- One more literal byte. -/
def takeLiteral (s : Compressor) : Option Next :=
  if outLen ≤ s.op then return .full s
  else return .again (← putLiteral input s)

/-- The body of `while (ip < in_end - 2)`. -/
def lzfCompressStep (s : Compressor) : Option Next := do
  let hval ← next input s.hval s.ip
  let ref := s.htab (idx hval)
  let s := { s with hval, htab := Function.update s.htab (idx hval) (addr base s.ip) }
  if ← isMatch base input ref s.ip then takeMatch base input outLen ref s else takeLiteral input outLen s

/-- The loop, which goes on behind it, or returns `0`. -/
def lzfCompressLoop : ℕ → Compressor → Option Next
  | 0, _ => none
  | n + 1, s =>
    if s.ip + 2 < input.length then do
      match ← lzfCompressStep base input outLen s with
      | .again s => lzfCompressLoop n s
      | .leave s => return .leave s
      | .full s => return .full s
    else return .leave s

/-- `while (ip < in_end)`: the last bytes. -/
def putLiterals : ℕ → Compressor → Option Compressor
  | 0, s => some s
  | n + 1, s => do putLiterals n (← putLiteral input s)

/-- `lzf_compress`: what it returns, and what is then in `out_data`. -/
def lzfCompress (htab : UInt16 → UInt64) (out : Bytes) : Option (ℕ × Bytes) :=
  if input.length = 0 ∨ outLen = 0 then some (0, out)
  else do
    let hval ← frst input 0
    match ← lzfCompressLoop base input outLen (input.length + 1) ⟨0, 1, 0, hval, htab, out⟩ with
    | .again s | .full s => return (0, s.out)
    | .leave s =>
      if outLen < s.op + 3 then return (0, s.out)
      let s ← putLiterals input (input.length - s.ip) s
      let s ← stopRun s
      return (s.op, s.out)

end Source

/-! ### Addresses -/

/-- The input has addresses, and none is in the first 8 KiB. -/
structure Located (base : UInt64) (input : Bytes) : Prop where
  low : 8192 ≤ base.toNat
  high : base.toNat + input.length < 2 ^ 64

section Addresses

variable {base : UInt64} {input : Bytes} (h : Located base input)

theorem addr_add (base : UInt64) (i k : ℕ) : addr base i + UInt64.ofNat k = addr base (i + k) := by
  rw [addr, addr, UInt64.ofNat_add, UInt64.add_assoc]

include h

theorem addr_toNat {i : ℕ} (hi : i ≤ input.length) : (addr base i).toNat = base.toNat + i := by
  have hhigh := h.high
  rw [addr, UInt64.toNat_add, UInt64.toNat_ofNat']
  omega

theorem deref_addr {i : ℕ} (hi : i < input.length) : deref base input (addr base i) = input[i]? := by
  have hnat := addr_toNat h (Nat.le_of_lt hi)
  have hle : base ≤ addr base i := by
    rw [UInt64.le_iff_toNat_le, hnat]
    exact Nat.le_add_right _ _
  rw [deref, if_pos hle, UInt64.toNat_sub_of_le _ _ hle, hnat, Nat.add_sub_cancel_left]

/-- A comparison inside of the input. -/
theorem sameAt_addr {r ip k : ℕ} (hr : r < ip) (hip : ip + k < input.length) :
    sameAt base input (addr base r) ip k = some (input[r + k]? == input[ip + k]?) := by
  have hrk : r + k < input.length := by omega
  rw [sameAt, addr_add, deref_addr h hrk, List.getElem?_eq_getElem hrk, List.getElem?_eq_getElem hip]
  rfl

/-- What a slot points to, whose distance is below `MAX_OFF`, and which is above `in_data`. -/
theorem slot_inside {ref : UInt64} {ip : ℕ} (hip : ip ≤ input.length)
    (hoff : addr base ip - ref - 1 < 8192)
    (hbase : base < ref) :
    ∃ r, 1 ≤ r ∧ r < ip ∧ ref = addr base r ∧ (addr base ip - ref - 1).toNat = ip - 1 - r ∧
      ip - 1 - r < 8192 := by
  have hnat := addr_toNat h hip
  have hlow := h.low
  have hhigh := h.high
  have href := ref.toNat_lt
  rw [UInt64.lt_iff_toNat_lt] at hoff hbase
  have hsub : (addr base ip - ref - 1).toNat =
    (2 ^ 64 - 1 + (2 ^ 64 - ref.toNat + (base.toNat + ip)) % 2 ^ 64) % 2 ^ 64 := by
    rw [UInt64.toNat_sub, UInt64.toNat_sub, hnat]
    rfl
  have hoff' : (addr base ip - ref - 1).toNat < 8192 := hoff
  rw [hsub] at hoff'
  have hr : (addr base (ref.toNat - base.toNat)).toNat = base.toNat + (ref.toNat - base.toNat) :=
    addr_toNat h (by omega)
  refine ⟨ref.toNat - base.toNat, by omega, by omega, ?_, by omega, by omega⟩
  apply UInt64.toNat_inj.mp
  omega

end Addresses

/-! ### A match -/

section Match

variable {base : UInt64} {input : Bytes} {r ip : ℕ}

/-- The first `n` bytes from `r` and from `ip` are the same. -/
def Agree (input : Bytes) (r ip n : ℕ) : Prop :=
  ∀ i < n, input[ip + i]? = input[r + i]?

theorem Agree.succ {n : ℕ} (h : Agree input r ip n) (heq : (input[r + n]? == input[ip + n]?) = true) :
    Agree input r ip (n + 1) := by
  intro i hi
  rcases Nat.lt_succ_iff_lt_or_eq.mp hi with hlt | rfl
  · exact h i hlt
  · exact (eq_of_beq heq).symm

variable (h : Located base input)
include h

/-- **A slot that passes the tests** points into the input, and three bytes agree. -/
theorem isMatch_cases {ref : UInt64} (hip : ip + 2 < input.length) :
    isMatch base input ref ip = some false ∨ isMatch base input ref ip = some true ∧
        ip + 4 < input.length ∧
      ∃ r, 1 ≤ r ∧ r < ip ∧ ref = addr base r ∧ (addr base ip - ref - 1).toNat = ip - 1 - r ∧
        ip - 1 - r < 8192 ∧ Agree input r ip 3 := by
  by_cases hcond : addr base ip - ref - 1 < 8192 ∧ ip + 4 < input.length ∧ base < ref
  swap
  · exact .inl (if_neg hcond)
  obtain ⟨r, hpos, hlt, rfl, hoff, hmax⟩ := slot_inside h (by omega) hcond.1 hcond.2.2
  have hzero := sameAt_addr h hlt (show ip + 0 < input.length by omega)
  have hone := sameAt_addr h hlt (show ip + 1 < input.length by omega)
  have htwo := sameAt_addr h hlt hip
  rw [isMatch, if_pos hcond, hzero, hone, htwo]
  change (if (_ && _) = true then some _ else some false) = _ ∨ (if (_ && _) =
    true then some _ else some false) = _ ∧ _
  by_cases hboth : ((input[r + 0]? == input[ip + 0]?) && (input[r + 1]? == input[ip + 1]?)) = true
  swap
  · exact .inl (if_neg hboth)
  rw [if_pos hboth]
  obtain ⟨h0, h1⟩ := Bool.and_eq_true_iff.mp hboth
  cases h2 : input[r + 2]? == input[ip + 2]? with
  | false => exact .inl rfl
  | true =>
    refine .inr ⟨rfl, hcond.2.1, r, hpos, hlt, rfl, hoff, hmax, ?_⟩
    exact ((Agree.succ (fun i hi => absurd hi (Nat.not_lt_zero i)) h0).succ h1).succ h2

variable (hr : r < ip)
include hr

/-- The unrolled comparisons, of which the last may be a `break`. -/
theorem unrolled_eq {n len : ℕ} (hip : ip + len + n < input.length)
    (hagree : Agree input r ip (len + 1)) :
    ∃ len' broke, unrolled base input (addr base r) ip n len = some (len', broke) ∧ len ≤ len' ∧
      len' ≤ len + n ∧
      (broke = true → len < len' ∧ Agree input r ip len') ∧ (broke = false → len' = len + n ∧
        Agree input r ip (len' + 1)) := by
  induction n generalizing len with
  | zero => exact ⟨len, false, rfl, le_rfl, le_rfl, (fun h => by cases h), fun _ => ⟨rfl, hagree⟩⟩
  | succ n ih =>
    have hsame := sameAt_addr h hr (show ip + (len + 1) < input.length by omega)
    rw [unrolled, hsame]
    cases heq : input[r + (len + 1)]? == input[ip + (len + 1)]? with
    | false => exact ⟨len + 1, true, rfl, by omega, by omega, fun _ => ⟨by omega, hagree⟩,
        fun h => by cases h⟩
    | true =>
      obtain ⟨len', broke, hrun, hge, hle, hbroke, hend⟩ := ih (by omega) (hagree.succ heq)
      refine ⟨len', broke, hrun, by omega, by omega, fun h => ?_, fun h => ?_⟩
      · obtain ⟨hlt, hless⟩ := hbroke h
        exact ⟨by omega, hless⟩
      · obtain ⟨hlen, hmore⟩ := hend h
        exact ⟨by omega, hmore⟩

theorem compareUpTo_eq {maxlen fuel len : ℕ} (hip : ip + maxlen ≤ input.length)
    (hfuel : maxlen - len < fuel)
    (hagree : Agree input r ip (len + 1)) :
    ∃ len', compareUpTo base input (addr base r) ip maxlen fuel len = some len' ∧ len < len' ∧
      (len' ≤ maxlen ∨ len' = len + 1) ∧ Agree input r ip len' := by
  induction fuel generalizing len with
  | zero => omega
  | succ fuel ih =>
    by_cases hlt : len + 1 < maxlen
    swap
    · exact ⟨len + 1, if_neg hlt, Nat.lt_succ_self _, .inr rfl, hagree⟩
    have hsame := sameAt_addr h hr (show ip + (len + 1) < input.length by omega)
    rw [compareUpTo, if_pos hlt, hsame]
    cases heq : input[r + (len + 1)]? == input[ip + (len + 1)]? with
    | false => exact ⟨len + 1, rfl, Nat.lt_succ_self _, .inr rfl, hagree⟩
    | true =>
      obtain ⟨len', hrun, hgt, hle, hmore⟩ := ih (by omega) (hagree.succ heq)
      exact ⟨len', hrun, by omega, .inl (by omega), hmore⟩

/-- **The length of a match**: as many bytes agree, they are in the input, and the format has room
for it. -/
theorem matchLen_eq (hip : ip + 4 < input.length) (hagree : Agree input r ip 3) :
    ∃ len, matchLen base input (addr base r) ip = some len ∧ 3 ≤ len ∧ len ≤ 264 ∧
      ip + len ≤ input.length ∧
      Agree input r ip len := by
  have hmax : ∃ maxlen, (if 264 < input.length - ip - 2 then 264 else input.length - ip - 2) = maxlen ∧
      3 ≤ maxlen ∧ maxlen ≤ 264 ∧ ip + maxlen + 2 ≤ input.length := by
    refine ⟨_, rfl, ?_⟩
    split <;> omega
  obtain ⟨maxlen, hdef, hmin, hmax, hend⟩ := hmax
  simp only [matchLen, hdef]
  by_cases hlong : 16 < maxlen
  · rw [if_pos hlong]
    obtain ⟨len, broke, hrun, hge, hle, hbroke, hall⟩ :=
      unrolled_eq h hr (show ip + 2 + 16 < input.length by omega) hagree
    rw [hrun]
    cases broke with
    | true =>
      obtain ⟨hgt, hless⟩ := hbroke rfl
      exact ⟨len, rfl, hgt, by omega, by omega, hless⟩
    | false =>
      obtain ⟨rfl, hmore⟩ := hall rfl
      obtain ⟨len', hrun', hgt, hle', hagree'⟩ :=
        compareUpTo_eq h hr (show ip + maxlen ≤ input.length by omega)
        (show maxlen - (2 + 16) < maxlen + 1 by omega) hmore
      exact ⟨len', hrun', by omega, by omega, by omega, hagree'⟩
  · rw [if_neg hlong]
    obtain ⟨len', hrun', hgt, hle', hagree'⟩ :=
      compareUpTo_eq h hr (show ip + maxlen ≤ input.length by omega)
      (show maxlen - 2 < maxlen + 1 by omega) hagree
    exact ⟨len', hrun', by omega, by omega, by omega, hagree'⟩

end Match

/-! ### The output -/

theorem storeAt_length {out after : Bytes} {i : ℕ} {b : UInt8} (h : storeAt out i b = some after) :
    after.length = out.length := by
  rw [storeAt] at h
  split at h
  · rw [← Option.some.inj h, List.length_set]
  · cases h

/-- Between two pieces: the output is the bytes of pieces that make the input up to `ip`, and
`rest`. -/
structure Between (input : Bytes) (s : Compressor) (ts : List (Token UInt8)) (rest : Bytes) : Prop where
  fits : ∀ t ∈ ts, Fits t
  text : expand ts [] = some (input.take s.ip)
  inside : s.ip ≤ input.length
  out : s.out = ts.flatMap tokenBytes ++ rest
  op : s.op = (ts.flatMap tokenBytes).length

/-- In a run of literals from `start`: behind the bytes of the pieces is one for the head of the
run. -/
structure Running (input : Bytes) (s : Compressor) (ts : List (Token UInt8)) (start : ℕ) (head : UInt8)
    (rest : Bytes) : Prop where
  fits : ∀ t ∈ ts, Fits t
  text : expand ts [] = some (input.take start)
  inside : s.ip ≤ input.length
  lit : s.ip = start + s.lit
  short : s.lit ≤ 32
  out : s.out = ts.flatMap tokenBytes ++ head :: ((input.drop start).take s.lit ++ rest)
  op : s.op = (ts.flatMap tokenBytes).length + 1 + s.lit

section Output

variable {input : Bytes} {s : Compressor} {ts : List (Token UInt8)} {start : ℕ} {head : UInt8} {rest : Bytes}

theorem Running.run_length (h : Running input s ts start head rest) :
    ((input.drop start).take s.lit).length = s.lit := by
  have hlit := h.lit
  have hin := h.inside
  rw [List.length_take, List.length_drop]
  omega

/-- A new run. -/
theorem Between.newRun (h : Between input s ts (head :: rest)) {s' : Compressor} (hip : s'.ip = s.ip)
    (hop : s'.op = s.op + 1) (hlit : s'.lit = 0) (hout : s'.out =
      s.out) : Running input s' ts s.ip head rest where
  fits := h.fits
  text := h.text
  inside := hip ▸ h.inside
  lit := by rw [hip, hlit, Nat.add_zero]
  short := hlit ▸ Nat.zero_le _
  out := by rw [hout, h.out, hlit]; rfl
  op := by rw [hop, h.op, hlit]

/-- The head of a run is written, and the run is a piece. -/
theorem Running.head_eq (h : Running input s ts start head rest) {b : UInt8} :
    storeAt s.out (s.op - s.lit - 1) b =
      some (ts.flatMap tokenBytes ++ b :: ((input.drop start).take s.lit ++ rest)) := by
  have hop := h.op
  rw [h.out, show s.op - s.lit - 1 = (ts.flatMap tokenBytes).length by omega, storeAt_append,
    List.append_assoc]
  rfl

/-- A run with bytes is a piece, as soon as its head is written. -/
theorem Running.close (h : Running input s ts start head rest) (hpos : 0 < s.lit) :
    ∃ after, storeAt s.out (s.op - s.lit - 1) (UInt8.ofNat s.lit - 1) = some after ∧
      ∃ ts', Between input { s with out := after } ts' rest := by
  have hone : UInt8.ofNat (s.lit - 1) = UInt8.ofNat s.lit - 1 := by
    have hshort := h.short
    apply UInt8.toNat_inj.mp
    rw [UInt8.toNat_sub, UInt8.toNat_ofNat', UInt8.toNat_ofNat']
    change (s.lit - 1) % 2 ^ 8 = (2 ^ 8 - 1 + s.lit % 2 ^ 8) % 2 ^ 8
    omega
  have hbytes : tokenBytes (.literal ((input.drop start).take s.lit)) =
      (UInt8.ofNat s.lit - 1) :: (input.drop start).take s.lit := by
    rw [tokenBytes, h.run_length, hone]
  refine ⟨_, h.head_eq, ts ++ [.literal ((input.drop start).take s.lit)], ?_, ?_, h.inside, ?_, ?_⟩
  · intro t ht
    rcases List.mem_append.mp ht with hold | hnew
    · exact h.fits t hold
    · rw [List.mem_singleton.mp hnew, Fits, h.run_length]
      exact ⟨hpos, h.short⟩
  · change expand _ [] = some (input.take s.ip)
    rw [h.lit]
    exact expand_concat_literal h.text s.lit
  · rw [List.flatMap_append, List.flatMap_singleton, hbytes, List.append_assoc]
    rfl
  · change s.op = _
    have hop := h.op
    rw [List.flatMap_append, List.flatMap_singleton, hbytes, List.length_append, List.length_cons,
      h.run_length]
    omega

/-- **The end of a run.** -/
theorem Running.stopRun (h : Running input s ts start head rest) :
    ∃ s' ts' rest', Redis.stopRun s = some s' ∧ Between input s' ts' rest' ∧ s'.ip = s.ip ∧ s'.op ≤ s.op ∧
      s.op ≤ s'.op + 1 ∧ s'.out.length = s.out.length := by
  have hop := h.op
  by_cases hzero : s.lit = 0
  · -- a run without bytes is undone
    have hip : s.ip = start := by rw [h.lit, hzero, Nat.add_zero]
    obtain ⟨after, hafter⟩ : ∃ after, after = ts.flatMap tokenBytes ++
        (UInt8.ofNat s.lit - 1) :: ((input.drop start).take s.lit ++ rest) := ⟨_, rfl⟩
    have hstore := h.head_eq (b := UInt8.ofNat s.lit - 1)
    rw [← hafter] at hstore
    refine ⟨{ s with out := after, op := s.op - 1 }, ts, (UInt8.ofNat s.lit - 1) :: rest, ?_,
      ⟨h.fits, hip ▸ h.text, h.inside, ?_, ?_⟩, rfl, Nat.sub_le _ _, ?_, storeAt_length hstore⟩
    · rw [Redis.stopRun, hstore, if_pos hzero]
      rfl
    · rw [hafter, hzero]
      rfl
    · change s.op - 1 = _
      omega
    · change s.op ≤ s.op - 1 + 1
      omega
  · obtain ⟨after, hstore, ts', hbetween⟩ := h.close (Nat.pos_of_ne_zero hzero)
    refine ⟨{ s with out := after }, ts', rest, ?_, hbetween, rfl, le_rfl, Nat.le_succ _,
      storeAt_length hstore⟩
    rw [Redis.stopRun, hstore, if_neg hzero]
    rfl

/-- **One literal more.** -/
theorem Running.putLiteral (h : Running input s ts start head rest) (hlit : s.lit < 32)
    (hip : s.ip < input.length) (hroom : s.op + 1 < s.out.length) :
    ∃ s' ts' start' head' rest', Redis.putLiteral input s = some s' ∧
      Running input s' ts' start' head' rest' ∧
      s'.lit < 32 ∧ s'.ip = s.ip + 1 ∧ s'.out.length = s.out.length ∧
      (s'.op = s.op + 1 ∧ s'.lit = s.lit + 1 ∨ s'.op = s.op + 2 ∧ s.lit = 31 ∧ s'.lit = 0) := by
  have hop := h.op
  obtain ⟨front, hfront⟩ : ∃ front, front =
    ts.flatMap tokenBytes ++ head :: (input.drop start).take s.lit :=
    ⟨_, rfl⟩
  have hout : s.out = front ++ rest := by
    rw [h.out, hfront, List.append_assoc]
    rfl
  have hlen : front.length = s.op := by
    rw [hfront, List.length_append, List.length_cons, h.run_length]
    omega
  have hrest : s.out.length = s.op + rest.length := by
    rw [hout, List.length_append, hlen]
  obtain ⟨y, rest, rfl⟩ := List.exists_cons_of_length_pos (show 0 < rest.length by omega)
  rw [List.length_cons] at hrest
  obtain ⟨y', rest', rfl⟩ := List.exists_cons_of_length_pos (show 0 < rest.length by omega)
  have hbyte : input[s.ip]? = some input[s.ip] := List.getElem?_eq_getElem hip
  have hstore : storeAt s.out s.op input[s.ip] = some (front ++ [input[s.ip]] ++ y' :: rest') := by
    rw [hout, ← hlen, storeAt_append]
  have hsize := storeAt_length hstore
  -- the run with the byte
  obtain ⟨s₁, hs₁⟩ : ∃ s₁ : Compressor, s₁ = { s with
    ip := s.ip + 1, op := s.op + 1, lit := s.lit + 1, out := front ++ [input[s.ip]] ++ y' :: rest' } :=
        ⟨_, rfl⟩
  have hrun : Running input s₁ ts start head (y' :: rest') := by
    subst hs₁
    refine ⟨h.fits, h.text, hip, ?_, hlit, ?_, ?_⟩
    · change s.ip + 1 = start + (s.lit + 1)
      rw [h.lit, Nat.add_assoc]
    · have hmore : (input.drop start).take (s.lit + 1) =
        (input.drop start).take s.lit ++ [input[s.ip]] := by
        have hget : (input.drop start)[s.lit]? = some input[s.ip] := by
          rw [List.getElem?_drop, ← h.lit, hbyte]
        rw [List.take_add_one, hget]
        rfl
      change front ++ [input[s.ip]] ++ y' :: rest' = _
      rw [hfront]
      change _ = ts.flatMap tokenBytes ++ head :: ((input.drop start).take (s.lit + 1) ++ y' :: rest')
      rw [hmore]
      simp only [List.append_assoc, List.cons_append]
    · change s.op + 1 = _ + 1 + (s.lit + 1)
      omega
  by_cases hfull : s.lit + 1 = 32
  · -- the run is full: it gets its length, and the byte behind it is for that of the next one
    have hpos : 0 < s₁.lit := by rw [hs₁]; exact Nat.succ_pos _
    obtain ⟨after, hclose, ts', hbetween⟩ := hrun.close hpos
    have hlen' := storeAt_length hclose
    subst hs₁
    change storeAt _ (s.op + 1 - (s.lit + 1) - 1) (UInt8.ofNat (s.lit + 1) - 1) = _ at hclose
    rw [hfull] at hclose
    refine ⟨{ s with ip := s.ip + 1, op := s.op + 1 + 1, lit := 0, out := after }, ts', s.ip + 1, y',
      rest', ?_,
      hbetween.newRun rfl rfl rfl rfl, ?_⟩
    · rw [Redis.putLiteral, hbyte]
      change (storeAt s.out s.op input[s.ip]).bind _ = _
      rw [hstore]
      change (if s.lit + 1 = 32 then (storeAt _ (s.op + 1 - 32 - 1)
        (UInt8.ofNat 32 - 1)).bind _ else _) = _
      rw [if_pos hfull, hclose]
      rfl
    · exact ⟨Nat.succ_pos 31, rfl, hlen'.trans hsize, .inr ⟨rfl, by omega, rfl⟩⟩
  · refine ⟨s₁, ts, start, head, y' :: rest', ?_, hrun, ?_⟩
    · rw [Redis.putLiteral, hbyte, hs₁]
      change (storeAt s.out s.op input[s.ip]).bind _ = _
      rw [hstore]
      exact if_neg hfull
    · subst hs₁
      exact ⟨by change s.lit + 1 < 32; omega, rfl, hsize, .inl ⟨rfl, rfl⟩⟩

/-- The bytes of a reference. -/
theorem storeReference {acc : Bytes} {off n : ℕ} {off64 : UInt64} (hoff : off64.toNat = off)
    (hmin : 3 ≤ n) (hout : s.out = acc ++ rest) (hop : s.op = acc.length) (hroom : 3 ≤ rest.length) :
    Redis.putReference off64 (n - 2) s =
      some { s with
        out := acc ++ tokenBytes (.reference off n) ++ rest.drop (tokenBytes (.reference off n)).length
        op := s.op + (tokenBytes (.reference off n)).length } := by
  have hlow : off64.toUInt8 = UInt8.ofNat off := by
    apply UInt8.toNat_inj.mp
    rw [UInt64.toNat_toUInt8, hoff, UInt8.toNat_ofNat']
  have hhigh : ∀ k, (off64 >>> 8 + UInt64.ofNat (k * 32)).toUInt8 = UInt8.ofNat (off / 256 + k * 32) := by
    intro k
    have hshift : (off64 >>> 8).toNat = off / 256 := by
      rw [UInt64.toNat_shiftRight, hoff]
      exact Nat.shiftRight_eq_div_pow off 8
    apply UInt8.toNat_inj.mp
    rw [UInt64.toNat_toUInt8, UInt64.toNat_add, hshift, UInt64.toNat_ofNat', UInt8.toNat_ofNat']
    omega
  have hnext : ∀ (front : Bytes) (y b : UInt8) (rest : Bytes) (i : ℕ), i = front.length →
      storeAt (front ++ y :: rest) i b = some (front ++ [b] ++ rest) := by
    rintro front y b rest i rfl
    exact storeAt_append b
  obtain ⟨y₀, rest, rfl⟩ := List.exists_cons_of_length_pos (show 0 < rest.length by omega)
  rw [List.length_cons, Nat.succ_le_succ_iff] at hroom
  obtain ⟨y₁, rest, rfl⟩ := List.exists_cons_of_length_pos (show 0 < rest.length by omega)
  rw [List.length_cons, Nat.succ_le_succ_iff] at hroom
  obtain ⟨y₂, rest, rfl⟩ := List.exists_cons_of_length_pos (show 0 < rest.length by omega)
  have hone : ∀ b : UInt8, (acc ++ [b]).length = acc.length + 1 := fun b => List.length_append
  by_cases hshort : n < 9
  · have hbytes : tokenBytes (.reference off n) =
        [UInt8.ofNat (off / 256 + (n - 2) * 32), UInt8.ofNat off] := if_pos hshort
    rw [Redis.putReference, if_pos (by omega), hbytes, hhigh, hlow, hout, hnext _ _ _ _ _ hop]
    change (storeAt _ (s.op + 1) (UInt8.ofNat off)).bind _ = _
    rw [hnext _ _ _ _ _ (by rw [hone, hop]), List.append_assoc acc]
    rfl
  · have hbytes : tokenBytes (.reference off n) =
        [UInt8.ofNat (off / 256 + 7 * 32), UInt8.ofNat (n - 2 - 7), UInt8.ofNat off] := if_neg hshort
    rw [Redis.putReference, if_neg (by omega), hbytes, hhigh, hlow, hout, hnext _ _ _ _ _ hop]
    change ((storeAt _ (s.op + 1) (UInt8.ofNat (n - 2 - 7))).bind fun out => (storeAt out (s.op + 2) _).bind _) = _
    rw [hnext _ _ _ _ _ (by rw [hone, hop])]
    change (storeAt _ (s.op + 2) _).bind _ = _
    rw [hnext _ _ _ _ _ (by rw [List.length_append, hone, hop]; rfl), List.append_assoc acc,
      List.append_assoc acc]
    rfl

theorem tokenBytes_reference_le (off n : ℕ) : (tokenBytes (.reference off n)).length ≤ 3 := by
  rw [tokenBytes]
  split
  · exact Nat.le_succ 2
  · exact le_rfl

/-- **A reference.** -/
theorem Between.putReference (h : Between input s ts rest) {off n : ℕ} {off64 : UInt64}
    (hoff : off64.toNat = off) (hmax : off < 8192) (hmin : 3 ≤ n) (hn : n ≤ 264)
    (hlt : off < s.ip) (hend : s.ip + n ≤ input.length)
    (hrep : ∀ i < n, input[s.ip + i]? = input[s.ip + i - 1 - off]?) (hroom : s.op + 4 < s.out.length) :
    ∃ s' head' rest', Redis.putReference off64 (n - 2) s = some s' ∧
      Between input { s' with ip := s.ip + n } (ts ++ [.reference off n]) (head' :: rest') ∧
      s'.ip = s.ip ∧ s'.out.length = s.out.length ∧ s'.op ≤ s.op + 3 := by
  have hlength : s.out.length = s.op + rest.length := by
    rw [h.out, List.length_append, h.op]
  have hbytes := tokenBytes_reference_le off n
  obtain ⟨head', rest', hrest⟩ : ∃ head' rest', rest.drop (tokenBytes (.reference off n)).length =
    head' :: rest' :=
    List.exists_cons_of_length_pos (by rw [List.length_drop]; omega)
  refine ⟨_, head', rest', storeReference hoff hmin h.out h.op (by omega), ⟨?_, ?_, hend, ?_, ?_⟩, rfl,
    ?_, ?_⟩
  · intro t ht
    rcases List.mem_append.mp ht with hold | hnew
    · exact h.fits t hold
    · rw [List.mem_singleton.mp hnew]
      exact ⟨hmax, hmin, hn⟩
  · exact expand_concat_reference h.text hlt hend hrep
  · rw [List.flatMap_append, List.flatMap_singleton, ← hrest]
  · rw [List.flatMap_append, List.flatMap_singleton, List.length_append, ← h.op]
  · change (_ ++ _ ++ _ : Bytes).length = _
    rw [List.length_append, List.length_append, List.length_drop, ← h.op]
    omega
  · exact Nat.add_le_add_left hbytes _

end Output

/-! ### The loop -/

section Loop

variable {base : UInt64} {input : Bytes} {outLen size : ℕ} {s : Compressor}

/-- **The invariant of the loop.** The output holds pieces of the input up to `ip`, and a run. `op`
is at most one behind the end of the output, and there only where the run has no bytes. -/
def Sound (input : Bytes) (outLen size : ℕ) (s : Compressor) : Prop :=
  (∃ ts start head rest, Running input s ts start head rest) ∧ s.lit < 32 ∧ s.op ≤ outLen + 1 ∧
    (s.lit ≠ 0 → s.op ≤ outLen) ∧ s.out.length = size

/-- How the body of the loop may end. -/
def Next.Sound (input : Bytes) (outLen size ip : ℕ) : Next → Prop
  | .again s => Redis.Sound input outLen size s ∧ ip < s.ip
  | .leave s => Redis.Sound input outLen size s ∧ input.length ≤ s.ip + 2
  | .full s => s.out.length = size

theorem frst_eq {ip : ℕ} (h : ip + 1 < input.length) : ∃ v, frst input ip = some v := by
  rw [frst, List.getElem?_eq_getElem (Nat.lt_of_succ_lt h), List.getElem?_eq_getElem h]
  exact ⟨_, rfl⟩

theorem next_eq (v : UInt32) {ip : ℕ} (h : ip + 2 < input.length) : ∃ v', next input v ip = some v' := by
  rw [next, List.getElem?_eq_getElem h]
  exact ⟨_, rfl⟩

/-- Behind a match only the hash and its table change. -/
theorem rehash_eq (base : UInt64) (hmin : 2 ≤ s.ip) (h : s.ip + 2 < input.length) :
    ∃ hval htab, rehash base input s = some { s with hval, htab } := by
  obtain ⟨v₁, h₁⟩ := @frst_eq input (s.ip - 2) (by omega)
  obtain ⟨v₂, h₂⟩ := @next_eq input v₁ (s.ip - 2) (by omega)
  obtain ⟨v₃, h₃⟩ := @next_eq input v₂ (s.ip - 2 + 1) (by omega)
  refine ⟨v₃, Function.update (Function.update s.htab (idx v₂) (addr base (s.ip - 2))) (idx v₃)
    (addr base (s.ip - 2 + 1)), ?_⟩
  rw [rehash, h₁]
  change (next input v₁ (s.ip - 2)).bind _ = _
  rw [h₂]
  change (next input v₂ (s.ip - 2 + 1)).bind _ = _
  rw [h₃]
  exact congrArg (fun ip => some (Compressor.mk ip _ _ _ _ _)) (Nat.sub_add_cancel hmin)

/-- **A match.** -/
theorem takeMatch_sound (hplaced : Located base input) (h : Sound input outLen size s)
    (hsize : outLen < size)
    {r : ℕ} (hr : r < s.ip) (hip : s.ip + 4 < input.length)
    (hoff : (addr base s.ip - addr base r - 1).toNat = s.ip - 1 - r) (hmax : s.ip - 1 - r < 8192)
    (hagree : Agree input r s.ip 3) :
    ∃ nxt, takeMatch base input outLen (addr base r) s = some nxt ∧ nxt.Sound input outLen size s.ip := by
  obtain ⟨⟨ts, start, head, rest, hrun⟩, hlit, hop, hroom, hout⟩ := h
  obtain ⟨s₁, ts₁, rest₁, hstop, hbetween, hip₁, hle₁, -, hlen₁⟩ := hrun.stopRun
  by_cases hfull : outLen ≤ s₁.op + 3 + 1
  · -- there is no room for a match, and `lzf_compress` returns 0
    refine ⟨.full s₁, ?_, hlen₁.trans hout⟩
    rw [takeMatch, hstop]
    exact if_pos hfull
  obtain ⟨len, hmatch, hmin, hlen, hend, hall⟩ := matchLen_eq hplaced hr hip hagree
  rw [← hip₁] at hr hoff hmax hmatch hend hall
  obtain ⟨s₂, head₂, rest₂, hput, hbetween₂, hip₂, hlen₂, hop₂⟩ :=
    hbetween.putReference hoff hmax hmin hlen
    (by omega) hend (fun i hi => (hall i hi).trans (congrArg (input[·]?) (by omega))) (by omega)
  -- a new run behind the match
  obtain ⟨s₃, hs₃⟩ : ∃ s₃, s₃ = { s₂ with ip := s₂.ip + len, lit := 0, op := s₂.op + 1 } := ⟨_, rfl⟩
  have hsound : Sound input outLen size s₃ := by
    subst hs₃
    refine ⟨⟨_, _, _, _, hbetween₂.newRun ?_ rfl rfl rfl⟩, Nat.succ_pos 31, ?_, fun h => absurd rfl h, ?_⟩
    · exact congrArg (· + len) hip₂
    · change s₂.op + 1 ≤ outLen + 1
      omega
    · exact (hlen₂.trans hlen₁).trans hout
  have hip₃ : s₃.ip = s.ip + len := by
    rw [hs₃, ← hip₁, ← hip₂]
  have htake : takeMatch base input outLen (addr base r) s =
      if input.length ≤ s₃.ip + 2 then some (.leave s₃)
      else (rehash base input s₃).bind fun s => some (.again s) := by
    rw [takeMatch, hstop]
    change (if outLen ≤ s₁.op + 3 + 1 then _ else _) = _
    rw [if_neg hfull, ← hip₁, hmatch]
    change (Redis.putReference _ (len - 2) s₁).bind _ = _
    rw [hput, hs₃]
    rfl
  by_cases hleave : input.length ≤ s₃.ip + 2
  · exact ⟨.leave s₃, htake.trans (if_pos hleave), hsound, hleave⟩
  · obtain ⟨hval, htab, hrehash⟩ := rehash_eq base (show 2 ≤ s₃.ip by omega) (Nat.not_le.mp hleave)
    refine ⟨.again { s₃ with hval, htab }, ?_, ?_, ?_⟩
    · rw [htake, if_neg hleave, hrehash]
      rfl
    · obtain ⟨⟨_, _, _, _, hrun₃⟩, hrest⟩ := hsound
      exact ⟨⟨_, _, _, _, ⟨hrun₃.fits, hrun₃.text, hrun₃.inside, hrun₃.lit, hrun₃.short, hrun₃.out,
        hrun₃.op⟩⟩, hrest⟩
    · change s.ip < s₃.ip
      omega

/-- **A literal.** -/
theorem takeLiteral_sound (h : Sound input outLen size s) (hsize : outLen < size)
    (hip : s.ip < input.length) :
    ∃ nxt, takeLiteral input outLen s = some nxt ∧ nxt.Sound input outLen size s.ip := by
  obtain ⟨⟨ts, start, head, rest, hrun⟩, hlit, hop, hroom, hout⟩ := h
  by_cases hfull : outLen ≤ s.op
  · exact ⟨.full s, if_pos hfull, hout⟩
  obtain ⟨s', ts', start', head', rest', hput, hrun', hlit', hip', hlen', hcases⟩ :=
    hrun.putLiteral hlit hip (by omega)
  refine ⟨.again s', ?_, ⟨⟨_, _, _, _, hrun'⟩, hlit', by omega, by omega, hlen'.trans hout⟩, by omega⟩
  rw [takeLiteral, if_neg hfull, hput]
  rfl

/-- **The body of the loop.** -/
theorem lzfCompressStep_sound (hplaced : Located base input) (h : Sound input outLen size s)
    (hsize : outLen < size)
    (hip : s.ip + 2 < input.length) :
    ∃ nxt, lzfCompressStep base input outLen s = some nxt ∧ nxt.Sound input outLen size s.ip := by
  obtain ⟨v, hv⟩ := next_eq s.hval hip
  obtain ⟨s', hs'⟩ : ∃ s', s' = { s with
    hval := v, htab := Function.update s.htab (idx v) (addr base s.ip) } := ⟨_, rfl⟩
  have hsound : Sound input outLen size s' := by
    obtain ⟨⟨_, _, _, _, hrun⟩, hrest⟩ := h
    subst hs'
    exact ⟨⟨_, _, _, _, ⟨hrun.fits, hrun.text, hrun.inside, hrun.lit, hrun.short, hrun.out, hrun.op⟩⟩,
      hrest⟩
  have hip' : s'.ip = s.ip := by rw [hs']
  have hstep : lzfCompressStep base input outLen s =
    (isMatch base input (s.htab (idx v)) s'.ip).bind fun found =>
      if found = true then takeMatch base input outLen (s.htab (idx v)) s' else takeLiteral input outLen s' := by
    rw [lzfCompressStep, hv, hs']
    rfl
  rw [← hip'] at hip ⊢
  rw [hstep]
  rcases @isMatch_cases _ _ _ hplaced (s.htab (idx v)) hip with
    hno | ⟨hyes, hend, r, -, hlt, href, hoff, hmax, hagree⟩
  · rw [hno]
    exact takeLiteral_sound hsound hsize (by omega)
  · rw [hyes]
    rw [href] at hoff ⊢
    exact takeMatch_sound hplaced hsound hsize hlt hend hoff hmax hagree

/-- **The loop.** -/
theorem lzfCompressLoop_sound (hplaced : Located base input) (h : Sound input outLen size s)
    (hsize : outLen < size)
    {fuel : ℕ} (hfuel : input.length - s.ip < fuel) :
    ∃ nxt, lzfCompressLoop base input outLen fuel s = some nxt ∧
      ((∃ s', nxt = .leave s' ∧ Sound input outLen size s' ∧ input.length ≤ s'.ip + 2) ∨
        ∃ s', nxt = .full s' ∧ s'.out.length = size) := by
  induction fuel generalizing s with
  | zero => omega
  | succ fuel ih =>
    by_cases hip : s.ip + 2 < input.length
    swap
    · exact ⟨.leave s, if_neg hip, .inl ⟨s, rfl, h, Nat.not_lt.mp hip⟩⟩
    obtain ⟨nxt, hstep, hnext⟩ := lzfCompressStep_sound hplaced h hsize hip
    rw [lzfCompressLoop, if_pos hip, hstep]
    cases nxt with
    | again s' => exact ih hnext.1 (by have := hnext.2; omega)
    | leave s' => exact ⟨.leave s', rfl, .inl ⟨s', rfl, hnext⟩⟩
    | full s' => exact ⟨.full s', rfl, .inr ⟨s', rfl, hnext⟩⟩

/-- **The last bytes**, and how far `op` gets with them. -/
theorem putLiterals_running {ts : List (Token UInt8)} {start n : ℕ} {head : UInt8} {rest : Bytes}
    (h : Running input s ts start head rest) (hlit : s.lit < 32) (hip : s.ip + n ≤ input.length)
    (hroom : s.op + n + (s.lit + n) / 32 < s.out.length) :
    ∃ s' ts' start' head' rest', putLiterals input n s = some s' ∧
      Running input s' ts' start' head' rest' ∧
      s'.ip = s.ip + n ∧ s'.out.length = s.out.length ∧ s'.op = s.op + n + (s.lit + n) / 32 := by
  induction n generalizing s ts start head rest with
  | zero => exact ⟨s, ts, start, head, rest, rfl, h, rfl, rfl, by omega⟩
  | succ n ih =>
    obtain ⟨s₁, ts₁, start₁, head₁, rest₁, hput, hrun₁, hlit₁, hip₁, hlen₁, hcases⟩ :=
      h.putLiteral hlit (by omega) (by omega)
    obtain ⟨s₂, ts₂, start₂, head₂, rest₂, hmore, hrun₂, hip₂, hlen₂, hop₂⟩ :=
      ih hrun₁ hlit₁ (by omega) (by omega)
    refine ⟨s₂, ts₂, start₂, head₂, rest₂, ?_, hrun₂, by omega, hlen₂.trans hlen₁, by omega⟩
    rw [putLiterals, hput]
    exact hmore

end Loop

/-- **Compression.** For every input of two bytes and more, whatever is in the hash table,
`lzf_compress` ends, and reads and writes inside of the arrays, if that of the output has one byte
more than `out_len`. Unless it returns `0`, it returns at most `out_len`, and that many bytes of the
output are those of pieces that make the input. -/
theorem lzfCompress_pieces {base : UInt64} {input out : Bytes} {outLen : ℕ} (hplaced : Located base input)
    (hlen : 2 ≤ input.length) (hout : outLen < out.length) (htab : UInt16 → UInt64) :
    ∃ n after, lzfCompress base input outLen htab out = some (n, after) ∧ after.length = out.length ∧
      n ≤ outLen ∧
      (n ≠ 0 → ∃ ts, ts ≠ [] ∧ (∀ t ∈ ts, Fits t) ∧ expand ts [] = some input ∧
        after.take n = ts.flatMap tokenBytes) := by
  by_cases hnone : input.length = 0 ∨ outLen = 0
  · exact ⟨0, out, if_pos hnone, rfl, Nat.zero_le _, fun h => absurd rfl h⟩
  obtain ⟨hval, hfrst⟩ := @frst_eq input 0 hlen
  obtain ⟨head, rest, rfl⟩ := List.exists_cons_of_length_pos (show 0 < out.length by omega)
  have hstart : Sound input outLen (head :: rest).length ⟨0, 1, 0, hval, htab, head :: rest⟩ := by
    refine ⟨⟨[], 0, head, rest, ⟨(fun t ht => by cases ht), rfl, Nat.zero_le _, rfl, Nat.zero_le _,
      rfl, rfl⟩⟩,
      Nat.succ_pos 31, Nat.succ_le_succ (Nat.zero_le _), fun h => absurd rfl h, rfl⟩
  obtain ⟨nxt, hloop, hcases⟩ := lzfCompressLoop_sound hplaced hstart hout
    (show input.length - 0 < input.length + 1 from Nat.lt_succ_self _)
  rw [lzfCompress, if_neg hnone, hfrst]
  change ∃ n after, (lzfCompressLoop base input outLen (input.length + 1) _).bind _ = _ ∧ _
  rw [hloop]
  rcases hcases with ⟨s, rfl, ⟨⟨ts, start, head', rest', hrun⟩, hlit, hop, -, hsize⟩, hend⟩ | ⟨s, rfl,
    hsize⟩
  swap
  · exact ⟨0, s.out, rfl, hsize, Nat.zero_le _, fun h => absurd rfl h⟩
  by_cases hfull : outLen < s.op + 3
  · exact ⟨0, s.out, if_pos hfull, hsize, Nat.zero_le _, fun h => absurd rfl h⟩
  have hinside := hrun.inside
  obtain ⟨s₁, ts₁, start₁, head₁, rest₁, hput, hrun₁, hip₁, hlen₁, hop₁⟩ :=
    @putLiterals_running input s ts start
    (input.length - s.ip) head' rest' hrun hlit (by omega) (by omega)
  obtain ⟨s₂, ts₂, rest₂, hstop, hbetween, hip₂, hop₂, -, hlen₂⟩ := hrun₁.stopRun
  have hall : s₂.ip = input.length := by omega
  refine ⟨s₂.op, s₂.out, ?_, (hlen₂.trans hlen₁).trans hsize, by omega, fun _ => ⟨ts₂, ?_,
    hbetween.fits, ?_, ?_⟩⟩
  · change (if outLen < s.op + 3 then _ else _) = _
    rw [if_neg hfull, hput]
    change (Redis.stopRun s₁).bind _ = _
    rw [hstop]
    rfl
  · rintro rfl
    have htext := Option.some.inj hbetween.text
    rw [hall, List.take_length] at htext
    rw [← htext] at hlen
    cases hlen
  · rw [hbetween.text, hall, List.take_length]
  · rw [hbetween.out, hbetween.op, List.take_left]

/-- **The round trip.** If what `lzf_compress` returns is not `0`, then that many bytes of the
output are made the input again by `lzf_decompress`, whatever the array it writes to holds, if only
it has room. -/
theorem lzfDecompress_lzfCompress {base : UInt64} {input out : Bytes} {outLen : ℕ} (hplaced : Located base input)
    (hlen : 2 ≤ input.length) (hout : outLen < out.length) (htab : UInt16 → UInt64) :
    ∃ n after, lzfCompress base input outLen htab out = some (n, after) ∧ n ≤ outLen ∧
      (n ≠ 0 → ∀ back : Bytes, input.length ≤ back.length →
        lzfDecompress (after.take n) back = some (input.length, input ++ back.drop input.length)) := by
  obtain ⟨n, after, hrun, -, hle, hpieces⟩ := lzfCompress_pieces hplaced hlen hout htab
  refine ⟨n, after, hrun, hle, fun hn back hback => ?_⟩
  obtain ⟨ts, hne, hfits, htext, hbytes⟩ := hpieces hn
  rw [hbytes]
  exact lzfDecompress_tokens hfits hne htext hback

/-- Ten bytes, and a match of seven. -/
theorem lzfDecompress_lzfCompress_seven :
    ∃ n after, lzfCompress 65536 [7, 1, 2, 3, 4, 1, 2, 3, 4, 1, 2, 3] 11 (fun _ => 0)
      (List.replicate 12 0) = some (n, after) ∧
      n ≤ 11 ∧ (n ≠ 0 → ∀ back : Bytes, 12 ≤ back.length → lzfDecompress (after.take n) back =
        some (12, [7, 1, 2, 3, 4, 1, 2, 3, 4, 1, 2, 3] ++ back.drop 12)) :=
  lzfDecompress_lzfCompress ⟨by decide, by decide⟩ (by decide) (by decide) _

/-- The byte behind `out_len` is needed: behind a run of 32 bytes that fills the output, the head of
the next run is stopped there. -/
example : lzfCompress 65536 ((List.range 32).map UInt8.ofNat ++ [1, 2, 3, 4, 5]) 33 (fun _ => 0)
    (List.replicate 33 0) = none := by decide +kernel

end Redis
end Comms
