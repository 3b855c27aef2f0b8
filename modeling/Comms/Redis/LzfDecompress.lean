import Comms.Codec.Buffer
import Comms.Lib.BackReference
import Mathlib.Algebra.BigOperators.Group.List.Basic

/-!
# `lzf_decompress`

`lzf_decompress` of `common/redis/lzf_d.c` over the two arrays that it is given, as it is built:
with `CHECK_INPUT`. A step that would read or write outside of an array gives `none`.

* `storeAt`, `copyLiterals`, `copyRef`, `lzfDecompressStep`, `lzfDecompress` — from the source;
* `Fits`, `tokenBytes` — the pieces that the format has room for, and their bytes;
* `lzfDecompress_tokens` — the bytes of some pieces make the text of the pieces;
* `lzfDecompress_inside` — whatever the bytes are, no step leaves the arrays, and what is behind the
  text is left alone.
-/

namespace Comms
namespace Redis

open BackReference

/-- `out[i] = b`. -/
def storeAt (out : Bytes) (i : ℕ) (b : UInt8) : Option Bytes :=
  if i < out.length then some (out.set i b) else none

/-- `*op++ = *ip++`, `n` times. -/
def copyLiterals (input : Bytes) : ℕ → ℕ → ℕ → Bytes → Option Bytes
  | 0, _, _, out => some out
  | n + 1, ip, op, out => do
    let b ← input[ip]?
    let out ← storeAt out op b
    copyLiterals input n (ip + 1) (op + 1) out

/-- `*op++ = *ref++`, `n` times. -/
def copyRef : ℕ → ℕ → ℕ → Bytes → Option Bytes
  | 0, _, _, out => some out
  | n + 1, ref, op, out => do
    let b ← out[ref]?
    let out ← storeAt out op b
    copyRef n (ref + 1) (op + 1) out

/-- `ip`, `op`, and what `op` points into. -/
structure Decompressor where
  ip : ℕ
  op : ℕ
  out : Bytes

/-- A literal run of `n` bytes, and `none` inside for a `return 0`. -/
def literalRun (input : Bytes) (n : ℕ) (s : Decompressor) : Option (Option Decompressor) :=
  if s.out.length < s.op + n then some none
  else if input.length < s.ip + n then some none
  else do
    let out ← copyLiterals input n s.ip s.op s.out
    return some ⟨s.ip + n, s.op + n, out⟩

/-- The end of a back reference, whose low byte is at `ip`. -/
def copyReference (input : Bytes) (ctrl : UInt8) (len : ℕ)
    (s : Decompressor) : Option (Option Decompressor) := do
  let low ← input[s.ip]?
  let ref : ℤ := s.op - (ctrl &&& 0x1f).toNat * 256 - 1 - low.toNat
  if s.out.length < s.op + len + 2 then return none
  else if ref < 0 then return none
  else do
    let out ← copyRef (len + 2) ref.toNat s.op s.out
    return some ⟨s.ip + 1, s.op + len + 2, out⟩

/-- A back reference. -/
def backReference (input : Bytes) (ctrl : UInt8) (s : Decompressor) : Option (Option Decompressor) :=
  let len := (ctrl >>> 5).toNat
  if input.length ≤ s.ip then some none
  else if len = 7 then do
    let more ← input[s.ip]?
    if input.length ≤ s.ip + 1 then return none
    copyReference input ctrl (len + more.toNat) { s with ip := s.ip + 1 }
  else copyReference input ctrl len s

/-- The body of `do … while (ip < in_end)`. -/
def lzfDecompressStep (input : Bytes) (s : Decompressor) : Option (Option Decompressor) := do
  let ctrl ← input[s.ip]?
  if ctrl < 32 then literalRun input (ctrl.toNat + 1) { s with ip := s.ip + 1 }
  else backReference input ctrl { s with ip := s.ip + 1 }

def lzfDecompressLoop (input : Bytes) : ℕ → Decompressor → Option (ℕ × Bytes)
  | 0, _ => none
  | n + 1, s => do
    match ← lzfDecompressStep input s with
    | none => return (0, s.out)
    | some s => if s.ip < input.length then lzfDecompressLoop input n s else return (s.op, s.out)

/-- `lzf_decompress`: what it returns, and what is then in `out_data`. -/
def lzfDecompress (input out : Bytes) : Option (ℕ × Bytes) :=
  lzfDecompressLoop input (input.length + 1) ⟨0, 0, out⟩

/-! ### Copies -/

section Copies

variable {acc rest : Bytes}

/-- A byte behind what is written. -/
theorem storeAt_append {y : UInt8} (b : UInt8) :
    storeAt (acc ++ y :: rest) acc.length b = some (acc ++ [b] ++ rest) := by
  have hlt : acc.length < (acc ++ y :: rest).length := by
    rw [List.length_append, List.length_cons]
    omega
  rw [storeAt, if_pos hlt, List.set_append_right _ _ le_rfl, Nat.sub_self, List.append_assoc]
  rfl

/-- Bytes of the input, behind what is written. -/
theorem copyLiterals_eq {before xs behind : Bytes} (h : xs.length ≤ rest.length) :
    copyLiterals (before ++ xs ++ behind) xs.length before.length acc.length (acc ++ rest) =
      some (acc ++ xs ++ rest.drop xs.length) := by
  induction xs generalizing before acc rest with
  | nil => simp [copyLiterals]
  | cons x xs ih =>
    cases rest with
    | nil => cases h
    | cons y rest =>
      have hbyte : (before ++ x :: xs ++ behind)[before.length]? = some x := by simp
      have hrest := @ih (acc ++ [x]) rest (before ++ [x]) (Nat.le_of_succ_le_succ h)
      rw [List.length_append, List.length_append, List.append_assoc before] at hrest
      change (do
        let b ← (before ++ x :: xs ++ behind)[before.length]?
        let out ← storeAt (acc ++ y :: rest) acc.length b
        copyLiterals (before ++ x :: xs ++ behind) xs.length (before.length + 1) (acc.length + 1) out) = _
      rw [hbyte, Option.bind_eq_bind, Option.bind_some, storeAt_append, Option.bind_eq_bind,
        Option.bind_some]
      refine hrest.trans ?_
      rw [List.append_assoc acc]
      rfl

/-- Bytes of the output, behind what is written. -/
theorem copyRef_eq {off n : ℕ} {r : Bytes} (hcopy : copyBack off n acc = some r) (hoff : off < acc.length)
    (h : n ≤ rest.length) :
    copyRef n (acc.length - 1 - off) acc.length (acc ++ rest) = some (r ++ rest.drop n) := by
  induction n generalizing acc rest with
  | zero =>
    obtain rfl := Option.some.inj hcopy
    rfl
  | succ n ih =>
    cases rest with
    | nil => cases h
    | cons y rest =>
      obtain ⟨x, hx, hmore⟩ := Option.bind_eq_some_iff.mp hcopy
      rw [List.getElem?_reverse hoff] at hx
      have hbyte : (acc ++ y :: rest)[acc.length - 1 - off]? = some x := by
        rw [List.getElem?_append_left (by omega), hx]
      have hlen : (acc ++ [x]).length = acc.length + 1 := List.length_append
      have hrest := ih hmore (by omega) (Nat.le_of_succ_le_succ h)
      rw [hlen, show acc.length + 1 - 1 - off = acc.length - 1 - off + 1 by omega] at hrest
      change (do
        let b ← (acc ++ y :: rest)[acc.length - 1 - off]?
        let out ← storeAt (acc ++ y :: rest) acc.length b
        copyRef n (acc.length - 1 - off + 1) (acc.length + 1) out) = _
      rw [hbyte, Option.bind_eq_bind, Option.bind_some, storeAt_append, Option.bind_eq_bind,
        Option.bind_some]
      exact hrest

end Copies

/-! ### Steps -/

section Steps

variable {input acc rest r : Bytes} {ip off len : ℕ} {ctrl low : UInt8}

theorem low_bits (c : UInt8) : (c &&& 0x1f).toNat = c.toNat % 32 :=
  Nat.and_two_pow_sub_one_eq_mod c.toNat 5

theorem high_bits (c : UInt8) : (c >>> 5).toNat = c.toNat / 32 :=
  Nat.shiftRight_eq_div_pow c.toNat 5

theorem literalRun_eq {before xs behind : Bytes} (hinput : input = before ++ xs ++ behind)
    (h : xs.length ≤ rest.length) :
    literalRun input xs.length ⟨before.length, acc.length, acc ++ rest⟩ =
      some (some ⟨before.length + xs.length, (acc ++ xs).length, acc ++ xs ++ rest.drop xs.length⟩) := by
  have hout : ¬(acc ++ rest).length < acc.length + xs.length := by
    rw [List.length_append]
    omega
  have hin : ¬input.length < before.length + xs.length := by
    rw [hinput, List.length_append, List.length_append]
    omega
  subst hinput
  rw [literalRun, if_neg hout, if_neg hin, copyLiterals_eq h, List.length_append]
  rfl

theorem copyReference_eq (hlow : input[ip]? = some low)
    (hoff : (ctrl &&& 0x1f).toNat * 256 + low.toNat = off) (hlt : off < acc.length)
    (hcopy : copyBack off (len + 2) acc = some r) (h : len + 2 ≤ rest.length) :
    copyReference input ctrl len ⟨ip, acc.length, acc ++ rest⟩ =
      some (some ⟨ip + 1, r.length, r ++ rest.drop (len + 2)⟩) := by
  obtain ⟨xs, hxs, rfl⟩ := copyBack_prefix hcopy
  have hout : ¬(acc ++ rest).length < acc.length + len + 2 := by
    rw [List.length_append]
    omega
  have href : (acc.length : ℤ) - (ctrl &&& 0x1f).toNat * 256 - 1 - low.toNat =
    (acc.length - 1 - off : ℕ) := by
    omega
  rw [copyReference, hlow]
  change (if (acc ++ rest).length < acc.length + len + 2 then _
    else if ((acc.length : ℤ) - (ctrl &&& 0x1f).toNat * 256 - 1 - low.toNat) < 0 then _ else _) = _
  rw [if_neg hout, href, if_neg (Int.not_lt.mpr (Int.natCast_nonneg _)), Int.toNat_natCast,
    copyRef_eq hcopy hlt h, List.length_append, hxs]
  rfl

end Steps

/-! ### The pieces of the format -/

/-- The format has room for the piece. -/
def Fits : Token UInt8 → Prop
  | .literal xs => 1 ≤ xs.length ∧ xs.length ≤ 32
  | .reference off n => off < 8192 ∧ 3 ≤ n ∧ n ≤ 264

/-- The bytes of a piece. -/
def tokenBytes : Token UInt8 → Bytes
  | .literal xs => UInt8.ofNat (xs.length - 1) :: xs
  | .reference off n =>
    if n < 9 then [UInt8.ofNat (off / 256 + (n - 2) * 32), UInt8.ofNat off]
    else [UInt8.ofNat (off / 256 + 224), UInt8.ofNat (n - 9), UInt8.ofNat off]

theorem getElem?_between (before bs behind : Bytes) {i : ℕ} (h : i < bs.length) :
    (before ++ bs ++ behind)[before.length + i]? = bs[i]? := by
  rw [List.append_assoc, List.getElem?_append_right (Nat.le_add_right _ _), Nat.add_sub_cancel_left,
    List.getElem?_append_left h]

section Token

variable {input before behind acc rest r : Bytes} {s : Decompressor} {ctrl more : UInt8}

theorem step_of_lt (hctrl : input[s.ip]? = some ctrl) (h : ctrl < 32) :
    lzfDecompressStep input s = literalRun input (ctrl.toNat + 1) ⟨s.ip + 1, s.op, s.out⟩ := by
  rw [lzfDecompressStep, hctrl]
  exact if_pos h

theorem step_of_not_lt (hctrl : input[s.ip]? = some ctrl) (h : ¬ctrl < 32) :
    lzfDecompressStep input s = backReference input ctrl ⟨s.ip + 1, s.op, s.out⟩ := by
  rw [lzfDecompressStep, hctrl]
  exact if_neg h

theorem backReference_short (hin : s.ip < input.length) (h : (ctrl >>> 5).toNat ≠ 7) :
    backReference input ctrl s = copyReference input ctrl (ctrl >>> 5).toNat s := by
  rw [backReference, if_neg (Nat.not_le.mpr hin), if_neg h]

theorem backReference_long (hin : s.ip + 1 < input.length) (hmore : input[s.ip]? = some more)
    (h : (ctrl >>> 5).toNat = 7) :
    backReference input ctrl s = copyReference input ctrl (7 + more.toNat) ⟨s.ip + 1, s.op, s.out⟩ := by
  rw [backReference, if_neg (Nat.not_le.mpr (Nat.lt_of_succ_lt hin)), if_pos h, hmore, h]
  exact if_neg (Nat.not_le.mpr hin)

/-- **A run of literals** is read by one step. -/
theorem step_literal {xs : Bytes} (hfits : Fits (.literal xs)) (h : xs.length ≤ rest.length) :
    lzfDecompressStep (before ++ tokenBytes (.literal xs) ++ behind) ⟨before.length, acc.length,
        acc ++ rest⟩ =
      some (some ⟨(before ++ tokenBytes (.literal xs)).length, (acc ++ xs).length,
        acc ++ xs ++ rest.drop xs.length⟩) := by
  have hctrl := getElem?_between before (tokenBytes (.literal xs)) behind (i := 0) (Nat.succ_pos _)
  have hnat : (UInt8.ofNat (xs.length - 1)).toNat = xs.length - 1 := by
    rw [UInt8.toNat_ofNat', Nat.mod_eq_of_lt]
    exact Nat.lt_of_le_of_lt (Nat.sub_le _ _) (Nat.lt_of_le_of_lt hfits.2 (by decide))
  have hlt : UInt8.ofNat (xs.length - 1) < 32 := by
    rw [UInt8.lt_iff_toNat_lt, hnat]
    exact Nat.lt_of_lt_of_le (Nat.sub_lt hfits.1 Nat.one_pos) hfits.2
  rw [@step_of_lt _ ⟨before.length, _, _⟩ _ hctrl hlt, hnat, Nat.sub_add_cancel hfits.1]
  have hrun := @literalRun_eq _ acc rest (before ++ [UInt8.ofNat (xs.length - 1)]) xs behind
    (by rw [List.append_assoc before]) h
  rw [List.length_append] at hrun
  refine hrun.trans (congrArg (fun n => some (some (Decompressor.mk n _ _))) ?_)
  rw [List.length_append]
  exact Nat.add_right_comm _ _ _

/-- **A back reference** is read by one step. -/
theorem step_reference {off n : ℕ} (hfits : Fits (.reference off n)) (hcopy : copyBack off n acc = some r)
    (h : n ≤ rest.length) :
    lzfDecompressStep (before ++ tokenBytes (.reference off n) ++ behind)
      ⟨before.length, acc.length, acc ++ rest⟩ =
      some (some ⟨(before ++ tokenBytes (.reference off n)).length, r.length, r ++ rest.drop n⟩) := by
  obtain ⟨hoff, hmin, hmax⟩ := hfits
  have hlt : off < acc.length := by
    obtain ⟨k, rfl⟩ : ∃ k, n = k + 1 := ⟨n - 1, by omega⟩
    obtain ⟨x, hx, -⟩ := Option.bind_eq_some_iff.mp hcopy
    obtain ⟨hx, -⟩ := List.getElem?_eq_some_iff.mp hx
    rwa [List.length_reverse] at hx
  have hlow : (UInt8.ofNat off).toNat = off % 256 := UInt8.toNat_ofNat'
  -- the length is either in the first byte, or in the second
  by_cases hshort : n < 9
  · have hbytes : tokenBytes (.reference off n) =
        [UInt8.ofNat (off / 256 + (n - 2) * 32), UInt8.ofNat off] := if_pos hshort
    generalize hc : UInt8.ofNat (off / 256 + (n - 2) * 32) = c at hbytes
    have hctrl : c.toNat = off / 256 + (n - 2) * 32 := by
      rw [← hc, UInt8.toNat_ofNat', Nat.mod_eq_of_lt (by omega)]
    have hge : ¬c < 32 := by
      rw [UInt8.lt_iff_toNat_lt, hctrl, Nat.not_lt]
      exact Nat.le_add_left_of_le (Nat.le_mul_of_pos_left 32 (by omega))
    have hlen : (c >>> 5).toNat = n - 2 := by
      rw [high_bits, hctrl]
      omega
    have hread := fun i hi => getElem?_between before [c, UInt8.ofNat off] behind (i := i) hi
    have hsize : before.length + 1 < (before ++ [c, UInt8.ofNat off] ++ behind).length := by
      simp
    rw [hbytes, @step_of_not_lt _ ⟨before.length, _, _⟩ _ (hread 0 (Nat.succ_pos _)) hge,
      backReference_short hsize (by rw [hlen]; omega), hlen,
      copyReference_eq (hread 1 (Nat.lt_succ_self _)) (by rw [low_bits, hctrl, hlow]; omega) hlt
        (by rwa [Nat.sub_add_cancel (by omega)]) (by omega), Nat.sub_add_cancel (by omega),
          List.length_append]
    rfl
  · -- seven in the first byte says that there is more of it in the second
    have hbytes : tokenBytes (.reference off n) =
        [UInt8.ofNat (off / 256 + 224), UInt8.ofNat (n - 9), UInt8.ofNat off] := if_neg hshort
    generalize hc : UInt8.ofNat (off / 256 + 224) = c at hbytes
    have hctrl : c.toNat = off / 256 + 224 := by
      rw [← hc, UInt8.toNat_ofNat', Nat.mod_eq_of_lt (by omega)]
    have hmore : (UInt8.ofNat (n - 9)).toNat = n - 9 := by
      rw [UInt8.toNat_ofNat', Nat.mod_eq_of_lt (by omega)]
    have hge : ¬c < 32 := by
      rw [UInt8.lt_iff_toNat_lt, hctrl, Nat.not_lt]
      exact Nat.le_add_left_of_le (by decide)
    have hlen : (c >>> 5).toNat = 7 := by
      rw [high_bits, hctrl]
      omega
    have hread := fun i hi => getElem?_between before [c, UInt8.ofNat (n - 9),
      UInt8.ofNat off] behind (i := i) hi
    have hsize : before.length + 1 + 1 < (before ++ [c, UInt8.ofNat (n - 9),
      UInt8.ofNat off] ++ behind).length := by
      simp only [List.length_append, List.length_cons, List.length_nil]
      omega
    have hsum : 7 + (n - 9) + 2 = n := by omega
    rw [hbytes, @step_of_not_lt _ ⟨before.length, _, _⟩ _ (hread 0 (Nat.succ_pos _)) hge,
      backReference_long hsize (hread 1 (by simp)) hlen, hmore,
      copyReference_eq (hread 2 (Nat.lt_succ_self _)) (by rw [low_bits, hctrl, hlow]; omega) hlt
        (by rwa [hsum]) (by omega), hsum, List.length_append]
    rfl

/-- **One piece** is read by one step. -/
theorem step_token {t : Token UInt8} (hfits : Fits t) (hexpand : expand [t] acc = some r)
    (h : r.length ≤ acc.length + rest.length) :
    lzfDecompressStep (before ++ tokenBytes t ++ behind) ⟨before.length, acc.length, acc ++ rest⟩ =
      some (some ⟨(before ++ tokenBytes t).length, r.length,
          r ++ rest.drop (r.length - acc.length)⟩) := by
  cases t with
  | literal xs =>
    obtain rfl : acc ++ xs = r := Option.some.inj hexpand
    rw [List.length_append, Nat.add_le_add_iff_left] at h
    rw [step_literal hfits h, @List.length_append _ acc, Nat.add_sub_cancel_left]
  | reference off n =>
    obtain ⟨r', hcopy, hr⟩ := Option.bind_eq_some_iff.mp hexpand
    obtain rfl : r' = r := Option.some.inj hr
    obtain ⟨xs, rfl, rfl⟩ := copyBack_prefix hcopy
    rw [List.length_append, Nat.add_le_add_iff_left] at h
    rw [step_reference hfits hcopy h, @List.length_append _ acc, Nat.add_sub_cancel_left]

end Token

/-! ### The loop -/

theorem tokenBytes_ne_nil (t : Token UInt8) : 0 < (tokenBytes t).length := by
  cases t with
  | literal xs => exact Nat.succ_pos _
  | reference off n =>
    rw [tokenBytes]
    split <;> exact Nat.succ_pos _

/-- The bytes of some pieces, in the loop. -/
theorem loop_tokens {ts : List (Token UInt8)} (hfits : ∀ t ∈ ts, Fits t) (hne : ts ≠ [])
    {before acc rest r : Bytes} (hexpand : expand ts acc = some r)
        (h : r.length ≤ acc.length + rest.length)
    {fuel : ℕ} (hfuel : ts.length ≤ fuel) :
    lzfDecompressLoop (before ++ ts.flatMap tokenBytes) fuel ⟨before.length, acc.length, acc ++ rest⟩ =
      some (r.length, r ++ rest.drop (r.length - acc.length)) := by
  induction ts generalizing before acc rest fuel with
  | nil => exact absurd rfl hne
  | cons t ts ih =>
    obtain ⟨n, rfl⟩ : ∃ n, fuel = n + 1 := ⟨fuel - 1, by rw [List.length_cons] at hfuel; omega⟩
    obtain ⟨mid, hmid, hrest⟩ : ∃ mid, expand [t] acc = some mid ∧ expand ts mid = some r :=
      Option.bind_eq_some_iff.mp ((expand_append [t] ts acc).symm.trans hexpand)
    obtain ⟨xs, rfl⟩ := expand_prefix hmid
    obtain ⟨ys, rfl⟩ := expand_prefix hrest
    simp only [List.length_append] at h
    have hstep := @step_token before (ts.flatMap tokenBytes) acc rest _ t (hfits t List.mem_cons_self) hmid
      (by rw [List.length_append]; omega)
    have hdrop : (acc ++ xs).length - acc.length = xs.length := by
      rw [List.length_append, Nat.add_sub_cancel_left]
    rw [hdrop] at hstep
    rw [List.flatMap_cons, ← List.append_assoc, lzfDecompressLoop, hstep]
    cases ts with
    | nil =>
      obtain rfl : ys = [] := by
        have := Option.some.inj hrest
        rwa [List.self_eq_append_right] at this
      rw [List.append_nil, hdrop]
      exact if_neg (by rw [List.flatMap_nil, List.append_nil]; exact Nat.lt_irrefl _)
    | cons t' ts =>
      have hmore : (before ++ tokenBytes t).length <
          (before ++ tokenBytes t ++ (t' :: ts).flatMap tokenBytes).length := by
        have := tokenBytes_ne_nil t'
        rw [@List.length_append _ (before ++ tokenBytes t), List.flatMap_cons,
          @List.length_append _ (tokenBytes t')]
        omega
      refine (if_pos hmore).trans ((ih (fun u hu => hfits u (List.mem_cons_of_mem _ hu))
        (List.cons_ne_nil _ _)
        hrest ?_ (Nat.le_of_succ_le_succ hfuel)).trans ?_)
      · simp only [List.length_append, List.length_drop]
        omega
      · rw [List.drop_drop]
        refine congrArg (fun k => some (_, _ ++ rest.drop k)) ?_
        simp only [List.length_append]
        omega

/-- **Decompression.** The bytes of some pieces make the text of the pieces, and leave alone what is
behind it. -/
theorem lzfDecompress_tokens {ts : List (Token UInt8)} (hfits : ∀ t ∈ ts, Fits t) (hne : ts ≠ [])
    {text out : Bytes} (hexpand : expand ts [] = some text) (h : text.length ≤ out.length) :
    lzfDecompress (ts.flatMap tokenBytes) out = some (text.length, text ++ out.drop text.length) := by
  have hlen : ts.length ≤ (ts.flatMap tokenBytes).length + 1 := by
    rw [List.length_flatMap]
    refine Nat.le_succ_of_le ?_
    refine (List.length_le_sum_of_one_le (ts.map fun t => (tokenBytes t).length) ?_).trans' ?_
    · intro n hn
      obtain ⟨t, -, rfl⟩ := List.mem_map.mp hn
      exact tokenBytes_ne_nil t
    · rw [List.length_map]
  have hloop := @loop_tokens ts hfits hne [] [] out text hexpand (by simpa using h) _ hlen
  rwa [List.length_nil, Nat.sub_zero] at hloop

/-! ### Any bytes -/

section Inside

variable {input acc : Bytes} {ip room : ℕ} {ctrl : UInt8}

/-- What a step makes of the text `acc`, with room behind it: it returns `0`, or it puts some bytes
there, and neither depends on what was there. -/
def Goes (input acc : Bytes) (room ip : ℕ) (next : Bytes → Option (Option Decompressor)) : Prop :=
  (∀ rest : Bytes, rest.length = room → next rest = some none) ∨
    ∃ xs ip', ip < ip' ∧ ip' ≤ input.length ∧ 0 < xs.length ∧ xs.length ≤ room ∧
      ∀ rest : Bytes, rest.length = room →
        next rest = some (some ⟨ip', (acc ++ xs).length, acc ++ xs ++ rest.drop xs.length⟩)

theorem Goes.congr {ip' : ℕ} {next next' : Bytes →
    Option (Option Decompressor)} (h : Goes input acc room ip' next')
    (heq : ∀ rest, next rest = next' rest) (hle : ip ≤ ip') : Goes input acc room ip next := by
  obtain rfl : next = next' := funext heq
  rcases h with hnone | ⟨xs, ip'', hlt, hrest⟩
  · exact .inl hnone
  · exact .inr ⟨xs, ip'', Nat.lt_of_le_of_lt hle hlt, hrest⟩

/-- A copy of `n` items from inside of the text. -/
theorem copyBack_isSome {off n : ℕ} {out : Bytes} (h : off < out.length) : ∃ r, copyBack off n out =
    some r := by
  induction n generalizing out with
  | zero => exact ⟨out, rfl⟩
  | succ n ih =>
    have hlt : off < out.reverse.length := by rwa [List.length_reverse]
    obtain ⟨r, hr⟩ := @ih (out ++ [out.reverse[off]]) (by rw [List.length_append]; omega)
    exact ⟨r, by rw [copyBack, List.getElem?_eq_getElem hlt, Option.bind_some, hr]⟩

theorem goes_literalRun {n : ℕ} (hpos : 0 < n) (hip : ip ≤ input.length) :
    Goes input acc room ip fun rest => literalRun input n ⟨ip, acc.length, acc ++ rest⟩ := by
  by_cases hout : room < n
  · refine .inl fun rest hrest => if_pos ?_
    rwa [List.length_append, Nat.add_lt_add_iff_left, hrest]
  have hout' : ∀ rest : Bytes, rest.length = room → ¬(acc ++ rest).length < acc.length + n := by
    intro rest hrest
    rwa [List.length_append, Nat.add_lt_add_iff_left, hrest]
  by_cases hin : input.length < ip + n
  · exact .inl fun rest hrest => (if_neg (hout' rest hrest)).trans (if_pos hin)
  have hlen : ((input.drop ip).take n).length = n := by
    rw [List.length_take, List.length_drop]
    omega
  have hbefore : (input.take ip).length = ip := List.length_take_of_le hip
  have hsplit : input = input.take ip ++ (input.drop ip).take n ++ input.drop (ip + n) := by
    rw [← List.take_add, List.take_append_drop]
  refine .inr ⟨(input.drop ip).take n, ip + n, by omega, by omega, by omega, by omega,
    fun rest hrest => ?_⟩
  have hrun := @literalRun_eq input acc rest _ _ _ hsplit (by omega)
  rw [hlen, hbefore] at hrun
  rw [hlen]
  exact hrun

theorem goes_copyReference {len : ℕ} (hip : ip < input.length) :
    Goes input acc room ip fun rest => copyReference input ctrl len ⟨ip, acc.length, acc ++ rest⟩ := by
  have hlow : input[ip]? = some input[ip] := List.getElem?_eq_getElem hip
  by_cases hout : room < len + 2
  · refine .inl fun rest hrest => ?_
    change copyReference _ _ _ _ = _
    rw [copyReference, hlow]
    refine if_pos ?_
    change (acc ++ rest).length < acc.length + len + 2
    rw [List.length_append, hrest]
    omega
  have hout' : ∀ rest : Bytes, rest.length = room → ¬(acc ++ rest).length < acc.length + len + 2 := by
    intro rest hrest
    rw [List.length_append, hrest]
    omega
  by_cases href : (acc.length : ℤ) - (ctrl &&& 0x1f).toNat * 256 - 1 - input[ip].toNat < 0
  · refine .inl fun rest hrest => ?_
    change copyReference _ _ _ _ = _
    rw [copyReference, hlow]
    exact (if_neg (hout' rest hrest)).trans (if_pos href)
  have hoff : (ctrl &&& 0x1f).toNat * 256 + input[ip].toNat < acc.length := by omega
  obtain ⟨r, hr⟩ := @copyBack_isSome _ (len + 2) acc hoff
  obtain ⟨xs, hlen, rfl⟩ := copyBack_prefix hr
  refine .inr ⟨xs, ip + 1, Nat.lt_succ_self _, hip, by omega, by omega, fun rest hrest => ?_⟩
  rw [hlen]
  exact copyReference_eq hlow rfl hoff hr (by omega)

/-- **A step** stays inside of the arrays. -/
theorem goes_step (hip : ip < input.length) :
    Goes input acc room ip fun rest => lzfDecompressStep input ⟨ip, acc.length, acc ++ rest⟩ := by
  have hctrl : input[ip]? = some input[ip] := List.getElem?_eq_getElem hip
  by_cases hlit : input[ip] < 32
  · exact (goes_literalRun (Nat.succ_pos _) hip).congr
      (fun rest => @step_of_lt _ ⟨ip, acc.length, acc ++ rest⟩ _ hctrl hlit) (Nat.le_succ ip)
  have hback := fun rest => @step_of_not_lt _ ⟨ip, acc.length, acc ++ rest⟩ _ hctrl hlit
  by_cases hin : input.length ≤ ip + 1
  · exact .inl fun rest _ => (hback rest).trans (if_pos hin)
  rw [Nat.not_le] at hin
  by_cases hlong : (input[ip] >>> 5).toNat = 7
  · have hmore : input[ip + 1]? = some input[ip + 1] := List.getElem?_eq_getElem hin
    by_cases hin' : input.length ≤ ip + 1 + 1
    · refine .inl fun rest _ => (hback rest).trans ?_
      rw [backReference, if_neg (Nat.not_le.mpr hin), if_pos hlong]
      change (input[ip + 1]?.bind _) = _
      rw [hmore]
      exact if_pos hin'
    · rw [Nat.not_le] at hin'
      exact (goes_copyReference hin').congr (fun rest => (hback rest).trans
        (@backReference_long _ ⟨ip + 1, acc.length, acc ++ rest⟩ _ _ hin' hmore hlong)) (by omega)
  · exact (goes_copyReference hin).congr (fun rest => (hback rest).trans
      (@backReference_short _ ⟨ip + 1, acc.length, acc ++ rest⟩ _ hin hlong)) (by omega)

/-- The loop, from any of its states. -/
theorem loop_inside {fuel : ℕ} (hip : ip < input.length) (hfuel : input.length - ip ≤ fuel) :
    ∃ n text, acc.length ≤ text.length ∧ text.length ≤ acc.length + room ∧ (n = 0 ∨ n = text.length) ∧
      ∀ rest : Bytes, rest.length = room → lzfDecompressLoop input fuel ⟨ip, acc.length, acc ++ rest⟩ =
        some (n, text ++ rest.drop (text.length - acc.length)) := by
  induction fuel generalizing ip acc room with
  | zero => omega
  | succ fuel ih =>
    rcases @goes_step input acc ip room hip with hnone | ⟨xs, ip', hlt, hle, hpos, hroom, hnext⟩
    · refine ⟨0, acc, le_rfl, Nat.le_add_right _ _, .inl rfl, fun rest hrest => ?_⟩
      have hstep : lzfDecompressStep input ⟨ip, acc.length, acc ++ rest⟩ = some none := hnone rest hrest
      rw [lzfDecompressLoop, hstep, Nat.sub_self]
      rfl
    replace hnext : ∀ rest : Bytes, rest.length = room →
        lzfDecompressStep input ⟨ip, acc.length, acc ++ rest⟩ = _ := hnext
    have hgrow : (acc ++ xs).length = acc.length + xs.length := List.length_append
    by_cases hmore : ip' < input.length
    · obtain ⟨n, text, hge, htext, hn, hrun⟩ := @ih (acc ++ xs) ip' (room - xs.length) hmore (by omega)
      refine ⟨n, text, by omega, by omega, hn, fun rest hrest => ?_⟩
      rw [lzfDecompressLoop, hnext rest hrest]
      refine (if_pos hmore).trans ((hrun _ (by rw [List.length_drop, hrest])).trans ?_)
      rw [List.drop_drop, show xs.length + (text.length - (acc ++ xs).length) =
        text.length - acc.length by omega]
    · refine ⟨(acc ++ xs).length, acc ++ xs, by omega, by omega, .inr rfl, fun rest hrest => ?_⟩
      rw [lzfDecompressLoop, hnext rest hrest, hgrow, Nat.add_sub_cancel_left, ← hgrow]
      exact if_neg hmore

end Inside

/-- **Memory.** For any bytes but none at all, and any size of the output, `lzf_decompress` ends,
and reads and writes inside of the two arrays. It writes a text of its own at the front of the
output, whatever was there, leaves the rest alone, and returns the length of the text or `0`. -/
theorem lzfDecompress_inside {input : Bytes} (hne : input ≠ []) (size : ℕ) :
    ∃ n text, text.length ≤ size ∧ (n = 0 ∨ n = text.length) ∧
      ∀ out : Bytes, out.length = size → lzfDecompress input out = some (n,
        text ++ out.drop text.length) := by
  have hpos : 0 < input.length := List.length_pos_iff.mpr hne
  obtain ⟨n, text, -, htext, hn, hrun⟩ := @loop_inside input [] 0 size (input.length + 1) hpos (by omega)
  rw [List.length_nil, Nat.zero_add] at htext
  exact ⟨n, text, htext, hn, hrun⟩

/-- Two literals, and a reference of which the second byte is missing. -/
theorem lzfDecompress_inside_cut : ∃ n text, text.length ≤ 4 ∧ (n = 0 ∨ n = text.length) ∧
    ∀ out : Bytes, out.length = 4 → lzfDecompress [1, 7, 8, 32] out = some (n, text ++ out.drop text.length) :=
  lzfDecompress_inside (List.cons_ne_nil _ _) 4

end Redis
end Comms
