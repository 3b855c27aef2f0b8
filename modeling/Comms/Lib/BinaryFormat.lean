import Mathlib.Data.Nat.Bitwise
import Mathlib.Data.List.Basic
import Mathlib.Tactic.Linarith
import Mathlib.Tactic.Ring

/-!
# Numbers as bytes

Two ways to write a number as bytes, and the signs that go with the second. Nothing here knows what
the bytes are read from.

* `leBytes`, `ofLE` — a number in a given number of bytes, the least significant one first;
  `swap` — the same bytes in the other order;
* `varint` — a number in groups of seven bits, each byte but the last with its high bit set;
  `varint_cons` — the first group and the rest;
* `zigzag`, `unzigzag` — signed numbers as unsigned ones, the small ones first.
-/

namespace BinaryFormat

variable {k n : ℕ} {bs : List UInt8}

/-! ### A fixed number of bytes -/

/-- The number in `k` bytes, the least significant one first. -/
def leBytes : ℕ → ℕ → List UInt8
  | 0, _ => []
  | k + 1, n => UInt8.ofNat n :: leBytes k (n / 256)

/-- The number that the bytes are, the least significant one first. -/
def ofLE : List UInt8 → ℕ
  | [] => 0
  | b :: bs => b.toNat + 256 * ofLE bs

@[simp] theorem length_leBytes (k n : ℕ) : (leBytes k n).length = k := by
  induction k generalizing n with
  | zero => rfl
  | succ k ih => rw [leBytes, List.length_cons, ih]

theorem ofLE_leBytes (h : n < 256 ^ k) : ofLE (leBytes k n) = n := by
  induction k generalizing n with
  | zero =>
    have hn : n = 0 := by simpa using h
    rw [hn]
    rfl
  | succ k ih =>
    rw [pow_succ] at h
    rw [leBytes, ofLE, ih (Nat.div_lt_of_lt_mul (by linarith)), UInt8.toNat_ofNat']
    exact Nat.mod_add_div n 256

theorem leBytes_ofLE (bs : List UInt8) : leBytes bs.length (ofLE bs) = bs := by
  induction bs with
  | nil => rfl
  | cons b bs ih =>
    have hlt := b.toNat_lt
    have hdiv : (b.toNat + 256 * ofLE bs) / 256 = ofLE bs := by omega
    have hmod : UInt8.ofNat (b.toNat + 256 * ofLE bs) = b := by
      rw [← UInt8.toNat_inj, UInt8.toNat_ofNat']
      omega
    rw [List.length_cons, ofLE, leBytes, hdiv, hmod, ih]

theorem ofLE_lt (bs : List UInt8) : ofLE bs < 256 ^ bs.length := by
  induction bs with
  | nil => exact Nat.one_pos
  | cons b bs ih =>
    have hlt := b.toNat_lt
    rw [ofLE, List.length_cons, pow_succ]
    omega

/-- The number with its `k` bytes in the other order. -/
def swap (k n : ℕ) : ℕ := ofLE (leBytes k n).reverse

theorem leBytes_swap (k n : ℕ) : leBytes k (swap k n) = (leBytes k n).reverse := by
  have h := leBytes_ofLE (leBytes k n).reverse
  rwa [List.length_reverse, length_leBytes] at h

theorem swap_lt (k n : ℕ) : swap k n < 256 ^ k := by
  have h := ofLE_lt (leBytes k n).reverse
  rwa [List.length_reverse, length_leBytes] at h

/-- Twice is nothing. -/
theorem swap_swap (h : n < 256 ^ k) : swap k (swap k n) = n := by
  rw [swap, leBytes_swap, List.reverse_reverse, ofLE_leBytes h]

theorem leBytes_add (j k n : ℕ) : leBytes (j + k) n = leBytes j n ++ leBytes k (n / 256 ^ j) := by
  induction j generalizing n with
  | zero => rw [Nat.zero_add, pow_zero, Nat.div_one]; rfl
  | succ j ih =>
    rw [Nat.add_right_comm, leBytes, ih, leBytes, List.cons_append, Nat.div_div_eq_div_mul,
      pow_succ, Nat.mul_comm 256]

theorem ofLE_append (bs cs : List UInt8) :
    ofLE (bs ++ cs) = ofLE bs + 256 ^ bs.length * ofLE cs := by
  induction bs with
  | nil => rw [List.nil_append, List.length_nil, pow_zero, Nat.one_mul, ofLE, Nat.zero_add]
  | cons b bs ih =>
    rw [List.cons_append, ofLE, ih, ofLE, List.length_cons, pow_succ]
    ring

/-- The bytes of a number count modulo what they can hold. -/
theorem leBytes_mod (k n : ℕ) : leBytes k (n % 256 ^ k) = leBytes k n := by
  induction k generalizing n with
  | zero => rfl
  | succ k ih =>
    have hfirst : UInt8.ofNat (n % 256 ^ (k + 1)) = UInt8.ofNat n := by
      rw [← UInt8.toNat_inj, UInt8.toNat_ofNat', UInt8.toNat_ofNat']
      exact Nat.mod_mod_of_dvd n (pow_succ 256 k ▸ Nat.dvd_mul_left 256 (256 ^ k))
    have hrest : n % 256 ^ (k + 1) / 256 = n / 256 % 256 ^ k := by
      rw [pow_succ, Nat.mul_comm, Nat.mod_mul_right_div_self]
    rw [leBytes, leBytes, hfirst, hrest, ih]

/-- The halves of a number are swapped, and their bytes. -/
theorem swap_add (k n : ℕ) :
    swap (k + k) n = swap k (n % 256 ^ k) * 256 ^ k + swap k (n / 256 ^ k) := by
  have hlen : (leBytes k (n / 256 ^ k)).reverse.length = k := by
    rw [List.length_reverse, length_leBytes]
  rw [swap, leBytes_add, List.reverse_append, ofLE_append, hlen, swap, swap, leBytes_mod]
  ring

/-! ### Groups of seven bits -/

/-- The groups of a number, in an array with `room` for so many bytes; `none` is a write behind its
end. -/
def varint : ℕ → ℕ → Option (List UInt8)
  | 0, _ => none
  | room + 1, n =>
    if 0x7F < n then
      (varint room (n >>> 7)).map ((UInt8.ofNat n &&& 0x7F ||| 0x80) :: ·)
    else some [UInt8.ofNat n &&& 0x7F]

theorem toNat_low (b : UInt8) : (b &&& 0x7F).toNat = b.toNat % 128 := by
  rw [UInt8.toNat_and]
  exact Nat.and_two_pow_sub_one_eq_mod b.toNat 7

theorem toNat_high {b : UInt8} (h : b.toNat < 128) : (b ||| 0x80).toNat = b.toNat + 128 := by
  have hor := Nat.two_pow_add_eq_or_of_lt (i := 7) h 1
  rw [UInt8.toNat_or, Nat.or_comm]
  exact hor.symm.trans (Nat.add_comm _ _)

/-- The high bit says that there are more groups. -/
theorem and_high_eq_zero_iff (b : UInt8) : b &&& 0x80 = 0 ↔ b.toNat < 128 := by
  have hlt := b.toNat_lt
  have hbit : b.toNat &&& 2 ^ 7 = (b.toNat.testBit 7).toNat * 2 ^ 7 := Nat.and_two_pow b.toNat 7
  have htest : b.toNat.testBit 7 = decide (128 ≤ b.toNat) := by
    rw [Nat.testBit_eq_decide_div_mod_eq]
    exact decide_eq_decide.mpr (by omega)
  rw [← UInt8.toNat_inj, UInt8.toNat_and]
  change b.toNat &&& 2 ^ 7 = 0 ↔ _
  rw [hbit, htest]
  by_cases h : 128 ≤ b.toNat
  · simp [h]
  · simp [h, Nat.lt_of_not_le h]

/-- The last group. -/
theorem varint_last (hn : n < 128) (room : ℕ) :
    varint (room + 1) n = some [UInt8.ofNat n] ∧ (UInt8.ofNat n).toNat = n := by
  have hbyte : (UInt8.ofNat n).toNat = n := by
    rw [UInt8.toNat_ofNat']
    omega
  refine ⟨?_, hbyte⟩
  rw [varint, if_neg (by omega)]
  congr 2
  rw [← UInt8.toNat_inj, toNat_low, hbyte]
  omega

/-- A group and the rest. -/
theorem varint_cons (hn : 128 ≤ n) (room : ℕ) : ∃ b, varint (room + 1) n =
    (varint room (n / 128)).map (b :: ·) ∧ b.toNat = n % 128 + 128 := by
  refine ⟨UInt8.ofNat n &&& 0x7F ||| 0x80, ?_, ?_⟩
  · rw [varint, if_pos (by omega), Nat.shiftRight_eq_div_pow]
  · have hlow : (UInt8.ofNat n &&& 0x7F).toNat = n % 128 := by
      rw [toNat_low, UInt8.toNat_ofNat']
      omega
    rw [toNat_high (by omega), hlow]

/-- There is room for seven bits a byte. -/
theorem varint_isSome {room : ℕ} (hn : n < 128 ^ (room + 1)) :
    ∃ bs, varint (room + 1) n = some bs := by
  induction room generalizing n with
  | zero => exact ⟨_, (varint_last (by simpa using hn) 0).1⟩
  | succ room ih =>
    rcases Nat.lt_or_ge n 128 with hlast | hmore
    · exact ⟨_, (varint_last hlast _).1⟩
    · obtain ⟨b, hcons, -⟩ := varint_cons hmore (room + 1)
      have hdiv : n / 128 < 128 ^ (room + 1) := by
        rw [pow_succ] at hn
        exact Nat.div_lt_of_lt_mul (by linarith)
      obtain ⟨bs, hbs⟩ := ih hdiv
      exact ⟨b :: bs, by rw [hcons, hbs]; rfl⟩

/-! ### Signed numbers -/

variable {w : ℕ}

/-- A signed number as an unsigned one: `0`, `-1`, `1`, `-2`, .. are `0`, `1`, `2`, `3`, .. -/
def zigzag (n : BitVec w) : BitVec w := (n <<< 1) ^^^ n.sshiftRight (w - 1)

/-- The signed number that an unsigned one stands for. -/
def unzigzag (n : BitVec w) : BitVec w := (n >>> 1) ^^^ -(n &&& 1#w)

theorem toNat_zigzag_of_nonneg {n : BitVec w} (h : n.msb = false) :
    (zigzag n).toNat = 2 * n.toNat := by
  have hlt := BitVec.msb_eq_false_iff_two_mul_lt.mp h
  have hsign : n.sshiftRight (w - 1) = 0#w := by
    rw [BitVec.sshiftRight_eq_of_msb_false h]
    apply BitVec.eq_of_toNat_eq
    rw [BitVec.toNat_ushiftRight, Nat.shiftRight_eq_div_pow,
      Nat.div_eq_of_lt (BitVec.toNat_lt_of_msb_false h)]
    rfl
  rw [zigzag, hsign, BitVec.xor_zero, BitVec.toNat_shiftLeft, Nat.shiftLeft_eq,
    Nat.mod_eq_of_lt (by omega)]
  omega

theorem toNat_zigzag_of_neg {n : BitVec w} (h : n.msb = true) :
    (zigzag n).toNat + 2 * n.toNat + 1 = 2 * 2 ^ w := by
  have hge := BitVec.msb_eq_true_iff_two_mul_ge.mp h
  have hn := n.isLt
  have hw : 2 ^ w = 2 * 2 ^ (w - 1) := by
    cases w with
    | zero => omega
    | succ w => rw [pow_succ, Nat.mul_comm]; rfl
  have hsign : n.sshiftRight (w - 1) = BitVec.allOnes w := by
    have hzero : ~~~n >>> (w - 1) = 0#w := by
      apply BitVec.eq_of_toNat_eq
      rw [BitVec.toNat_ushiftRight, Nat.shiftRight_eq_div_pow, BitVec.toNat_not,
        Nat.div_eq_of_lt (by omega)]
      rfl
    rw [BitVec.sshiftRight_eq_of_msb_true h, hzero, BitVec.not_zero]
  have hshift : 2 * n.toNat % 2 ^ w = 2 * n.toNat - 2 ^ w := by
    rw [Nat.mod_eq_sub_mod hge, Nat.mod_eq_of_lt (by omega)]
  rw [zigzag, hsign, BitVec.xor_allOnes, BitVec.toNat_not, BitVec.toNat_shiftLeft,
    Nat.shiftLeft_eq, pow_one, Nat.mul_comm n.toNat, hshift]
  omega

theorem and_one_eq (n : BitVec w) : n &&& 1#w = BitVec.ofNat w (n.toNat % 2) := by
  apply BitVec.eq_of_toNat_eq
  cases w with
  | zero => rw [BitVec.eq_nil (n &&& 1#0), BitVec.eq_nil (BitVec.ofNat 0 (n.toNat % 2))]
  | succ w =>
    have hone : (1#(w + 1)).toNat = 1 := by simp
    have hlt : n.toNat % 2 < 2 ^ (w + 1) := by
      have hpow := Nat.one_le_two_pow (n := w)
      omega
    rw [BitVec.toNat_and, hone, Nat.and_one_is_mod, BitVec.toNat_ofNat, Nat.mod_eq_of_lt hlt]

theorem toNat_unzigzag_of_even {n : BitVec w} (h : n.toNat % 2 = 0) :
    (unzigzag n).toNat = n.toNat / 2 := by
  rw [unzigzag, and_one_eq, h, BitVec.neg_zero, BitVec.xor_zero,
    BitVec.toNat_ushiftRight, Nat.shiftRight_one]

theorem toNat_unzigzag_of_odd {n : BitVec w} (h : n.toNat % 2 = 1) :
    (unzigzag n).toNat = 2 ^ w - 1 - n.toNat / 2 := by
  rw [unzigzag, and_one_eq, h, BitVec.neg_one_eq_allOnes, BitVec.xor_allOnes, BitVec.toNat_not,
    BitVec.toNat_ushiftRight, Nat.shiftRight_one]

/-- **Signs.** Every signed number comes back. -/
theorem unzigzag_zigzag (n : BitVec w) : unzigzag (zigzag n) = n := by
  apply BitVec.eq_of_toNat_eq
  have hn := n.isLt
  cases hsign : n.msb with
  | false =>
    have hz := toNat_zigzag_of_nonneg hsign
    rw [toNat_unzigzag_of_even (by omega), hz]
    omega
  | true =>
    have hz := toNat_zigzag_of_neg hsign
    have hge := BitVec.msb_eq_true_iff_two_mul_ge.mp hsign
    rw [toNat_unzigzag_of_odd (by omega)]
    omega

end BinaryFormat
