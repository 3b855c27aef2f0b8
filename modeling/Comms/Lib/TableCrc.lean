import Mathlib.Data.List.Nodup
import Mathlib.Data.UInt

/-!
# Checksums driven by a byte table

A reflected CRC of 64 bits takes one byte at a time: the low byte of the register and the byte select an
entry of a table, which is added to the register shifted by a byte. The table is a parameter.

* `TableCrc.run` — the register after some bytes;
* `TableCrc.run_append`, `TableCrc.run_chunks` — bytes that come in pieces;
* `TableCrc.nodup_of_distinct` — a list of numbers is checked for repetitions in one pass;
* `TableCrc.step_injective`, `TableCrc.run_injective` — where no two entries agree in their top byte, the
  register before some bytes can be told from the one behind them.
-/

namespace TableCrc

variable (tab : UInt8 → UInt64)

/-- One byte. -/
def step (crc : UInt64) (byte : UInt8) : UInt64 := tab (crc.toUInt8 ^^^ byte) ^^^ (crc >>> 8)

/-- The register after some bytes. -/
def run (crc : UInt64) (bytes : List UInt8) : UInt64 := bytes.foldl (step tab) crc

@[simp] theorem run_nil (crc : UInt64) : run tab crc [] = crc := rfl

theorem run_cons (crc : UInt64) (b : UInt8) (bytes : List UInt8) :
    run tab crc (b :: bytes) = run tab (step tab crc b) bytes := rfl

/-- A checksum is continued from what it was. -/
theorem run_append (crc : UInt64) (xs ys : List UInt8) :
    run tab crc (xs ++ ys) = run tab (run tab crc xs) ys := List.foldl_append

/-- **Pieces.** It does not matter how the bytes are cut. -/
theorem run_chunks {α : Type*} (f : α → List UInt8) (crc : UInt64) (chunks : List α) :
    chunks.foldl (fun c a => run tab c (f a)) crc = run tab crc (chunks.flatMap f) := by
  induction chunks generalizing crc with
  | nil => rfl
  | cons a chunks ih =>
    rw [List.flatMap_cons, run_append, List.foldl_cons]
    exact ih _

/-! ### Numbers without repetition -/

/-- No number of the list is in the set of bits `seen`, and none comes twice. -/
def distinct : ℕ → List ℕ → Bool
  | _, [] => true
  | seen, x :: xs => !seen.testBit x && distinct (seen ||| 1 <<< x) xs

theorem nodup_of_distinct {seen : ℕ} {xs : List ℕ} (h : distinct seen xs = true) :
    xs.Nodup ∧ ∀ x ∈ xs, seen.testBit x = false := by
  induction xs generalizing seen with
  | nil => exact ⟨List.nodup_nil, fun _ hx => absurd hx List.not_mem_nil⟩
  | cons x xs ih =>
    rw [distinct, Bool.and_eq_true, Bool.not_eq_true'] at h
    obtain ⟨hnodup, hrest⟩ := ih h.2
    -- what comes later is in neither of the two sets that were joined
    have hlater (y : ℕ) (hy : y ∈ xs) : seen.testBit y = false ∧ y ≠ x := by
      have hbit := hrest y hy
      rw [Nat.testBit_or, Nat.one_shiftLeft, Nat.testBit_two_pow, Bool.or_eq_false_iff] at hbit
      exact ⟨hbit.1, fun hyx => of_decide_eq_false hbit.2 hyx.symm⟩
    refine ⟨List.nodup_cons.mpr ⟨fun hx => (hlater x hx).2 rfl, hnodup⟩, ?_⟩
    intro y hy
    rcases List.mem_cons.mp hy with rfl | hy
    · exact h.1
    · exact (hlater y hy).1

variable {tab}

/-! ### Going back -/

/-- The top byte of the register is shifted out of the way of the entry. -/
theorem step_top (crc : UInt64) (byte : UInt8) :
    step tab crc byte >>> 56 = tab (crc.toUInt8 ^^^ byte) >>> 56 := by
  have hzero : crc >>> 8 >>> 56 = 0 := by
    apply UInt64.toNat_inj.mp
    have hlt := UInt64.toNat_lt crc
    show (crc.toNat >>> 8) >>> 56 = 0
    rw [← Nat.shiftRight_add, Nat.shiftRight_eq_div_pow]
    exact Nat.div_eq_of_lt hlt
  unfold step
  rw [UInt64.shiftRight_xor, hzero, UInt64.xor_zero]

/-- **A byte.** The entry is told by its top byte, and the rest of the register is what is left. -/
theorem step_injective (htab : ∀ i j, tab i >>> 56 = tab j >>> 56 → i = j) {a b : UInt64}
    {byte : UInt8} (h : step tab a byte = step tab b byte) : a = b := by
  have hindex : a.toUInt8 ^^^ byte = b.toUInt8 ^^^ byte := by
    apply htab
    rw [← step_top, ← step_top, h]
  have hlow : a.toUInt8 = b.toUInt8 := (UInt8.xor_left_inj byte).mp hindex
  have hhigh : a >>> 8 = b >>> 8 := by
    unfold step at h
    rw [hlow] at h
    exact (UInt64.xor_right_inj _).mp h
  -- the low byte and the others
  apply UInt64.toNat_inj.mp
  have hlow' : a.toNat % 256 = b.toNat % 256 := congrArg UInt8.toNat hlow
  have hhigh' : a.toNat >>> 8 = b.toNat >>> 8 := congrArg UInt64.toNat hhigh
  rw [Nat.shiftRight_eq_div_pow, Nat.shiftRight_eq_div_pow] at hhigh'
  calc a.toNat = 256 * (a.toNat / 256) + a.toNat % 256 := (Nat.div_add_mod _ _).symm
    _ = 256 * (b.toNat / 256) + b.toNat % 256 := by rw [hlow', hhigh']
    _ = b.toNat := Nat.div_add_mod _ _

/-- **Any bytes.** -/
theorem run_injective (htab : ∀ i j, tab i >>> 56 = tab j >>> 56 → i = j) {a b : UInt64}
    {bytes : List UInt8} (h : run tab a bytes = run tab b bytes) : a = b := by
  induction bytes generalizing a b with
  | nil => exact h
  | cons byte bytes ih =>
    rw [run_cons, run_cons] at h
    exact step_injective htab (ih h)

end TableCrc
