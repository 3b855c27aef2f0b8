import Comms.Rdb.Written
import Comms.Redis.LzfCompress

/-!
# Compressed strings of a snapshot

The parameter `Lzf` of a snapshot is `lzf_compress` and `lzf_decompress`, over the arrays that
`RedisWriteLzfStringObject` and `RedisReadLzfStringObject` get for them.

* `Machine` — where the strings are, and what is in the memory that is not set;
* `Machine.lzf` — compression and decompression on a machine;
* `Machine.lzf_lawful` — they are inverse to each other;
* `reads_written` — a string that is written to a snapshot is read back.
-/

namespace Comms
namespace Rdb

open Redis

/-- The memory that the compression of a string finds: the address of the string, what is on the
stack, and in the array from `malloc`. -/
structure Machine where
  place : Bytes → UInt64
  stack : Bytes → UInt16 → UInt64
  heap : Bytes → ℕ → UInt8
  placed : ∀ s : Bytes, s.length < 2 ^ 32 → Located (place s) s

/-- `lzf_compress` for an array of one byte more than it is told of, and `lzf_decompress` for one of
zeros. The sizes are of type `unsigned int`; a string that is longer is none that a snapshot writes.
-/
def Machine.lzf (m : Machine) : Lzf where
  compress s n :=
    if s.length < 2 ^ 32 then
      (lzfCompress (m.place s) s n (m.stack s) ((List.range (n + 1)).map (m.heap s))).bind fun result =>
        if result.1 = 0 then none else some (result.2.take result.1)
    else none
  decompress c len :=
    (lzfDecompress c (List.replicate len 0)).bind fun result =>
      if result.1 = 0 then none else some result.2

/-- **What is compressed is made the string again.** -/
theorem Machine.lzf_lawful (m : Machine) : m.lzf.Lawful := by
  intro s n out h
  change (if s.length < 2 ^ 32 then _ else none) = some out at h
  by_cases hsize : s.length < 2 ^ 32
  swap
  · rw [if_neg hsize] at h
    cases h
  rw [if_pos hsize] at h
  obtain ⟨⟨k, after⟩, hrun, hk⟩ := Option.bind_eq_some_iff.mp h
  by_cases hzero : k = 0
  · rw [if_pos hzero] at hk
    cases hk
  rw [if_neg hzero] at hk
  obtain rfl := Option.some.inj hk
  by_cases hlen : 2 ≤ s.length
  swap
  · -- a string of one byte is read behind its end, and none is not compressed
    exfalso
    rcases s with _ | ⟨b, _ | ⟨b', s⟩⟩
    · cases hrun
      exact hzero rfl
    · rw [lzfCompress] at hrun
      split at hrun
      · cases hrun
        exact hzero rfl
      · cases hrun
    · exact hlen (Nat.succ_le_succ (Nat.succ_le_succ (Nat.zero_le _)))
  have hbuf : n < ((List.range (n + 1)).map (m.heap s)).length := by
    rw [List.length_map, List.length_range]
    exact Nat.lt_succ_self n
  obtain ⟨k', after', hrun', hle, hback⟩ :=
    lzfDecompress_lzfCompress (m.placed s hsize) hlen hbuf (m.stack s)
  obtain ⟨rfl, rfl⟩ := Prod.mk.inj (Option.some.inj (hrun.symm.trans hrun'))
  refine ⟨(List.length_take_le _ _).trans hle, ?_⟩
  change (lzfDecompress _ _).bind _ = _
  rw [hback hzero _ (List.length_replicate ▸ le_rfl), Option.bind_some, if_neg (by omega),
    List.drop_of_length_le (List.length_replicate ▸ le_rfl), List.append_nil]

/-- **A string of a snapshot.** What `RedisWriteRawString` writes where no call of `Write` fails, as
a number, compressed or as it is, `RedisReadString` makes the string of again, whatever comes behind
it. -/
theorem reads_written (m : Machine) (formats : Formats) {s : Bytes} (h : s.length + 5 < 2 ^ 31) :
    let formats := { formats with lzf := m.lzf }
    ∃ ret bs, 0 ≤ ret ∧ Writes (redisWriteRawString formats s) ret bs ∧
      Consumes (redisReadString formats.lzf) bs s keeps := by
  intro formats
  have hlawful : formats.lzf.Lawful := m.lzf_lawful
  obtain ⟨ret, bs, hbytes, hwrites, hlong⟩ := writes_redisWriteRawString hlawful
    (show s.length < 2 ^ 32 - 1 by omega)
  refine ⟨ret, bs, ?_, hwrites, consumes_redisReadString hbytes⟩
  by_contra hneg
  have hge := (hlong (Int32.not_le.mp hneg)).2.1
  omega

/-- Strings that are all at one address, and memory of zeros. -/
def zeroMachine : Machine where
  place _ := 65536
  stack _ _ := 0
  heap _ _ := 0
  placed s h := ⟨by decide, Nat.lt_of_lt_of_le (Nat.add_lt_add_left h _) (by decide)⟩

theorem reads_written_repeats :
    ∃ ret bs, 0 ≤ ret ∧ Writes (redisWriteRawString { plainFormats with lzf := zeroMachine.lzf }
      (List.replicate 30 7)) ret bs ∧
        Consumes (redisReadString zeroMachine.lzf) bs (List.replicate 30 7) keeps :=
  reads_written zeroMachine plainFormats (by decide)

end Rdb
end Comms
