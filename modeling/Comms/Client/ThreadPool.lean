import Mathlib.Algebra.Order.BigOperators.Group.List
import Mathlib.Algebra.Order.Ring.Int
import Mathlib.Data.List.Range
import Mathlib.Data.Nat.Find

/-!
# Workers and listeners

`Comms::Start` gives every listener a range of the worker threads, and a listener hands a connection
to the worker of its range that has the fewest channels, which `GetIdlestChannelService` looks for.

* `bindThreadPools` — the ranges, from the source;
* `getIdlestChannelService` — the search, from the source;
* `idlest_minimal_iff` — it finds a worker with the fewest channels, unless one without any is
  followed by others;
* `placed_iff` — when every connection goes to a least loaded worker of its own listener.
-/

namespace Comms
namespace ThreadPool

/-- `(uint32) n`. -/
def uint32 (n : ℤ) : ℕ := (n % 2 ^ 32).toNat

/-! ### Ranges -/

/-- `thread_pool_sizes` after the first loop of `Start`. -/
def poolSizes (availableProcessors : ℕ) (sizes : List ℤ) : List ℤ :=
  sizes.map fun s => if s = 0 then 1 else if s < 0 then availableProcessors else s

/-- `worker_count`. -/
def workerCount (sizes : List ℤ) : ℕ := sizes.foldl (fun count s => uint32 (count + s)) 0

/-- `min` of listener `i`: the loop over the listeners in front of it. -/
def poolMin (sizes : List ℤ) (i : ℕ) : ℕ :=
  (sizes.take i).foldl (fun min s => uint32 (min + (min + s))) 0

/-- The arguments of `BindThreadPool`, of one listener after the other. -/
def bindThreadPools (sizes : List ℤ) : List (ℕ × ℕ) :=
  (List.range sizes.length).map fun i =>
    (poolMin sizes i, uint32 (poolMin sizes i + sizes.getD i 0))

/-! ### The idlest worker -/

/-- `m_channel_table.size()`. The table is kept by ids of 32 bits, of which `0` is none. -/
abbrev ChannelCount := Fin (2 ^ 32)

/-- `m_sub_pool`. A single worker is the service itself. -/
def subPool (workers : ℕ) (channels : ℕ → ChannelCount) : List ChannelCount :=
  if 1 < workers then (List.range workers).map channels else []

/-- The body of the loop: `size` and `idx`. -/
def idler (channels : ℕ → ℕ) (best : ℕ × ℕ) (i : ℕ) : ℕ × ℕ :=
  if best.1 = 0 ∨ channels i < best.1 then (channels i, i) else best

/-- `GetIdlestChannelService`; `none` is the service itself. -/
def getIdlestChannelService (pool : List ChannelCount) (min max : ℕ) : Option ℕ :=
  if pool = [] then none
  else
    let max := if pool.length ≤ max then pool.length else max
    let min := if pool.length ≤ min then pool.length - 1 else min
    let max := if min = max then min + 1 else max
    some ((List.range' min (max - min)).foldl (idler fun i => (pool.getD i 0).val) (0, 0)).2

/-! ### What should happen -/

/-- The first worker of a listener. -/
def first (sizes : List ℤ) (i : ℕ) : ℤ := (sizes.take i).sum

/-- The workers of a listener. -/
def Owns (sizes : List ℤ) (i w : ℕ) : Prop := first sizes i ≤ w ∧ (w : ℤ) < first sizes (i + 1)

/-- **What the pool is for.** Every listener is bound to the workers behind those of the listeners
in front of it, every worker belongs to one listener, and a connection goes to a worker of its
listener that has as few channels as any of them. -/
structure Placed (sizes : List ℤ) (channels : ℕ → ChannelCount) : Prop where
  bound : ∀ i < sizes.length, ∀ range ∈ (bindThreadPools sizes)[i]?,
    ((range.1 : ℤ), (range.2 : ℤ)) = (first sizes i, first sizes (i + 1))
  covered : ∀ w < workerCount sizes, ∃! i, i < sizes.length ∧ Owns sizes i w
  idlest : ∀ i < sizes.length, ∀ min max : ℕ, first sizes i = min → first sizes (i + 1) = max →
    ∀ w ∈ getIdlestChannelService (subPool (workerCount sizes) channels) min max,
      Owns sizes i w ∧ ∀ v, Owns sizes i v → channels w ≤ channels v

/-- Where a worker has no channels at all, the last one of its listener has none either. -/
def NoGap (sizes : List ℤ) (channels : ℕ → ChannelCount) : Prop :=
  ∀ i < sizes.length, ∀ last : ℕ, first sizes (i + 1) = last + 1 →
    ∀ w, Owns sizes i w → channels w = 0 → channels last = 0

/-! ### The search -/

section Search

variable {c : ℕ → ℕ} {before : List ℕ} {last : ℕ}

/-- What the loop has found behind the worker `last`. -/
def found (c : ℕ → ℕ) (before : List ℕ) (last : ℕ) : ℕ × ℕ :=
  (before ++ [last]).foldl (idler c) (0, 0)

theorem found_eq : found c before last = idler c (before.foldl (idler c) (0, 0)) last :=
  List.foldl_concat ..

theorem found_concat {next : ℕ} :
    found c (before ++ [last]) next = idler c (found c before last) next :=
  List.foldl_concat ..

/-- The loop has the count of a worker that it has seen. -/
theorem found_mem : (found c before last).2 ∈ before ++ [last] ∧
    (found c before last).1 = c (found c before last).2 := by
  induction before using List.reverseRecOn generalizing last with
  | nil => simp [found, idler]
  | append_singleton before b ih =>
    obtain ⟨hmem, hsize⟩ := @ih b
    rw [found_concat, idler]
    split
    · exact ⟨by simp, rfl⟩
    · exact ⟨List.mem_append_left _ hmem, hsize⟩

/-- Only the last worker can leave the sentinel behind. -/
theorem found_eq_zero_iff : (found c before last).1 = 0 ↔ c last = 0 := by
  rw [found_eq, idler]
  split <;> omega

/-- While no worker is without channels, the loop has the smallest count. -/
theorem found_le (h : ∀ w ∈ before ++ [last], c w ≠ 0) :
    ∀ w ∈ before ++ [last], (found c before last).1 ≤ c w := by
  induction before using List.reverseRecOn generalizing last with
  | nil => simp [found, idler]
  | append_singleton before b ih =>
    have hsmall := @ih b fun w hw => h w (List.mem_append_left _ hw)
    have hsize : (found c before b).1 ≠ 0 := by
      rw [Ne, found_eq_zero_iff]
      exact h b (by simp)
    intro w hw
    rw [found_concat, idler]
    obtain hw | hw := List.mem_append.mp hw
    · have := hsmall w hw
      split <;> omega
    · obtain rfl := List.mem_singleton.mp hw
      split <;> omega

/-- **The search.** It finds a worker with the fewest channels, exactly if the last worker has none
wherever one has none. -/
theorem idlest_minimal_iff :
    (∀ w ∈ before ++ [last], c (found c before last).2 ≤ c w) ↔
      ∀ w ∈ before ++ [last], c w = 0 → c last = 0 := by
  obtain ⟨hmem, hsize⟩ := @found_mem c before last
  constructor
  · intro h w hw hzero
    have hle := h w hw
    rw [← @found_eq_zero_iff _ before]
    omega
  · intro h w hw
    by_cases hzero : ∃ v ∈ before ++ [last], c v = 0
    · obtain ⟨v, hv, hv0⟩ := hzero
      have hfound := (@found_eq_zero_iff c before last).mpr (h v hv hv0)
      omega
    · have hpos : ∀ v ∈ before ++ [last], c v ≠ 0 := fun v hv hv0 => hzero ⟨v, hv, hv0⟩
      rw [← hsize]
      exact found_le hpos w hw

end Search

/-! ### The workers of a listener -/

section Pool

variable {workers : ℕ} {channels : ℕ → ChannelCount}

theorem subPool_getD (h : 1 < workers) {w : ℕ} (hw : w < workers) :
    (subPool workers channels).getD w 0 = channels w := by
  rw [subPool, if_pos h, List.getD_eq_getElem?_getD, List.getElem?_map, List.getElem?_range hw]
  rfl

/-- The search on the workers from `min` to `last`. -/
theorem getIdlest_eq (h : 1 < workers) {min last : ℕ} (hmin : min ≤ last) (hlast : last < workers) :
    getIdlestChannelService (subPool workers channels) min (last + 1) =
      some (found (fun i => ((subPool workers channels).getD i 0).val)
        (List.range' min (last - min)) last).2 := by
  have hlen : (subPool workers channels).length = workers := by simp [subPool, h]
  have hne : subPool workers channels ≠ [] := by
    rw [← List.length_pos_iff, hlen]
    omega
  have hmax : (if workers ≤ last + 1 then workers else last + 1) = last + 1 := by
    split <;> omega
  unfold getIdlestChannelService
  simp only [hne, if_false, hlen, hmax]
  rw [if_neg (by omega), if_neg (by omega), show last + 1 - min = (last - min) + 1 by omega,
    List.range'_concat]
  rw [show min + 1 * (last - min) = last by omega]
  rfl

/-- The workers from `min` to `last`. -/
theorem mem_workers {min last w : ℕ} (hmin : min ≤ last) :
    w ∈ List.range' min (last - min) ++ [last] ↔ min ≤ w ∧ w < last + 1 := by
  rw [List.mem_append, List.mem_range'_1, List.mem_singleton]
  omega

/-- A worker of the range with the fewest channels is found, exactly if there is no gap. -/
theorem getIdlest_minimal_iff {min last : ℕ} (hmin : min ≤ last) (hlast : last < workers) :
    (∀ w ∈ getIdlestChannelService (subPool workers channels) min (last + 1),
      (min ≤ w ∧ w < last + 1) ∧ ∀ v, min ≤ v ∧ v < last + 1 → channels w ≤ channels v) ↔
      ∀ w, min ≤ w ∧ w < last + 1 → channels w = 0 → channels last = 0 := by
  by_cases h : 1 < workers
  · have hcount (v : ℕ) (hv : v < last + 1) :
        ((subPool workers channels).getD v 0).val = (channels v).val :=
      congrArg Fin.val (subPool_getD h (by omega))
    have hsearch := @idlest_minimal_iff (fun i => ((subPool workers channels).getD i 0).val)
      (List.range' min (last - min)) last
    obtain ⟨hfound, -⟩ := @found_mem (fun i => ((subPool workers channels).getD i 0).val)
      (List.range' min (last - min)) last
    simp only [mem_workers hmin] at hsearch hfound
    simp only [getIdlest_eq h hmin hlast, Option.mem_some, forall_eq', hfound, true_and]
    refine Iff.trans (forall₂_congr fun v hv => ?_) (hsearch.trans (forall₂_congr fun v hv => ?_))
    · rw [hcount v hv.2, hcount _ hfound.2]
      exact Fin.le_def
    · rw [hcount v hv.2, hcount last (by omega)]
      exact Iff.symm (imp_congr Fin.ext_iff Fin.ext_iff)
  · -- the only worker is the service itself
    obtain rfl : last = 0 := by omega
    have hnone : getIdlestChannelService (subPool workers channels) min (0 + 1) = none := by
      simp [getIdlestChannelService, subPool, h]
    rw [hnone]
    refine iff_of_true (by rintro w ⟨⟩) fun w hw hzero => ?_
    obtain rfl : w = 0 := by omega
    exact hzero

end Pool

/-! ### The ranges -/

section Ranges

variable {sizes : List ℤ}

theorem first_succ {i : ℕ} (hi : i < sizes.length) :
    first sizes (i + 1) = first sizes i + sizes[i] := by
  unfold first
  rw [List.take_succ_eq_append_getElem hi, List.sum_append, List.sum_singleton]

theorem first_length : first sizes sizes.length = sizes.sum := by
  unfold first
  rw [List.take_length]

/-- The listeners own more and more workers. -/
theorem first_mono (h : ∀ s ∈ sizes, 1 ≤ s) {i j : ℕ} (hij : i < j) (hj : j ≤ sizes.length) :
    first sizes i < first sizes j := by
  induction j, hij using Nat.le_induction with
  | base =>
    have hpos := h _ (List.getElem_mem (show i < sizes.length by omega))
    rw [first_succ (by omega)]
    omega
  | succ j hij ih =>
    have hpos := h _ (List.getElem_mem (show j < sizes.length by omega))
    rw [first_succ (by omega)]
    have := ih (by omega)
    omega

/-- Every worker has one listener. -/
theorem existsUnique_owns (h : ∀ s ∈ sizes, 1 ≤ s) {w : ℕ} (hw : (w : ℤ) < sizes.sum) :
    ∃! i, i < sizes.length ∧ Owns sizes i w := by
  have hend : ∃ j, (w : ℤ) < first sizes j := ⟨sizes.length, by rwa [first_length]⟩
  have hlt := Nat.find_spec hend
  have hle : Nat.find hend ≤ sizes.length := Nat.find_min' hend (by rwa [first_length])
  obtain ⟨i, hi⟩ : ∃ i, Nat.find hend = i + 1 := by
    refine Nat.exists_eq_succ_of_ne_zero fun hzero => ?_
    rw [hzero] at hlt
    change (w : ℤ) < 0 at hlt
    omega
  rw [hi] at hlt hle
  have hfirst : first sizes i ≤ w := not_lt.mp (Nat.find_min hend (by omega))
  refine ⟨i, ⟨hle, hfirst, hlt⟩, ?_⟩
  rintro j ⟨hj, hjle, hjlt⟩
  by_contra hne
  obtain hij | hij := Nat.lt_or_gt_of_ne hne
  · have hmono : first sizes (j + 1) ≤ first sizes i := by
      obtain heq | hlt' := Nat.eq_or_lt_of_le (show j + 1 ≤ i from hij)
      · rw [heq]
      · exact (first_mono h hlt' (by omega)).le
    omega
  · have hmono : first sizes (i + 1) ≤ first sizes j := by
      obtain heq | hlt' := Nat.eq_or_lt_of_le (show i + 1 ≤ j from hij)
      · rw [heq]
      · exact (first_mono h hlt' (by omega)).le
    omega

theorem getElem?_bind {i : ℕ} (hi : i < sizes.length) : (bindThreadPools sizes)[i]? =
    some (poolMin sizes i, uint32 (poolMin sizes i + sizes.getD i 0)) := by
  unfold bindThreadPools
  rw [List.getElem?_map, List.getElem?_range hi]
  rfl

theorem uint32_of_lt {n : ℤ} (h0 : 0 ≤ n) (h : n < 2 ^ 32) : (uint32 n : ℤ) = n := by
  unfold uint32
  omega

theorem uint32_lt (n : ℤ) : uint32 n < 2 ^ 32 := by
  unfold uint32
  omega

/-- The number of workers. -/
theorem workerCount_eq (h : ∀ s ∈ sizes, 1 ≤ s) (hsum : sizes.sum < 2 ^ 32) :
    (workerCount sizes : ℤ) = sizes.sum := by
  have hfold : ∀ (sizes : List ℤ) (count : ℕ), (∀ s ∈ sizes, 1 ≤ s) → count + sizes.sum < 2 ^ 32 →
      ((sizes.foldl (fun count s => uint32 (count + s)) count : ℕ) : ℤ) = count + sizes.sum := by
    intro sizes
    induction sizes with
    | nil => simp
    | cons s sizes ih =>
      intro count h hlt
      obtain ⟨hs, hsizes⟩ := List.forall_mem_cons.mp h
      have hpos : 0 ≤ sizes.sum := List.sum_nonneg fun t ht => by have := hsizes t ht; omega
      rw [List.sum_cons] at hlt ⊢
      have hcount := @uint32_of_lt (count + s) (by omega) (by omega)
      rw [List.foldl_cons, ih _ hsizes (by omega), hcount, add_assoc]
  simpa [workerCount] using hfold sizes 0 h (by simpa using hsum)

/-- **The ranges.** They are those of the listeners exactly if there are at most two: from the third
on the sum over the listeners in front counts the first one twice. -/
theorem bound_iff (h : ∀ s ∈ sizes, 1 ≤ s) :
    (∀ i < sizes.length, ∀ range ∈ (bindThreadPools sizes)[i]?,
      ((range.1 : ℤ), (range.2 : ℤ)) = (first sizes i, first sizes (i + 1))) ↔
      sizes.length ≤ 2 ∧ sizes.sum < 2 ^ 32 := by
  constructor
  · intro hbound
    have hrange (i : ℕ) (hi : i < sizes.length) : (poolMin sizes i : ℤ) = first sizes i ∧
        (uint32 (poolMin sizes i + sizes.getD i 0) : ℤ) = first sizes (i + 1) := by
      simpa using hbound i hi _ (getElem?_bind hi)
    have hsum : sizes.sum < 2 ^ 32 := by
      rw [← first_length]
      cases hn : sizes.length with
      | zero => simp [first]
      | succ n =>
        rw [← (hrange n (by omega)).2]
        exact_mod_cast uint32_lt _
    refine ⟨?_, hsum⟩
    by_contra hlen
    rcases sizes with _ | ⟨a, _ | ⟨b, _ | ⟨c, rest⟩⟩⟩
    · simp at hlen
    · simp at hlen
    · simp at hlen
    · have ha := h a (by simp)
      have hmin := (hrange 2 (by simp)).1
      have hone := (hrange 1 (by simp)).1
      simp only [poolMin, first, List.take_succ_cons, List.take_zero, List.foldl_cons,
        List.foldl_nil, List.sum_cons, List.sum_nil] at hmin hone
      unfold uint32 at hmin hone
      omega
  · rintro ⟨hlen, hsum⟩ i hi range hrange
    rw [getElem?_bind hi] at hrange
    obtain rfl := Option.some.inj hrange
    -- one listener or two, and the first or the second of them
    rcases sizes with _ | ⟨a, _ | ⟨b, _ | ⟨c, rest⟩⟩⟩
    · cases hi
    · obtain rfl : i = 0 := by simpa using hi
      have ha := h a (by simp)
      simp only [List.sum_cons, List.sum_nil] at hsum
      simp [poolMin, first, uint32_of_lt (n := a) (by omega) (by omega)]
    · have ha := h a (by simp)
      have hb := h b (by simp)
      simp only [List.sum_cons, List.sum_nil] at hsum
      obtain rfl | rfl : i = 0 ∨ i = 1 := by
        simp only [List.length_cons, List.length_nil] at hi
        omega
      · simp [poolMin, first, uint32_of_lt (n := a) (by omega) (by omega)]
      · simp [poolMin, first, uint32_of_lt (n := a) (by omega) (by omega),
          uint32_of_lt (n := a + b) (by omega) (by omega)]
    · simp only [List.length_cons] at hlen
      omega

end Ranges

/-! ### Listeners and workers -/

section Placed

variable {sizes : List ℤ} {channels : ℕ → ChannelCount}

/-- Sizes that are positive stay as they are. -/
theorem poolSizes_eq (availableProcessors : ℕ) (h : ∀ s ∈ sizes, 1 ≤ s) :
    poolSizes availableProcessors sizes = sizes := by
  unfold poolSizes
  refine (List.map_congr_left fun s hs => ?_).trans (List.map_id sizes)
  have := h s hs
  rw [if_neg (by omega), if_neg (by omega)]
  rfl

/-- The first and the last worker of a listener. -/
theorem exists_workers (h : ∀ s ∈ sizes, 1 ≤ s) (hsum : sizes.sum < 2 ^ 32) {i : ℕ}
    (hi : i < sizes.length) : ∃ min last : ℕ, first sizes i = min ∧ first sizes (i + 1) = last + 1 ∧
      min ≤ last ∧ last < workerCount sizes := by
  have hmono := first_mono h (show i < i + 1 by omega) hi
  have hnonneg : 0 ≤ first sizes i :=
    List.sum_nonneg fun s hs => by have := h s (List.mem_of_mem_take hs); omega
  have hle : first sizes (i + 1) ≤ sizes.sum := by
    obtain heq | hlt := Nat.eq_or_lt_of_le (show i + 1 ≤ sizes.length from hi)
    · rw [heq, first_length]
    · exact (@first_length sizes ▸ first_mono h hlt le_rfl).le
  have hcount := workerCount_eq h hsum
  exact ⟨(first sizes i).toNat, (first sizes (i + 1) - 1).toNat, by omega, by omega, by omega,
    by omega⟩

/-- The search gives a least loaded worker of every listener, exactly if there is no gap. -/
theorem idlest_iff_noGap (h : ∀ s ∈ sizes, 1 ≤ s) (hsum : sizes.sum < 2 ^ 32) :
    (∀ i < sizes.length, ∀ min max : ℕ, first sizes i = min → first sizes (i + 1) = max →
      ∀ w ∈ getIdlestChannelService (subPool (workerCount sizes) channels) min max,
        Owns sizes i w ∧ ∀ v, Owns sizes i v → channels w ≤ channels v) ↔ NoGap sizes channels := by
  refine forall₂_congr fun i hi => ?_
  obtain ⟨min, last, hmin, hlast, hle, hlt⟩ := exists_workers h hsum hi
  have howns (w : ℕ) : Owns sizes i w ↔ min ≤ w ∧ w < last + 1 := by
    unfold Owns
    omega
  have hsearch := @getIdlest_minimal_iff _ channels _ _ hle hlt
  simp only [howns]
  constructor
  · intro hall last' hlast'
    obtain rfl : last' = last := by omega
    exact hsearch.mp (hall min (last' + 1) hmin (by omega))
  · intro hgap min' max hmin' hmax
    obtain rfl : min' = min := by omega
    obtain rfl : max = last + 1 := by omega
    exact hsearch.mpr (hgap last hlast)

/-- **Where connections go.** For every list of positive `thread_pool_sizes` and all channel counts
of the workers: the listeners are bound to ranges that follow each other and have all workers, and
the search gives a least loaded worker of the range, if and only if there are at most two listeners,
the workers are counted in 32 bits, and no worker without channels is in front of a last one with
some. -/
theorem placed_iff (availableProcessors : ℕ) (sizes : List ℤ) (channels : ℕ → ChannelCount)
    (h : ∀ s ∈ sizes, 1 ≤ s) : Placed (poolSizes availableProcessors sizes) channels ↔
      sizes.length ≤ 2 ∧ sizes.sum < 2 ^ 32 ∧ NoGap sizes channels := by
  rw [poolSizes_eq availableProcessors h]
  constructor
  · intro hp
    obtain ⟨hlen, hsum⟩ := (bound_iff h).mp hp.bound
    exact ⟨hlen, hsum, (idlest_iff_noGap h hsum).mp hp.idlest⟩
  · rintro ⟨hlen, hsum, hgap⟩
    exact
      { bound := (bound_iff h).mpr ⟨hlen, hsum⟩
        covered := fun w hw => existsUnique_owns h (by
          rw [← workerCount_eq h hsum]
          exact_mod_cast hw)
        idlest := (idlest_iff_noGap h hsum).mpr hgap }

/-- Two listeners and three workers. -/
theorem placed_iff_two :
    (∀ s ∈ ([1, 2] : List ℤ), 1 ≤ s) ∧ (Placed (poolSizes 8 [1, 2]) (fun _ => 1) ↔
      ([1, 2] : List ℤ).length ≤ 2 ∧ ([1, 2] : List ℤ).sum < 2 ^ 32 ∧ NoGap [1, 2] fun _ => 1) :=
  ⟨by decide, placed_iff 8 [1, 2] (fun _ => 1) (by decide)⟩

/-- The third listener does not have its first worker. -/
theorem third_listener_misplaced :
    ¬∀ (availableProcessors : ℕ) (sizes : List ℤ) (channels : ℕ → ChannelCount),
      (∀ s ∈ sizes, 1 ≤ s) → Placed (poolSizes availableProcessors sizes) channels := by
  intro h
  have hbound := (h 1 [1, 1, 2] (fun _ => 1) (by decide)).bound 2 (by decide) (3, 5) (by decide)
  revert hbound
  decide

end Placed

end ThreadPool
end Comms
