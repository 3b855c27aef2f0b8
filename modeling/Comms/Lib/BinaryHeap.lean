import Mathlib.Order.Lattice

/-!
# Binary heaps

The positions of a heap are `1`, .., `n`, and the parent of a position is half of it. Only the keys
at the positions count here: how the entries are kept is up to the heap.

* `Ordered` — no key is smaller than that of its parent; `Ordered.le` — the root has the least;
* `UpTo`, `DownFrom` — the same, but for one position that may be too small, or too large;
* `UpTo.swap`, `DownFrom.swap` — one step of sifting up, and of sifting down;
* `Ordered.upTo`, `Ordered.downFrom`, .. — what a change of a key leaves to be sifted.
-/

namespace BinaryHeap

variable {K α : Type} {key key' : ℕ → K} {n j k i : ℕ}

/-- What is at two positions is exchanged. -/
def swapped (j k : ℕ) (f : ℕ → α) (i : ℕ) : α := if i = j then f k else if i = k then f j else f i

theorem swapped_left (f : ℕ → α) : swapped j k f j = f k := if_pos rfl

theorem swapped_right (f : ℕ → α) : swapped j k f k = f j := by
  unfold swapped
  split
  · rename_i h
    rw [h]
  · rw [if_pos rfl]

theorem swapped_of_ne {f : ℕ → α} (hj : i ≠ j) (hk : i ≠ k) : swapped j k f i = f i := by
  rw [swapped, if_neg hj, if_neg hk]

theorem swapped_comm (f : ℕ → α) : swapped j k f = swapped k j f := by
  funext i
  unfold swapped
  split
  · rename_i h
    subst h
    split
    · rename_i h
      rw [h]
    · rfl
  · rfl

/-- Nothing gets lost, and nothing comes in. -/
theorem exists_swapped {f : ℕ → α} {a : α} : (∃ i, swapped j k f i = a) ↔ ∃ i, f i = a := by
  constructor
  · rintro ⟨i, hi⟩
    unfold swapped at hi
    split at hi
    · exact ⟨k, hi⟩
    · split at hi
      · exact ⟨j, hi⟩
      · exact ⟨i, hi⟩
  · rintro ⟨i, hi⟩
    by_cases hj : i = j
    · exact ⟨k, by rw [swapped_right, ← hj, hi]⟩
    · by_cases hk : i = k
      · exact ⟨j, by rw [swapped_left, ← hk, hi]⟩
      · exact ⟨i, by rw [swapped_of_ne hj hk, hi]⟩

variable [LinearOrder K]

/-- No key is smaller than that of its parent. -/
def Ordered (key : ℕ → K) (n : ℕ) : Prop := ∀ i, 2 ≤ i → i ≤ n → key (i / 2) ≤ key i

/-- Only the key at `k` may be smaller than that of its parent. -/
structure UpTo (key : ℕ → K) (n k : ℕ) : Prop where
  except : ∀ i, 2 ≤ i → i ≤ n → i ≠ k → key (i / 2) ≤ key i
  grand : 2 ≤ k → ∀ i, i ≤ n → i / 2 = k → key (k / 2) ≤ key i

/-- Only the key at `k` may be larger than those of its children. -/
structure DownFrom (key : ℕ → K) (n k : ℕ) : Prop where
  except : ∀ i, 2 ≤ i → i ≤ n → i / 2 ≠ k → key (i / 2) ≤ key i
  grand : 2 ≤ k → ∀ i, i ≤ n → i / 2 = k → key (k / 2) ≤ key i

/-- The least key is at the root. -/
theorem Ordered.le (h : Ordered key n) (hpos : 1 ≤ i) (hi : i ≤ n) : key 1 ≤ key i := by
  induction i using Nat.strongRecOn with
  | ind i ih =>
    by_cases hroot : i = 1
    · rw [hroot]
    · calc key 1 ≤ key (i / 2) := ih (i / 2) (by omega) (by omega) (by omega)
        _ ≤ key i := h i (by omega) hi

/-! ### Sifting -/

theorem UpTo.ordered (h : UpTo key n k) (hk : 2 ≤ k → key (k / 2) ≤ key k) : Ordered key n := by
  intro i hi hin
  by_cases hik : i = k
  · subst hik
    exact hk hi
  · exact h.except i hi hin hik

theorem UpTo.swap (h : UpTo key n k) (hk : 2 ≤ k) (hkn : k ≤ n) (hlt : key k < key (k / 2)) :
    UpTo (swapped (k / 2) k key) n (k / 2) := by
  have hparent : k / 2 ≠ k := by omega
  constructor
  · intro i hi hin hij
    by_cases hik : i = k
    · subst hik
      rw [swapped_left, swapped_right]
      exact hlt.le
    · rw [swapped_of_ne hij hik]
      by_cases hij' : i / 2 = k / 2
      · rw [hij', swapped_left]
        exact hlt.le.trans (hij' ▸ h.except i hi hin hik)
      · by_cases hik' : i / 2 = k
        · rw [hik', swapped_right]
          exact h.grand hk i hin hik'
        · rw [swapped_of_ne hij' hik']
          exact h.except i hi hin hik
  · intro hj i hin hij
    have hup : key (k / 2 / 2) ≤ key (k / 2) := h.except (k / 2) hj (by omega) hparent
    rw [swapped_of_ne (i := k / 2 / 2) (by omega) (by omega)]
    by_cases hik : i = k
    · rw [hik, swapped_right]
      exact hup
    · rw [swapped_of_ne (by omega) hik]
      exact hup.trans (hij ▸ h.except i (by omega) hin hik)

theorem DownFrom.ordered (h : DownFrom key n k)
    (hk : ∀ i, 2 ≤ i → i ≤ n → i / 2 = k → key k ≤ key i) : Ordered key n := by
  intro i hi hin
  by_cases hik : i / 2 = k
  · rw [hik]
    exact hk i hi hin hik
  · exact h.except i hi hin hik

theorem DownFrom.swap (h : DownFrom key n k) (hk : 1 ≤ k) (hj : j / 2 = k) (hjn : j ≤ n)
    (hleast : ∀ i, i ≤ n → i / 2 = k → key j ≤ key i) (hlt : key j < key k) :
    DownFrom (swapped k j key) n j := by
  have hjk : j ≠ k := by omega
  constructor
  · intro i hi hin hij
    by_cases hik' : i / 2 = k
    · rw [hik', swapped_left]
      by_cases hij' : i = j
      · rw [hij', swapped_right]
        exact hlt.le
      · rw [swapped_of_ne (by omega) hij']
        exact hleast i hin hik'
    · rw [swapped_of_ne hik' hij]
      by_cases hik : i = k
      · rw [hik, swapped_left]
        exact h.grand (by omega) j hjn hj
      · by_cases hij' : i = j
        · exact absurd (hij' ▸ hj) hik'
        · rw [swapped_of_ne hik hij']
          exact h.except i hi hin hik'
  · intro _ i hin hij
    rw [hj, swapped_left, swapped_of_ne (by omega) (by omega)]
    exact hij ▸ h.except i (by omega) hin (by omega)

/-! ### Changes of one key -/

/-- A key that gets smaller has to go up. -/
theorem Ordered.upTo (h : Ordered key n) (hsame : ∀ i, i ≠ k → key' i = key i)
    (hle : key' k ≤ key k) : UpTo key' n k := by
  constructor
  · intro i hi hin hik
    rw [hsame i hik]
    by_cases hik' : i / 2 = k
    · rw [hik']
      exact hle.trans (hik' ▸ h i hi hin)
    · rw [hsame _ hik']
      exact h i hi hin
  · intro hk i hin hik
    rw [hsame (k / 2) (by omega), hsame i (by omega)]
    exact (h k hk (by omega)).trans (hik ▸ h i (by omega) hin)

/-- A key that gets larger has to go down. -/
theorem Ordered.downFrom (h : Ordered key n) (hsame : ∀ i, i ≠ k → key' i = key i)
    (hle : key k ≤ key' k) : DownFrom key' n k := by
  constructor
  · intro i hi hin hik'
    rw [hsame _ hik']
    by_cases hik : i = k
    · subst hik
      exact (h i hi hin).trans hle
    · rw [hsame i hik]
      exact h i hi hin
  · intro hk i hin hik
    rw [hsame (k / 2) (by omega), hsame i (by omega)]
    exact (h k hk (by omega)).trans (hik ▸ h i (by omega) hin)

/-- A key behind the last one has to go up. -/
theorem Ordered.add (h : Ordered key n) (hsame : ∀ i, i ≤ n → key' i = key i) :
    UpTo key' (n + 1) (n + 1) := by
  constructor
  · intro i hi hin hik
    rw [hsame i (by omega), hsame (i / 2) (by omega)]
    exact h i hi (by omega)
  · intro _ i hin hik
    omega

theorem Ordered.mono {m : ℕ} (h : Ordered key n) (hm : m ≤ n) : Ordered key m :=
  fun i hi him => h i hi (Nat.le_trans him hm)

/-- Whatever is at the root has to go down. -/
theorem Ordered.root (h : Ordered key n) (hsame : ∀ i, 2 ≤ i → i ≤ n → key' i = key i) :
    DownFrom key' n 1 := by
  constructor
  · intro i hi hin hi1
    rw [hsame i hi hin, hsame (i / 2) (by omega) (by omega)]
    exact h i hi hin
  · exact fun h2 => absurd h2 (by omega)

end BinaryHeap
