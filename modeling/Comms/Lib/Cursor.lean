import Mathlib.Data.List.TakeWhile
import Mathlib.Order.Lattice

/-!
# Scans with a cursor

A table is scanned in parts: every pass starts at the first key that is not below the cursor, takes
at most `size` keys, and leaves the cursor at the last key it has taken. The keys are those of an
ordered table, in order.

* `Cursor.window`, `Cursor.next` — what a pass takes, and where it leaves the cursor;
* `Cursor.windows` — what a number of passes take;
* `Cursor.le_of_mem_windows` — a key below the cursor is not taken by any number of passes;
* `Cursor.mem_windows` — every other key is taken by as many passes as there are keys, when a pass
  takes two keys or more.
-/

namespace Cursor

variable {α : Type*} [LinearOrder α]

/-- What a pass takes. -/
def window (size : ℕ) (cursor : α) (keys : List α) : List α :=
  (keys.dropWhile (· < cursor)).take size

/-- Where it leaves the cursor. -/
def next (size : ℕ) (cursor : α) (keys : List α) : α :=
  (window size cursor keys).getLastD cursor

/-- The cursor in front of each of `n` passes, and what the pass takes. -/
def windows (size : ℕ) (keys : List α) : ℕ → α → List (α × List α)
  | 0, _ => []
  | n + 1, cursor =>
    (cursor, window size cursor keys) :: windows size keys n (next size cursor keys)

variable {size : ℕ} {cursor : α} {keys : List α}

@[simp] theorem windows_length (n : ℕ) : (windows size keys n cursor).length = n := by
  induction n generalizing cursor with
  | zero => rfl
  | succ n ih => rw [windows, List.length_cons, ih]

/-- In a sorted list, everything from a key on is not below it. -/
theorem le_of_mem_dropWhile (hsorted : keys.Pairwise (· < ·)) :
    ∀ k ∈ keys.dropWhile (· < cursor), cursor ≤ k := by
  induction keys with
  | nil =>
    rintro k ⟨⟩
  | cons k keys ih =>
    obtain ⟨hfirst, hsorted⟩ := List.pairwise_cons.mp hsorted
    by_cases hk : k < cursor
    · rw [List.dropWhile_cons_of_pos (by simpa using hk)]
      exact ih hsorted
    · rw [List.dropWhile_cons_of_neg (by simpa using hk)]
      have hle : cursor ≤ k := not_lt.mp hk
      intro j hj
      obtain rfl | hj := List.mem_cons.mp hj
      · exact hle
      · exact hle.trans (hfirst j hj).le

/-- A key that is not below the cursor is still to come. -/
theorem mem_dropWhile {k : α} (hk : k ∈ keys) (hle : cursor ≤ k) :
    k ∈ keys.dropWhile (· < cursor) := by
  have hsplit := List.takeWhile_append_dropWhile (p := (· < cursor)) (l := keys)
  rw [← hsplit] at hk
  obtain hk | hk := List.mem_append.mp hk
  · have hlt : k < cursor := by simpa using List.mem_takeWhile_imp hk
    exact absurd hle (not_le.mpr hlt)
  · exact hk

theorem window_subset : window size cursor keys ⊆ keys.dropWhile (· < cursor) :=
  List.take_subset _ _

theorem le_of_mem_window (hsorted : keys.Pairwise (· < ·)) {k : α}
    (hk : k ∈ window size cursor keys) : cursor ≤ k :=
  le_of_mem_dropWhile hsorted k (window_subset hk)

/-- The cursor does not go back. -/
theorem le_next (hsorted : keys.Pairwise (· < ·)) : cursor ≤ next size cursor keys := by
  unfold next
  cases hw : window size cursor keys with
  | nil => exact le_rfl
  | cons k w =>
    refine @le_of_mem_window _ _ size _ _ hsorted _ ?_
    rw [hw, List.getLastD_cons]
    exact List.getLastD_mem_cons ..

/-- **What is passed over.** A key below the cursor is taken by no number of passes. -/
theorem le_of_mem_windows (hsorted : keys.Pairwise (· < ·)) {n : ℕ} {k : α}
    (h : ∃ w ∈ windows size keys n cursor, k ∈ w.2) : cursor ≤ k := by
  induction n generalizing cursor with
  | zero =>
    obtain ⟨w, ⟨⟩, -⟩ := h
  | succ n ih =>
    obtain ⟨w, hw, hk⟩ := h
    obtain rfl | hw := List.mem_cons.mp hw
    · exact le_of_mem_window hsorted hk
    · exact (le_next hsorted).trans (ih ⟨w, hw, hk⟩)

/-- The first key that is not below `k` is `k`. -/
theorem dropWhile_split {xs ys : List α} {k : α} (hsorted : (xs ++ k :: ys).Pairwise (· < ·)) :
    (xs ++ k :: ys).dropWhile (· < k) = k :: ys := by
  obtain ⟨-, -, hbelow⟩ := List.pairwise_append.mp hsorted
  rw [List.dropWhile_append_of_pos fun x hx => by simpa using hbelow x hx k List.mem_cons_self,
    List.dropWhile_cons_of_neg (by simp)]

/-- What a pass leaves over starts at the last key it has taken. -/
theorem dropWhile_next (hsorted : keys.Pairwise (· < ·)) {m : ℕ}
    (hlen : m < (keys.dropWhile (· < cursor)).length) :
    keys.dropWhile (· < next (m + 1) cursor keys) = (keys.dropWhile (· < cursor)).drop m := by
  have hsplit := List.takeWhile_append_dropWhile (p := (· < cursor)) (l := keys)
  set ahead := keys.dropWhile (· < cursor) with hahead
  have hnext : next (m + 1) cursor keys = ahead[m] := by
    unfold next window
    rw [← hahead, List.take_succ_eq_append_getElem hlen, List.getLastD_concat]
  rw [← List.take_append_drop m ahead, List.drop_eq_getElem_cons hlen, ← List.append_assoc]
    at hsplit
  rw [hnext, List.drop_eq_getElem_cons hlen]
  rw [← hsplit] at hsorted
  have hfirst := dropWhile_split hsorted
  rwa [hsplit] at hfirst

/-- **What is reached.** As many passes as there are keys from the cursor on take all of these. -/
theorem mem_windows (hsorted : keys.Pairwise (· < ·)) {m n : ℕ}
    (hn : (keys.dropWhile (· < cursor)).length ≤ n) {k : α}
    (hk : k ∈ keys.dropWhile (· < cursor)) : ∃ w ∈ windows (m + 2) keys n cursor, k ∈ w.2 := by
  induction n generalizing cursor with
  | zero =>
    have hpos := List.length_pos_of_mem hk
    omega
  | succ n ih =>
    by_cases hlen : m + 1 < (keys.dropWhile (· < cursor)).length
    · have hrest := dropWhile_next hsorted hlen
      rw [← List.take_append_drop (m + 1) (keys.dropWhile (· < cursor))] at hk
      obtain hk | hk := List.mem_append.mp hk
      · exact ⟨_, List.mem_cons_self, List.take_subset_take_left _ (by omega) hk⟩
      · obtain ⟨w, hw, hkw⟩ := @ih (next (m + 2) cursor keys)
          (by rw [hrest, List.length_drop]; omega) (by rwa [hrest])
        exact ⟨w, List.mem_cons_of_mem _ hw, hkw⟩
    · refine ⟨_, List.mem_cons_self, ?_⟩
      unfold window
      rwa [List.take_of_length_le (by omega)]

end Cursor
