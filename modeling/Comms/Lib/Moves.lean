import Mathlib.Data.List.Infix
import Mathlib.Logic.Function.Basic

/-!
# Moving the entries of a table

The entries of a table are moved from key to key, one move after the other. A move from a key
without an entry does nothing; an entry at the key that another one is moved to is lost.

* `Moves.move`, `Moves.moveAll` — one move, and a list of them;
* `Moves.follow` — where the moves lead from a key, if nothing else were in the table;
* `Moves.eq_follow_of_moveAll` — an entry is where its key leads to, or nowhere;
* `Moves.moveAll_follow_iff` — every entry is where its key leads to, exactly if no two are ever led
  to the same key.
-/

namespace Moves

variable {κ ι : Type*} [DecidableEq κ]

/-- One move: `erase` and then `operator[]`. -/
def move (table : κ → Option ι) (m : κ × κ) : κ → Option ι :=
  match table m.1 with
  | none => table
  | some entry => Function.update (Function.update table m.1 none) m.2 (some entry)

def moveAll (table : κ → Option ι) (moves : List (κ × κ)) : κ → Option ι := moves.foldl move table

/-- Where the moves lead. -/
def follow (moves : List (κ × κ)) (k : κ) : κ :=
  moves.foldl (fun k m => if m.1 = k then m.2 else k) k

@[simp] theorem follow_nil (k : κ) : follow [] k = k := rfl

theorem follow_concat (moves : List (κ × κ)) (m : κ × κ) (k : κ) :
    follow (moves ++ [m]) k = if m.1 = follow moves k then m.2 else follow moves k :=
  List.foldl_concat ..

theorem moveAll_concat (table : κ → Option ι) (moves : List (κ × κ)) (m : κ × κ) :
    moveAll table (moves ++ [m]) = move (moveAll table moves) m :=
  List.foldl_concat ..

variable {table : κ → Option ι} {m : κ × κ} {moves : List (κ × κ)}

theorem move_of_none (h : table m.1 = none) : move table m = table := by
  unfold move
  rw [h]

theorem move_of_some {entry : ι} (h : table m.1 = some entry) :
    move table m = Function.update (Function.update table m.1 none) m.2 (some entry) := by
  unfold move
  rw [h]

/-- Moves from keys that are none of these lead nowhere. -/
theorem follow_of_forall_ne {k : κ} (h : ∀ m ∈ moves, m.1 ≠ k) : follow moves k = k := by
  induction moves using List.reverseRecOn with
  | nil => rfl
  | append_singleton moves m ih =>
    rw [follow_concat, ih fun m hm => h m (List.mem_append_left _ hm), if_neg (h m (by simp))]

/-- What is in the table after a move was in it before: at the key it was moved from, or where it
is. -/
theorem eq_some_of_move {k : κ} {c : ι} (h : move table m k = some c) :
    (k = m.2 ∧ table m.1 = some c) ∨ (k ≠ m.1 ∧ table k = some c) ∨
      (table m.1 = none ∧ table k = some c) := by
  cases hm : table m.1 with
  | none =>
    rw [move_of_none hm] at h
    exact .inr (.inr ⟨rfl, h⟩)
  | some entry =>
    rw [move_of_some hm] at h
    by_cases hk : k = m.2
    · subst hk
      rw [Function.update_self] at h
      exact .inl ⟨rfl, h⟩
    · rw [Function.update_of_ne hk] at h
      by_cases hk' : k = m.1
      · subst hk'
        rw [Function.update_self] at h
        cases h
      · rw [Function.update_of_ne hk'] at h
        exact .inr (.inl ⟨hk', h⟩)

section Home

variable {home : ι → κ}

/-- Each entry starts at a key of its own. -/
def StartsAt (table : κ → Option ι) (home : ι → κ) : Prop := ∀ k c, table k = some c ↔ home c = k

/-- **An entry is where its key leads to**, or it has been lost. -/
theorem eq_follow_of_moveAll (h : StartsAt table home) {k : κ} {c : ι}
    (hk : moveAll table moves k = some c) : k = follow moves (home c) := by
  induction moves using List.reverseRecOn generalizing k with
  | nil => exact ((h k c).mp hk).symm
  | append_singleton moves m ih =>
    rw [moveAll_concat] at hk
    rw [follow_concat]
    obtain ⟨rfl, hm⟩ | ⟨hne, hold⟩ | ⟨hnone, hold⟩ := eq_some_of_move hk
    · rw [if_pos (ih hm)]
    · rw [← ih hold, if_neg hne.symm]
    · rw [← ih hold, if_neg]
      rintro rfl
      rw [hnone] at hold
      cases hold

/-- What has been lost does not come back. -/
theorem moveAll_follow_of_concat (h : StartsAt table home) {c : ι}
    (hc : moveAll table (moves ++ [m]) (follow (moves ++ [m]) (home c)) = some c) :
    moveAll table moves (follow moves (home c)) = some c := by
  rw [moveAll_concat] at hc
  obtain ⟨-, hm⟩ | ⟨-, hold⟩ | ⟨-, hold⟩ := eq_some_of_move hc
  · rwa [← eq_follow_of_moveAll h hm]
  · rwa [← eq_follow_of_moveAll h hold]
  · rwa [← eq_follow_of_moveAll h hold]

/-- No two entries are led to the same key, at the end or on the way. -/
def NeverMeet (moves : List (κ × κ)) (home : ι → κ) : Prop :=
  ∀ pre, pre <+: moves → Function.Injective fun c => follow pre (home c)

theorem neverMeet_concat : NeverMeet (moves ++ [m]) home ↔
    NeverMeet moves home ∧ Function.Injective fun c => follow (moves ++ [m]) (home c) := by
  constructor
  · intro h
    exact ⟨fun pre hpre => h pre (hpre.trans (List.prefix_append _ _)), h _ List.prefix_rfl⟩
  · rintro ⟨h, hlast⟩ pre hpre
    obtain rfl | hpre := List.prefix_concat_iff.mp hpre
    · exact hlast
    · exact h pre hpre

/-- **What is kept.** Every entry is where its key leads to, exactly if no two meet. -/
theorem moveAll_follow_iff (h : StartsAt table home) (hhome : Function.Injective home) :
    (∀ c, moveAll table moves (follow moves (home c)) = some c) ↔ NeverMeet moves home := by
  induction moves using List.reverseRecOn with
  | nil =>
    refine iff_of_true (fun c => (h _ c).mpr rfl) fun pre hpre => ?_
    obtain rfl := List.prefix_nil.mp hpre
    exact hhome
  | append_singleton moves m ih =>
    rw [neverMeet_concat]
    constructor
    · intro hall
      refine ⟨ih.mp fun c => moveAll_follow_of_concat h (hall c), fun c d hcd => ?_⟩
      have hc := hall c
      change follow (moves ++ [m]) (home c) = follow (moves ++ [m]) (home d) at hcd
      rw [hcd, hall d] at hc
      exact (Option.some.inj hc).symm
    · rintro ⟨hmeet, hlast⟩ c
      have hall := ih.mpr hmeet
      rw [moveAll_concat, follow_concat]
      by_cases hm : m.1 = follow moves (home c)
      · rw [if_pos hm, move_of_some (by rw [hm]; exact hall c), Function.update_self]
      · rw [if_neg hm]
        cases hentry : moveAll table moves m.1 with
        | none => rw [move_of_none hentry, hall c]
        | some d =>
          -- another entry is moved, and not to where this one is
          have hd := eq_follow_of_moveAll h hentry
          have hne : follow moves (home c) ≠ m.2 := by
            intro heq
            have hcd : c = d := hlast (by
              change follow (moves ++ [m]) (home c) = follow (moves ++ [m]) (home d)
              rw [follow_concat, follow_concat, if_neg hm, if_pos hd, heq])
            exact hm (hcd ▸ hd)
          rw [move_of_some hentry, Function.update_of_ne hne,
            Function.update_of_ne fun heq => hm heq.symm, hall c]

end Home

end Moves
