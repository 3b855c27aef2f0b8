import Mathlib.Data.Set.Lattice
import Mathlib.Data.List.Pairwise

/-!
# Operations with a footprint

A store is a map from keys to values, and an operation reads and writes only the keys of its
footprint. Two operations whose footprints are disjoint can change places.

* `Footprint.Op.comm` — disjoint operations commute;
* `Footprint.exec_cons_append` — an operation moves past those it is disjoint from;
* `Footprint.exec_filter_front` — the operations picked out by a test can be moved to the front
  when none of them shares a key with an earlier operation that stays.
-/

namespace Footprint

variable {K V : Type*}

/-- An operation on a store: it changes no key outside its footprint, and what it writes depends
on no key outside it. -/
structure Op (K V : Type*) where
  keys : Set K
  run : (K → V) → K → V
  frame : ∀ s k, k ∉ keys → run s k = s k
  congr : ∀ s s', (∀ k ∈ keys, s k = s' k) → ∀ k ∈ keys, run s k = run s' k

/-- The two operations share a key. -/
def Op.Conflict (a b : Op K V) : Prop := (a.keys ∩ b.keys).Nonempty

theorem Op.Conflict.symm {a b : Op K V} (h : a.Conflict b) : b.Conflict a := by
  unfold Conflict at h ⊢
  rwa [Set.inter_comm]

/-- **Disjoint operations commute.** -/
theorem Op.comm {a b : Op K V} (h : ¬ a.Conflict b) (s : K → V) :
    a.run (b.run s) = b.run (a.run s) := by
  have hdisj : ∀ k, k ∈ a.keys → k ∉ b.keys := fun k ha hb => h ⟨k, ha, hb⟩
  ext k
  by_cases ha : k ∈ a.keys
  · -- only `a` writes here, and `b` changed nothing `a` reads
    rw [b.frame _ k (hdisj k ha)]
    exact a.congr _ _ (fun k' hk' => b.frame s k' (hdisj k' hk')) k ha
  · rw [a.frame _ k ha]
    by_cases hb : k ∈ b.keys
    · refine (b.congr _ _ (fun k' hk' => ?_) k hb).symm
      exact a.frame s k' fun ha' => hdisj k' ha' hk'
    · rw [b.frame _ k hb, b.frame _ k hb, a.frame _ k ha]

/-- Executing a list of operations, the head first. -/
def exec (s : K → V) (ops : List (Op K V)) : K → V := ops.foldl (fun s op => op.run s) s

@[simp] theorem exec_nil (s : K → V) : exec s [] = s := rfl

@[simp] theorem exec_cons (s : K → V) (op : Op K V) (ops : List (Op K V)) :
    exec s (op :: ops) = exec (op.run s) ops := rfl

@[simp] theorem exec_append (s : K → V) (ops ops' : List (Op K V)) :
    exec s (ops ++ ops') = exec (exec s ops) ops' := List.foldl_append

/-- What happens outside the footprints of a list of operations: nothing. -/
theorem exec_frame {k : K} {ops : List (Op K V)} (h : ∀ op ∈ ops, k ∉ op.keys) (s : K → V) :
    exec s ops k = s k := by
  induction ops generalizing s with
  | nil => rfl
  | cons op ops ih =>
    rw [exec_cons, ih (fun op' h' => h op' (List.mem_cons_of_mem _ h')), op.frame _ _ (h op (by simp))]

/-- An operation moves in front of operations it is disjoint from. -/
theorem exec_cons_append {op : Op K V} {ops : List (Op K V)} (h : ∀ op' ∈ ops, ¬ op'.Conflict op)
    (s : K → V) (rest : List (Op K V)) :
    exec s (ops ++ op :: rest) = exec s (op :: (ops ++ rest)) := by
  induction ops generalizing s with
  | nil => rfl
  | cons op' ops ih =>
    have hcomm := Op.comm (h op' (by simp)) s
    calc exec s (op' :: ops ++ op :: rest)
        = exec (op'.run s) (op :: (ops ++ rest)) :=
          ih (fun o ho => h o (List.mem_cons_of_mem _ ho)) _
      _ = exec (op'.run (op.run s)) (ops ++ rest) := by rw [exec_cons, hcomm]
      _ = exec s (op :: (op' :: ops ++ rest)) := rfl

section Filter

variable {ι : Type*} (f : ι → Op K V) (p : ι → Bool)

/-- **Moving a part to the front.** Of a list of operations the ones that pass `p` can be executed
first, when none of them shares a key with an earlier one that does not pass. -/
theorem exec_filter_front {l : List ι}
    (h : l.Pairwise fun x y => p x = false → p y = true → ¬ (f x).Conflict (f y)) (s : K → V) :
    exec s (l.map f) = exec s ((l.filter p ++ l.filter fun x => !p x).map f) := by
  induction l generalizing s with
  | nil => rfl
  | cons x l ih =>
    obtain ⟨hx, hl⟩ := List.pairwise_cons.mp h
    rw [List.map_cons, exec_cons, ih hl]
    cases hpx : p x with
    | true => simp [hpx]
    | false =>
      -- `x` stays behind: everything that moves to the front moves past it
      have hfree : ∀ op ∈ (l.filter p).map f, ¬ op.Conflict (f x) := by
        intro op hop
        obtain ⟨y, hy, rfl⟩ := List.mem_map.mp hop
        obtain ⟨hyl, hpy⟩ := List.mem_filter.mp hy
        exact fun hc => hx y hyl hpx hpy hc.symm
      have hmove := exec_cons_append hfree s ((l.filter fun x => !p x).map f)
      simp only [List.filter_cons, hpx, Bool.not_false, if_true, Bool.false_eq_true, if_false,
        List.map_append, List.map_cons] at hmove ⊢
      exact hmove.symm

end Filter

end Footprint
