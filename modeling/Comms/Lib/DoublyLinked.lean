import Mathlib.Data.List.Nodup

/-!
# Doubly linked lists

Nodes that know the one in front of them and the one behind. What the nodes are, and where the links
are kept, is left open.

* `Linked` — the links of a list of nodes, between a node in front and one behind;
* `linked_append` — two lists, one behind the other;
* `Linked.relink` — a list whose two ends are linked to something else;
* `Linked.insert`, `Linked.unlink` — a node comes between two others, or is taken out.
-/

namespace DoublyLinked

variable {P : Type*} {prev next prev' next' : P → Option P} {before after before' after' : Option P}
  {n : P} {xs ys : List P}

/-- **Linked.** Each node of the list leads to its neighbours; the first one leads back to `before`
and the last one on to `after`. -/
def Linked (prev next : P → Option P) : Option P → List P → Option P → Prop
  | _, [], _ => True
  | before, p :: ps, after =>
    prev p = before ∧ next p = ps.head?.or after ∧ Linked prev next (some p) ps after

theorem linked_append : Linked prev next before (xs ++ ys) after ↔
    Linked prev next before xs (ys.head?.or after) ∧
    Linked prev next (xs.getLast?.or before) ys after := by
  induction xs generalizing before with
  | nil => exact (iff_of_eq (true_and _)).symm
  | cons x xs ih =>
    have hlast : (x :: xs).getLast?.or before = xs.getLast?.or (some x) := by
      rw [List.getLast?_cons]
      cases xs.getLast? <;> rfl
    rw [List.cons_append, Linked, Linked, ih, List.head?_append, Option.or_assoc, hlast]
    tauto

/-- The ends of a list are linked to something else, and nothing is changed within. -/
theorem Linked.relink [DecidableEq P] (h : Linked prev next before xs after) (hnodup : xs.Nodup)
    (hprev : ∀ p ∈ xs, prev' p = if xs.head? = some p then before' else prev p)
    (hnext : ∀ p ∈ xs, next' p = if xs.getLast? = some p then after' else next p) :
    Linked prev' next' before' xs after' := by
  induction xs generalizing before before' with
  | nil => trivial
  | cons x xs ih =>
    obtain ⟨hx, hxs⟩ := List.nodup_cons.mp hnodup
    obtain ⟨-, hnx, hrest⟩ := h
    refine ⟨(hprev x List.mem_cons_self).trans (if_pos rfl), ?_,
      ih hrest hxs (fun p hp => ?_) (fun p hp => ?_)⟩
    · rw [hnext x List.mem_cons_self]
      cases xs with
      | nil => exact if_pos rfl
      | cons y ys =>
        -- the first of several is not the last one
        rw [List.getLast?_cons_cons, if_neg fun h => hx (List.mem_of_getLast? h), hnx]
        rfl
    · have hne : ¬(x :: xs).head? = some p := fun heq => hx (Option.some.inj heq ▸ hp)
      rw [hprev p (List.mem_cons_of_mem x hp), if_neg hne]
      cases xs with
      | nil => exact absurd hp List.not_mem_nil
      | cons y ys =>
        rw [List.head?_cons]
        split
        next heq =>
          obtain rfl := Option.some.inj heq
          exact hrest.1
        next => rfl
    · rw [hnext p (List.mem_cons_of_mem x hp)]
      cases xs with
      | nil => exact absurd hp List.not_mem_nil
      | cons y ys => rw [List.getLast?_cons_cons]

/-- The links that lead to a place between `xs` and `ys` are changed, on both sides of it. -/
theorem Linked.relink_append [DecidableEq P] (h : Linked prev next none xs after)
    (h' : Linked prev next before ys none) (hnodup : (xs ++ ys).Nodup)
    (hprev : ∀ p ∈ xs ++ ys, prev' p = if ys.head? = some p then before' else prev p)
    (hnext : ∀ p ∈ xs ++ ys, next' p = if xs.getLast? = some p then after' else next p) :
    Linked prev' next' none xs after' ∧ Linked prev' next' before' ys none := by
  obtain ⟨hxs, hys, hdisj⟩ := List.nodup_append.mp hnodup
  refine ⟨h.relink hxs (fun p hp => ?_) fun p hp => hnext p (List.mem_append_left ys hp),
    h'.relink hys (fun p hp => hprev p (List.mem_append_right xs hp)) fun p hp => ?_⟩
  · rw [hprev p (List.mem_append_left ys hp),
      if_neg fun heq => hdisj p hp p (List.mem_of_head? heq) rfl]
    cases xs with
    | nil => exact absurd hp List.not_mem_nil
    | cons x xs =>
      rw [List.head?_cons]
      split
      next heq =>
        obtain rfl := Option.some.inj heq
        exact h.1
      next => rfl
  · rw [hnext p (List.mem_append_right xs hp),
      if_neg fun heq => hdisj p (List.mem_of_getLast? heq) p hp rfl]
    split
    next heq =>
      obtain ⟨ps, rfl⟩ := List.getLast?_eq_some_iff.mp heq
      obtain ⟨-, -, hend, -⟩ := linked_append.mp h'
      exact hend
    next => rfl

/-- **A node comes in** between `xs` and `ys`. -/
theorem Linked.insert [DecidableEq P] (h : Linked prev next none (xs ++ ys) none)
    (hnodup : (xs ++ ys).Nodup)
    (hprev : ∀ p ∈ xs ++ ys, prev' p = if ys.head? = some p then some n else prev p)
    (hnext : ∀ p ∈ xs ++ ys, next' p = if xs.getLast? = some p then some n else next p)
    (hn : prev' n = xs.getLast?) (hn' : next' n = ys.head?) :
    Linked prev' next' none (xs ++ n :: ys) none := by
  obtain ⟨hxs, hys⟩ := linked_append.mp h
  obtain ⟨hxs, hys⟩ := hxs.relink_append hys hnodup hprev hnext
  exact linked_append.mpr
    ⟨hxs, hn.trans (Option.or_none).symm, hn'.trans (Option.or_none).symm, hys⟩

/-- **A node is taken out** from between `xs` and `ys`. -/
theorem Linked.unlink [DecidableEq P] (h : Linked prev next none (xs ++ n :: ys) none)
    (hnodup : (xs ++ ys).Nodup)
    (hprev : ∀ p ∈ xs ++ ys, prev' p = if ys.head? = some p then xs.getLast? else prev p)
    (hnext : ∀ p ∈ xs ++ ys, next' p = if xs.getLast? = some p then ys.head? else next p) :
    Linked prev' next' none (xs ++ ys) none := by
  obtain ⟨hxs, -, -, hys⟩ := linked_append.mp h
  obtain ⟨hxs, hys⟩ := hxs.relink_append hys hnodup hprev hnext
  rw [linked_append, Option.or_none, Option.or_none]
  exact ⟨hxs, hys⟩

end DoublyLinked
