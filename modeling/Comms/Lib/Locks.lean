import Comms.Lib.Run
import Mathlib.Data.Fintype.Basic
import Mathlib.Logic.Function.Basic
import Mathlib.Logic.Relation

/-!
# Threads that take locks

A thread takes locks for the length of a block, and blocks are nested. A lock can be taken shared or
exclusively; a thread that holds it does not get it once more. What the locks are and what the threads
do in their blocks is left open.

* `Locks.Section` — a block and what is nested in it; `Locks.Section.ops` — the steps of it;
* `Locks.step` — a step of one of the threads;
* `Locks.Reenters`, `Locks.Waits`, `Locks.Safe` — what must not happen;
* `Locks.Obeys` — every lock is taken as a rule allows with those that are held;
  `Locks.Section.obeys_ops`, where this is read off the blocks;
* `Locks.Inv.step` — mutual exclusion and the rules of the threads;
* `Locks.exists_stuck_of_cycle`, `Locks.wants_core` — where a cycle of waiting threads would have to be.
-/

namespace Locks

variable {L T : Type}

/-! ### Blocks -/

inductive Mode
  | shared
  | exclusive
deriving DecidableEq

/-- A block in which a lock is held, and the blocks in it. -/
inductive Section (L : Type)
  | hold (l : L) (mode : Mode) (body : List (Section L))

inductive Op (L : Type)
  | acquire (l : L) (mode : Mode)
  | release (l : L) (mode : Mode)
deriving DecidableEq

mutual

/-- The steps of a block. -/
def Section.ops : Section L → List (Op L)
  | .hold l mode body => .acquire l mode :: (opsAll body ++ [.release l mode])

/-- The steps of one block after the other. -/
def opsAll : List (Section L) → List (Op L)
  | [] => []
  | b :: bs => b.ops ++ opsAll bs

end

/-! ### Threads -/

/-- The locks that a thread holds, and what is ahead of it. -/
structure Thread (L : Type) where
  held : List (L × Mode)
  rest : List (Op L)
deriving DecidableEq

namespace Thread

/-- The locks alone. -/
def locks (x : Thread L) : List L := x.held.map Prod.fst

/-- The lock that the thread takes next. -/
def wants (x : Thread L) : Option (L × Mode) :=
  match x.rest with
  | .acquire l mode :: _ => some (l, mode)
  | _ => none

end Thread

/-- Every thread in front of its first block. -/
def start (program : T → List (Section L)) : T → Thread L := fun t => ⟨[], opsAll (program t)⟩

section Step

variable [DecidableEq L] [DecidableEq T] [Fintype T]

/-- A step of the thread `t`. It takes a lock that nobody holds, or that is shared. -/
def step (s : T → Thread L) (t : T) : Option (T → Thread L) :=
  match (s t).rest with
  | [] => none
  | .acquire l mode :: ops =>
    if ∀ u, ∀ p ∈ (s u).held, p.1 = l → p.2 = .shared ∧ mode = .shared then
      some (Function.update s t ⟨(l, mode) :: (s t).held, ops⟩)
    else none
  | .release l mode :: ops => some (Function.update s t ⟨(s t).held.erase (l, mode), ops⟩)

end Step

/-! ### What must not happen -/

/-- The thread tries to take a lock that it holds. -/
def Reenters (s : T → Thread L) (t : T) : Prop := ∃ p ∈ (s t).wants, p.1 ∈ (s t).locks

/-- One thread tries to take a lock that another one holds. -/
def Waits (s : T → Thread L) (t u : T) : Prop := ∃ p ∈ (s t).wants, p.1 ∈ (s u).locks

/-- No thread tries to take a lock that it holds, and no threads wait in a cycle. -/
structure Safe (s : T → Thread L) : Prop where
  noReentry : ∀ t, ¬Reenters s t
  noCycle : ∀ t, ¬Relation.TransGen (Waits s) t t

/-! ### Rules -/

/-- What may be taken with what is held. -/
abbrev Rule (L : Type) := List (L × Mode) → L → Mode → Prop

section Obeys

variable [DecidableEq L] {R R' : Rule L} {held : List (L × Mode)} {l : L} {mode : Mode}
  {ops : List (Op L)}

/-- Every lock is taken as the rule allows. -/
def Obeys (R : Rule L) : List (L × Mode) → List (Op L) → Prop
  | _, [] => True
  | held, .acquire l mode :: ops => R held l mode ∧ Obeys R ((l, mode) :: held) ops
  | held, .release l mode :: ops => Obeys R (held.erase (l, mode)) ops

mutual

/-- The same, of a block. -/
def Section.Obeys (R : Rule L) (held : List (L × Mode)) : Section L → Prop
  | .hold l mode body => R held l mode ∧ ObeysAll R ((l, mode) :: held) body

/-- The same, of blocks one after the other. -/
def ObeysAll (R : Rule L) (held : List (L × Mode)) : List (Section L) → Prop
  | [] => True
  | b :: bs => b.Obeys R held ∧ ObeysAll R held bs

end

omit [DecidableEq L] in
theorem obeysAll_append {bs cs : List (Section L)} :
    ObeysAll R held (bs ++ cs) ↔ ObeysAll R held bs ∧ ObeysAll R held cs := by
  induction bs with
  | nil => exact ⟨fun h => ⟨trivial, h⟩, And.right⟩
  | cons b bs ih =>
    rw [List.cons_append, ObeysAll, ObeysAll, ih, and_assoc]

mutual

/-- A block leaves the locks as they were. -/
theorem Section.obeys_ops : ∀ (b : Section L) {held : List (L × Mode)} {ops : List (Op L)},
    b.Obeys R held → Locks.Obeys R held ops → Locks.Obeys R held (b.ops ++ ops)
  | .hold l mode body, held, ops, h, hops => by
    rw [Section.Obeys] at h
    rw [Section.ops, List.cons_append, List.append_assoc]
    refine ⟨h.1, obeys_opsAll body h.2 ?_⟩
    change Locks.Obeys R (((l, mode) :: held).erase (l, mode)) ops
    rwa [List.erase_cons_head]

theorem obeys_opsAll : ∀ (bs : List (Section L)) {held : List (L × Mode)} {ops : List (Op L)},
    ObeysAll R held bs → Locks.Obeys R held ops → Locks.Obeys R held (opsAll bs ++ ops)
  | [], held, ops, _, hops => hops
  | b :: bs, held, ops, h, hops => by
    rw [ObeysAll] at h
    rw [opsAll, List.append_assoc]
    exact Section.obeys_ops b h.1 (obeys_opsAll bs h.2 hops)

end

end Obeys

/-! ### Mutual exclusion -/

section Inv

variable [DecidableEq L] {R : T → Rule L} {mutex : Set L} {s s' : T → Thread L} {t u : T}

/-- Each thread keeps to its rule, and what two threads hold is shared. -/
structure Inv (R : T → Rule L) (mutex : Set L) (s : T → Thread L) : Prop where
  obeys : ∀ t, Obeys (R t) (s t).held (s t).rest
  apart : ∀ t u, t ≠ u → ∀ p ∈ (s t).held, ∀ q ∈ (s u).held, p.1 = q.1 →
    p.2 = .shared ∧ q.2 = .shared
  exclusive : ∀ t, ∀ p ∈ (s t).held, p.1 ∈ mutex → p.2 = .exclusive

theorem Inv.start {program : T → List (Section L)} (h : ∀ t, ObeysAll (R t) [] (program t)) :
    Inv R mutex (start program) where
  obeys := fun t => by
    have hops := @obeys_opsAll _ _ _ (program t) _ [] (h t) trivial
    rwa [List.append_nil] at hops
  apart := fun t u _ p hp => by cases hp
  exclusive := fun t p hp => by cases hp

/-- A mutex has one owner. -/
theorem Inv.unique (h : Inv R mutex s) {l : L} (hl : l ∈ mutex) (ht : l ∈ (s t).locks)
    (hu : l ∈ (s u).locks) : t = u := by
  obtain ⟨p, hp, rfl⟩ := List.mem_map.mp ht
  obtain ⟨q, hq, heq⟩ := List.mem_map.mp hu
  by_contra hne
  have hshared := (h.apart t u hne p hp q hq heq.symm).1
  rw [h.exclusive t p hp hl] at hshared
  cases hshared

/-- What the thread takes next is allowed. -/
theorem Inv.allowed (h : Inv R mutex s) {p : L × Mode} (hp : p ∈ (s t).wants) :
    R t (s t).held p.1 p.2 := by
  have hobeys := h.obeys t
  unfold Thread.wants at hp
  cases hrest : (s t).rest with
  | nil =>
    rw [hrest] at hp
    cases hp
  | cons op ops =>
    rw [hrest] at hp hobeys
    cases op with
    | release l mode => cases hp
    | acquire l mode =>
      obtain rfl := Option.some.inj hp
      exact hobeys.1

variable [DecidableEq T] [Fintype T]

theorem Inv.step (hR : ∀ t held l mode, R t held l mode → l ∈ mutex → mode = .exclusive)
    (h : Inv R mutex s) (heq : step s t = some s') : Inv R mutex s' := by
  have hobeys := h.obeys t
  unfold Locks.step at heq
  -- what another thread holds is apart from `held` if it is apart from what `t` held
  have hkeep (x : Thread L) (hx : Obeys (R t) x.held x.rest)
      (hnew : ∀ u, u ≠ t → ∀ p ∈ x.held, ∀ q ∈ (s u).held, p.1 = q.1 →
        p.2 = .shared ∧ q.2 = .shared)
      (hmutex : ∀ p ∈ x.held, p.1 ∈ mutex → p.2 = .exclusive) :
      Inv R mutex (Function.update s t x) := by
    refine ⟨fun u => ?_, fun u v huv p hp q hq hpq => ?_, fun u p hp hl => ?_⟩
    · by_cases hu : u = t
      · subst hu
        rwa [Function.update_self]
      · rw [Function.update_of_ne hu]
        exact h.obeys u
    · by_cases hu : u = t
      · subst hu
        rw [Function.update_self] at hp
        rw [Function.update_of_ne huv.symm] at hq
        exact hnew v huv.symm p hp q hq hpq
      · rw [Function.update_of_ne hu] at hp
        by_cases hv : v = t
        · subst hv
          rw [Function.update_self] at hq
          exact (hnew u hu q hq p hp hpq.symm).symm
        · rw [Function.update_of_ne hv] at hq
          exact h.apart u v huv p hp q hq hpq
    · by_cases hu : u = t
      · subst hu
        rw [Function.update_self] at hp
        exact hmutex p hp hl
      · rw [Function.update_of_ne hu] at hp
        exact h.exclusive u p hp hl
  cases hrest : (s t).rest with
  | nil =>
    rw [hrest] at heq
    cases heq
  | cons op ops =>
    rw [hrest] at heq hobeys
    cases op with
    | acquire l mode =>
      dsimp only at heq
      split at heq
      next hfree =>
        obtain rfl := Option.some.inj heq
        refine hkeep _ hobeys.2 (fun u hu p hp q hq hpq => ?_) fun p hp hl => ?_
        · rcases List.mem_cons.mp hp with rfl | hp
          · exact (hfree u q hq hpq.symm).symm
          · exact h.apart t u hu.symm p hp q hq hpq
        · rcases List.mem_cons.mp hp with rfl | hp
          · exact hR t _ _ _ hobeys.1 hl
          · exact h.exclusive t p hp hl
      next => cases heq
    | release l mode =>
      obtain rfl := Option.some.inj heq
      refine hkeep _ hobeys (fun u hu p hp q hq hpq => ?_) fun p hp hl => ?_
      · exact h.apart t u hu.symm p (List.mem_of_mem_erase hp) q hq hpq
      · exact h.exclusive t p (List.mem_of_mem_erase hp) hl

end Inv

/-! ### Cycles -/

section Cycle

variable {s : T → Thread L} {t u : T}

/-- A set of threads that wait for each other. -/
def Stuck (s : T → Thread L) (D : Set T) : Prop := ∀ t ∈ D, ∃ u ∈ D, Waits s t u

/-- The threads of a cycle, and those on the way. -/
theorem exists_stuck_of_cycle (h : Relation.TransGen (Waits s) t t) :
    ∃ D : Set T, t ∈ D ∧ Stuck s D := by
  refine ⟨{u | Relation.TransGen (Waits s) u t}, h, fun u hu => ?_⟩
  rcases Relation.TransGen.head'_iff.mp hu with ⟨v, huv, hvt⟩
  rcases Relation.reflTransGen_iff_eq_or_transGen.mp hvt with rfl | hvt
  · exact ⟨_, h, huv⟩
  · exact ⟨v, hvt, huv⟩

/-- **Locks in order.** Outside of `core` a lock is taken above all that are held, and none of `core` with
one that is not of it. Threads that wait for each other all want a lock of `core`. -/
theorem wants_core {core : Set L} (rank : L → ℕ) {bound : ℕ} (hbound : ∀ l, rank l < bound)
    (hrank : ∀ t, ∀ p ∈ (s t).wants, ∀ l ∈ (s t).locks, l ∉ core → p.1 ∉ core ∧ rank l < rank p.1)
    {D : Set T} (hD : Stuck s D) : ∀ t ∈ D, ∀ p ∈ (s t).wants, p.1 ∈ core := by
  -- the wanted lock's distance to the bound: whoever holds it wants one that is closer
  suffices h : ∀ n, ∀ t ∈ D, ∀ p ∈ (s t).wants, bound - rank p.1 ≤ n → p.1 ∈ core from
    fun t ht p hp => h _ t ht p hp le_rfl
  intro n
  induction n with
  | zero =>
    intro t _ p _ hn
    have := hbound p.1
    omega
  | succ n ih =>
    intro t ht p hp hn
    by_contra hcore
    obtain ⟨u, hu, p', hp', hheld⟩ := hD t ht
    obtain rfl := Option.some.inj (hp.symm.trans hp')
    obtain ⟨-, -, q, hq, -⟩ := hD u hu
    obtain ⟨hqcore, hlt⟩ := hrank u q hq p.1 hheld hcore
    have := hbound q.1
    exact hqcore (ih u hu q hq (by omega))

end Cycle

end Locks
