import Mathlib.Data.List.Basic

/-!
# What has been put into a queue and taken out of it

* `Ledger.Holds` — what has been put in is what has been taken out and then what is left, in order;
* `Ledger.Holds.put`, `Ledger.Holds.take` — the two operations of a queue keep it.
-/

namespace Comms

/-- What has been put into a queue, and what has been taken out of it. -/
structure Ledger (α : Type*) where
  put : List α
  taken : List α
deriving DecidableEq, Repr

namespace Ledger

variable {α : Type*} {l : Ledger α} {q xs ys : List α}

/-- The queue is what is left. -/
def Holds (l : Ledger α) (q : List α) : Prop := l.put = l.taken ++ q

/-- The queue starts as `q`. -/
def start (q : List α) : Ledger α := ⟨q, []⟩

/-- `xs` is put in. -/
def putIn (l : Ledger α) (xs : List α) : Ledger α := { l with put := l.put ++ xs }

/-- `xs` is taken out. -/
def takeOut (l : Ledger α) (xs : List α) : Ledger α := { l with taken := l.taken ++ xs }

theorem holds_start (q : List α) : (start q).Holds q := rfl

theorem Holds.putIn (h : l.Holds q) (xs : List α) : (l.putIn xs).Holds (q ++ xs) := by
  unfold Holds Ledger.putIn at *
  rw [h, List.append_assoc]

theorem Holds.takeOut (h : l.Holds (xs ++ ys)) : (l.takeOut xs).Holds ys := by
  unfold Holds Ledger.takeOut at *
  rw [h, List.append_assoc]

/-- Nothing is lost or repeated. -/
theorem Holds.isPrefix (h : l.Holds q) : l.taken <+: l.put := ⟨q, h.symm⟩

theorem Holds.length (h : l.Holds q) : l.put.length = l.taken.length + q.length := by
  rw [h, List.length_append]

@[simp] theorem putIn_nil (l : Ledger α) : l.putIn [] = l := by simp [Ledger.putIn]

@[simp] theorem takeOut_nil (l : Ledger α) : l.takeOut [] = l := by simp [Ledger.takeOut]

end Ledger

end Comms
