/-!
# Programs that call something

A program that calls operations of something outside and goes on with what they return. What an operation
does is up to a handler, which has a state. Nothing here knows what the operations are.

* `Prog` — programs; `Prog.run` — a program with a handler;
* `Prog.run_bind` — one program after the other;
* `Prog.run_congr` — handlers that answer alike wherever a run goes;
* `Prog.exec` — a program with a handler that may fail.
-/

/-- A program: it is done, or it calls an operation and goes on with the result. -/
inductive Prog (Op : Type) (Res : Op → Type) (α : Type)
  | pure (a : α)
  | call (op : Op) (next : Res op → Prog Op Res α)

namespace Prog

variable {Op : Type} {Res : Op → Type} {α β σ : Type}

/-- One program, and another that depends on its result. -/
def bind : Prog Op Res α → (α → Prog Op Res β) → Prog Op Res β
  | pure a, f => f a
  | call op next, f => call op fun r => bind (next r) f

instance : Monad (Prog Op Res) where
  pure := pure
  bind := bind

/-- A program with a handler. -/
def run (handler : (op : Op) → σ → Res op × σ) : Prog Op Res α → σ → α × σ
  | pure a, s => (a, s)
  | call op next, s => run handler (next (handler op s).1) (handler op s).2

variable {handler handler' : (op : Op) → σ → Res op × σ}

@[simp] theorem run_pure (a : α) (s : σ) : (Pure.pure a : Prog Op Res α).run handler s = (a, s) := rfl

@[simp] theorem run_call (op : Op) (next : Res op → Prog Op Res α) (s : σ) :
    (call op next).run handler s = (next (handler op s).1).run handler (handler op s).2 := rfl

@[simp] theorem run_bind (p : Prog Op Res α) (f : α → Prog Op Res β) (s : σ) :
    (p >>= f).run handler s = (f (p.run handler s).1).run handler (p.run handler s).2 := by
  change (bind p f).run handler s = _
  induction p generalizing s with
  | pure a => rfl
  | call op next ih => exact ih _ _

/-- What holds behind a call only if it held in front of it, held all along. -/
theorem of_run {Good : σ → Prop} (hback : ∀ op s, Good (handler op s).2 → Good s) {p : Prog Op Res α}
    {s : σ} (h : Good (p.run handler s).2) : Good s := by
  induction p generalizing s with
  | pure a => exact h
  | call op next ih => exact hback op s (ih _ h)

/-- **Handlers that answer alike.** -/
theorem run_congr {Good : σ → Prop} (hback : ∀ op s, Good (handler op s).2 → Good s)
    (hsame : ∀ op s, Good (handler op s).2 → handler' op s = handler op s) {p : Prog Op Res α} {s : σ}
    (h : Good (p.run handler s).2) : p.run handler' s = p.run handler s := by
  induction p generalizing s with
  | pure a => rfl
  | call op next ih =>
    rw [run_call] at h
    rw [run_call, run_call, hsame op s (of_run hback h)]
    exact ih _ h

/-- A program with a handler that may fail. -/
def exec {ε : Type} (handler : (op : Op) → σ → Except ε (Res op × σ)) :
    Prog Op Res α → σ → Except ε (α × σ)
  | pure a, s => .ok (a, s)
  | call op next, s => (handler op s).bind fun r => exec handler (next r.1) r.2

/-- A failure is one of the handler's. -/
theorem exec_ne_error {ε : Type} {handler : (op : Op) → σ → Except ε (Res op × σ)} {stop : ε}
    (h : ∀ op s, handler op s ≠ .error stop) (p : Prog Op Res α) (s : σ) :
    p.exec handler s ≠ .error stop := by
  induction p generalizing s with
  | pure a => exact nofun
  | call op next ih =>
    rw [exec]
    cases hr : handler op s with
    | error e => exact fun heq => h op s (hr.trans (congrArg Except.error (Except.error.inj heq)))
    | ok r => exact ih r.1 r.2

end Prog
