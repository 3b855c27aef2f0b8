import Mathlib.Logic.Basic

/-!
# Programs that may not come back

A program that works on a state and may not come back: it raises an exception, it crashes or it does
not end. Then there is neither a result nor a state.

* `Attempt` — such programs;
* `Attempt.bind_ok` — one after the other comes back if both do;
* `Attempt.Ensures` — what holds if a program comes back, and its rules.
-/

/-- `ε` is why there is no result. -/
abbrev Attempt (ε σ α : Type) := StateT σ (Except ε) α

namespace Attempt

variable {ε σ α β : Type}

theorem bind_ok {m : Attempt ε σ α} {f : α → Attempt ε σ β} {s : σ} {r : β × σ} :
    (m >>= f) s = .ok r ↔ ∃ a s', m s = .ok (a, s') ∧ f a s' = .ok r := by
  change (m s >>= fun p => f p.1 p.2) = .ok r ↔ _
  cases m s with
  | error e => exact ⟨nofun, nofun⟩
  | ok p =>
    refine ⟨fun h => ⟨p.1, p.2, rfl, h⟩, ?_⟩
    rintro ⟨a, s', ha, h⟩
    obtain rfl := Except.ok.inj ha
    exact h

theorem map_ok {f : α → β} {x : Except ε α} {b : β} (h : f <$> x = .ok b) :
    ∃ a, x = .ok a ∧ f a = b := by
  cases x with
  | error e => cases h
  | ok a => exact ⟨a, rfl, Except.ok.inj h⟩

@[simp] theorem pure_ok {a : α} {s : σ} {r : α × σ} :
    (pure a : Attempt ε σ α) s = .ok r ↔ (a, s) = r :=
  ⟨Except.ok.inj, congrArg _⟩

/-! ### What holds if a program comes back -/

/-- If the program starts where `P` holds and comes back, `Q` holds. -/
def Ensures (P : σ → Prop) (m : Attempt ε σ α) (Q : α → σ → Prop) : Prop :=
  ∀ s, P s → ∀ a s', m s = .ok (a, s') → Q a s'

namespace Ensures

variable {P : σ → Prop} {m : Attempt ε σ α} {f : α → Attempt ε σ β} {Q : α → σ → Prop}
  {R : β → σ → Prop}

theorem pure {a : α} (h : ∀ s, P s → Q a s) : Ensures P (Pure.pure a : Attempt ε σ α) Q := by
  intro s hs a' s' hrun
  obtain ⟨rfl, rfl⟩ := Prod.mk.inj (pure_ok.mp hrun)
  exact h s hs

theorem bind (hm : Ensures P m Q) (hf : ∀ a, Ensures (Q a) (f a) R) : Ensures P (m >>= f) R := by
  intro s hs b s'' hrun
  obtain ⟨a, s', hma, hfb⟩ := bind_ok.mp hrun
  exact hf a s' (hm s hs a s' hma) b s'' hfb

theorem mono {P' : σ → Prop} {Q' : α → σ → Prop} (h : Ensures P m Q) (hpre : ∀ s, P' s → P s)
    (hpost : ∀ a s, Q a s → Q' a s) : Ensures P' m Q' :=
  fun s hs a s' hrun => hpost a s' (h s (hpre s hs) a s' hrun)

theorem ite {c : Prop} [Decidable c] {m' : Attempt ε σ α} (h : Ensures P m Q)
    (h' : Ensures P m' Q) : Ensures P (if c then m else m') Q := by
  split
  · exact h
  · exact h'

end Ensures

end Attempt
