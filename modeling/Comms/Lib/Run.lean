import Mathlib.Data.List.Basic

/-!
# Runs of a step function

A system is a partial step function: `step s a` is the state after the action `a`, or `none` when
`a` is not possible in `s`. Nothing here knows what the states and actions are.

* `Run.steps` — the state after a list of actions;
* `Run.Along` — a condition on every step of a run, in the state it is taken in;
* `Run.invariant` — what every step that meets a condition preserves, holds after every run whose
  steps meet it;
* `Run.along_of_invariant` — what an invariant gives at each step of such a run;
* `Run.Always` — what holds in every state of a run, and where it ends; `Run.always_of_invariant`
  and `Run.always_iff_along`, where this comes down to a condition on the steps;
* `Run.along_iff_along` — two conditions on the steps that agree in the states of an invariant which
  one of them keeps;
* `Run.filter_simulates` — a run, and the run that is left of it when some actions are left out.
-/

namespace Run

variable {σ α : Type*} {step : σ → α → Option σ}

/-- The state after a list of actions. -/
def steps (step : σ → α → Option σ) : σ → List α → Option σ
  | s, [] => some s
  | s, a :: as => (step s a).bind fun s' => steps step s' as

/-- Every step of the run meets `P` in the state it is taken in. -/
def Along (step : σ → α → Option σ) (P : σ → α → Prop) : σ → List α → Prop
  | _, [] => True
  | s, a :: as => P s a ∧ ∀ s', step s a = some s' → Along step P s' as

@[simp] theorem steps_nil (s : σ) : steps step s [] = some s := rfl

theorem steps_cons (s : σ) (a : α) (as : List α) :
    steps step s (a :: as) = (step s a).bind fun s' => steps step s' as := rfl

/-- A run is its first part and then its second part. -/
theorem steps_append (s : σ) (as bs : List α) :
    steps step s (as ++ bs) = (steps step s as).bind fun s' => steps step s' bs := by
  induction as generalizing s with
  | nil => rfl
  | cons a as ih =>
    rw [List.cons_append, steps_cons, steps_cons, Option.bind_assoc]
    exact congrArg _ (funext ih)

theorem steps_eq_some_cons {s s' : σ} {a : α} {as : List α}
    (h : steps step s (a :: as) = some s') :
    ∃ t, step s a = some t ∧ steps step t as = some s' :=
  Option.bind_eq_some_iff.mp h

/-- One more step in front of a run. -/
theorem Along.cons {P : σ → α → Prop} {s t : σ} {a : α} {as : List α} (ha : P s a)
    (hstep : step s a = some t) (h : Along step P t as) : Along step P s (a :: as) := by
  refine ⟨ha, fun t' ht' => ?_⟩
  obtain rfl := Option.some.inj (hstep.symm.trans ht')
  exact h

/-- A condition on the actions alone. -/
theorem along_of_forall {Q : α → Prop} {s : σ} {as : List α} (h : ∀ a ∈ as, Q a) :
    Along step (fun _ a => Q a) s as := by
  induction as generalizing s with
  | nil => trivial
  | cons a as ih =>
    exact ⟨h a List.mem_cons_self, fun t _ => ih fun b hb => h b (List.mem_cons_of_mem a hb)⟩

/-- Two conditions on the steps. -/
theorem Along.and {P Q : σ → α → Prop} {s : σ} {as : List α} (hP : Along step P s as)
    (hQ : Along step Q s as) : Along step (fun s a => P s a ∧ Q s a) s as := by
  induction as generalizing s with
  | nil => trivial
  | cons a as ih => exact ⟨⟨hP.1, hQ.1⟩, fun t ht => ih (hP.2 t ht) (hQ.2 t ht)⟩

/-- A run is checked step by step. -/
instance decidableAlong {P : σ → α → Prop} [∀ s a, Decidable (P s a)] :
    ∀ (s : σ) (as : List α), Decidable (Along step P s as)
  | _, [] => isTrue trivial
  | s, a :: as =>
    have : Decidable (∀ s', step s a = some s' → Along step P s' as) :=
      match h : step s a with
      | none => isTrue (fun _ hs' => by cases hs')
      | some t =>
        have : Decidable (Along step P t as) := decidableAlong t as
        decidable_of_iff (Along step P t as) ⟨fun ht s' hs' => by cases hs'; exact ht,
          fun hall => hall t rfl⟩
    inferInstanceAs (Decidable (_ ∧ _))

/-- A condition that is weaker on every step is weaker on every run. -/
theorem Along.mono {P Q : σ → α → Prop} (hPQ : ∀ s a, P s a → Q s a) {s : σ} {as : List α}
    (h : Along step P s as) : Along step Q s as := by
  induction as generalizing s with
  | nil => trivial
  | cons a as ih => exact ⟨hPQ _ _ h.1, fun s' hs' => ih (h.2 s' hs')⟩

/-- Two conditions that say the same about every step that is possible. -/
theorem along_congr_of_steps {P Q : σ → α → Prop}
    (hPQ : ∀ s a t, step s a = some t → (P s a ↔ Q s a)) {s t : σ} {as : List α}
    (hrun : steps step s as = some t) : Along step P s as ↔ Along step Q s as := by
  induction as generalizing s with
  | nil => exact Iff.rfl
  | cons a as ih =>
    obtain ⟨u, hu, hrun⟩ := steps_eq_some_cons hrun
    refine and_congr (hPQ s a u hu) (forall₂_congr fun v hv => ?_)
    obtain rfl := Option.some.inj (hu.symm.trans hv)
    exact ih hrun

/-- A step in the middle of a run. -/
theorem Along.of_steps {P : σ → α → Prop} {s t : σ} {as bs : List α} {a : α}
    (h : Along step P s (as ++ a :: bs)) (hrun : steps step s as = some t) : P t a := by
  induction as generalizing s with
  | nil =>
    obtain rfl := Option.some.inj hrun
    exact h.1
  | cons b as ih =>
    obtain ⟨u, hu, hrun⟩ := steps_eq_some_cons hrun
    exact ih (h.2 u hu) hrun

/-- **Invariants.** What holds at the start and is preserved by every step that meets `P`, holds
after every run whose steps meet `P`. -/
theorem invariant {Inv : σ → Prop} {P : σ → α → Prop}
    (hstep : ∀ s a s', Inv s → P s a → step s a = some s' → Inv s') {s s' : σ} {as : List α}
    (h0 : Inv s) (hP : Along step P s as) (hrun : steps step s as = some s') : Inv s' := by
  induction as generalizing s with
  | nil =>
    obtain rfl := Option.some.inj hrun
    exact h0
  | cons a as ih =>
    obtain ⟨t, ht, hrun⟩ := steps_eq_some_cons hrun
    exact ih (hstep s a t h0 hP.1 ht) (hP.2 t ht) hrun

/-- What every step preserves, every run preserves. -/
theorem preserved {Inv : σ → Prop} (hstep : ∀ s a s', Inv s → step s a = some s' → Inv s')
    {s s' : σ} {as : List α} (h0 : Inv s) (hrun : steps step s as = some s') : Inv s' := by
  have hall : Along step (fun _ _ => True) s as := by
    clear hrun h0
    induction as generalizing s with
    | nil => trivial
    | cons a as ih => exact ⟨trivial, fun _ _ => ih⟩
  exact invariant (fun s a s' h _ hs => hstep s a s' h hs) h0 hall hrun

/-- **Steps.** What holds of a step that meets `P` in a state that meets the invariant, holds of
every step of such a run. -/
theorem along_of_invariant {Inv : σ → Prop} {P Q : σ → α → Prop}
    (hstep : ∀ s a s', Inv s → P s a → step s a = some s' → Inv s')
    (hQ : ∀ s a, Inv s → P s a → Q s a) {s : σ} {as : List α} (h0 : Inv s)
    (hP : Along step P s as) : Along step Q s as := by
  induction as generalizing s with
  | nil => trivial
  | cons a as ih => exact ⟨hQ s a h0 hP.1, fun t ht => ih (hstep s a t h0 hP.1 ht) (hP.2 t ht)⟩

/-- `P` holds at the start and in every state that the run comes to. -/
def Always (step : σ → α → Option σ) (P : σ → Prop) (s : σ) (as : List α) : Prop :=
  P s ∧ Along step (fun s a => ∀ t, step s a = some t → P t) s as

/-- It holds where the run ends. -/
theorem Always.of_steps {P : σ → Prop} {s t : σ} {as : List α} (h : Always step P s as)
    (hrun : steps step s as = some t) : P t := by
  induction as generalizing s with
  | nil =>
    obtain rfl := Option.some.inj hrun
    exact h.1
  | cons a as ih =>
    obtain ⟨u, hu, hrun⟩ := steps_eq_some_cons hrun
    exact ih ⟨h.2.1 u hu, h.2.2 u hu⟩ hrun

/-- What an invariant gives, holds in every state. -/
theorem always_of_invariant {Inv P : σ → Prop} {Q : σ → α → Prop}
    (hstep : ∀ s a t, Inv s → Q s a → step s a = some t → Inv t) (hP : ∀ s, Inv s → P s) {s : σ}
    {as : List α} (h0 : Inv s) (hQ : Along step Q s as) : Always step P s as :=
  ⟨hP s h0, along_of_invariant hstep (fun s a h hq t ht => hP t (hstep s a t h hq ht)) h0 hQ⟩

/-- **Steps that keep a property.** Where a step keeps `P` exactly if it meets `C`, a run is in `P`
all along exactly if all its steps meet `C`. -/
theorem always_iff_along {Inv P : σ → Prop} {Q C : σ → α → Prop}
    (hstep : ∀ s a t, Inv s → Q s a → step s a = some t → Inv t)
    (hiff : ∀ s a, Inv s → Q s a → P s → ((∀ t, step s a = some t → P t) ↔ C s a)) {s : σ}
    {as : List α} (h0 : Inv s) (hQ : Along step Q s as) (hP : P s) :
    Always step P s as ↔ Along step C s as := by
  induction as generalizing s with
  | nil => exact ⟨fun _ => trivial, fun _ => ⟨hP, trivial⟩⟩
  | cons a as ih =>
    have hhead := hiff s a h0 hQ.1 hP
    have htail (t : σ) (ht : step s a = some t) (hPt : P t) :=
      ih (hstep s a t h0 hQ.1 ht) (hQ.2 t ht) hPt
    constructor
    · rintro ⟨-, hkeep, hrest⟩
      refine ⟨hhead.mp hkeep, fun t ht => ?_⟩
      exact (htail t ht (hkeep t ht)).mp ⟨hkeep t ht, hrest t ht⟩
    · rintro ⟨hC, hrest⟩
      have hkeep := hhead.mpr hC
      exact ⟨hP, hkeep, fun t ht => ((htail t ht (hkeep t ht)).mpr (hrest t ht)).2⟩

/-- **Steps that are right.** Where `Q` and `C` say the same in every state of an invariant, and a
step that meets `C` keeps the invariant, the steps of a run all meet `Q` exactly if they all meet
`C`. -/
theorem along_iff_along {Inv : σ → Prop} {Q C : σ → α → Prop}
    (hiff : ∀ s a, Inv s → (Q s a ↔ C s a))
    (hstep : ∀ s a t, Inv s → C s a → step s a = some t → Inv t) {s : σ} {as : List α}
    (h0 : Inv s) : Along step Q s as ↔ Along step C s as := by
  induction as generalizing s with
  | nil => exact Iff.rfl
  | cons a as ih =>
    have htail (hC : C s a) (t : σ) (ht : step s a = some t) := ih (hstep s a t h0 hC ht)
    constructor
    · rintro ⟨hQ, hrest⟩
      have hC := (hiff s a h0).mp hQ
      exact ⟨hC, fun t ht => (htail hC t ht).mp (hrest t ht)⟩
    · rintro ⟨hC, hrest⟩
      exact ⟨(hiff s a h0).mpr hC, fun t ht => (htail hC t ht).mpr (hrest t ht)⟩

/-- **Leaving actions out.** `R` relates the states of a run to those of a second one, which takes
the actions of `keep` alone: it is kept when both take one of these, and when the first takes
another one. Then the second run goes through whenever the first does, and `R` relates their ends.
-/
theorem filter_simulates {keep : α → Bool} {P : σ → α → Prop} {R : σ → σ → Prop}
    (hkeep : ∀ s m a s', R s m → P s a → keep a = true → step s a = some s' →
      ∃ m', step m a = some m' ∧ R s' m')
    (hdrop : ∀ s m a s', R s m → P s a → keep a = false → step s a = some s' → R s' m)
    {s s' m : σ} {as : List α} (h0 : R s m) (hP : Along step P s as)
    (hrun : steps step s as = some s') :
    ∃ m', steps step m (as.filter keep) = some m' ∧ R s' m' := by
  induction as generalizing s m with
  | nil =>
    obtain rfl := Option.some.inj hrun
    exact ⟨m, rfl, h0⟩
  | cons a as ih =>
    obtain ⟨t, ht, hrun⟩ := steps_eq_some_cons hrun
    cases hkept : keep a with
    | true =>
      obtain ⟨m₁, hm₁, hR⟩ := hkeep s m a t h0 hP.1 hkept ht
      obtain ⟨m', hm', hR'⟩ := ih hR (hP.2 t ht) hrun
      refine ⟨m', ?_, hR'⟩
      rw [List.filter_cons_of_pos hkept, steps_cons, hm₁]
      exact hm'
    | false =>
      rw [List.filter_cons_of_neg (by simp [hkept])]
      exact ih (hdrop s m a t h0 hP.1 hkept ht) (hP.2 t ht) hrun

end Run
