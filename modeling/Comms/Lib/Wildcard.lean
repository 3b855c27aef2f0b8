import Mathlib.Logic.Basic

/-!
# Patterns with wildcards

A pattern is something of which the first element can be seen: a `star` stands for any letters, a
test for one letter. Nothing here knows how patterns are written.

* `View` — the first element of a pattern, and the rest;
* `Aligns` — the beginning of a pattern fits the beginning of a word;
* `Meets` — what is left of both is something, somewhere on the way; `Lang` — it is nothing in the
  end;
* `meets_star_cons`, `meets_one_cons`, .. — `Meets`, by the first element;
* `not_lang_of_broken` — a pattern that does not end properly has no words;
* `lang_iff_of_agree` — views that agree wherever an alignment goes have the same words.
-/

namespace Wildcard

/-- The first element of a pattern. -/
inductive View (π α : Type)
  | done
  | star (rest : π)
  | one (test : α → Bool) (rest : π)
  /-- Nothing can be read from here on. -/
  | broken

variable {π α : Type}

/-- Two views of one element agree, as far as it matters in front of `t`. -/
def View.Agree (t : List α) : View π α → View π α → Prop
  | .done, .done => True
  | .star p, .star p' => p = p'
  | .one test p, .one test' p' => p = p' ∧ ∀ c ∈ t.head?, test c = test' c
  | .broken, .broken => True
  | _, _ => False

/-- The pattern and the word can be aligned up to what is left of them, `q` and `t`. -/
inductive Aligns (view : π → View π α) : π → List α → π → List α → Prop
  | refl {p s} : Aligns view p s p s
  | skip {p p' s q t} : view p = .star p' → Aligns view p' s q t → Aligns view p s q t
  | eat {p p' c s q t} : view p = .star p' → Aligns view p s q t → Aligns view p (c :: s) q t
  | one {p test p' c s q t} : view p = .one test p' → test c = true → Aligns view p' s q t →
      Aligns view p (c :: s) q t

/-- An alignment leaves something that satisfies `Q`. -/
def Meets (view : π → View π α) (Q : π → List α → Prop) (p : π) (s : List α) : Prop :=
  ∃ q t, Aligns view p s q t ∧ Q q t

/-- The words of a pattern. -/
def Lang (view : π → View π α) : π → List α → Prop :=
  Meets view fun q t => view q = .done ∧ t = []

/-- Something is left of the word in front of an element that is broken. -/
def MeetsBroken (view : π → View π α) : π → List α → Prop :=
  Meets view fun q t => view q = .broken ∧ t ≠ []

/-! ### Alignments by the first element -/

section Meets

variable {view : π → View π α} {Q : π → List α → Prop} {p p' : π} {s : List α} {c : α}
  {test : α → Bool}

theorem meets_done (h : view p = .done) : Meets view Q p s ↔ Q p s := by
  constructor
  · rintro ⟨q, t, hal, hQ⟩
    cases hal with
    | refl => exact hQ
    | skip hv | eat hv | one hv => cases h.symm.trans hv
  · exact fun hQ => ⟨p, s, .refl, hQ⟩

theorem meets_broken (h : view p = .broken) : Meets view Q p s ↔ Q p s := by
  constructor
  · rintro ⟨q, t, hal, hQ⟩
    cases hal with
    | refl => exact hQ
    | skip hv | eat hv | one hv => cases h.symm.trans hv
  · exact fun hQ => ⟨p, s, .refl, hQ⟩

theorem meets_star_nil (h : view p = .star p') :
    Meets view Q p [] ↔ Q p [] ∨ Meets view Q p' [] := by
  constructor
  · rintro ⟨q, t, hal, hQ⟩
    cases hal with
    | refl => exact .inl hQ
    | skip hv hal =>
      obtain rfl := View.star.inj (h.symm.trans hv)
      exact .inr ⟨q, t, hal, hQ⟩
  · rintro (hQ | ⟨q, t, hal, hQ⟩)
    · exact ⟨p, [], .refl, hQ⟩
    · exact ⟨q, t, .skip h hal, hQ⟩

theorem meets_star_cons (h : view p = .star p') :
    Meets view Q p (c :: s) ↔ Q p (c :: s) ∨ Meets view Q p' (c :: s) ∨ Meets view Q p s := by
  constructor
  · rintro ⟨q, t, hal, hQ⟩
    cases hal with
    | refl => exact .inl hQ
    | skip hv hal =>
      obtain rfl := View.star.inj (h.symm.trans hv)
      exact .inr (.inl ⟨q, t, hal, hQ⟩)
    | eat _ hal => exact .inr (.inr ⟨q, t, hal, hQ⟩)
    | one hv => cases h.symm.trans hv
  · rintro (hQ | ⟨q, t, hal, hQ⟩ | ⟨q, t, hal, hQ⟩)
    · exact ⟨p, c :: s, .refl, hQ⟩
    · exact ⟨q, t, .skip h hal, hQ⟩
    · exact ⟨q, t, .eat h hal, hQ⟩

theorem meets_one_nil (h : view p = .one test p') : Meets view Q p [] ↔ Q p [] := by
  constructor
  · rintro ⟨q, t, hal, hQ⟩
    cases hal with
    | refl => exact hQ
    | skip hv => cases h.symm.trans hv
  · exact fun hQ => ⟨p, [], .refl, hQ⟩

theorem meets_one_cons (h : view p = .one test p') :
    Meets view Q p (c :: s) ↔ Q p (c :: s) ∨ (test c = true ∧ Meets view Q p' s) := by
  constructor
  · rintro ⟨q, t, hal, hQ⟩
    cases hal with
    | refl => exact .inl hQ
    | skip hv | eat hv => cases h.symm.trans hv
    | one hv htest hal =>
      obtain ⟨rfl, rfl⟩ := View.one.inj (h.symm.trans hv)
      exact .inr ⟨htest, q, t, hal, hQ⟩
  · rintro (hQ | ⟨htest, q, t, hal, hQ⟩)
    · exact ⟨p, c :: s, .refl, hQ⟩
    · exact ⟨q, t, .one h htest hal, hQ⟩

end Meets

/-! ### Words -/

section Words

variable {view : π → View π α} {p p' : π} {s : List α} {c : α} {test : α → Bool}

theorem lang_done (h : view p = .done) : Lang view p s ↔ s = [] :=
  (meets_done h).trans (and_iff_right h)

theorem not_lang_broken (h : view p = .broken) : ¬ Lang view p s := by
  intro hlang
  obtain ⟨hdone, -⟩ := (meets_broken h).mp hlang
  cases h.symm.trans hdone

theorem lang_star_nil (h : view p = .star p') : Lang view p [] ↔ Lang view p' [] := by
  refine (meets_star_nil h).trans (or_iff_right ?_)
  rintro ⟨hdone, -⟩
  cases h.symm.trans hdone

theorem lang_star_cons (h : view p = .star p') :
    Lang view p (c :: s) ↔ Lang view p' (c :: s) ∨ Lang view p s := by
  refine (meets_star_cons h).trans (or_iff_right ?_)
  rintro ⟨-, hnil⟩
  cases hnil

theorem not_lang_one_nil (h : view p = .one test p') : ¬ Lang view p [] := by
  intro hlang
  obtain ⟨hdone, -⟩ := (meets_one_nil h).mp hlang
  cases h.symm.trans hdone

theorem lang_one_cons (h : view p = .one test p') :
    Lang view p (c :: s) ↔ test c = true ∧ Lang view p' s := by
  refine (meets_one_cons h).trans (or_iff_right ?_)
  rintro ⟨-, hnil⟩
  cases hnil

/-- A star takes the beginning of a word. -/
theorem lang_star_append (h : view p = .star p') (u : List α) (hs : Lang view p' s) :
    Lang view p (u ++ s) := by
  induction u with
  | nil =>
    cases s with
    | nil => exact (lang_star_nil h).mpr hs
    | cons c s => exact (lang_star_cons h).mpr (.inl hs)
  | cons c u ih => exact (lang_star_cons h).mpr (.inr ih)

theorem lang_star (h : view p = .star p') :
    Lang view p s ↔ ∃ u t, s = u ++ t ∧ Lang view p' t := by
  constructor
  · intro hs
    induction s with
    | nil => exact ⟨[], [], rfl, (lang_star_nil h).mp hs⟩
    | cons c s ih =>
      rcases (lang_star_cons h).mp hs with hs | hs
      · exact ⟨[], c :: s, rfl, hs⟩
      · obtain ⟨u, t, rfl, ht⟩ := ih hs
        exact ⟨c :: u, t, rfl, ht⟩
  · rintro ⟨u, t, rfl, ht⟩
    exact lang_star_append h u ht

/-! ### Broken patterns -/

theorem Aligns.eq_nil {q : π} {t : List α} (h : Aligns view p s q t) (hs : s = []) : t = [] := by
  induction h with
  | refl => exact hs
  | skip _ _ ih => exact ih hs
  | eat | one => cases hs

theorem not_meetsBroken_nil : ¬ MeetsBroken view p [] := by
  rintro ⟨q, t, hal, -, ht⟩
  exact ht (hal.eq_nil rfl)

theorem meetsBroken_broken (h : view p = .broken) : MeetsBroken view p s ↔ s ≠ [] :=
  (meets_broken h).trans (and_iff_right h)

theorem not_meetsBroken_done (h : view p = .done) : ¬ MeetsBroken view p s := by
  intro hmeets
  obtain ⟨hbroken, -⟩ := (meets_done h).mp hmeets
  cases h.symm.trans hbroken

theorem meetsBroken_star (h : view p = .star p') :
    MeetsBroken view p (c :: s) ↔ MeetsBroken view p' (c :: s) ∨ MeetsBroken view p s := by
  refine (meets_star_cons h).trans (or_iff_right ?_)
  rintro ⟨hbroken, -⟩
  cases h.symm.trans hbroken

theorem meetsBroken_one (h : view p = .one test p') :
    MeetsBroken view p (c :: s) ↔ test c = true ∧ MeetsBroken view p' s := by
  refine (meets_one_cons h).trans (or_iff_right ?_)
  rintro ⟨hbroken, -⟩
  cases h.symm.trans hbroken

/-- The elements of a pattern, one after the other. -/
inductive Chain (view : π → View π α) : π → π → Prop
  | refl {p : π} : Chain view p p
  | star {p p' q : π} : view p = .star p' → Chain view p' q → Chain view p q
  | one {p p' q : π} {test : α → Bool} : view p = .one test p' → Chain view p' q → Chain view p q

theorem Aligns.chain {q : π} {t : List α} (h : Aligns view p s q t) : Chain view p q := by
  induction h with
  | refl => exact .refl
  | skip hv _ ih => exact .star hv ih
  | eat _ _ ih => exact ih
  | one hv _ _ ih => exact .one hv ih

theorem Chain.not_broken {q r : π} (h : Chain view p q) (hq : view q = .done)
    (h' : Chain view p r) : view r ≠ .broken := by
  induction h with
  | refl =>
    cases h' with
    | refl => exact fun hr => by cases hq.symm.trans hr
    | star hv | one hv => cases hq.symm.trans hv
  | star hv _ ih =>
    cases h' with
    | refl => exact fun hr => by cases hv.symm.trans hr
    | star hv' h' =>
      obtain rfl := View.star.inj (hv.symm.trans hv')
      exact ih hq h'
    | one hv' => cases hv.symm.trans hv'
  | one hv _ ih =>
    cases h' with
    | refl => exact fun hr => by cases hv.symm.trans hr
    | star hv' => cases hv.symm.trans hv'
    | one hv' h' =>
      obtain ⟨-, rfl⟩ := View.one.inj (hv.symm.trans hv')
      exact ih hq h'

/-- A pattern with a broken element in it has no words. -/
theorem not_lang_of_broken {s' : List α} (h : MeetsBroken view p s) : ¬ Lang view p s' := by
  rintro ⟨q, t, hal, hq, -⟩
  obtain ⟨q', t', hal', hq', -⟩ := h
  exact hal.chain.not_broken hq hal'.chain hq'

end Words

/-! ### Views that agree -/

section Agree

variable {view view' : π → View π α} {p q : π} {s t : List α}

theorem View.Agree.star {v : View π α} {p' : π} (h : (View.star p').Agree t v) : v = .star p' := by
  cases v with
  | star => rw [h]
  | _ => cases h

theorem View.Agree.star_right {v : View π α} {p' : π} (h : v.Agree t (View.star p')) :
    v = .star p' := by
  cases v with
  | star => rw [h]
  | _ => cases h

theorem View.Agree.done_iff {v v' : View π α} (h : v.Agree t v') : v = .done ↔ v' = .done := by
  cases v <;> cases v' <;> first | exact Iff.rfl | exact h.elim | exact ⟨nofun, nofun⟩

/-- The views agree wherever an alignment goes. -/
def AgreeAlong (view view' : π → View π α) (p : π) (s : List α) : Prop :=
  ∀ q t, Aligns view p s q t → (view q).Agree t (view' q)

theorem Aligns.of_agree (hagree : AgreeAlong view view' p s) (h : Aligns view p s q t) :
    Aligns view' p s q t := by
  induction h with
  | refl => exact .refl
  | @skip p p' s q t hv hal ih =>
    have hhead := hagree p s .refl
    rw [hv] at hhead
    exact .skip hhead.star (ih fun q t h => hagree q t (.skip hv h))
  | @eat p p' c s q t hv hal ih =>
    have hhead := hagree p (c :: s) .refl
    rw [hv] at hhead
    exact .eat hhead.star (ih fun q t h => hagree q t (.eat hv h))
  | @one p test p' c s q t hv htest hal ih =>
    have hhead := hagree p (c :: s) .refl
    rw [hv] at hhead
    cases hv' : view' p with
    | one test' p'' =>
      rw [hv'] at hhead
      obtain ⟨rfl, hsame⟩ := hhead
      exact .one hv' ((hsame c rfl).symm.trans htest) (ih fun q t h => hagree q t (.one hv htest h))
    | _ =>
      rw [hv'] at hhead
      cases hhead

theorem Aligns.agree (hagree : AgreeAlong view view' p s) (h : Aligns view' p s q t) :
    Aligns view p s q t := by
  induction h with
  | refl => exact .refl
  | @skip p p' s q t hv hal ih =>
    have hhead := hagree p s .refl
    rw [hv] at hhead
    exact .skip hhead.star_right (ih fun q t h => hagree q t (.skip hhead.star_right h))
  | @eat p p' c s q t hv hal ih =>
    have hhead := hagree p (c :: s) .refl
    rw [hv] at hhead
    exact .eat hhead.star_right (ih fun q t h => hagree q t (.eat hhead.star_right h))
  | @one p test' p' c s q t hv' htest' hal ih =>
    have hhead := hagree p (c :: s) .refl
    rw [hv'] at hhead
    cases hv : view p with
    | one test p'' =>
      rw [hv] at hhead
      obtain ⟨rfl, hsame⟩ := hhead
      have htest : test c = true := (hsame c rfl).trans htest'
      exact .one hv htest (ih fun q t h => hagree q t (.one hv htest h))
    | _ =>
      rw [hv] at hhead
      cases hhead

/-- **Views that agree** have the same words. -/
theorem lang_iff_of_agree (hagree : AgreeAlong view view' p s) :
    Lang view p s ↔ Lang view' p s := by
  constructor
  · rintro ⟨q, t, hal, hq, ht⟩
    exact ⟨q, t, hal.of_agree hagree, (hagree q t hal).done_iff.mp hq, ht⟩
  · rintro ⟨q, t, hal, hq, ht⟩
    have hal' := hal.agree hagree
    exact ⟨q, t, hal', (hagree q t hal').done_iff.mpr hq, ht⟩

end Agree

end Wildcard
