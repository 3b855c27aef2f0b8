import Mathlib.Data.List.Basic
import Mathlib.Logic.Relation
import Mathlib.Tactic.Tauto

/-!
# Reading a list by its indexes

A program that is handed a list of arguments reads some of them by their index, tests what it reads,
and stops at the first that does not pass. Part of the list may be a list of options: a keyword, then
as many values as the keyword takes. Nothing is known here of the arguments, the tests or the
keywords; a read past the end is an outcome of its own.

* `Parse` — how the reading ends: done, refused with an error, or past the end;
* `inOrder` — readings one after the other; `FirstGap` says of the list alone where one runs out;
* `look`, `looks` — single arguments, by their index;
* `loop` — a loop over options; `Reaches` is what it has read so far as a relation, `Whole` a list it
  reads to its end and `BreaksOff` one in which a keyword lacks values that it reads;
* `Phase` — a single argument, a check, or an option list; a program is a list of them.
-/

namespace ArgList

variable {α ε σ τ P : Type*}

/-- How the reading of a list ends. -/
inductive Parse (ε σ : Type*)
  | done (state : σ)
  | refused (err : ε)
  | pastEnd
deriving DecidableEq

namespace Parse

/-- What is read next, when nothing went wrong before. -/
def bind : Parse ε σ → (σ → Parse ε τ) → Parse ε τ
  | done s, k => k s
  | refused e, _ => refused e
  | pastEnd, _ => pastEnd

/-- A check that reads nothing. -/
def ofCheck : Option ε → Parse ε Unit
  | none => done ()
  | some e => refused e

variable {p : Parse ε σ} {k : σ → Parse ε τ}

theorem bind_eq_done_iff {t : τ} : p.bind k = done t ↔ ∃ s, p = done s ∧ k s = done t := by
  cases p <;> simp [bind]

theorem bind_eq_pastEnd_iff :
    p.bind k = pastEnd ↔ p = pastEnd ∨ ∃ s, p = done s ∧ k s = pastEnd := by
  cases p <;> simp [bind]

theorem bind_eq_refused_iff {e : ε} :
    p.bind k = refused e ↔ p = refused e ∨ ∃ s, p = done s ∧ k s = refused e := by
  cases p <;> simp [bind]

@[simp] theorem exists_eq_done_iff {q : Parse ε Unit} : (∃ u, q = done u) ↔ q = done () :=
  ⟨fun ⟨_, h⟩ => h, fun h => ⟨(), h⟩⟩

@[simp] theorem ofCheck_eq_done_iff {c : Option ε} : ofCheck c = done () ↔ c = none := by
  cases c <;> simp [ofCheck]

@[simp] theorem ofCheck_ne_pastEnd {c : Option ε} : ofCheck c ≠ pastEnd := by
  cases c <;> simp [ofCheck]

@[simp] theorem ofCheck_eq_refused_iff {c : Option ε} {e : ε} :
    ofCheck c = refused e ↔ c = some e := by
  cases c <;> simp [ofCheck]

end Parse

/-! ### One after the other -/

/-- Readings one after the other. -/
def inOrder (run : P → Parse ε Unit) : List P → Parse ε Unit
  | [] => .done ()
  | p :: ps => (run p).bind fun _ => inOrder run ps

/-- One of `ps` is missing what it reads, and those before it have passed. -/
def FirstGap (taken missing : P → Prop) (ps : List P) : Prop :=
  ∃ before p behind, ps = before ++ p :: behind ∧ (∀ q ∈ before, taken q) ∧ missing p

section InOrder

variable {run : P → Parse ε Unit} {taken missing : P → Prop} {p : P} {ps : List P}

@[simp] theorem firstGap_nil : ¬FirstGap taken missing ([] : List P) := by
  rintro ⟨before, p, behind, h, -⟩
  simp at h

theorem firstGap_cons :
    FirstGap taken missing (p :: ps) ↔ missing p ∨ taken p ∧ FirstGap taken missing ps := by
  constructor
  · rintro ⟨_ | ⟨q, before⟩, r, behind, h, htaken, hmissing⟩
    · obtain ⟨rfl, rfl⟩ := List.cons.inj h
      exact .inl hmissing
    · obtain ⟨rfl, rfl⟩ := List.cons.inj h
      refine .inr ⟨htaken p List.mem_cons_self, before, r, behind, rfl, fun q hq => ?_, hmissing⟩
      exact htaken q (List.mem_cons_of_mem p hq)
  · rintro (hmissing | ⟨hp, before, r, behind, rfl, htaken, hmissing⟩)
    · exact ⟨[], p, ps, rfl, by simp, hmissing⟩
    · exact ⟨p :: before, r, behind, rfl, List.forall_mem_cons.mpr ⟨hp, htaken⟩, hmissing⟩

/-- A gap in the second part comes up only when the first part passes. -/
theorem firstGap_append {qs : List P} :
    FirstGap taken missing (ps ++ qs) ↔
      FirstGap taken missing ps ∨ (∀ p ∈ ps, taken p) ∧ FirstGap taken missing qs := by
  induction ps with
  | nil => simp
  | cons p ps ih =>
    rw [List.cons_append, firstGap_cons, firstGap_cons, ih, List.forall_mem_cons]
    tauto

theorem not_firstGap_of_forall (h : ∀ p ∈ ps, ¬missing p) : ¬FirstGap taken missing ps := by
  rintro ⟨before, p, behind, rfl, -, hmissing⟩
  exact h p (by simp) hmissing

theorem inOrder_eq_done_iff : inOrder run ps = .done () ↔ ∀ p ∈ ps, run p = .done () := by
  induction ps with
  | nil => simp [inOrder]
  | cons p ps ih => simp [inOrder, Parse.bind_eq_done_iff, exists_and_right, ih]

theorem inOrder_eq_pastEnd_iff (htaken : ∀ p, run p = .done () ↔ taken p)
    (hmissing : ∀ p, run p = .pastEnd ↔ missing p) :
    inOrder run ps = .pastEnd ↔ FirstGap taken missing ps := by
  induction ps with
  | nil => simp [inOrder]
  | cons p ps ih =>
    rw [inOrder, Parse.bind_eq_pastEnd_iff, firstGap_cons, ← ih, ← htaken, ← hmissing]
    simp

theorem inOrder_cons_eq_refused_iff {e : ε} :
    inOrder run (p :: ps) = .refused e ↔
      run p = .refused e ∨ run p = .done () ∧ inOrder run ps = .refused e := by
  rw [inOrder, Parse.bind_eq_refused_iff]
  simp

/-- An error comes from one of the readings. -/
theorem exists_refused_of_inOrder {e : ε} (h : inOrder run ps = .refused e) :
    ∃ p ∈ ps, run p = .refused e := by
  induction ps with
  | nil => simp [inOrder] at h
  | cons p ps ih =>
    obtain h | ⟨-, h⟩ := inOrder_cons_eq_refused_iff.mp h
    · exact ⟨p, List.mem_cons_self, h⟩
    · obtain ⟨q, hq, hrefused⟩ := ih h
      exact ⟨q, List.mem_cons_of_mem p hq, hrefused⟩

end InOrder

/-! ### Single arguments -/

/-- An index, and the test of what stands there. -/
structure Look (α ε : Type*) where
  index : ℕ
  test : α → Option ε

namespace Look

variable {args : List α} {l : Look α ε}

def Taken (args : List α) (l : Look α ε) : Prop := ∃ a, args[l.index]? = some a ∧ l.test a = none

def Missing (args : List α) (l : Look α ε) : Prop := args.length ≤ l.index

def run (args : List α) (l : Look α ε) : Parse ε Unit :=
  match args[l.index]? with
  | none => .pastEnd
  | some a => .ofCheck (l.test a)

theorem run_eq_done_iff : l.run args = .done () ↔ l.Taken args := by
  unfold run Taken
  cases args[l.index]? <;> simp

theorem run_eq_pastEnd_iff : l.run args = .pastEnd ↔ l.Missing args := by
  rw [Missing, ← List.getElem?_eq_none_iff]
  unfold run
  cases args[l.index]? <;> simp

theorem run_eq_refused_iff {e : ε} :
    l.run args = .refused e ↔ ∃ a, args[l.index]? = some a ∧ l.test a = some e := by
  unfold run
  cases args[l.index]? <;> simp

end Look

/-- Several of them. -/
def looks (args : List α) (ls : List (Look α ε)) : Parse ε Unit := inOrder (Look.run args) ls

/-- One of them is past the end, and those before it have passed. -/
def Short (args : List α) (ls : List (Look α ε)) : Prop :=
  FirstGap (Look.Taken args) (Look.Missing args) ls

theorem looks_eq_done_iff {args : List α} {ls : List (Look α ε)} :
    looks args ls = .done () ↔ ∀ l ∈ ls, l.Taken args := by
  simp only [looks, inOrder_eq_done_iff, Look.run_eq_done_iff]

theorem looks_eq_pastEnd_iff {args : List α} {ls : List (Look α ε)} :
    looks args ls = .pastEnd ↔ Short args ls :=
  inOrder_eq_pastEnd_iff (fun _ => Look.run_eq_done_iff) fun _ => Look.run_eq_pastEnd_iff

/-! ### Options -/

/-- What a keyword does: the values it looks at, by their distance behind it, how many arguments the
loop leaves out before the next keyword, and the state afterwards. -/
structure Opt (α ε σ : Type*) where
  reads : List (Look α ε)
  skip : ℕ
  next : List α → σ

/-- The keywords of a loop. A keyword is looked up with the number of arguments behind it. -/
abbrev Spec (α ε σ : Type*) := σ → α → ℕ → Except ε (Opt α ε σ)

/-- The loop over the options, which leaves out `skip` arguments first. -/
def loop (spec : Spec α ε σ) : σ → ℕ → List α → Parse ε σ
  | s, _, [] => .done s
  | s, skip + 1, _ :: rest => loop spec s skip rest
  | s, 0, kw :: rest =>
    match spec s kw rest.length with
    | .error e => .refused e
    | .ok opt => (looks rest opt.reads).bind fun _ => loop spec (opt.next rest) opt.skip rest

/-- One round of the loop. -/
inductive Round (spec : Spec α ε σ) : σ × List α → σ × List α → Prop
  | mk {s : σ} {kw : α} {rest : List α} {opt : Opt α ε σ} (look : spec s kw rest.length = .ok opt)
    (taken : ∀ l ∈ opt.reads, l.Taken rest) :
    Round spec (s, kw :: rest) (opt.next rest, rest.drop opt.skip)

/-- Rounds whose keywords have their values. -/
def Reaches (spec : Spec α ε σ) : σ × List α → σ × List α → Prop :=
  Relation.ReflTransGen (Round spec)

/-- The list is read to its end, and the state is `t` there. -/
def EndsIn (spec : Spec α ε σ) (s : σ) (opts : List α) (t : σ) : Prop :=
  Reaches spec (s, opts) (t, [])

/-- Every keyword of the list is known and has its values. -/
def Whole (spec : Spec α ε σ) (s : σ) (opts : List α) : Prop := ∃ t, EndsIn spec s opts t

/-- Behind options that have their values comes a keyword that lacks one of its own. -/
def BreaksOff (spec : Spec α ε σ) (s : σ) (opts : List α) : Prop :=
  ∃ t kw rest opt, Reaches spec (s, opts) (t, kw :: rest) ∧ spec t kw rest.length = .ok opt ∧
    Short rest opt.reads

section Loop

variable {spec : Spec α ε σ} {s t : σ} {kw : α} {rest opts : List α}

theorem loop_skip (skip : ℕ) : loop spec s skip opts = loop spec s 0 (opts.drop skip) := by
  induction skip generalizing opts with
  | zero => rfl
  | succ skip ih =>
    cases opts with
    | nil => simp [loop]
    | cons a opts => rw [loop, ih, List.drop_succ_cons]

theorem loop_cons : loop spec s 0 (kw :: rest) =
    match spec s kw rest.length with
    | .error e => .refused e
    | .ok opt =>
      (looks rest opt.reads).bind fun _ => loop spec (opt.next rest) 0 (rest.drop opt.skip) := by
  rw [loop]
  cases spec s kw rest.length with
  | error e => rfl
  | ok opt =>
    change (looks rest opt.reads).bind _ = (looks rest opt.reads).bind _
    exact congrArg _ (funext fun _ => loop_skip opt.skip)

theorem endsIn_nil : EndsIn spec s [] t ↔ s = t := by
  constructor
  · intro h
    cases Relation.ReflTransGen.cases_head h with
    | inl heq => exact congrArg Prod.fst heq
    | inr h => obtain ⟨_, ⟨⟩, -⟩ := h
  · rintro rfl
    exact .refl

theorem endsIn_cons : EndsIn spec s (kw :: rest) t ↔
    ∃ opt, spec s kw rest.length = .ok opt ∧ (∀ l ∈ opt.reads, l.Taken rest) ∧
      EndsIn spec (opt.next rest) (rest.drop opt.skip) t := by
  constructor
  · intro h
    obtain heq | ⟨_, hround, htail⟩ := Relation.ReflTransGen.cases_head h
    · cases heq
    · cases hround with
      | mk hlook htaken => exact ⟨_, hlook, htaken, htail⟩
  · rintro ⟨opt, hlook, htaken, htail⟩
    exact .head (.mk hlook htaken) htail

theorem not_breaksOff_nil : ¬BreaksOff spec s [] := by
  rintro ⟨t, kw, rest, opt, h, -⟩
  obtain heq | ⟨_, ⟨⟩, -⟩ := Relation.ReflTransGen.cases_head h
  cases heq

theorem breaksOff_cons : BreaksOff spec s (kw :: rest) ↔
    ∃ opt, spec s kw rest.length = .ok opt ∧ (Short rest opt.reads ∨
      (∀ l ∈ opt.reads, l.Taken rest) ∧ BreaksOff spec (opt.next rest) (rest.drop opt.skip)) := by
  constructor
  · rintro ⟨t, kw', rest', opt, h, hlook, hshort⟩
    obtain heq | ⟨_, hround, htail⟩ := Relation.ReflTransGen.cases_head h
    · cases heq
      exact ⟨opt, hlook, .inl hshort⟩
    · cases hround with
      | mk hfirst htaken =>
        exact ⟨_, hfirst, .inr ⟨htaken, t, kw', rest', opt, htail, hlook, hshort⟩⟩
  · rintro ⟨opt, hlook, hshort | ⟨htaken, t, kw', rest', opt', htail, hlook', hshort⟩⟩
    · exact ⟨s, kw, rest, opt, .refl, hlook, hshort⟩
    · exact ⟨t, kw', rest', opt', .head (.mk hlook htaken) htail, hlook', hshort⟩

/-- Induction along the rounds: a list is empty, or shorter behind its first keyword. -/
theorem opts_induction {motive : List α → Prop} (nil : motive [])
    (cons : ∀ kw rest, (∀ k, motive (rest.drop k)) → motive (kw :: rest)) : ∀ opts, motive opts
  | [] => nil
  | kw :: rest => cons kw rest fun k => opts_induction nil cons (rest.drop k)
termination_by opts => opts.length
decreasing_by
  simp only [List.length_drop, List.length_cons]
  omega

/-- **The loop comes to its end** on the lists whose options have their values. -/
theorem loop_eq_done_iff : loop spec s 0 opts = .done t ↔ EndsIn spec s opts t := by
  induction opts using opts_induction generalizing s with
  | nil => simp [loop, endsIn_nil]
  | cons kw rest ih =>
    rw [loop_cons, endsIn_cons]
    cases spec s kw rest.length with
    | error e => simp
    | ok opt => simp [Parse.bind_eq_done_iff, looks_eq_done_iff, ih]

/-- **The loop reads past the end** on the lists that break off. -/
theorem loop_eq_pastEnd_iff : loop spec s 0 opts = .pastEnd ↔ BreaksOff spec s opts := by
  induction opts using opts_induction generalizing s with
  | nil => simp [loop, not_breaksOff_nil]
  | cons kw rest ih =>
    rw [loop_cons, breaksOff_cons]
    cases spec s kw rest.length with
    | error e => simp
    | ok opt => simp [Parse.bind_eq_pastEnd_iff, looks_eq_pastEnd_iff, looks_eq_done_iff, ih]

theorem not_breaksOff_of_whole (h : Whole spec s opts) : ¬BreaksOff spec s opts := fun hbreaks => by
  obtain ⟨t, ht⟩ := h
  have := (loop_eq_done_iff.mpr ht).symm.trans (loop_eq_pastEnd_iff.mpr hbreaks)
  cases this

/-- A loop over pairs does not break off where the arguments come in pairs. -/
theorem not_breaksOff_of_even (h : ∀ s kw r opt, spec s kw r = .ok opt →
    opt.skip = 1 ∧ ∀ l ∈ opt.reads, l.index = 0) (heven : opts.length % 2 = 0) :
    ¬BreaksOff spec s opts := by
  induction opts using opts_induction generalizing s with
  | nil => exact not_breaksOff_nil
  | cons kw rest ih =>
    rw [breaksOff_cons]
    rintro ⟨opt, hlook, hshort⟩
    obtain ⟨hskip, hreads⟩ := h s kw rest.length opt hlook
    have hrest : rest ≠ [] := by rintro rfl; simp at heven
    have hpos := List.length_pos_iff.mpr hrest
    obtain hshort | ⟨-, htail⟩ := hshort
    · refine not_firstGap_of_forall (fun l hl => ?_) hshort
      rw [Look.Missing, hreads l hl]
      omega
    · refine ih opt.skip ?_ htail
      rw [List.length_drop, hskip]
      simp only [List.length_cons] at heven
      omega

/-- A loop whose keywords never look past the end does not break off. -/
theorem not_breaksOff_of_room (h : ∀ s kw rest opt, spec s kw (rest : List α).length = .ok opt →
    ∀ l ∈ opt.reads, l.index < rest.length) : ¬BreaksOff spec s opts := by
  rintro ⟨t, kw, rest, opt, -, hlook, hshort⟩
  exact not_firstGap_of_forall (fun l hl => Nat.not_le.mpr (h t kw rest opt hlook l hl)) hshort

/-- An error of the loop is one of a keyword or of a value. -/
theorem exists_refused_of_loop {e : ε} (h : loop spec s 0 opts = .refused e) :
    ∃ t kw r, spec t kw r = .error e ∨
      ∃ opt, spec t kw r = .ok opt ∧ ∃ l ∈ opt.reads, ∃ a, l.test a = some e := by
  induction opts using opts_induction generalizing s with
  | nil => simp [loop] at h
  | cons kw rest ih =>
    rw [loop_cons] at h
    cases hspec : spec s kw rest.length with
    | error e' =>
      rw [hspec] at h
      cases h
      exact ⟨s, kw, rest.length, .inl hspec⟩
    | ok opt =>
      rw [hspec] at h
      obtain hread | ⟨-, -, htail⟩ := Parse.bind_eq_refused_iff.mp h
      · obtain ⟨l, hl, hrefused⟩ := exists_refused_of_inOrder hread
        obtain ⟨a, -, ha⟩ := Look.run_eq_refused_iff.mp hrefused
        exact ⟨s, kw, rest.length, .inr ⟨opt, hspec, l, hl, a, ha⟩⟩
      · exact ih _ htail

end Loop

/-! ### Programs -/

/-- A step of a program: an argument, a check that reads nothing, or the options from `start` on with
a check behind them. -/
inductive Phase (α ε σ : Type*)
  | look (l : Look α ε)
  | check (err : Option ε)
  | options (start : ℕ) (spec : Spec α ε σ) (init : σ) (final : σ → Option ε)

namespace Phase

/-- What the step reads is there and passes. -/
def Taken (args : List α) : Phase α ε σ → Prop
  | look l => l.Taken args
  | check err => err = none
  | options start spec init final => ∃ t, EndsIn spec init (args.drop start) t ∧ final t = none

/-- What the step reads is missing. -/
def Missing (args : List α) : Phase α ε σ → Prop
  | look l => l.Missing args
  | check _ => False
  | options start spec init _ => BreaksOff spec init (args.drop start)

def run (args : List α) : Phase α ε σ → Parse ε Unit
  | look l => l.run args
  | check err => .ofCheck err
  | options start spec init final =>
    (loop spec init 0 (args.drop start)).bind fun t => .ofCheck (final t)

variable {args : List α} {p : Phase α ε σ}

theorem run_eq_done_iff : p.run args = .done () ↔ p.Taken args := by
  cases p with
  | look l => exact Look.run_eq_done_iff
  | check err => exact Parse.ofCheck_eq_done_iff
  | options start spec init final => simp [run, Taken, Parse.bind_eq_done_iff, loop_eq_done_iff]

theorem run_eq_pastEnd_iff : p.run args = .pastEnd ↔ p.Missing args := by
  cases p with
  | look l => exact Look.run_eq_pastEnd_iff
  | check err => simp [run, Missing]
  | options start spec init final =>
    simp [run, Missing, Parse.bind_eq_pastEnd_iff, loop_eq_pastEnd_iff]

end Phase

/-- A program reads its arguments step by step. -/
def runPhases (args : List α) (ps : List (Phase α ε σ)) : Parse ε Unit :=
  inOrder (Phase.run args) ps

/-- The program comes to a step whose argument is missing. -/
def Gap (args : List α) (ps : List (Phase α ε σ)) : Prop :=
  FirstGap (Phase.Taken args) (Phase.Missing args) ps

/-- **A program reads past the end** exactly when it comes to a step whose argument is missing. -/
theorem runPhases_eq_pastEnd_iff {args : List α} {ps : List (Phase α ε σ)} :
    runPhases args ps = .pastEnd ↔ Gap args ps :=
  inOrder_eq_pastEnd_iff (fun _ => Phase.run_eq_done_iff) fun _ => Phase.run_eq_pastEnd_iff

theorem runPhases_eq_done_iff {args : List α} {ps : List (Phase α ε σ)} :
    runPhases args ps = .done () ↔ ∀ p ∈ ps, p.Taken args := by
  simp only [runPhases, inOrder_eq_done_iff, Phase.run_eq_done_iff]

end ArgList
