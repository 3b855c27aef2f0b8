import Mathlib.Data.List.TakeWhile
import Comms.Lib.Wildcard
import Comms.Command.Args

/-!
# Glob patterns

`stringmatchlen` of `util/string_helper.cpp`, with which `PUBLISH` finds the patterns that a channel
belongs to. `pattern` and `string` are moved forward and their lengths go down with them, as `int`s;
behind each there is a NUL. A class compares its members with `string[0]` also where nothing is left
of the string, and its backslash is followed by another byte also where nothing is left of the
pattern.

* `stringmatchlen` — the function;
* `globView`, `Glob` — patterns, element by element, and the strings that belong to a pattern;
* `stringmatchlen_spec` — the function looks for an alignment;
* `inBounds_iff`, `meansGlob_of_reads` — where it stays in bounds, and where it means `Glob`;
* `stringmatchlen_glob` — both.

A byte from `0x80` on is a negative `char`, and `tolower` leaves it.
-/

namespace Comms.StringMatch

open Wildcard

/-! ### The function -/

/-- What comes of a call. -/
inductive Verdict
  | done (matched : Bool)
  /-- A length has become negative, or a byte behind a NUL is read. -/
  | wild
  | hangs
deriving DecidableEq, Repr

/-- `tolower`, where it is asked for. -/
def fold (nocase : Bool) (c : UInt8) : UInt8 := if nocase then toLower c else c

/-- Two bytes are compared. -/
def same (nocase : Bool) (x c : UInt8) : Bool := fold nocase x == fold nocase c

/-- A `char` as an `int`. -/
def charInt (c : UInt8) : ℤ := if c.toNat < 128 then c.toNat else c.toNat - 256

/-- A range: the bounds are put in order before they are turned to lower case. -/
def inRange (nocase : Bool) (x y c : UInt8) : Bool :=
  let (start, last) := if charInt x > charInt y then (y, x) else (x, y)
  decide (charInt (fold nocase start) ≤ charInt (fold nocase c)) &&
    decide (charInt (fold nocase c) ≤ charInt (fold nocase last))

/-- The loop over a class, for `c = string[0]`: where it leaves `pattern`, and `match`. `prev` is
`pattern[-1]`, and `none` is a negative length. -/
def classLoop (nocase : Bool) (c : UInt8) : UInt8 → Bytes → Bool → Option (Bytes × Bool)
  | _, [92], _ => none
  | _, 92 :: x :: p, m => classLoop nocase c x p (m || x == c)
  | _, 93 :: p, m => some (93 :: p, m)
  | prev, [], m => some ([prev], m)
  | _, x :: 45 :: y :: p, m => classLoop nocase c y p (m || inRange nocase x y c)
  | _, x :: p, m => classLoop nocase c x p (m || same nocase x c)

/-- The loop over the string behind a `*`. -/
def starLoop (match_ : Bytes → Verdict) : Bytes → Verdict
  | [] => .done false
  | c :: s =>
    match match_ (c :: s) with
    | .done false => starLoop match_ s
    | v => v

/-- `pattern[0] == '^'`, and what is behind it. -/
def splitNot : Bytes → Bool × Bytes
  | 94 :: body => (true, body)
  | body => (false, body)

/-- The end of an iteration: `pattern` and `string` have been moved on. -/
def nextElement (match_ : Bytes → Bytes → Verdict) (p s : Bytes) : Verdict :=
  match s with
  | [] => .done (p.dropWhile (· = 42)).isEmpty
  | c :: s => match_ p (c :: s)

/-- `string++`, `stringLen--`, behind an element that has matched. -/
def takeByte (match_ : Bytes → Bytes → Verdict) (p : Bytes) : Bytes → Verdict
  | [] => .wild
  | _ :: s => nextElement match_ p s

/-- `stringmatchlen`. An iteration of its loop is a call here, and one that it makes for a `*`;
`fuel` is for both. -/
def stringmatchlen (nocase : Bool) : ℕ → Bytes → Bytes → Verdict
  | 0, _, _ => .hangs
  | _ + 1, [], s => .done s.isEmpty
  | fuel + 1, 42 :: p, s =>
    if (p.dropWhile (· = 42)).isEmpty then .done true
    else starLoop (stringmatchlen nocase fuel (p.dropWhile (· = 42))) s
  | fuel + 1, 63 :: p, s =>
    if s.isEmpty then .done false else takeByte (stringmatchlen nocase fuel) p s
  | fuel + 1, 91 :: p, s =>
    let (notMatch, body) := splitNot p
    match classLoop nocase (s.headD 0) (if notMatch then 94 else 91) body false with
    | none => .wild
    | some (q, m) =>
      if notMatch != m then takeByte (stringmatchlen nocase fuel) q.tail s else .done false
  | fuel + 1, 92 :: x :: p, s =>
    if same nocase x (s.headD 0) then takeByte (stringmatchlen nocase fuel) p s else .done false
  | fuel + 1, x :: p, s =>
    if same nocase x (s.headD 0) then takeByte (stringmatchlen nocase fuel) p s else .done false

/-! ### Patterns -/

/-- A member of a class. -/
inductive ClassItem
  | single (x : UInt8)
  | escaped (x : UInt8)
  /-- The bounds are in any order. -/
  | range (x y : UInt8)

/-- The end of a class. -/
inductive ClassEnd
  | closed (rest : Bytes)
  | unclosed
  /-- The pattern ends in a backslash. -/
  | backslash

/-- The members of a class, up to the `]`. Behind `x-` a `]` is a bound. -/
def classItems : Bytes → List ClassItem × ClassEnd
  | [92] => ([], .backslash)
  | 92 :: x :: p => (.escaped x :: (classItems p).1, (classItems p).2)
  | 93 :: p => ([], .closed p)
  | [] => ([], .unclosed)
  | x :: 45 :: y :: p => (.range x y :: (classItems p).1, (classItems p).2)
  | x :: p => (.single x :: (classItems p).1, (classItems p).2)

/-- How the function compares a member. -/
def ClassItem.reads (nocase : Bool) (c : UInt8) : ClassItem → Bool
  | .single x => same nocase x c
  | .escaped x => x == c
  | .range x y => inRange nocase x y c

/-- The bytes that belong to a member: with `nocase` the case of neither makes a difference, and a
range goes from one bound to the other. -/
def ClassItem.has (nocase : Bool) (c : UInt8) : ClassItem → Bool
  | .single x => same nocase x c
  | .escaped x => same nocase x c
  | .range x y =>
    decide (min (fold nocase x).toNat (fold nocase y).toNat ≤ (fold nocase c).toNat) &&
      decide ((fold nocase c).toNat ≤ max (fold nocase x).toNat (fold nocase y).toNat)

/-- A pattern by its first element; several `*` in a row are one. `takes` says what a member of a
class takes. -/
def patternView (nocase : Bool) (takes : UInt8 → ClassItem → Bool) :
    Bytes → Wildcard.View Bytes UInt8
  | [] => .done
  | 42 :: p => .star (p.dropWhile (· = 42))
  | 63 :: p => .one (fun _ => true) p
  | 91 :: p =>
    match classItems (splitNot p).2 with
    | (items, .closed rest) => .one (fun c => (splitNot p).1 != items.any (takes c)) rest
    | (items, .unclosed) => .one (fun c => (splitNot p).1 != items.any (takes c)) []
    | (_, .backslash) => .broken
  | 92 :: x :: p => .one (same nocase x) p
  | x :: p => .one (same nocase x) p

/-- A pattern as the function reads it. -/
def codeView (nocase : Bool) : Bytes → Wildcard.View Bytes UInt8 :=
  patternView nocase (ClassItem.reads nocase)

/-- A byte of a pattern that stands for itself. -/
def IsPlain (x : UInt8) : Prop := x ≠ 42 ∧ x ≠ 63 ∧ x ≠ 91 ∧ x ≠ 92

/-- **The glob language.** The string belongs to the pattern. -/
inductive Glob (nocase : Bool) : Bytes → Bytes → Prop
  | nil : Glob nocase [] []
  | star {p s : Bytes} (u : Bytes) : Glob nocase p s → Glob nocase (42 :: p) (u ++ s)
  | any {p s : Bytes} {c : UInt8} : Glob nocase p s → Glob nocase (63 :: p) (c :: s)
  | cls {p rest s : Bytes} {c : UInt8} {items : List ClassItem} :
      classItems (splitNot p).2 = (items, .closed rest) →
      ((splitNot p).1 != items.any (ClassItem.has nocase c)) = true → Glob nocase rest s →
      Glob nocase (91 :: p) (c :: s)
  | escape {p s : Bytes} {x c : UInt8} : same nocase x c = true → Glob nocase p s →
      Glob nocase (92 :: x :: p) (c :: s)
  | plain {p s : Bytes} {x c : UInt8} : IsPlain x → same nocase x c = true → Glob nocase p s →
      Glob nocase (x :: p) (c :: s)

/-- Each `[` is closed and no backslash is the last byte. -/
inductive WellFormed : Bytes → Prop
  | nil : WellFormed []
  | star {p : Bytes} : WellFormed p → WellFormed (42 :: p)
  | any {p : Bytes} : WellFormed p → WellFormed (63 :: p)
  | cls {p rest : Bytes} {items : List ClassItem} :
      classItems (splitNot p).2 = (items, .closed rest) → WellFormed rest → WellFormed (91 :: p)
  | escape {p : Bytes} {x : UInt8} : WellFormed p → WellFormed (92 :: x :: p)
  | plain {p : Bytes} {x : UInt8} : IsPlain x → WellFormed p → WellFormed (x :: p)

/-! ### Element by element -/

/-- Where the function goes on behind a class. -/
def ClassEnd.rest : ClassEnd → Option Bytes
  | .closed rest => some rest
  | .unclosed => some []
  | .backslash => none

section Steps

variable {nocase : Bool} {takes : UInt8 → ClassItem → Bool} {p p' : Bytes} {s : Bytes} {c : UInt8}
  {test : UInt8 → Bool} {fuel : ℕ}

/-- The loop over a class comes to its end, and compares its members. -/
theorem classLoop_eq (nocase : Bool) (c prev : UInt8) (p : Bytes) (m : Bool) :
    (classLoop nocase c prev p m).map (fun r => (r.1.tail, r.2)) =
      (classItems p).2.rest.map fun rest =>
        (rest, m || (classItems p).1.any (ClassItem.reads nocase c)) := by
  fun_induction classLoop nocase c prev p m with
  | case1 => rfl
  | case2 prev x p m ih => simp [classItems, ClassItem.reads, ih, Bool.or_assoc]
  | case3 => simp [classItems, ClassEnd.rest]
  | case4 => simp [classItems, ClassEnd.rest]
  | case5 prev m x y p h1 h2 ih => simp [classItems, ClassItem.reads, ih, Bool.or_assoc]
  | case6 prev m x p h1 h2 h3 ih =>
    simp_all [classItems, ClassItem.reads, Bool.or_assoc]

theorem classItems_length {rest : Bytes} (h : (classItems p).2 = .closed rest) :
    rest.length < p.length := by
  fun_induction classItems p with
  | case1 => cases h
  | case2 x p ih =>
    have := ih h
    simp only [List.length_cons]
    omega
  | case3 p =>
    obtain rfl := ClassEnd.closed.inj h
    simp
  | case4 => cases h
  | case5 x y p h1 h2 ih =>
    have := ih h
    simp only [List.length_cons]
    omega
  | case6 p x _ _ _ _ ih =>
    have := ih h
    simp only [List.length_cons]
    omega

theorem splitNot_length (p : Bytes) : (splitNot p).2.length ≤ p.length := by
  unfold splitNot
  split
  · simp
  · exact le_rfl

/-- The beginnings of a pattern. -/
inductive Begins : Bytes → Prop
  | nil : Begins []
  | star (p : Bytes) : Begins (42 :: p)
  | any (p : Bytes) : Begins (63 :: p)
  | cls (p : Bytes) : Begins (91 :: p)
  | escape (x : UInt8) (p : Bytes) : Begins (92 :: x :: p)
  | plain (x : UInt8) (p : Bytes) (hstar : x ≠ 42) (hany : x ≠ 63) (hcls : x ≠ 91)
      (hescape : x = 92 → p = []) : Begins (x :: p)

theorem begins (p : Bytes) : Begins p := by
  rcases p with - | ⟨x, p⟩
  · exact .nil
  · by_cases hstar : x = 42
    · subst hstar
      exact .star p
    by_cases hany : x = 63
    · subst hany
      exact .any p
    by_cases hcls : x = 91
    · subst hcls
      exact .cls p
    by_cases hescape : x = 92 ∧ p ≠ []
    · obtain ⟨rfl, hp⟩ := hescape
      obtain ⟨y, p, rfl⟩ := List.exists_cons_of_ne_nil hp
      exact .escape y p
    · exact .plain x p hstar hany hcls fun h => by_contra fun hp => hescape ⟨h, hp⟩

section Views

variable (nocase) (takes)

theorem view_class (p : Bytes) : patternView nocase takes (91 :: p) =
    match (classItems (splitNot p).2).2.rest with
    | none => .broken
    | some rest =>
      .one (fun c => (splitNot p).1 != (classItems (splitNot p).2).1.any (takes c)) rest := by
  rw [patternView]
  rcases classItems (splitNot p).2 with ⟨items, e⟩
  cases e <;> simp [ClassEnd.rest]

theorem view_plain {x : UInt8} (hstar : x ≠ 42) (hany : x ≠ 63) (hcls : x ≠ 91)
    (hescape : x = 92 → p = []) : patternView nocase takes (x :: p) = .one (same nocase x) p := by
  unfold patternView
  split <;> simp_all

end Views

/-- What is left of a pattern is shorter. -/
theorem length_of_one (h : patternView nocase takes p = .one test p') : p'.length < p.length := by
  cases begins p with
  | nil | star => cases h
  | any | escape =>
    obtain ⟨-, rfl⟩ := View.one.inj h
    simp only [List.length_cons]
    omega
  | cls p =>
    rw [view_class] at h
    cases he : (classItems (splitNot p).2).2 with
    | closed rest =>
      rw [he] at h
      obtain ⟨-, rfl⟩ := View.one.inj h
      have := classItems_length he
      have := splitNot_length p
      simp only [List.length_cons]
      omega
    | unclosed =>
      rw [he] at h
      obtain ⟨-, rfl⟩ := View.one.inj h
      simp
    | backslash =>
      rw [he] at h
      cases h
  | plain x p hstar hany hcls hescape =>
    rw [view_plain nocase takes hstar hany hcls hescape] at h
    obtain ⟨-, rfl⟩ := View.one.inj h
    simp

theorem of_star (h : patternView nocase takes p = .star p') :
    ∃ q, p = 42 :: q ∧ p' = q.dropWhile (· = 42) := by
  cases begins p with
  | nil | any | escape => cases h
  | star q => exact ⟨q, rfl, (View.star.inj h).symm⟩
  | cls p =>
    rw [view_class] at h
    split at h <;> cases h
  | plain x p hstar hany hcls hescape =>
    rw [view_plain nocase takes hstar hany hcls hescape] at h
    cases h

theorem length_of_star (h : patternView nocase takes p = .star p') : p'.length < p.length := by
  obtain ⟨q, rfl, rfl⟩ := of_star h
  exact Nat.lt_succ_of_le (List.length_dropWhile_le _ q)

/-- Behind a star there is none. -/
theorem not_star_of_star {p'' : Bytes} (h : patternView nocase takes p = .star p') :
    patternView nocase takes p' ≠ .star p'' := by
  intro h'
  obtain ⟨q, -, rfl⟩ := of_star h
  obtain ⟨q', hq', -⟩ := of_star h'
  have hhead := List.head_dropWhile_not (· = (42 : UInt8)) (hq' ▸ List.cons_ne_nil 42 q')
  simp [hq'] at hhead

theorem of_done (h : patternView nocase takes p = .done) : p = [] := by
  cases begins p with
  | nil => rfl
  | star | any | escape => cases h
  | cls p =>
    rw [view_class] at h
    split at h <;> cases h
  | plain x p hstar hany hcls hescape =>
    rw [view_plain nocase takes hstar hany hcls hescape] at h
    cases h

/-! ### Iterations -/

theorem run_star (p s : Bytes) : stringmatchlen nocase (fuel + 1) (42 :: p) s =
    if (p.dropWhile (· = 42)).isEmpty then .done true
    else starLoop (stringmatchlen nocase fuel (p.dropWhile (· = 42))) s := by
  rw [stringmatchlen]

theorem run_class (p s : Bytes) : stringmatchlen nocase (fuel + 1) (91 :: p) s =
    match (classItems (splitNot p).2).2.rest with
    | none => .wild
    | some rest =>
      if (splitNot p).1 != (classItems (splitNot p).2).1.any (ClassItem.reads nocase (s.headD 0))
      then takeByte (stringmatchlen nocase fuel) rest s else .done false := by
  have hloop := classLoop_eq nocase (s.headD 0) (if (splitNot p).1 then 94 else 91) (splitNot p).2
    false
  rw [stringmatchlen]
  dsimp only
  cases hc : classLoop nocase (s.headD 0) (if (splitNot p).1 then 94 else 91) (splitNot p).2
    false with
  | none =>
    rw [hc] at hloop
    cases hrest : (classItems (splitNot p).2).2.rest with
    | none => rfl
    | some rest =>
      rw [hrest] at hloop
      cases hloop
  | some r =>
    rw [hc] at hloop
    cases hrest : (classItems (splitNot p).2).2.rest with
    | none =>
      rw [hrest] at hloop
      cases hloop
    | some rest =>
      rw [hrest] at hloop
      obtain ⟨h1, h2⟩ := Prod.mk.inj (Option.some.inj hloop)
      simp only [Bool.false_or] at h2
      simp only [h1, h2]

theorem run_plain {x : UInt8} (hstar : x ≠ 42) (hany : x ≠ 63) (hcls : x ≠ 91)
    (hescape : x = 92 → p = []) : stringmatchlen nocase (fuel + 1) (x :: p) s =
      if same nocase x (s.headD 0) then takeByte (stringmatchlen nocase fuel) p s
      else .done false := by
  unfold stringmatchlen
  split <;> simp_all

/-- The first byte of the string is compared with an element for one byte. -/
theorem run_one (h : codeView nocase p = .one test p') :
    stringmatchlen nocase (fuel + 1) p (c :: s) =
      if test c then nextElement (stringmatchlen nocase fuel) p' s else .done false := by
  cases begins p with
  | nil | star => cases h
  | any p =>
    obtain ⟨rfl, rfl⟩ := View.one.inj h
    rfl
  | escape x p =>
    obtain ⟨rfl, rfl⟩ := View.one.inj h
    rfl
  | cls p =>
    rw [codeView, view_class] at h
    rw [run_class]
    cases hrest : (classItems (splitNot p).2).2.rest with
    | none =>
      rw [hrest] at h
      cases h
    | some rest =>
      rw [hrest] at h
      obtain ⟨rfl, rfl⟩ := View.one.inj h
      rfl
  | plain x p hstar hany hcls hescape =>
    rw [codeView, view_plain _ _ hstar hany hcls hescape] at h
    obtain ⟨rfl, rfl⟩ := View.one.inj h
    rw [run_plain hstar hany hcls hescape]
    rfl

theorem run_broken (h : codeView nocase p = .broken) :
    stringmatchlen nocase (fuel + 1) p s = .wild := by
  cases begins p with
  | nil | star | any | escape => cases h
  | cls p =>
    rw [codeView, view_class] at h
    rw [run_class]
    cases hrest : (classItems (splitNot p).2).2.rest with
    | none => rfl
    | some rest =>
      rw [hrest] at h
      cases h
  | plain x p hstar hany hcls hescape =>
    rw [codeView, view_plain _ _ hstar hany hcls hescape] at h
    cases h

/-! ### The search -/

/-- The verdict is that of the alignments. -/
def Finds (nocase : Bool) (p s : Bytes) : Verdict → Prop
  | .done b => ¬ MeetsBroken (codeView nocase) p s ∧ (b = true ↔ Lang (codeView nocase) p s)
  | .wild => MeetsBroken (codeView nocase) p s
  | .hangs => False

theorem lang_nil_of_not_star (h : ∀ q, codeView nocase p ≠ .star q) :
    Lang (codeView nocase) p [] ↔ p = [] := by
  cases hv : codeView nocase p with
  | done => exact (lang_done hv).trans (iff_of_true rfl (of_done hv))
  | star q => exact absurd hv (h q)
  | one test q =>
    refine iff_of_false (not_lang_one_nil hv) ?_
    rintro rfl
    cases hv
  | broken =>
    refine iff_of_false (not_lang_broken hv) ?_
    rintro rfl
    cases hv

/-- Only a pattern of stars has the empty string. -/
theorem lang_nil_iff : Lang (codeView nocase) p [] ↔ p.dropWhile (· = 42) = [] := by
  by_cases h : ∃ q, codeView nocase p = .star q
  · obtain ⟨q, hq⟩ := h
    rw [lang_star_nil hq, lang_nil_of_not_star fun q' => not_star_of_star hq]
    obtain ⟨r, rfl, rfl⟩ := of_star hq
    simp
  · rw [lang_nil_of_not_star fun q hq => h ⟨q, hq⟩]
    cases p with
    | nil => simp
    | cons x p =>
      have hx : x ≠ 42 := by
        rintro rfl
        exact h ⟨_, rfl⟩
      simp [hx]

theorem Finds.star_cons {v : Verdict} (h : Finds nocase p s v)
    (hv : codeView nocase p = .star p') (hbroken : ¬ MeetsBroken (codeView nocase) p' (c :: s))
    (hlang : ¬ Lang (codeView nocase) p' (c :: s)) : Finds nocase p (c :: s) v := by
  cases v with
  | done b =>
    refine ⟨fun hmeets => ?_, h.2.trans ?_⟩
    · exact ((meetsBroken_star hv).mp hmeets).elim hbroken h.1
    · rw [lang_star_cons hv, or_iff_right hlang]
  | wild => exact (meetsBroken_star hv).mpr (.inr h)
  | hangs => exact h

theorem Finds.one_cons {v : Verdict} (h : Finds nocase p' s v)
    (hv : codeView nocase p = .one test p') (htest : test c = true) :
    Finds nocase p (c :: s) v := by
  cases v with
  | done b =>
    refine ⟨fun hmeets => h.1 ((meetsBroken_one hv).mp hmeets).2, h.2.trans ?_⟩
    rw [lang_one_cons hv, and_iff_right htest]
  | wild => exact (meetsBroken_one hv).mpr ⟨htest, h⟩
  | hangs => exact h

/-- The loop behind a star tries what is left of the string, from its beginning on. -/
theorem starLoop_finds {match_ : Bytes → Verdict} (h : codeView nocase p = .star p')
    (hne : p' ≠ []) : ∀ s : Bytes, (∀ t, t ≠ [] → t <:+ s → Finds nocase p' t (match_ t)) →
    Finds nocase p s (starLoop match_ s) := by
  intro s
  induction s with
  | nil =>
    refine fun _ => ⟨not_meetsBroken_nil, iff_of_false nofun fun hlang => hne ?_⟩
    exact (lang_nil_of_not_star fun q => not_star_of_star h).mp ((lang_star_nil h).mp hlang)
  | cons c s ih =>
    intro hall
    have htail := ih fun t ht hsuf => hall t ht (hsuf.trans (List.suffix_cons c s))
    have hhead := hall (c :: s) (List.cons_ne_nil c s) List.suffix_rfl
    rw [starLoop]
    cases hv : match_ (c :: s) with
    | done b =>
      rw [hv] at hhead
      obtain ⟨hbroken, hlang⟩ := hhead
      cases b with
      | false =>
        exact htail.star_cons h hbroken fun hword => Bool.noConfusion (hlang.mpr hword)
      | true =>
        have hword : Lang (codeView nocase) p (c :: s) :=
          (lang_star_cons h).mpr (.inl (hlang.mp rfl))
        exact ⟨fun hmeets => not_lang_of_broken hmeets hword, iff_of_true rfl hword⟩
    | wild =>
      rw [hv] at hhead
      exact (meetsBroken_star h).mpr (.inl hhead)
    | hangs =>
      rw [hv] at hhead
      exact hhead.elim

/-- **The search.** On a string that is not empty the function finds out whether there is an
alignment, unless it meets a class that ends in a backslash. -/
theorem stringmatchlen_spec : ∀ (fuel : ℕ) (p : Bytes), p.length < fuel → ∀ s : Bytes, s ≠ [] →
    Finds nocase p s (stringmatchlen nocase fuel p s) := by
  intro fuel
  induction fuel with
  | zero => exact fun p hp => absurd hp (Nat.not_lt_zero _)
  | succ fuel ih =>
    intro p hp s hs
    obtain ⟨c, s, rfl⟩ := List.exists_cons_of_ne_nil hs
    cases hv : codeView nocase p with
    | done =>
      obtain rfl := of_done hv
      refine ⟨not_meetsBroken_done hv, iff_of_false nofun fun hlang => hs ((lang_done hv).mp hlang)⟩
    | broken =>
      rw [run_broken hv]
      exact (meetsBroken_broken hv).mpr hs
    | star p' =>
      have hlen := length_of_star hv
      obtain ⟨q, rfl, rfl⟩ := of_star hv
      rw [run_star]
      split
      · rename_i hempty
        have hend : Lang (codeView nocase) (q.dropWhile (· = 42)) [] := by
          rw [List.isEmpty_iff.mp hempty]
          exact (lang_done rfl).mpr rfl
        have hword : Lang (codeView nocase) (42 :: q) (c :: s) := by
          simpa using lang_star_append hv (c :: s) hend
        exact ⟨fun hmeets => not_lang_of_broken hmeets hword, iff_of_true rfl hword⟩
      · rename_i hne
        refine starLoop_finds hv (fun h => hne (by simp [h])) _ fun t ht _ => ?_
        exact ih _ (by omega) t ht
    | one test p' =>
      have hlen := length_of_one hv
      rw [run_one hv]
      split
      · rename_i htest
        cases s with
        | nil =>
          refine ⟨fun hmeets => not_meetsBroken_nil ((meetsBroken_one hv).mp hmeets).2, ?_⟩
          rw [lang_one_cons hv, lang_nil_iff, List.isEmpty_iff]
          exact (and_iff_right htest).symm
        | cons d s =>
          exact (ih p' (by omega) (d :: s) (List.cons_ne_nil d s)).one_cons hv htest
      · rename_i htest
        refine ⟨fun hmeets => htest ((meetsBroken_one hv).mp hmeets).1, ?_⟩
        exact iff_of_false nofun fun hlang => htest ((lang_one_cons hv).mp hlang).1

end Steps

/-! ### Staying in bounds -/

/-- The first element is compared with the NUL behind an empty string, and takes it. -/
def takesNul (nocase : Bool) : Bytes → Bool
  | 63 :: _ => false
  | p =>
    match codeView nocase p with
    | .one test _ => test 0
    | .broken => true
    | _ => false

/-- The call returns, with its lengths never negative and everything it reads in bounds. -/
def InBounds (nocase : Bool) (p s : Bytes) : Prop :=
  p.length < 2 ^ 31 ∧ s.length < 2 ^ 31 ∧
    ∃ n, ∀ fuel ≥ n, ∃ b, stringmatchlen nocase fuel p s = .done b

section Bounds

variable {nocase : Bool} {p s : Bytes} {fuel : ℕ}

theorem run_nil : stringmatchlen nocase (fuel + 1) p [] =
    if takesNul nocase p then .wild else .done (p.dropWhile (· = 42)).isEmpty := by
  cases begins p with
  | nil => rfl
  | star p =>
    rw [run_star, starLoop]
    have htake : takesNul nocase (42 :: p) = false := rfl
    have hdrop : (42 :: p).dropWhile (· = 42) = p.dropWhile (· = 42) := by simp
    rw [htake, hdrop]
    cases (p.dropWhile (· = 42)).isEmpty <;> rfl
  | any p => rfl
  | escape x p => rfl
  | cls p =>
    rw [run_class]
    have htake : takesNul nocase (91 :: p) = match codeView nocase (91 :: p) with
        | .one test _ => test 0
        | .broken => true
        | _ => false := rfl
    rw [htake, codeView, view_class]
    cases (classItems (splitNot p).2).2.rest <;> rfl
  | plain x p hstar hany hcls hescape =>
    rw [run_plain hstar hany hcls hescape]
    have htake : takesNul nocase (x :: p) = same nocase x 0 := by
      have hview : codeView nocase (x :: p) = _ := view_plain _ _ hstar hany hcls hescape
      unfold takesNul
      split
      · simp_all
      · rw [hview]
    have hdrop : (x :: p).dropWhile (· = 42) = x :: p := by simp [hstar]
    rw [htake, hdrop]
    rfl

/-- On the empty string there is only the first element to go wrong. -/
theorem run_nil_done (h : takesNul nocase p = false) :
    ∃ b, stringmatchlen nocase (fuel + 1) p [] = .done b ∧
      (b = true ↔ Lang (codeView nocase) p []) := by
  refine ⟨_, run_nil.trans (if_neg (by simp [h])), ?_⟩
  rw [lang_nil_iff, List.isEmpty_iff]

/-- **Where the function stays in bounds.** -/
theorem inBounds_iff : InBounds nocase p s ↔ p.length < 2 ^ 31 ∧ s.length < 2 ^ 31 ∧
    (s = [] → takesNul nocase p = false) ∧ ¬ MeetsBroken (codeView nocase) p s := by
  refine and_congr_right fun _ => and_congr_right fun _ => ?_
  by_cases hs : s = []
  · subst hs
    refine Iff.trans ?_ (and_iff_left not_meetsBroken_nil).symm
    constructor
    · rintro ⟨n, hn⟩ -
      obtain ⟨b, hrun⟩ := hn (n + 1) (by omega)
      rw [run_nil] at hrun
      cases h : takesNul nocase p with
      | false => rfl
      | true =>
        rw [h] at hrun
        cases hrun
    · refine fun h => ⟨1, fun | fuel + 1, _ => ?_⟩
      obtain ⟨b, hrun, -⟩ := run_nil_done (h rfl)
      exact ⟨b, hrun⟩
  · refine Iff.trans ?_ (and_iff_right fun h => absurd h hs).symm
    constructor
    · rintro ⟨n, hn⟩ hmeets
      obtain ⟨b, hrun⟩ := hn (max n (p.length + 1)) (le_max_left _ _)
      have hlt : p.length < max n (p.length + 1) := by omega
      have hfinds : Finds nocase p s _ := stringmatchlen_spec _ p hlt s hs
      rw [hrun] at hfinds
      exact hfinds.1 hmeets
    · intro hmeets
      refine ⟨p.length + 1, fun fuel hfuel => ?_⟩
      have hfinds : Finds nocase p s _ := stringmatchlen_spec fuel p hfuel s hs
      cases hrun : stringmatchlen nocase fuel p s with
      | done b => exact ⟨b, rfl⟩
      | wild =>
        rw [hrun] at hfinds
        exact absurd hfinds hmeets
      | hangs =>
        rw [hrun] at hfinds
        exact hfinds.elim

/-- Where it stays in bounds it finds out whether there is an alignment. -/
theorem lang_of_run {b : Bool} (h : InBounds nocase p s)
    (hrun : ∃ n, ∀ fuel ≥ n, stringmatchlen nocase fuel p s = .done b) :
    b = true ↔ Lang (codeView nocase) p s := by
  obtain ⟨n, hn⟩ := hrun
  have hrun := hn (max n (p.length + 1)) (le_max_left _ _)
  by_cases hs : s = []
  · subst hs
    obtain ⟨-, -, htake, -⟩ := inBounds_iff.mp h
    have hmax : max n (p.length + 1) = max n (p.length + 1) - 1 + 1 := by omega
    rw [hmax] at hrun
    obtain ⟨b', hrun', hlang⟩ := run_nil_done (htake rfl)
    obtain rfl := Verdict.done.inj (hrun.symm.trans hrun')
    exact hlang
  · have hlt : p.length < max n (p.length + 1) := by omega
    have hfinds : Finds nocase p s _ := stringmatchlen_spec _ p hlt s hs
    rw [hrun] at hfinds
    exact hfinds.2

end Bounds

/-! ### Meaning glob -/

/-- A pattern as it is meant. -/
def globView (nocase : Bool) : Bytes → Wildcard.View Bytes UInt8 :=
  patternView nocase (ClassItem.has nocase)

/-- Where an alignment leads to a class, its members are read as they are meant. -/
def ReadsAsMeant (nocase : Bool) (p s : Bytes) : Prop :=
  ∀ (q : Bytes) (c : UInt8) (t : Bytes), Aligns (codeView nocase) p s (91 :: q) (c :: t) →
    (classItems (splitNot q).2).1.any (ClassItem.reads nocase c) =
      (classItems (splitNot q).2).1.any (ClassItem.has nocase c)

section Meaning

variable {nocase : Bool} {p s : Bytes}

/-- The bounds of a range are both below `0x80`, or neither is. -/
def ClassItem.OneSided : ClassItem → Prop
  | .range x y => x.toNat < 128 ↔ y.toNat < 128
  | _ => True

theorem ClassItem.reads_eq_has {item : ClassItem} (h : item.OneSided) (c : UInt8) :
    item.reads false c = item.has false c := by
  cases item with
  | single x => rfl
  | escaped x => rfl
  | range x y =>
    have hx := x.toNat_lt
    have hy := y.toNat_lt
    have hc := c.toNat_lt
    have hside : x.toNat < 128 ↔ y.toNat < 128 := h
    rw [Bool.eq_iff_iff]
    by_cases hgt : charInt x > charInt y
    · simp only [reads, has, inRange, fold, if_pos hgt, Bool.false_eq_true, if_false,
        Bool.and_eq_true, decide_eq_true_eq]
      unfold charInt at hgt ⊢
      omega
    · simp only [reads, has, inRange, fold, if_neg hgt, Bool.false_eq_true, if_false,
        Bool.and_eq_true, decide_eq_true_eq]
      unfold charInt at hgt ⊢
      omega

/-- Without `nocase`, only a range across `0x80` is read as something else. -/
theorem readsAsMeant_of_oneSided (h : ∀ q t, Aligns (codeView false) p s (91 :: q) t →
    ∀ item ∈ (classItems (splitNot q).2).1, item.OneSided) : ReadsAsMeant false p s := by
  intro q c t hal
  rw [Bool.eq_iff_iff, List.any_eq_true, List.any_eq_true]
  refine exists_congr fun item => and_congr_right fun hitem => ?_
  rw [ClassItem.reads_eq_has (h q _ hal item hitem) c]

theorem ReadsAsMeant.agreeAlong (h : ReadsAsMeant nocase p s) :
    AgreeAlong (codeView nocase) (globView nocase) p s := by
  intro q t hal
  cases begins q with
  | nil => exact trivial
  | star q => exact rfl
  | any q => exact ⟨rfl, fun _ _ => rfl⟩
  | escape x q => exact ⟨rfl, fun _ _ => rfl⟩
  | cls q =>
    rw [codeView, globView, view_class, view_class]
    cases (classItems (splitNot q).2).2.rest with
    | none => exact trivial
    | some rest =>
      refine ⟨rfl, fun c hc => ?_⟩
      obtain ⟨t, rfl⟩ := List.head?_eq_some_iff.mp hc
      dsimp only
      rw [h q c t hal]
  | plain x q hstar hany hcls hescape =>
    rw [codeView, globView, view_plain _ _ hstar hany hcls hescape,
      view_plain _ _ hstar hany hcls hescape]
    exact ⟨rfl, fun _ _ => rfl⟩

theorem globView_class {rest : Bytes} {items : List ClassItem}
    (h : classItems (splitNot p).2 = (items, .closed rest)) : globView nocase (91 :: p) =
      .one (fun c => (splitNot p).1 != items.any (ClassItem.has nocase c)) rest := by
  rw [globView, view_class, h]
  rfl

theorem globView_plain {x : UInt8} (hx : IsPlain x) :
    globView nocase (x :: p) = .one (same nocase x) p :=
  view_plain _ _ hx.1 hx.2.1 hx.2.2.1 fun h => absurd h hx.2.2.2

/-- A star in front. -/
theorem lang_star_of_lang (h : Lang (globView nocase) p s) :
    Lang (globView nocase) (42 :: p) s := by
  have hv : globView nocase (42 :: p) = .star (p.dropWhile (· = 42)) := rfl
  cases hp : globView nocase p with
  | star p' =>
    obtain ⟨q, rfl, rfl⟩ := of_star hp
    obtain ⟨u, t, rfl, ht⟩ := (lang_star hp).mp h
    exact lang_star_append hv u (by simpa using ht)
  | _ =>
    have hdrop : p.dropWhile (· = 42) = p := by
      cases p with
      | nil => rfl
      | cons x p =>
        have hx : x ≠ 42 := by
          rintro rfl
          cases hp
        simp [hx]
    rw [hdrop] at hv
    simpa using lang_star_append hv [] h

theorem Glob.lang (h : Glob nocase p s) : Lang (globView nocase) p s := by
  induction h with
  | nil => exact (lang_done rfl).mpr rfl
  | @star p s u _ ih =>
    have hv : globView nocase (42 :: p) = .star (p.dropWhile (· = 42)) := rfl
    obtain ⟨u', t, rfl, ht⟩ := (lang_star hv).mp (lang_star_of_lang ih)
    rw [← List.append_assoc]
    exact lang_star_append hv (u ++ u') ht
  | @any p s c _ ih =>
    have hv : globView nocase (63 :: p) = .one (fun _ => true) p := rfl
    exact (lang_one_cons hv).mpr ⟨rfl, ih⟩
  | cls hitems htest _ ih => exact (lang_one_cons (globView_class hitems)).mpr ⟨htest, ih⟩
  | @escape p s x c hsame _ ih =>
    have hv : globView nocase (92 :: x :: p) = .one (same nocase x) p := rfl
    exact (lang_one_cons hv).mpr ⟨hsame, ih⟩
  | plain hx hsame _ ih => exact (lang_one_cons (globView_plain hx)).mpr ⟨hsame, ih⟩

theorem WellFormed.dropWhile (h : WellFormed p) : WellFormed (p.dropWhile (· = 42)) := by
  induction h with
  | star _ ih => simpa using ih
  | nil => exact .nil
  | any h => exact .any h
  | cls hitems h => exact .cls hitems h
  | escape h => exact .escape h
  | plain hx h =>
    rw [List.dropWhile_cons_of_neg (by simpa using hx.1)]
    exact .plain hx h

theorem Glob.stars (h : Glob nocase (p.dropWhile (· = 42)) s) : Glob nocase (42 :: p) s := by
  induction p with
  | nil => exact .star [] h
  | cons x p ih =>
    by_cases hx : x = 42
    · subst hx
      exact .star [] (ih (by simpa using h))
    · rw [List.dropWhile_cons_of_neg (by simpa using hx)] at h
      exact .star [] h

theorem Glob.eat {c : UInt8} (h : Glob nocase (42 :: p) s) : Glob nocase (42 :: p) (c :: s) := by
  cases h with
  | star u h => exact .star (c :: u) h
  | plain hx => exact absurd rfl hx.1

/-- What comes behind the first element of a pattern is well formed, too. -/
theorem WellFormed.one {p' : Bytes} {test : UInt8 → Bool} (hwf : WellFormed p)
    (hv : globView nocase p = .one test p') :
    WellFormed p' ∧ ∀ {c s}, test c = true → Glob nocase p' s → Glob nocase p (c :: s) := by
  cases hwf with
  | nil | star => cases hv
  | any h =>
    obtain ⟨rfl, rfl⟩ := View.one.inj hv
    exact ⟨h, fun _ hg => .any hg⟩
  | cls hitems h =>
    obtain ⟨rfl, rfl⟩ := View.one.inj ((globView_class hitems).symm.trans hv)
    exact ⟨h, fun htest hg => .cls hitems htest hg⟩
  | escape h =>
    obtain ⟨rfl, rfl⟩ := View.one.inj hv
    exact ⟨h, fun htest hg => .escape htest hg⟩
  | plain hx h =>
    obtain ⟨rfl, rfl⟩ := View.one.inj ((globView_plain hx).symm.trans hv)
    exact ⟨h, fun htest hg => .plain hx htest hg⟩

theorem glob_of_aligns {q t : Bytes} (h : Aligns (globView nocase) p s q t) (hwf : WellFormed p)
    (hq : globView nocase q = .done) (ht : t = []) : Glob nocase p s := by
  induction h with
  | refl =>
    rw [of_done hq, ht]
    exact .nil
  | skip hv _ ih =>
    obtain ⟨r, rfl, rfl⟩ := of_star hv
    cases hwf with
    | star hwf => exact (ih hwf.dropWhile hq ht).stars
    | plain hx => exact absurd rfl hx.1
  | eat hv _ ih =>
    obtain ⟨r, rfl, rfl⟩ := of_star hv
    exact (ih hwf hq ht).eat
  | one hv htest _ ih =>
    obtain ⟨hwf', hglob⟩ := hwf.one hv
    exact hglob htest (ih hwf' hq ht)

/-- **The glob language by alignments.** -/
theorem glob_iff_lang (hwf : WellFormed p) : Glob nocase p s ↔ Lang (globView nocase) p s := by
  refine ⟨Glob.lang, ?_⟩
  rintro ⟨q, t, hal, hq, ht⟩
  exact glob_of_aligns hal hwf hq ht

/-- For a pattern that is well formed, the call returns whether the string belongs to it. -/
def MeansGlob (nocase : Bool) (p s : Bytes) : Prop :=
  WellFormed p → ∀ b, (∃ n, ∀ fuel ≥ n, stringmatchlen nocase fuel p s = .done b) →
    (b = true ↔ Glob nocase p s)

/-- **Where the function means glob.** -/
theorem meansGlob_of_reads (hbounds : InBounds nocase p s)
    (hreads : WellFormed p → ReadsAsMeant nocase p s) : MeansGlob nocase p s := by
  intro hwf b hrun
  rw [lang_of_run hbounds hrun, glob_iff_lang hwf]
  exact lang_iff_of_agree (hreads hwf).agreeAlong

end Meaning

end Comms.StringMatch
