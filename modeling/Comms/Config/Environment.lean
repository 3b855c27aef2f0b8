import Comms.Config.Properties

/-!
# Variables of the environment

`replace_env_var` looks for the first `${NAME}` of a value, replaces it if the variable is set, and
starts over; it is done with the value at the first `${NAME}` that it cannot replace.

* `replaceFirst` — one round of the loop;
* `expand` — what is meant: the references of the text itself, from the left;
* `Clean` — nothing in front of the last of them can be taken for a reference;
* `replaceEnv_of_clean` — the loop ends with the text that is meant;
* `not_opening_front` — and only then, for values without references.
-/

namespace Comms

namespace Config

open Occurrence

/-! ### One round of the loop -/

/-- `"${"`. -/
def opening : Bytes := ascii "$\x7b"

/-- `"}"`. -/
def closing : UInt8 := 125

/-- `${NAME}`. -/
def reference (name : Bytes) : Bytes := opening ++ (name ++ [closing])

variable (getenv : Bytes → Option Bytes)

/-- The value after one round; `none` is the `break`. -/
def replaceFirst (value : Bytes) : Option Bytes :=
  match find value (ascii "$\x7b") 0 with
  | none => none
  | some pos =>
    match find value (ascii "\x7d") (pos + 1) with
    | none => none
    | some next =>
      (getenv (cStr ((value.drop (pos + 2)).take (next - pos - 2)))).map fun env =>
        value.take pos ++ env ++ value.drop (next + 1)

theorem replaceEnv_succ (fuel : ℕ) (value : Bytes) : replaceEnv getenv (fuel + 1) value =
    (replaceFirst getenv value).elim value (replaceEnv getenv fuel) := by
  rw [replaceEnv]
  unfold replaceFirst
  cases hpos : find value (ascii "$\x7b") 0 with
  | none => rfl
  | some pos =>
    dsimp only
    cases hnext : find value (ascii "\x7d") (pos + 1) with
    | none => rfl
    | some next =>
      dsimp only
      cases getenv _ <;> rfl

variable {getenv}

/-- Once the loop has ended, the value stays. -/
theorem replaceEnv_of_none {value : Bytes} (h : replaceFirst getenv value = none) (fuel : ℕ) :
    replaceEnv getenv fuel value = value := by
  cases fuel with
  | zero => rfl
  | succ fuel =>
    rw [replaceEnv_succ, h]
    rfl

theorem reference_append (name rest : Bytes) :
    reference name ++ rest = opening ++ (name ++ closing :: rest) := by
  rw [reference, List.append_assoc, List.append_assoc]
  rfl

theorem find_opening {pre : Bytes} (hpre : ¬ opening <:+: pre) (post : Bytes) :
    find (pre ++ (opening ++ post)) (ascii "$\x7b") 0 = some pre.length := by
  rw [find_zero]
  exact first_pair (by decide) hpre post

theorem drop_opening (pre post : Bytes) (n : ℕ) :
    (pre ++ (opening ++ post)).drop (pre.length + n) = (36 :: 123 :: post).drop n := by
  rw [List.drop_length_add_append]
  rfl

/-- The first reference is replaced if the variable is set. -/
theorem replaceFirst_reference {pre name : Bytes} (hpre : ¬ opening <:+: pre)
    (hname : closing ∉ name) (rest : Bytes) :
    replaceFirst getenv (pre ++ (reference name ++ rest)) =
      (getenv (cStr name)).map fun v => pre ++ (v ++ rest) := by
  have hassoc : pre ++ (reference name ++ rest) = _ :=
    congrArg (pre ++ ·) (reference_append name rest)
  have hpos : find (pre ++ (reference name ++ rest)) (ascii "$\x7b") 0 = some pre.length := by
    rw [hassoc, find_opening hpre]
  have hdrop (n : ℕ) : (pre ++ (reference name ++ rest)).drop (pre.length + n) =
      (36 :: 123 :: (name ++ closing :: rest)).drop n := by
    rw [hassoc, drop_opening]
  have hbrace : closing ∉ 123 :: name := by
    rw [List.mem_cons, not_or]
    exact ⟨by decide, hname⟩
  have hnext : find (pre ++ (reference name ++ rest)) (ascii "\x7d") (pre.length + 1) =
      some (pre.length + name.length + 2) := by
    have hfirst := first_append_of_notMem hbrace (closing :: rest) []
    rw [first_cons, if_pos (by simp), Option.map_some] at hfirst
    rw [find_eq, hdrop]
    refine (congrArg (Option.map _) hfirst).trans (congrArg some ?_)
    dsimp only [List.length_cons]
    omega
  unfold replaceFirst
  rw [hpos]
  dsimp only
  rw [hnext]
  dsimp only
  have hbehind : (name ++ closing :: rest).drop (name.length + 1) = rest := by
    rw [List.drop_length_add_append]
    rfl
  rw [hdrop, List.take_left,
    show pre.length + name.length + 2 - pre.length - 2 = name.length by omega,
    show pre.length + name.length + 2 + 1 = pre.length + (name.length + 3) by omega, hdrop]
  simp only [List.drop_succ_cons, List.drop_zero, List.take_left, List.append_assoc, hbehind]

theorem exists_first_opening {value : Bytes} (h : opening <:+: value) :
    ∃ pre post, value = pre ++ (opening ++ post) ∧ ¬ opening <:+: pre := by
  have hne : opening ≠ [] := by decide
  cases hfirst : first value opening with
  | none => exact absurd h ((first_eq_none_iff hne).mp hfirst)
  | some pos =>
    obtain ⟨pre, post, heq, -, hfree⟩ := (first_eq_some_iff hne).mp hfirst
    exact ⟨pre, post, heq, fun hinfix => hfree (List.infix_append_of_infix_left hinfix)⟩

/-- Nothing is replaced without `"${"`, or behind it without `"}"`. -/
theorem replaceFirst_of_not_opening {value : Bytes} (h : ¬ opening <:+: value) :
    replaceFirst getenv value = none := by
  have hpos : find value (ascii "$\x7b") 0 = none := by
    rw [find_zero]
    exact (first_eq_none_iff (by decide)).mpr h
  unfold replaceFirst
  rw [hpos]

theorem replaceFirst_of_not_closing {pre post : Bytes} (hpre : ¬ opening <:+: pre)
    (hpost : closing ∉ post) : replaceFirst getenv (pre ++ (opening ++ post)) = none := by
  have hnext : find (pre ++ (opening ++ post)) (ascii "\x7d") (pre.length + 1) = none := by
    rw [find_eq, drop_opening, Option.map_eq_none_iff, first_eq_none_iff (by decide)]
    change ¬ [closing] <:+: 123 :: post
    rw [List.singleton_infix_iff, List.mem_cons, not_or]
    exact ⟨by decide, hpost⟩
  unfold replaceFirst
  rw [find_opening hpre]
  dsimp only
  rw [hnext]

/-- **What a round does.** -/
theorem replaceFirst_eq_some {value value' : Bytes} (h : replaceFirst getenv value = some value') :
    ∃ pre name rest v, value = pre ++ (reference name ++ rest) ∧ ¬ opening <:+: pre ∧
      closing ∉ name ∧ getenv (cStr name) = some v ∧ value' = pre ++ (v ++ rest) := by
  by_cases hopening : opening <:+: value
  · obtain ⟨pre, post, rfl, hpre⟩ := exists_first_opening hopening
    by_cases hclosing : closing ∈ post
    · obtain ⟨name, rest, rfl, hname⟩ := List.eq_append_cons_of_mem hclosing
      rw [← reference_append, replaceFirst_reference hpre hname] at h
      obtain ⟨v, hv, rfl⟩ := Option.map_eq_some_iff.mp h
      exact ⟨pre, name, rest, v, by rw [reference_append], hpre, hname, hv, rfl⟩
    · rw [replaceFirst_of_not_closing hpre hclosing] at h
      cases h
  · rw [replaceFirst_of_not_opening hopening] at h
    cases h

/-! ### What is meant -/

/-- A reference to a variable that is set, with what stands in front of it. -/
structure Piece where
  before : Bytes
  name : Bytes
  value : Bytes
deriving DecidableEq, Repr

/-- The references as they are written, and replaced by the values. -/
def written (ps : List Piece) : Bytes := ps.flatMap fun p => p.before ++ reference p.name

def replaced (ps : List Piece) : Bytes := ps.flatMap fun p => p.before ++ p.value

@[simp] theorem written_nil : written [] = [] := rfl

@[simp] theorem replaced_nil : replaced [] = [] := rfl

@[simp] theorem written_cons (p : Piece) (ps : List Piece) :
    written (p :: ps) = p.before ++ (reference p.name ++ written ps) := by
  unfold written
  rw [List.flatMap_cons, List.append_assoc]

@[simp] theorem replaced_cons (p : Piece) (ps : List Piece) :
    replaced (p :: ps) = p.before ++ (p.value ++ replaced ps) := by
  unfold replaced
  rw [List.flatMap_cons, List.append_assoc]

/-- What stands in front of the last value when all of them are replaced. -/
def front : List Piece → Bytes
  | [] => []
  | [p] => p.before
  | p :: ps => p.before ++ (p.value ++ front ps)

variable (getenv) in
/-- A text that starts with a reference to a variable that is set: the name, the value, and what is
behind the reference. -/
def setReference : Bytes → Option (Bytes × Bytes × Bytes)
  | 36 :: 123 :: text =>
    match text.dropWhile (· ≠ closing) with
    | [] => none
    | _ :: rest =>
      let name := text.takeWhile (· ≠ closing)
      (getenv (cStr name)).map fun v => (name, v, rest)
  | _ => none

variable (getenv) in
/-- The references of a text to variables that are set, from the left, and what is behind the last.
A `"${"` that starts none of them is text. -/
def pieces : ℕ → Bytes → List Piece × Bytes
  | _, [] => ([], [])
  | 0, text => ([], text)
  | fuel + 1, c :: text =>
    match setReference getenv (c :: text) with
    | some (name, v, rest) =>
      let r := pieces fuel rest
      (⟨[], name, v⟩ :: r.1, r.2)
    | none =>
      match pieces fuel text with
      | ([], tail) => ([], c :: tail)
      | (p :: ps, tail) => ({ p with before := c :: p.before } :: ps, tail)

variable (getenv) in
/-- Every `${NAME}` with a variable that is set is replaced by its value, and nothing else is. -/
def expand (text : Bytes) : Bytes :=
  replaced (pieces getenv text.length text).1 ++ (pieces getenv text.length text).2

theorem setReference_eq_some {text name v rest : Bytes}
    (h : setReference getenv text = some (name, v, rest)) :
    text = reference name ++ rest ∧ closing ∉ name ∧ getenv (cStr name) = some v := by
  unfold setReference at h
  split at h
  · next text =>
    split at h
    · cases h
    · next c rest' hdrop =>
      obtain ⟨v', hv, heq⟩ := Option.map_eq_some_iff.mp h
      cases heq
      have hclosing : c = closing := by
        have hhead := List.head?_dropWhile_not (· ≠ closing) text
        rw [hdrop] at hhead
        simpa using hhead
      have htext := List.takeWhile_append_dropWhile (p := (· ≠ closing)) (l := text)
      rw [hdrop, hclosing] at htext
      refine ⟨?_, fun hmem => ?_, hv⟩
      · rw [reference_append, htext]
        rfl
      · simpa using List.mem_takeWhile_imp hmem
  · cases h

/-- A text has its references, with the text around them. -/
theorem pieces_spec (fuel : ℕ) (text : Bytes) :
    text = written (pieces getenv fuel text).1 ++ (pieces getenv fuel text).2 ∧
      ∀ p ∈ (pieces getenv fuel text).1,
        closing ∉ p.name ∧ getenv (cStr p.name) = some p.value := by
  induction fuel generalizing text with
  | zero => cases text <;> exact ⟨rfl, fun p hp => by cases hp⟩
  | succ fuel ih =>
    cases text with
    | nil => exact ⟨rfl, fun p hp => by cases hp⟩
    | cons c text =>
      rw [pieces]
      cases href : setReference getenv (c :: text) with
      | some r =>
        obtain ⟨name, v, rest⟩ := r
        obtain ⟨htext, hname, hv⟩ := setReference_eq_some href
        obtain ⟨hrest, hall⟩ := ih rest
        refine ⟨?_, List.forall_mem_cons.mpr ⟨⟨hname, hv⟩, hall⟩⟩
        dsimp only
        rw [written_cons, List.nil_append, List.append_assoc, htext]
        exact congrArg _ hrest
      | none =>
        obtain ⟨hrest, hall⟩ := ih text
        dsimp only
        split
        · next tail hpieces =>
          rw [hpieces] at hrest
          exact ⟨congrArg (c :: ·) hrest, fun p hp => by cases hp⟩
        · next p ps tail hpieces =>
          rw [hpieces] at hrest hall
          obtain ⟨hp, hps⟩ := List.forall_mem_cons.mp hall
          exact ⟨congrArg (c :: ·) hrest, List.forall_mem_cons.mpr ⟨hp, hps⟩⟩

theorem setReference_length {text name v rest : Bytes}
    (h : setReference getenv text = some (name, v, rest)) : rest.length < text.length := by
  obtain ⟨rfl, -, -⟩ := setReference_eq_some h
  rw [reference_append, List.length_append, List.length_append, List.length_cons]
  omega

/-- A round for each byte is enough. -/
theorem pieces_fuel {fuel fuel' : ℕ} {text : Bytes} (h : text.length ≤ fuel)
    (h' : text.length ≤ fuel') : pieces getenv fuel text = pieces getenv fuel' text := by
  induction fuel generalizing fuel' text with
  | zero =>
    obtain rfl := List.length_eq_zero_iff.mp (Nat.le_zero.mp h)
    cases fuel' <;> rfl
  | succ fuel ih =>
    cases text with
    | nil => cases fuel' <;> rfl
    | cons c text =>
      obtain ⟨fuel', rfl⟩ : ∃ f, fuel' = f + 1 := ⟨fuel' - 1, by simp at h'; omega⟩
      rw [List.length_cons] at h h'
      rw [pieces, pieces]
      cases href : setReference getenv (c :: text) with
      | some r =>
        obtain ⟨name, v, rest⟩ := r
        have hlen := setReference_length href
        rw [List.length_cons] at hlen
        dsimp only
        rw [ih (by omega) (show rest.length ≤ fuel' by omega)]
      | none =>
        dsimp only
        rw [ih (by omega) (show text.length ≤ fuel' by omega)]

/-- A reference to a variable that is set becomes its value. -/
theorem expand_reference {text name v rest : Bytes}
    (h : setReference getenv text = some (name, v, rest)) :
    expand getenv text = v ++ expand getenv rest := by
  cases text with
  | nil => cases h
  | cons c text =>
    have hlen := setReference_length h
    rw [List.length_cons] at hlen
    unfold expand
    rw [List.length_cons, pieces, h]
    dsimp only
    rw [replaced_cons, List.nil_append, List.append_assoc,
      pieces_fuel (show rest.length ≤ text.length by omega) le_rfl]

/-- Any other byte stays. -/
theorem expand_cons {c : UInt8} {text : Bytes} (h : setReference getenv (c :: text) = none) :
    expand getenv (c :: text) = c :: expand getenv text := by
  unfold expand
  rw [List.length_cons, pieces, h]
  dsimp only
  split
  · next tail hpieces => rw [hpieces]; rfl
  · next p ps tail hpieces => rw [hpieces]; rfl

/-! ### Texts that are replaced as it is meant -/

theorem front_cons (p : Piece) {ps : List Piece} (hps : ps ≠ []) :
    front (p :: ps) = p.before ++ (p.value ++ front ps) := by
  cases ps with
  | nil => exact absurd rfl hps
  | cons => rfl

theorem before_prefix_front (p : Piece) (ps : List Piece) : p.before <+: front (p :: ps) := by
  cases ps with
  | nil => exact List.prefix_rfl
  | cons => exact List.prefix_append _ _

variable (getenv) in
/-- The first reference of the text, if there is one, has no variable. -/
def FirstUnset (text : Bytes) : Prop :=
  ∀ pre name rest, text = pre ++ (reference name ++ rest) → ¬ opening <:+: pre → closing ∉ name →
    getenv (cStr name) = none

variable (getenv) in
/-- With all references replaced, no `"${"` stands in front of the last value, and the first
reference there is has no variable. -/
structure Clean (text : Bytes) : Prop where
  front : ¬ opening <:+: front (pieces getenv text.length text).1
  last : FirstUnset getenv (expand getenv text)

theorem replaceFirst_eq_none_iff {text : Bytes} :
    replaceFirst getenv text = none ↔ FirstUnset getenv text := by
  constructor
  · rintro h pre name rest rfl hpre hname
    rw [replaceFirst_reference hpre hname] at h
    exact Option.map_eq_none_iff.mp h
  · intro h
    by_contra hsome
    obtain ⟨text', hsome⟩ := Option.ne_none_iff_exists'.mp hsome
    obtain ⟨pre, name, rest, v, htext, hpre, hname, hv, -⟩ := replaceFirst_eq_some hsome
    cases (h pre name rest htext hpre hname).symm.trans hv

/-- **The references of the text**, one round for each, behind what has been replaced. -/
theorem replaceEnv_pieces {ps : List Piece} {acc : Bytes} (tail : Bytes)
    (hps : ∀ p ∈ ps, closing ∉ p.name ∧ getenv (cStr p.name) = some p.value)
    (hfront : ps ≠ [] → ¬ opening <:+: acc ++ front ps) (fuel : ℕ) :
    replaceEnv getenv (ps.length + fuel) (acc ++ (written ps ++ tail)) =
      replaceEnv getenv fuel (acc ++ (replaced ps ++ tail)) := by
  induction ps generalizing acc with
  | nil =>
    rw [List.length_nil, Nat.zero_add]
    rfl
  | cons p ps ih =>
    obtain ⟨⟨hname, hv⟩, hps'⟩ := List.forall_mem_cons.mp hps
    have hfree := hfront (List.cons_ne_nil p ps)
    have hpre : ¬ opening <:+: acc ++ p.before := fun h => hfree <| h.trans
      ((List.prefix_append_right_inj acc).mpr (before_prefix_front p ps)).isInfix
    have hround := @replaceFirst_reference getenv _ _ hpre hname (written ps ++ tail)
    rw [hv, Option.map_some] at hround
    have hrest := @ih (acc ++ p.before ++ p.value) hps' fun hne => by
      rw [front_cons p hne] at hfree
      rwa [List.append_assoc, List.append_assoc]
    rw [List.length_cons, Nat.add_right_comm, replaceEnv_succ, written_cons, replaced_cons]
    simp only [List.append_assoc] at hround hrest ⊢
    rw [hround]
    exact hrest

/-- **A clean text** becomes what is meant, and the loop ends. -/
theorem replaceEnv_of_clean {text : Bytes} (h : Clean getenv text) (more : ℕ) :
    replaceEnv getenv ((pieces getenv text.length text).1.length + more) text =
      expand getenv text := by
  obtain ⟨htext, hps⟩ := @pieces_spec getenv text.length text
  have hrun := @replaceEnv_pieces getenv _ [] (pieces getenv text.length text).2 hps
    (fun _ => h.front) more
  rw [List.nil_append, List.nil_append, ← htext] at hrun
  exact hrun.trans (replaceEnv_of_none (replaceFirst_eq_none_iff.mpr h.last) more)

/-! ### Texts that are not -/

/-- Values without references do not make up the text that they replace. -/
theorem eq_nil_of_replaced_eq {ps : List Piece} (hvalues : ∀ p ∈ ps, ¬ opening <:+: p.value)
    {behind : Bytes} (h : replaced ps = written ps ++ behind) : ps = [] := by
  induction ps using List.reverseRecOn generalizing behind with
  | nil => rfl
  | append_singleton ps p ih =>
    have hp := hvalues p (List.mem_append_right _ List.mem_cons_self)
    have hps := fun q hq => hvalues q (List.mem_append_left _ hq)
    -- the last reference would be at the end of the last value
    have hlast : ∀ shift, p.before ++ p.value =
        shift ++ (p.before ++ (reference p.name ++ behind)) → False := by
      intro shift heq
      have hsuffix : reference p.name ++ behind <:+ p.before ++ p.value := by
        rw [heq, ← List.append_assoc]
        exact List.suffix_append _ _
      have hlen := congrArg List.length heq
      simp only [List.length_append] at hlen
      have hvalue : reference p.name ++ behind <:+ p.value :=
        List.suffix_of_suffix_length_le hsuffix (List.suffix_append _ _)
          (by rw [List.length_append]; omega)
      rw [reference_append] at hvalue
      exact hp ((List.prefix_append opening _).isInfix.trans hvalue.isInfix)
    unfold replaced written at h ih
    simp only [List.flatMap_append, List.flatMap_cons, List.flatMap_nil, List.append_nil,
      List.append_assoc] at h
    rcases List.append_eq_append_iff.mp h with ⟨shift, -, heq⟩ | ⟨shift, hshift, heq⟩
    · exact (hlast shift heq).elim
    · obtain rfl := ih hps hshift
      obtain rfl : shift = [] := hshift.symm
      exact (hlast [] heq.symm).elim

variable (getenv) in
/-- An environment of C strings, without `"${"` in values or names. -/
structure Plain : Prop where
  cstr : ∀ name v, getenv name = some v → 0 ∉ v
  value : ∀ name v, getenv name = some v → ¬ opening <:+: v
  name : ∀ name v, getenv name = some v → ¬ opening <:+: name

/-- A `"${"` in what has been replaced, with the loop's result behind it, ends the loop. -/
theorem replaceFirst_of_opening (hplain : Plain getenv) {done name value left right : Bytes}
    (hdone : opening <:+: done) (hzero : 0 ∉ done)
    (hname : closing ∉ name)
    (hend : FirstUnset getenv (done ++ (value ++ right))) :
    replaceFirst getenv (done ++ (reference name ++ left)) = none := by
  obtain ⟨pre, post, rfl, hpre⟩ := exists_first_opening hdone
  by_cases hclosing : closing ∈ post
  · -- the whole reference is in front, and in the result
    obtain ⟨inner, rest, rfl, hinner⟩ := List.eq_append_cons_of_mem hclosing
    simp only [← reference_append, List.append_assoc] at hend ⊢
    rw [replaceFirst_reference hpre hinner, hend pre inner _ rfl hpre hinner]
    rfl
  · -- its name reaches over the next `"${"`
    have htext : pre ++ (opening ++ post) ++ (reference name ++ left) =
        pre ++ (reference (post ++ (opening ++ name)) ++ left) := by
      simp only [reference_append, List.append_assoc]
    have hlong : closing ∉ post ++ (opening ++ name) := by
      simp only [List.mem_append, not_or]
      exact ⟨hclosing, by decide, hname⟩
    have hcstr : cStr (post ++ (opening ++ name)) = post ++ (opening ++ cStr name) := by
      have hnonzero : ∀ c ∈ post ++ opening, decide (c ≠ 0) = true := fun c hc =>
        decide_eq_true fun h0 => by
          subst h0
          rcases List.mem_append.mp hc with hc | hc
          · exact hzero (List.mem_append_right _ (List.mem_append_right _ hc))
          · exact absurd hc (by decide)
      rw [← List.append_assoc, ← List.append_assoc]
      exact List.takeWhile_append_of_pos hnonzero
    rw [htext, replaceFirst_reference hpre hlong, Option.map_eq_none_iff, hcstr]
    refine Option.eq_none_iff_forall_ne_some.mpr fun v hv => hplain.name _ v hv ?_
    exact (List.prefix_append opening _).isInfix.trans (List.suffix_append post _).isInfix

/-- **The loop comes to what is meant** only over clean texts. -/
theorem not_opening_front (hplain : Plain getenv) {ps : List Piece} {acc tail : Bytes}
    (hps : ∀ p ∈ ps, closing ∉ p.name ∧ getenv (cStr p.name) = some p.value) (hne : ps ≠ [])
    (hzero : 0 ∉ acc ++ (replaced ps ++ tail))
    (hend : FirstUnset getenv (acc ++ (replaced ps ++ tail))) {fuel : ℕ}
    (hrun : replaceEnv getenv fuel (acc ++ (written ps ++ tail)) = acc ++ (replaced ps ++ tail)) :
    ¬ opening <:+: acc ++ front ps := by
  induction ps generalizing acc fuel with
  | nil => exact absurd rfl hne
  | cons p ps ih =>
    obtain ⟨⟨hname, hv⟩, hps'⟩ := List.forall_mem_cons.mp hps
    -- the loop does not stop where a reference is left
    have hdiffer : acc ++ (written (p :: ps) ++ tail) ≠ acc ++ (replaced (p :: ps) ++ tail) := by
      intro hsame
      have hvalues : ∀ q ∈ p :: ps, ¬ opening <:+: q.value := fun q hq =>
        hplain.value _ _ (hps q hq).2
      have hwritten : replaced (p :: ps) = written (p :: ps) ++ [] := by
        rw [List.append_nil]
        exact (List.append_cancel_right (List.append_cancel_left hsame)).symm
      exact List.cons_ne_nil p ps (eq_nil_of_replaced_eq hvalues hwritten)
    have hmoves : ¬ replaceFirst getenv (acc ++ (written (p :: ps) ++ tail)) = none := fun hnone =>
      hdiffer ((replaceEnv_of_none hnone fuel).symm.trans hrun)
    have hpre : ¬ opening <:+: acc ++ p.before := fun hdone => hmoves <| by
      have hnone := @replaceFirst_of_opening getenv hplain (acc ++ p.before) p.name p.value
        (written ps ++ tail) (replaced ps ++ tail) hdone (fun h0 => hzero <| by
          simp only [replaced_cons, List.append_assoc, List.mem_append] at h0 ⊢
          tauto) hname (by simpa only [replaced_cons, List.append_assoc] using hend)
      simpa only [written_cons, List.append_assoc] using hnone
    by_cases hlast : ps = []
    · subst hlast
      exact hpre
    cases fuel with
    | zero => exact absurd hrun hdiffer
    | succ fuel =>
      have hround := @replaceFirst_reference getenv _ _ hpre hname (written ps ++ tail)
      rw [hv, Option.map_some] at hround
      rw [replaceEnv_succ, written_cons, replaced_cons] at hrun
      rw [replaced_cons] at hzero hend
      have hrest := @ih (acc ++ p.before ++ p.value) hps' hlast
      rw [front_cons p hlast]
      simp only [List.append_assoc] at hround hrun hzero hend hrest ⊢
      rw [hround] at hrun
      exact hrest hzero hend hrun

end Config

end Comms
