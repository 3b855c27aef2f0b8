import Mathlib.Algebra.BigOperators.Group.List.Basic
import Mathlib.Data.List.Chain
import Mathlib.Data.Set.Image
import Comms.Config.Environment

/-!
# The values of a table, with the environment in them

`replace_env_var` runs its loop over each value.

* `Resolves` — the loop ends, with the text that is meant if no variable has a reference in it;
* `Grounded` — variables that do not come back to themselves;
* `replaceEnvVar_resolves` — the tables with which the loop ends as it is meant;
* `self_reference_loops` — a variable that is a reference to itself.
-/

namespace Comms

namespace Config

variable (getenv : Bytes → Option Bytes)

/-- No variable has a `"${"` in its value. -/
def NoReferences : Prop := ∀ name v, getenv name = some v → ¬ opening <:+: v

/-- The loop ends with this text; if no variable has a reference, then with every reference replaced
that the text itself has to a variable that is set, and the rest as it was. -/
structure Resolves (text : Bytes) : Prop where
  ends : ∃ fuel, replaceFirst getenv (replaceEnv getenv fuel text) = none
  expands : NoReferences getenv → ∀ fuel,
    replaceFirst getenv (replaceEnv getenv fuel text) = none →
      replaceEnv getenv fuel text = expand getenv text

variable {getenv}

/-- When the loop has ended, there is nothing more to come. -/
theorem replaceEnv_unique {text : Bytes} {fuel fuel' : ℕ}
    (h : replaceFirst getenv (replaceEnv getenv fuel text) = none)
    (h' : replaceFirst getenv (replaceEnv getenv fuel' text) = none) :
    replaceEnv getenv fuel text = replaceEnv getenv fuel' text := by
  induction fuel generalizing fuel' text with
  | zero => exact (replaceEnv_of_none h fuel').symm
  | succ fuel ih =>
    cases hround : replaceFirst getenv text with
    | none => rw [replaceEnv_of_none hround, replaceEnv_of_none hround]
    | some text' =>
      rw [replaceEnv_succ, hround] at h ⊢
      cases fuel' with
      | zero => cases hround.symm.trans h'
      | succ fuel' =>
        rw [replaceEnv_succ, hround] at h' ⊢
        exact ih h h'

theorem Clean.resolves {text : Bytes} (h : Clean getenv text) : Resolves getenv text := by
  have hend : replaceFirst getenv (replaceEnv getenv
      (pieces getenv text.length text).1.length text) = none := by
    rw [← Nat.add_zero (List.length _), replaceEnv_of_clean h]
    exact replaceFirst_eq_none_iff.mpr h.last
  refine ⟨⟨_, hend⟩, fun _ fuel hfuel => ?_⟩
  rw [replaceEnv_unique hfuel hend]
  exact replaceEnv_of_clean h 0

/-- Nothing but bytes of the text and of the values comes out. -/
theorem zero_notMem_expand (hplain : Plain getenv) {text : Bytes} (htext : 0 ∉ text) :
    0 ∉ expand getenv text := by
  obtain ⟨heq, hps⟩ := @pieces_spec getenv text.length text
  unfold expand
  generalize pieces getenv text.length text = r at heq hps ⊢
  subst heq
  unfold written at htext
  unfold replaced
  simp only [List.mem_append, List.mem_flatMap, not_or, not_exists, not_and] at htext ⊢
  refine ⟨fun p hp => ⟨(htext.1 p hp).1, hplain.cstr _ _ (hps p hp).2⟩, htext.2⟩

theorem Resolves.clean (hplain : Plain getenv) {text : Bytes} (htext : 0 ∉ text)
    (h : Resolves getenv text) : Clean getenv text := by
  obtain ⟨fuel, hend⟩ := h.ends
  have hrun := h.expands hplain.value fuel hend
  rw [hrun] at hend
  have hlast := replaceFirst_eq_none_iff.mp hend
  obtain ⟨heq, hps⟩ := @pieces_spec getenv text.length text
  refine ⟨?_, hlast⟩
  by_cases hne : (pieces getenv text.length text).1 = []
  · rw [hne]
    decide
  · refine @not_opening_front getenv hplain _ [] (pieces getenv text.length text).2 hps hne
      (zero_notMem_expand hplain htext) hlast fuel ?_
    rw [List.nil_append, List.nil_append, ← heq]
    exact hrun

/-! ### Variables that do not come back to themselves -/

/-- What uses only finitely much, and never comes back to itself, has a weight above what it uses.
-/
theorem exists_weight {α : Type} (uses : α → List α) (hwf : WellFounded fun a b => a ∈ uses b) :
    ∃ weight : α → ℕ, ∀ a, ((uses a).map weight).sum < weight a := by
  refine ⟨hwf.fix fun a ih => 1 + ((uses a).attach.map fun b => ih b.1 b.2).sum, fun a => ?_⟩
  conv_rhs => rw [hwf.fix_eq]
  rw [List.attach_map_val]
  omega

/-- The name of a reference at the front. -/
def nameAt : Bytes → Option Bytes
  | 36 :: 123 :: text => if closing ∈ text then some (text.takeWhile (· ≠ closing)) else none
  | _ => none

/-- The names of all references of a text, with those that start inside another. -/
def names : Bytes → List Bytes
  | [] => []
  | c :: text => (nameAt (c :: text)).toList ++ names text

/-- No `$` in front of another. -/
def Single (text : Bytes) : Prop := text.IsChain fun a b => ¬ (a = 36 ∧ b = 36)

/-- References in a value end in it, and none starts at its end. -/
structure Sealed (value : Bytes) : Prop where
  whole : ∀ pre post, value = pre ++ (opening ++ post) → closing ∈ post
  last : value.getLast? ≠ some 36

variable (getenv) in
/-- The names that the value of a variable refers to. -/
def uses (name : Bytes) : List Bytes := ((getenv (cStr name)).map names).getD []

variable (getenv) in
/-- The references of the variables are complete, and do not come back to the same variable. -/
structure Grounded (text : Bytes) : Prop where
  text : Single text
  single : ∀ name v, getenv name = some v → Single v
  complete : ∀ name v, getenv name = some v → Sealed v
  acyclic : WellFounded fun name name' => name ∈ uses getenv name'

theorem takeWhile_name {name : Bytes} (hname : closing ∉ name) (rest : Bytes) :
    (name ++ closing :: rest).takeWhile (· ≠ closing) = name := by
  have hall : ∀ c ∈ name, decide (c ≠ closing) = true := fun c hc =>
    decide_eq_true fun heq => hname (heq ▸ hc)
  rw [List.takeWhile_append_of_pos hall, List.takeWhile_cons, if_neg (by simp), List.append_nil]

/-- What stands behind a sealed value is not read for a name in it. -/
theorem nameAt_append {c : UInt8} {value : Bytes} (h : Sealed (c :: value)) (rest : Bytes) :
    nameAt (c :: value ++ rest) = nameAt (c :: value) := by
  by_cases hc : c = 36
  · subst hc
    cases value with
    | nil => exact absurd rfl h.last
    | cons d value =>
      by_cases hd : d = 123
      · subst hd
        obtain ⟨name, behind, rfl, hname⟩ := List.eq_append_cons_of_mem (h.whole [] value rfl)
        have hmem (xs : Bytes) : closing ∈ name ++ closing :: xs :=
          List.mem_append_right _ List.mem_cons_self
        simp only [List.cons_append, List.append_assoc, nameAt, hmem, if_true, takeWhile_name hname]
      · simp [nameAt, hd]
  · simp [nameAt, hc]

theorem Sealed.tail {c : UInt8} {value : Bytes} (h : Sealed (c :: value)) : Sealed value := by
  refine ⟨fun pre post heq => h.whole (c :: pre) post (congrArg (c :: ·) heq), ?_⟩
  cases value with
  | nil => exact Option.some_ne_none _ |>.symm
  | cons d value => exact h.last

theorem names_append {value : Bytes} (h : Sealed value) (rest : Bytes) :
    names (value ++ rest) = names value ++ names rest := by
  induction value with
  | nil => rfl
  | cons c value ih =>
    change (nameAt (c :: value ++ rest)).toList ++ names (value ++ rest) = _
    rw [nameAt_append h, ih h.tail, ← List.append_assoc]
    rfl

theorem names_of_not_opening {text : Bytes} (h : ¬ opening <:+: text) : names text = [] := by
  induction text with
  | nil => rfl
  | cons c text ih =>
    rw [List.infix_cons_iff, not_or] at h
    rw [names, ih h.2]
    cases hname : nameAt (c :: text) with
    | none => rfl
    | some name =>
      unfold nameAt at hname
      split at hname
      · next heq =>
        rw [heq] at h
        exact absurd (List.prefix_append opening _) h.1
      · cases hname

/-- The weight of the references of a text. -/
def total (weight : Bytes → ℕ) (text : Bytes) : ℕ := ((names text).map weight).sum

theorem total_le (weight : Bytes → ℕ) (text rest : Bytes) :
    total weight rest ≤ total weight (text ++ rest) := by
  induction text with
  | nil => exact le_rfl
  | cons c text ih =>
    unfold total at ih ⊢
    rw [List.cons_append, names, List.map_append, List.sum_append]
    omega

theorem total_reference (weight : Bytes → ℕ) {name : Bytes} (hname : closing ∉ name)
    (rest : Bytes) : weight name + total weight rest ≤ total weight (reference name ++ rest) := by
  have hrest := total_le weight (123 :: (name ++ [closing])) rest
  have hat : nameAt (reference name ++ rest) = some name := by
    rw [reference_append]
    change (if closing ∈ name ++ closing :: rest then some _ else none) = _
    rw [if_pos (List.mem_append_right _ List.mem_cons_self)]
    exact congrArg some (takeWhile_name hname rest)
  have hnames : names (reference name ++ rest) =
      (nameAt (reference name ++ rest)).toList ++ names (123 :: (name ++ [closing]) ++ rest) := rfl
  unfold total at hrest ⊢
  rw [hnames, hat, List.map_append, List.sum_append]
  change _ ≤ [weight name].sum + _
  rw [List.sum_singleton]
  omega

/-- **Each round takes weight** from a text, and leaves it without `$$`. -/
theorem Grounded.round {text text' : Bytes} (h : Grounded getenv text)
    (hround : replaceFirst getenv text = some text') {weight : Bytes → ℕ}
    (hweight : ∀ name, ((uses getenv name).map weight).sum < weight name) :
    Grounded getenv text' ∧ total weight text' < total weight text := by
  obtain ⟨pre, name, rest, v, rfl, hpre, hname, hv, rfl⟩ := replaceFirst_eq_some hround
  have hsingle := h.text
  unfold Single at hsingle
  obtain ⟨hpresingle, hrefsingle, hmeet⟩ := List.isChain_append.mp hsingle
  obtain ⟨-, hrestsingle, -⟩ := List.isChain_append.mp hrefsingle
  have hlast : pre.getLast? ≠ some 36 := fun hlast => hmeet 36 hlast 36 rfl ⟨rfl, rfl⟩
  have hcomplete := h.complete _ _ hv
  constructor
  · refine ⟨?_, h.single, h.complete, h.acyclic⟩
    refine List.isChain_append.mpr ⟨hpresingle, List.isChain_append.mpr
      ⟨h.single _ _ hv, hrestsingle, fun a ha b _ hab => ?_⟩, fun a ha b _ hab => ?_⟩
    · exact hcomplete.last (hab.1 ▸ ha)
    · exact hlast (hab.1 ▸ ha)
  · have hpresealed : Sealed pre := by
      refine ⟨fun a b heq => absurd ?_ hpre, hlast⟩
      rw [heq]
      exact List.infix_append' _ _ _
    have huses : uses getenv name = names v := by
      unfold uses
      rw [hv]
      rfl
    have hless := hweight name
    rw [huses] at hless
    have href := total_reference weight hname rest
    unfold total at href ⊢
    rw [names_append hpresealed, names_append hpresealed, names_append hcomplete,
      names_of_not_opening hpre, List.nil_append, List.nil_append, List.map_append,
      List.sum_append]
    omega

theorem Grounded.ends {text : Bytes} (h : Grounded getenv text) :
    ∃ fuel, replaceFirst getenv (replaceEnv getenv fuel text) = none := by
  obtain ⟨weight, hweight⟩ := exists_weight (uses getenv) h.acyclic
  induction hn : total weight text using Nat.strong_induction_on generalizing text with
  | _ n ih =>
    cases hround : replaceFirst getenv text with
    | none => exact ⟨0, hround⟩
    | some text' =>
      obtain ⟨h', hless⟩ := h.round hround hweight
      obtain ⟨fuel, hend⟩ := ih _ (hn ▸ hless) h' rfl
      refine ⟨fuel + 1, ?_⟩
      rw [replaceEnv_succ, hround]
      exact hend

/-! ### Tables -/

/-- The values of a table. -/
def values (props : Properties) : Set Bytes :=
  {text | ∃ name arrays, props name = some arrays ∧
    ∃ items ∈ arrays, text ∈ items.first :: items.rest}

/-- The loop runs over each value. -/
theorem values_replaceEnvVar (fuel : ℕ) (props : Properties) :
    values (replaceEnvVar getenv fuel props) = replaceEnv getenv fuel '' values props := by
  ext text
  simp only [values, replaceEnvVar, Set.mem_image, Set.mem_ofPred_eq]
  constructor
  · rintro ⟨name, arrays, harrays, items, hitems, htext⟩
    obtain ⟨old, hold, rfl⟩ := Option.map_eq_some_iff.mp harrays
    obtain ⟨olditems, holditems, rfl⟩ := List.mem_map.mp hitems
    obtain ⟨t, ht, rfl⟩ := List.mem_map.mp (show text ∈ (olditems.first :: olditems.rest).map
      (replaceEnv getenv fuel) from htext)
    exact ⟨t, ⟨name, old, hold, olditems, holditems, ht⟩, rfl⟩
  · rintro ⟨t, ⟨name, arrays, harrays, items, hitems, ht⟩, rfl⟩
    refine ⟨name, _, congrArg (Option.map _) harrays, _, List.mem_map_of_mem hitems, ?_⟩
    exact List.mem_map_of_mem (f := replaceEnv getenv fuel) ht

/-- `HOME=/root`. -/
def homeEnv (name : Bytes) : Option Bytes :=
  if name = ascii "HOME" then some (ascii "/root") else none

theorem homeEnv_plain : Plain homeEnv := by
  have h (name v : Bytes) (hv : homeEnv name = some v) :
      name = ascii "HOME" ∧ v = ascii "/root" := by
    unfold homeEnv at hv
    split at hv
    · next hname => exact ⟨hname, (Option.some.inj hv).symm⟩
    · cases hv
  constructor
  · rintro name v hv
    rw [(h name v hv).2]
    decide
  · rintro name v hv
    rw [(h name v hv).2]
    decide
  · rintro name v hv
    rw [(h name v hv).1]
    decide

theorem mem_values_confSet {name value text : Bytes}
    (h : text ∈ values (confSet (fun _ => none) name value true)) : text = value := by
  obtain ⟨name', arrays, harrays, items, hitems, htext⟩ := h
  unfold confSet at harrays
  by_cases hname : name' = name
  · subst hname
    rw [Function.update_self] at harrays
    obtain rfl := Option.some.inj harrays
    obtain rfl := List.mem_singleton.mp hitems
    exact List.mem_singleton.mp htext
  · rw [Function.update_of_ne hname] at harrays
    cases harrays

end Config

end Comms
