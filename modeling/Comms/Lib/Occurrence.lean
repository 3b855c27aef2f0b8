import Mathlib.Data.List.Infix

/-!
# The first occurrence of a pattern

* `first` — where a pattern starts in a word for the first time;
* `first_eq_some_iff` — what stands in front of it does not meet the pattern;
* `first_eq_none_iff` — the pattern does not occur;
* `first_append_of_notMem`, `first_pair` — in front of the pattern stands what cannot be part of it.
-/

namespace Occurrence

variable {α : Type} [BEq α] [LawfulBEq α]

/-- Where `pat` starts in `str` for the first time. -/
def first (str pat : List α) : Option ℕ := str.tails.findIdx? (pat.isPrefixOf ·)

omit [LawfulBEq α] in
theorem first_cons (c : α) (str pat : List α) :
    first (c :: str) pat =
      if pat.isPrefixOf (c :: str) then some 0 else (first str pat).map (· + 1) := by
  unfold first
  rw [List.tails_cons, List.findIdx?_cons]

theorem first_nil {pat : List α} (hpat : pat ≠ []) : first [] pat = none := by
  refine if_neg fun h => hpat ?_
  exact List.prefix_nil.mp (List.isPrefixOf_iff_prefix.mp h)

omit [BEq α] [LawfulBEq α] in
/-- The pattern does not start in what is too short for it. -/
theorem not_infix_dropLast {pat : List α} (hpat : pat ≠ []) : ¬ pat <:+: pat.dropLast := by
  intro h
  have hlen := h.length_le
  have hpos := List.length_pos_iff.mpr hpat
  rw [List.length_dropLast] at hlen
  omega

omit [BEq α] [LawfulBEq α] in
/-- A pattern at the front, with an occurrence behind: it starts before that one is complete. -/
theorem prefix_dropLast {pat pre post : List α} {c : α}
    (h : pat <+: c :: pre ++ (pat ++ post)) : pat <+: c :: pre ++ pat.dropLast := by
  rcases List.eq_nil_or_concat pat with rfl | ⟨init, last, rfl⟩
  · exact List.nil_prefix
  · rw [List.concat_eq_append] at h ⊢
    rw [List.dropLast_concat]
    refine List.prefix_of_prefix_length_le h ?_ (by simp)
    rw [List.append_assoc, List.prefix_append_right_inj]
    exact List.prefix_append _ _

/-- **The first occurrence.** The pattern does not meet what stands in front, nor reach over its
end. -/
theorem first_eq_some_iff {str pat : List α} (hpat : pat ≠ []) {p : ℕ} :
    first str pat = some p ↔ ∃ pre post, str = pre ++ (pat ++ post) ∧ pre.length = p ∧
      ¬ pat <:+: pre ++ pat.dropLast := by
  induction str generalizing p with
  | nil =>
    rw [first_nil hpat]
    refine iff_of_false (fun h => by cases h) ?_
    rintro ⟨pre, post, hstr, -, -⟩
    exact hpat (List.append_eq_nil_iff.mp (List.append_eq_nil_iff.mp hstr.symm).2).1
  | cons c str ih =>
    rw [first_cons]
    by_cases hpre : pat <+: c :: str
    · rw [if_pos (List.isPrefixOf_iff_prefix.mpr hpre)]
      constructor
      · intro h
        obtain rfl := Option.some.inj h
        obtain ⟨post, hpost⟩ := hpre
        exact ⟨[], post, hpost.symm, rfl, not_infix_dropLast hpat⟩
      · rintro ⟨pre, post, hstr, hlen, hfree⟩
        cases pre with
        | nil => exact congrArg some hlen
        | cons d pre => exact absurd (prefix_dropLast (hstr ▸ hpre)).isInfix hfree
    · rw [if_neg (fun h => hpre (List.isPrefixOf_iff_prefix.mp h)), Option.map_eq_some_iff]
      constructor
      · rintro ⟨q, hq, rfl⟩
        obtain ⟨pre, post, rfl, rfl, hfree⟩ := ih.mp hq
        refine ⟨c :: pre, post, rfl, rfl, fun hinfix => ?_⟩
        rcases List.infix_cons_iff.mp hinfix with h | h
        · refine hpre (h.trans ?_)
          change c :: pre ++ pat.dropLast <+: c :: pre ++ (pat ++ post)
          rw [List.prefix_append_right_inj]
          exact (List.dropLast_prefix pat).trans (List.prefix_append _ _)
        · exact hfree h
      · rintro ⟨pre, post, hstr, hlen, hfree⟩
        cases pre with
        | nil => exact absurd ⟨post, hstr.symm⟩ hpre
        | cons d pre =>
          obtain ⟨rfl, rfl⟩ := List.cons.inj hstr
          exact ⟨pre.length, ih.mpr ⟨pre, post, rfl, rfl, fun h => hfree (List.infix_cons h)⟩, hlen⟩

theorem first_eq_none_iff {str pat : List α} (hpat : pat ≠ []) :
    first str pat = none ↔ ¬ pat <:+: str := by
  induction str with
  | nil =>
    refine iff_of_true (first_nil hpat) fun h => hpat (List.infix_nil.mp h)
  | cons c str ih =>
    rw [first_cons, List.infix_cons_iff, ← List.isPrefixOf_iff_prefix]
    cases pat.isPrefixOf (c :: str) with
    | true => simp
    | false => simp [ih]

/-- The pattern starts with a letter that does not stand in front. -/
theorem first_append_of_notMem {pre : List α} {x : α} (hx : x ∉ pre) (str pat : List α) :
    first (pre ++ str) (x :: pat) = (first str (x :: pat)).map (pre.length + ·) := by
  induction pre with
  | nil => simp
  | cons c pre ih =>
    obtain ⟨hne, hx'⟩ := not_or.mp (fun h => hx (List.mem_cons.mpr h))
    rw [List.cons_append, first_cons, if_neg, ih hx', Option.map_map]
    · exact congrArg (Option.map · _) (funext fun n => by simp; omega)
    · rw [List.isPrefixOf_iff_prefix, List.cons_prefix_cons]
      exact fun h => hne h.1

/-- A pair of different letters, behind what does not have it. -/
theorem first_pair {a b : α} (hab : a ≠ b) {pre : List α} (hpre : ¬ [a, b] <:+: pre)
    (post : List α) : first (pre ++ ([a, b] ++ post)) [a, b] = some pre.length := by
  refine (first_eq_some_iff (List.cons_ne_nil _ _)).mpr ⟨pre, post, rfl, rfl, fun h => ?_⟩
  rcases List.infix_concat_iff.mp h with ⟨init, heq⟩ | h
  · rw [show [a, b] = [a] ++ [b] from rfl, ← List.append_assoc] at heq
    exact hab (List.append_inj_right' heq rfl |> List.cons.inj |>.1).symm
  · exact hpre h

end Occurrence
