import Mathlib.Data.List.Find
import Comms.Codec.RoundTrip
import Comms.Command.Numbers
import Comms.Config.Properties

/-!
# Sized values

`conf_get_int64` reads a decimal number, or one with a unit behind it.

* `Sized` — the texts meant, with their values;
* `Refused` — the texts that `conf_get_int64` refuses;
* `confGetInt64_right_iff` — the texts it is right about;
* `lone_unit_accepted` — a unit without a number.
-/

namespace Comms

/-! ### Numbers in front of letters -/

theorem not_isdigit_of_le {c : UInt8} (h : 65 ≤ c) : isdigit c = false := by
  simp only [isdigit, Bool.and_eq_false_iff, decide_eq_false_iff_not, UInt8.le_iff_toNat_le] at h ⊢
  have h57 : (57 : UInt8).toNat = 57 := rfl
  have h65 : (65 : UInt8).toNat = 65 := rfl
  omega

theorem IsDecimal.length_pos {digits : Bytes} {n : ℤ} (h : IsDecimal digits n) :
    0 < digits.length := by
  obtain ⟨m, ⟨rfl, -⟩ | ⟨rfl, -⟩⟩ := h
  · exact List.length_pos_iff.mpr m.ne
  · exact Nat.succ_pos _

/-- A minus sign and digits are not letters. -/
theorem IsDecimal.lt {digits : Bytes} {n : ℤ} (h : IsDecimal digits n) :
    ∀ c ∈ digits, c < 65 := by
  have hdigit {c : UInt8} (hc : isdigit c = true) : c < 65 :=
    UInt8.not_le.mp fun hle => Bool.false_ne_true ((not_isdigit_of_le hle).symm.trans hc)
  obtain ⟨m, ⟨rfl, -⟩ | ⟨rfl, -⟩⟩ := h
  · exact fun c hc => hdigit (m.isdigit c hc)
  · intro c hc
    rcases List.mem_cons.mp hc with rfl | hc
    · decide
    · exact hdigit (m.isdigit c hc)

/-- `strtol` reads a decimal number to its end. -/
theorem IsDecimal.strtol_eq {digits tail : Bytes} {n : ℤ} (h : IsDecimal digits n)
    (htail : tail.takeWhile isdigit = []) :
    strtol (digits ++ tail) = (max (-2 ^ 63) (min (2 ^ 63 - 1) n), digits.length) := by
  obtain ⟨m, ⟨rfl, rfl⟩ | ⟨rfl, rfl⟩⟩ := h
  · rw [Comms.strtol_eq m.ne m.isdigit, htail, List.append_nil]
    rfl
  · rw [strtol_neg m.ne m.isdigit, htail, List.append_nil, List.length_cons, List.length_nil,
      Nat.add_zero, Nat.add_comm]
    rfl

/-- Behind a number, what starts with letters is not read. -/
theorem IsDecimal.strtol_letters {digits letters : Bytes} {n : ℤ} (h : IsDecimal digits n)
    (hletters : ∀ c ∈ letters, 65 ≤ c) :
    Comms.cStr (digits ++ letters) = digits ++ letters ∧
      strtol (digits ++ letters) = (max (-2 ^ 63) (min (2 ^ 63 - 1) n), digits.length) := by
  constructor
  · refine List.takeWhile_eq_self_iff.mpr fun c hc => decide_eq_true fun hzero => ?_
    subst hzero
    rcases List.mem_append.mp hc with hc | hc
    · have hself := List.takeWhile_eq_self_iff.mp h.cStr 0 hc
      exact absurd hself (by decide)
    · exact absurd (hletters 0 hc) (by decide)
  · refine h.strtol_eq ?_
    cases letters with
    | nil => rfl
    | cons c letters =>
      rw [List.takeWhile_cons, not_isdigit_of_le (hletters c List.mem_cons_self)]
      rfl

namespace Config

open Occurrence

/-! ### What is meant -/

/-- The units, and the powers of two they stand for, as they are looked for. -/
def units : List (Bytes × ℕ) :=
  [(ascii "M", 20), (ascii "MB", 20), (ascii "G", 30), (ascii "GB", 30), (ascii "K", 10),
    (ascii "KB", 10)]

/-- What stands behind a number, in either case. -/
def Scales (suffix : Bytes) (k : ℕ) : Prop :=
  suffix = [] ∧ k = 0 ∨ (suffix.map toUpper, k) ∈ units

/-- The text is a decimal number, with a unit or without, and `v` is the value. -/
def Sized (text : Bytes) (v : ℤ) : Prop :=
  ∃ digits suffix n k, text = digits ++ suffix ∧ IsDecimal digits n ∧ Scales suffix k ∧
    v = n * 2 ^ k ∧ IntType.int64.Holds v

/-- `true` with the value of the text; or `false`, and the variable as it was. -/
def Right (text : Bytes) (value : ℤ) (r : Bool × ℤ) : Prop :=
  (∀ v, Sized text v → r = (true, v)) ∧ ((∀ v, ¬ Sized text v) → r = (false, value))

/-! ### What is read -/

/-- `atoll` of the text in capitals. -/
def atoll (text : Bytes) : ℤ := (strtol (cStr (text.map toUpper))).1

/-- The text ends in the unit, which it does not have before. -/
def EndsIn (unit text : Bytes) : Prop :=
  ∃ pre, text.map toUpper = pre ++ unit ∧ ¬ unit <:+: pre ++ unit.dropLast

/-- `strtoll` leaves something of the text, which is more than one character and does not end in a
unit. -/
structure Refused (text : Bytes) : Prop where
  rest : ∀ w, ¬ Loose (cStr text) w
  length : text.length ≠ 1
  unit : ∀ u ∈ units, ¬ EndsIn u.1 text

/-- `sizedInt64`, with the units in a row. -/
theorem sizedInt64_eq (text : Bytes) : sizedInt64 text =
    match stringToInt64 text with
    | some value => (true, value)
    | none =>
      match units.find? (fun u => endsInUnit (text.map toUpper) u.1) with
      | some u => (true, (atoll text * 2 ^ u.2).bmod (2 ^ 64))
      | none => (false, atoll text) := by
  unfold sizedInt64
  cases stringToInt64 text with
  | some value => rfl
  | none =>
    unfold atoll
    simp only [units, List.find?_cons, List.find?_nil]
    generalize endsInUnit (text.map toUpper) (ascii "M") = m,
      endsInUnit (text.map toUpper) (ascii "MB") = mb,
      endsInUnit (text.map toUpper) (ascii "G") = g,
      endsInUnit (text.map toUpper) (ascii "GB") = gb,
      endsInUnit (text.map toUpper) (ascii "K") = k,
      endsInUnit (text.map toUpper) (ascii "KB") = kb
    cases m
    · cases mb
      · cases g
        · cases gb
          · cases k
            · cases kb <;> rfl
            · rfl
          · rfl
        · rfl
      · rfl
    · rfl

theorem length_units : ∀ u ∈ units, u.1 ≠ [] ∧ u.1.length ≤ 2 := by decide

theorem first_lt {str pat : Bytes} (hpat : pat ≠ []) {p : ℕ} (h : first str pat = some p) :
    p + pat.length ≤ str.length := by
  obtain ⟨pre, post, rfl, rfl, -⟩ := (first_eq_some_iff hpat).mp h
  simp only [List.length_append]
  omega

theorem endsIn_iff {unit text : Bytes} (hunit : unit ≠ []) : EndsIn unit text ↔
    first (text.map toUpper) unit = some (text.length - unit.length) ∧
      unit.length ≤ text.length := by
  rw [first_eq_some_iff hunit]
  constructor
  · rintro ⟨pre, heq, hfree⟩
    have hlen := congrArg List.length heq
    rw [List.length_map, List.length_append] at hlen
    refine ⟨⟨pre, [], by rwa [List.append_nil], by omega, hfree⟩, by omega⟩
  · rintro ⟨⟨pre, post, heq, hpre, hfree⟩, hle⟩
    have hlen := congrArg List.length heq
    rw [List.length_map, List.length_append, List.length_append] at hlen
    obtain rfl := List.length_eq_zero_iff.mp (show post.length = 0 by omega)
    rw [List.append_nil] at heq
    exact ⟨pre, heq, hfree⟩

/-- The position of the end is computed modulo `2 ^ 64`: a unit of two characters is taken for found
in a text of one, where `find` and the difference are both `npos`. -/
theorem endsInUnit_iff {text unit : Bytes} (htext : text ≠ []) (hsize : text.length < npos)
    (hunit : unit ≠ [] ∧ unit.length ≤ 2) : endsInUnit (text.map toUpper) unit = true ↔
      text.length < unit.length ∨ EndsIn unit text := by
  have hpos := List.length_pos_iff.mpr htext
  have hunit' := List.length_pos_iff.mpr hunit.1
  have hnpos : npos = 2 ^ 64 - 1 := rfl
  unfold endsInUnit
  rw [endsIn_iff hunit.1, find_zero, decide_eq_true_iff, List.length_map]
  cases hfirst : first (text.map toUpper) unit with
  | none =>
    rw [Option.getD_none]
    simp only [reduceCtorEq, false_and, or_false]
    omega
  | some p =>
    have hle := first_lt hunit.1 hfirst
    rw [List.length_map] at hle
    rw [Option.getD_some, Option.some.injEq]
    omega

/-- **What is refused**, and what is stored then. -/
theorem sizedInt64_refused_iff {text : Bytes} (hsize : text.length < npos) {r : ℤ} :
    sizedInt64 text = (false, r) ↔ Refused text ∧ r = atoll text := by
  rw [sizedInt64_eq]
  constructor
  · intro h
    cases hread : stringToInt64 text with
    | some v =>
      rw [hread] at h
      cases h
    | none =>
      have hrest : ∀ w, ¬ Loose (cStr text) w := fun w hw => by
        obtain ⟨v, hv⟩ := IntType.parse_unchecked (t := .int64) hw fun h => by
          rcases h with h | h <;> cases h
        cases hread.symm.trans hv
      have htext : text ≠ [] := fun hnil => hrest 0 (hnil ▸ Loose.empty)
      rw [hread] at h
      cases hfind : units.find? (fun u => endsInUnit (text.map toUpper) u.1) with
      | some u =>
        rw [hfind] at h
        cases h
      | none =>
        rw [hfind] at h
        have hnone u hu := mt (endsInUnit_iff htext hsize (length_units u hu)).mpr
          (List.find?_eq_none.mp hfind u hu)
        refine ⟨⟨hrest, fun hone => ?_, fun u hu hends => hnone u hu (.inr hends)⟩,
          (Prod.mk.inj h).2.symm⟩
        exact hnone (ascii "MB", 20) (by decide) (.inl (hone ▸ by decide))
  · rintro ⟨hrefused, rfl⟩
    have htext : text ≠ [] := fun hnil => hrefused.rest 0 (hnil ▸ Loose.empty)
    have hread : stringToInt64 text = none := IntType.parse_none .int64 hrefused.rest
    have hfind : units.find? (fun u => endsInUnit (text.map toUpper) u.1) = none := by
      refine List.find?_eq_none.mpr fun u hu =>
        mt (endsInUnit_iff htext hsize (length_units u hu)).mp ?_
      refine not_or.mpr ⟨fun hlt => ?_, hrefused.unit u hu⟩
      have hpos := List.length_pos_iff.mpr htext
      have hle := (length_units u hu).2
      have hone := hrefused.length
      omega
    rw [hread, hfind]

/-! ### Numbers with a unit -/

theorem toUpper_of_lt {c : UInt8} (h : c < 65) : toUpper c = c := by
  have h65 : (65 : UInt8).toNat = 65 := rfl
  have h97 : (97 : UInt8).toNat = 97 := rfl
  have hlt := UInt8.lt_iff_toNat_lt.mp h
  refine if_neg fun hlower => ?_
  have := UInt8.le_iff_toNat_le.mp hlower.1
  omega

/-- The units are letters. -/
theorem le_of_mem_units : ∀ u ∈ units, ∀ c ∈ u.1, (65 : UInt8) ≤ c := by decide +kernel

theorem le_of_le_toUpper {c : UInt8} (h : 65 ≤ toUpper c) : 65 ≤ c := by
  unfold toUpper at h
  split at h
  · next hlower => exact UInt8.le_trans (by decide) hlower.1
  · exact h

/-- One unit ends in another only if it is that one. -/
theorem first_units : ∀ u ∈ units, ∀ x ∈ units,
    (first u.1 x.1).any (fun p => p + x.1.length = u.1.length) = decide (x.1 = u.1) := by
  decide

theorem find?_units : ∀ u ∈ units, units.find? (fun x => decide (x.1 = u.1)) = some u := by
  decide

/-- A number with a unit ends in that unit, and in no other. -/
theorem endsIn_units {digits suffix : Bytes} {n : ℤ} (h : IsDecimal digits n) {u x : Bytes × ℕ}
    (hu : u ∈ units) (hsuffix : suffix.map toUpper = u.1) (hx : x ∈ units) :
    EndsIn x.1 (digits ++ suffix) ↔ x.1 = u.1 := by
  have hdigits : digits.map toUpper = digits :=
    (List.map_congr_left fun c hc => toUpper_of_lt (h.lt c hc)).trans (List.map_id' digits)
  obtain ⟨c, cs, hc⟩ := List.exists_cons_of_ne_nil (length_units x hx).1
  have hnot : c ∉ digits := fun hmem =>
    absurd (le_of_mem_units x hx c (hc ▸ List.mem_cons_self)) (UInt8.not_le.mpr (h.lt c hmem))
  have hlen : suffix.length = u.1.length := by rw [← hsuffix, List.length_map]
  have hunits := first_units u hu x hx
  rw [endsIn_iff (length_units x hx).1, List.map_append, hdigits, hsuffix, List.length_append, hlen,
    ← decide_eq_true_iff (p := x.1 = u.1), ← hunits, hc, first_append_of_notMem hnot]
  cases hfirst : first u.1 (c :: cs) with
  | none => simp
  | some p =>
    have hle := first_lt (List.cons_ne_nil c cs) hfirst
    simp only [Option.map_some, Option.some.injEq, Option.any_some, decide_eq_true_eq]
    omega

/-- A product in range is that of a number in range. -/
theorem scaled_of_holds {n : ℤ} {k : ℕ} (h : IntType.int64.Holds (n * 2 ^ k)) :
    (max (-2 ^ 63) (min (2 ^ 63 - 1) n) * 2 ^ k).bmod (2 ^ 64) = n * 2 ^ k := by
  obtain ⟨hlow, hhigh⟩ : -2 ^ 63 ≤ n * 2 ^ k ∧ n * 2 ^ k < 2 ^ 63 := h
  have hone : (1 : ℤ) ≤ 2 ^ k := one_le_pow₀ (by decide)
  have hn : -2 ^ 63 ≤ n ∧ n ≤ 2 ^ 63 - 1 := by
    rcases Int.le_total 0 n with hpos | hneg
    · have hmul := Int.mul_le_mul_of_nonneg_left hone hpos
      omega
    · have hmul := Int.mul_le_mul_of_nonpos_left hneg hone
      omega
  rw [show max (-2 ^ 63) (min (2 ^ 63 - 1) n) = n by omega]
  exact Int.bmod_eq_of_le_mul_two (by omega) (by omega)

/-- **A sized text** is read as its value. -/
theorem sizedInt64_of_sized {text : Bytes} (hsize : text.length < npos) {v : ℤ}
    (h : Sized text v) : sizedInt64 text = (true, v) := by
  obtain ⟨digits, suffix, n, k, rfl, hn, hscale, rfl, hholds⟩ := h
  rw [sizedInt64_eq]
  rcases hscale with ⟨rfl, rfl⟩ | hunit
  · rw [pow_zero, mul_one] at hholds ⊢
    rw [List.append_nil]
    have hread : stringToInt64 digits = some n := IntType.parse_holds .int64 hn.loose hholds
    rw [hread]
  · have hletters : ∀ c ∈ suffix, 65 ≤ c := fun c hc =>
      le_of_le_toUpper (le_of_mem_units _ hunit _ (List.mem_map_of_mem hc))
    have hupper : ∀ c ∈ suffix.map toUpper, 65 ≤ c := le_of_mem_units _ hunit
    have hdigits : digits.map toUpper = digits :=
      (List.map_congr_left fun c hc => toUpper_of_lt (hn.lt c hc)).trans (List.map_id' digits)
    have hpos := hn.length_pos
    have hlen : 0 < suffix.length :=
      (List.length_map toUpper : (suffix.map toUpper).length = _) ▸
        List.length_pos_iff.mpr (length_units _ hunit).1
    have htext : digits ++ suffix ≠ [] := List.append_ne_nil_of_right_ne_nil _
      (List.length_pos_iff.mp hlen)
    have hread : stringToInt64 (digits ++ suffix) = none := by
      change (if (strtol (cStr (digits ++ suffix))).2 = _ then some _ else none) = none
      rw [(hn.strtol_letters hletters).1, (hn.strtol_letters hletters).2, List.length_append]
      exact if_neg (by omega)
    have hatoll : atoll (digits ++ suffix) = max (-2 ^ 63) (min (2 ^ 63 - 1) n) := by
      unfold atoll
      rw [List.map_append, hdigits, (hn.strtol_letters hupper).1, (hn.strtol_letters hupper).2]
    have hfind : units.find? (fun x => endsInUnit ((digits ++ suffix).map toUpper) x.1) =
        some (suffix.map toUpper, k) := by
      refine (List.find?_congr fun x hx => ?_).trans (find?_units _ hunit)
      have hshort := (length_units x hx).2
      rw [Bool.eq_iff_iff, endsInUnit_iff htext hsize (length_units x hx),
        endsIn_units hn hunit rfl hx, decide_eq_true_iff, List.length_append]
      exact or_iff_right (by omega)
    rw [hread, hfind, hatoll]
    exact congrArg (Prod.mk true) (scaled_of_holds hholds)

/-- **The texts it is right about**: the numbers that are meant, and of the others those that are
refused, if the number in front happens to be what the variable holds. -/
theorem confGetInt64_right_iff {conf : Properties} {name text : Bytes}
    (hgiven : value? conf name = some text) (hsize : text.length < npos) (value : ℤ)
    (ignoreNonexist : Bool) : Right text value (confGetInt64 conf name value ignoreNonexist) ↔
      (∃ v, Sized text v) ∨ Refused text ∧ value = atoll text := by
  have hread : confGetInt64 conf name value ignoreNonexist = sizedInt64 text := by
    unfold confGetInt64
    rw [hgiven]
  rw [hread]
  by_cases hsized : ∃ v, Sized text v
  · refine iff_of_true ⟨fun v hv => sizedInt64_of_sized hsize hv, fun hnone => ?_⟩ (.inl hsized)
    exact absurd hsized (not_exists.mpr hnone)
  · rw [or_iff_right hsized, ← sizedInt64_refused_iff hsize]
    exact ⟨fun h => h.2 (not_exists.mp hsized),
      fun h => ⟨fun v hv => absurd ⟨v, hv⟩ hsized, fun _ => h⟩⟩

/-- `repl-backlog-size 64mb`. -/
theorem confGetInt64_right_64mb :
    Right (ascii "64mb") 7
      (confGetInt64 (confSet (fun _ => none) (ascii "repl-backlog-size") (ascii "64mb") true)
        (ascii "repl-backlog-size") 7 false) := by
  have hsize : (ascii "64mb").length < npos := by
    change 4 < 2 ^ 64 - 1
    omega
  refine (confGetInt64_right_iff (by decide) hsize 7 false).mpr (.inl ⟨64 * 2 ^ 20, ?_⟩)
  let m : Numeral := ⟨ascii "64", by decide, List.all_eq_true.mp rfl⟩
  exact ⟨m.digits, ascii "mb", 64, 20, rfl, ⟨m, .inl ⟨rfl, rfl⟩⟩, .inr (by decide), rfl, by decide⟩

/-- **A unit without a number.** -/
theorem lone_unit_accepted : ¬ ∀ (conf : Properties) (name text : Bytes),
    value? conf name = some text → ∀ (value : ℤ) (ignoreNonexist : Bool),
      Right text value (confGetInt64 conf name value ignoreNonexist) := by
  intro hall
  have hright := hall (confSet (fun _ => none) [] (ascii "K") true) [] (ascii "K") (by decide) 7
    false
  have hnone : ∀ v, ¬ Sized (ascii "K") v := by
    rintro v ⟨digits, suffix, n, k, heq, hn, -, -, -⟩
    have hpos := hn.length_pos
    cases digits with
    | nil => exact absurd hpos (by decide)
    | cons c digits =>
      obtain ⟨rfl, -⟩ := List.cons.inj heq
      exact absurd (hn.lt _ List.mem_cons_self) (by decide)
  exact absurd (hright.2 hnone) (by decide)

end Config

end Comms
