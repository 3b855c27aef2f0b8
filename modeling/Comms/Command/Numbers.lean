import Comms.Codec.Peek
import Comms.Command.Args

/-!
# Numbers in arguments

What `string_toint64`, `string_touint64`, `string_toint32` and `string_touint32` of
`util/string_helper.hpp` accept. They ask `strtoll` and `strtoull` whether the whole C string was
used up and look at nothing else, so blanks and a plus sign in front, the empty string, whatever
stands behind a NUL, and 64-bit values that had to be clamped all pass for numbers.

* `IsDecimal` — the numbers meant: an optional minus sign and decimal digits;
* `Loose` — what the library functions use up;
* `IntType.parse_eq` — what a conversion makes of it;
* `exact_iff` — the strings a conversion is exact on.
-/

namespace Comms

/-- All of `str` is a decimal number, with an optional minus sign, and `v` is its value. -/
def IsDecimal (str : Bytes) (v : ℤ) : Prop :=
  ∃ m : Numeral, str = m.digits ∧ v = m.value ∨ str = 45 :: m.digits ∧ v = -m.value

/-- What `strtoll` uses up: nothing of an empty string, or blanks, a sign of either kind and
digits. -/
inductive Loose : Bytes → ℤ → Prop
  | empty : Loose [] 0
  | number (blanks sign : Bytes) (m : Numeral) (hblanks : ∀ c ∈ blanks, isspace c = true)
      (hsign : sign = [] ∨ sign = [43] ∨ sign = [45]) :
      Loose (blanks ++ (sign ++ m.digits)) (if sign = [45] then -m.value else m.value)

/-- The type of the output variable. -/
inductive IntType
  | int64
  | uint64
  | int32
  | uint32
deriving DecidableEq, Repr

namespace IntType

/-- The values of the type. -/
def Holds (t : IntType) (v : ℤ) : Prop :=
  match t with
  | int64 => -2 ^ 63 ≤ v ∧ v < 2 ^ 63
  | uint64 => 0 ≤ v ∧ v < 2 ^ 64
  | int32 => -2 ^ 31 ≤ v ∧ v < 2 ^ 31
  | uint32 => 0 ≤ v ∧ v < 2 ^ 32

instance (t : IntType) (v : ℤ) : Decidable (t.Holds v) := by
  unfold Holds
  cases t <;> exact inferInstance

/-- The conversions that look at the range themselves. -/
def Checked (t : IntType) : Prop := t = int32 ∨ t = uint32

/-- The value each conversion reads, if it accepts the string. -/
def parse (t : IntType) (str : Bytes) : Option ℤ :=
  match t with
  | int64 => stringToInt64 str
  | uint64 => (stringToUInt64 str).map (↑)
  | int32 => stringToInt32 str
  | uint32 => (stringToUInt32 str).map (↑)

/-- A conversion into the variable `value`: what it returns and what the variable holds then. -/
def convert (t : IntType) (str : Bytes) (value : ℤ) : Bool × ℤ :=
  match t.parse str with
  | some v => (true, v)
  | none => (false, value)

/-- The conversion accepts the decimal numbers of its type and reads their value; it leaves the
variable alone otherwise. -/
def Exact (t : IntType) (str : Bytes) : Prop :=
  ∀ value, (∀ v, IsDecimal str v → t.Holds v → t.convert str value = (true, v)) ∧
    ((∀ v, IsDecimal str v → ¬ t.Holds v) → t.convert str value = (false, value))

end IntType

/-! ### What the library functions use up -/

/-- The digits `strtoll` reads. -/
def looseDigits (raw : Bytes) : Bytes :=
  ((raw.dropWhile isspace).drop (signLength (raw.dropWhile isspace))).takeWhile isdigit

/-- The number they stand for, with their sign. -/
def looseValue (raw : Bytes) : ℤ :=
  if (raw.dropWhile isspace).headD 0 = 45 then -(digitsValue (looseDigits raw) : ℤ)
  else digitsValue (looseDigits raw)

/-- How many bytes `strtoll` reads. -/
def looseLength (raw : Bytes) : ℕ :=
  if looseDigits raw = [] then 0
  else (raw.takeWhile isspace).length + signLength (raw.dropWhile isspace) +
    (looseDigits raw).length

theorem strtol_loose (raw : Bytes) :
    strtol raw = (max (-2 ^ 63) (min (2 ^ 63 - 1) (looseValue raw)), looseLength raw) := by
  rw [strtol_signed]
  unfold signedNumber looseLength looseValue
  change (if looseDigits raw = [] then _ else _) = _
  split
  · next hnil =>
    rw [hnil]
    split <;> rfl
  · rfl

theorem strtoull_loose (raw : Bytes) :
    strtoull raw = (if 2 ^ 64 ≤ digitsValue (looseDigits raw) then 2 ^ 64 - 1
      else (looseValue raw % 2 ^ 64).toNat, looseLength raw) := by
  have hsign : ∀ t : Bytes, (if t.headD 0 = 43 ∨ t.headD 0 = 45 then 1 else 0) = signLength t :=
    fun _ => rfl
  have hdigits : (raw.drop ((raw.takeWhile isspace).length +
      signLength (raw.dropWhile isspace))).takeWhile isdigit = looseDigits raw := by
    rw [← List.drop_drop, drop_takeWhile]
    rfl
  simp only [strtoull, drop_takeWhile, hsign, hdigits, looseLength, looseValue]
  by_cases hnil : looseDigits raw = []
  · rw [if_pos hnil, if_pos hnil, hnil]
    simp [digitsValue]
  · rw [if_neg hnil, if_neg hnil]
    congr 1
    split
    · rfl
    · split <;> omega

/-- Blanks in front of something that does not start with one. -/
theorem dropWhile_blanks {blanks rest : Bytes} (hblanks : ∀ c ∈ blanks, isspace c = true)
    (hrest : rest.dropWhile isspace = rest) : (blanks ++ rest).dropWhile isspace = rest := by
  rw [List.dropWhile_append_of_pos hblanks, hrest]

theorem takeWhile_blanks {blanks rest : Bytes} (hblanks : ∀ c ∈ blanks, isspace c = true)
    (hrest : rest.dropWhile isspace = rest) : (blanks ++ rest).takeWhile isspace = blanks := by
  have h := List.takeWhile_append_dropWhile (p := isspace) (l := blanks ++ rest)
  rw [dropWhile_blanks hblanks hrest] at h
  exact List.append_cancel_right h

/-- A numeral starts with a digit. -/
theorem Numeral.head (m : Numeral) : ∃ d ds, m.digits = d :: ds ∧ Comms.isdigit d = true := by
  obtain ⟨d, ds, h⟩ := List.exists_cons_of_ne_nil m.ne
  exact ⟨d, ds, h, m.isdigit d (h ▸ List.mem_cons_self)⟩

theorem Numeral.takeWhile (m : Numeral) : m.digits.takeWhile Comms.isdigit = m.digits :=
  List.takeWhile_eq_self_iff.mpr m.isdigit

/-- What stands behind the blanks: a sign and digits. -/
theorem Numeral.signed (m : Numeral) {sign : Bytes} (hsign : sign = [] ∨ sign = [43] ∨ sign = [45]) :
    (sign ++ m.digits).dropWhile isspace = sign ++ m.digits ∧
      signLength (sign ++ m.digits) = sign.length ∧
      ((sign ++ m.digits).headD 0 = 45 ↔ sign = [45]) := by
  obtain ⟨d, ds, h, hd⟩ := m.head
  have h43 : d ≠ 43 := by rintro rfl; exact absurd hd (by decide)
  have h45 : d ≠ 45 := by rintro rfl; exact absurd hd (by decide)
  rcases hsign with rfl | rfl | rfl
  · rw [h, List.nil_append, List.dropWhile_cons, if_neg (by simp [not_isspace_of_isdigit hd])]
    exact ⟨rfl, if_neg (by simp [h43, h45]), by simp [h45]⟩
  · exact ⟨rfl, rfl, by simp⟩
  · exact ⟨rfl, rfl, by simp⟩

/-- What is used up is read to its end, as the number it stands for. -/
theorem Loose.read {raw : Bytes} {w : ℤ} (h : Loose raw w) :
    looseLength raw = raw.length ∧ looseValue raw = w ∧ digitsValue (looseDigits raw) = w.natAbs := by
  cases h with
  | empty => exact ⟨rfl, rfl, rfl⟩
  | number blanks sign m hblanks hsign =>
    obtain ⟨hblank, hlen, hminus⟩ := m.signed hsign
    have hdrop := dropWhile_blanks hblanks hblank
    have hdigits : looseDigits (blanks ++ (sign ++ m.digits)) = m.digits := by
      unfold looseDigits
      rw [hdrop, hlen, List.drop_left, m.takeWhile]
    unfold looseLength looseValue
    rw [hdigits, hdrop, takeWhile_blanks hblanks hblank, hlen, if_neg m.ne]
    refine ⟨?_, ?_, ?_⟩
    · rw [List.length_append, List.length_append, Nat.add_assoc]
    · simp only [hminus]
      rfl
    · change m.value = _
      split <;> simp

/-- Everything `strtoll` reads to its end is of that form. -/
theorem loose_of_length {raw : Bytes} (h : looseLength raw = raw.length) : ∃ w, Loose raw w := by
  unfold looseLength at h
  split at h
  · obtain rfl := List.length_eq_zero_iff.mp h.symm
    exact ⟨0, .empty⟩
  next hne =>
  let m : Numeral := ⟨looseDigits raw, hne, fun d hd => List.mem_takeWhile_imp hd⟩
  have hraw := List.takeWhile_append_dropWhile (p := isspace) (l := raw)
  set t := raw.dropWhile isspace with ht
  have hblanks : ∀ c ∈ raw.takeWhile isspace, isspace c = true := fun c hc => List.mem_takeWhile_imp hc
  have hlen := congrArg List.length hraw
  rw [List.length_append] at hlen
  -- the digits are all that stands behind the sign
  have hdigits : t.drop (signLength t) = m.digits := by
    refine (List.takeWhile_prefix isdigit).eq_of_length ?_ |>.symm
    rw [List.length_drop]
    change (looseDigits raw).length = _
    omega
  have hsign : t.take (signLength t) = [] ∨ t.take (signLength t) = [43] ∨
      t.take (signLength t) = [45] := by
    unfold signLength
    cases t with
    | nil => exact .inl (by simp)
    | cons c t =>
      rw [List.headD_cons]
      split
      · next hc =>
        rcases hc with rfl | rfl
        · exact .inr (.inl rfl)
        · exact .inr (.inr rfl)
      · exact .inl rfl
  have hall := Loose.number (raw.takeWhile isspace) (t.take (signLength t)) m hblanks hsign
  rw [← hdigits, List.take_append_drop, hraw] at hall
  exact ⟨_, hall⟩

theorem Loose.unique {raw : Bytes} {v w : ℤ} (hv : Loose raw v) (hw : Loose raw w) : v = w :=
  hv.read.2.1.symm.trans hw.read.2.1

/-! ### Decimal numbers -/

/-- A decimal number is its own C string. -/
theorem IsDecimal.cStr {str : Bytes} {v : ℤ} (h : IsDecimal str v) : cStr str = str := by
  refine List.takeWhile_eq_self_iff.mpr fun c hc => ?_
  obtain ⟨m, ⟨rfl, -⟩ | ⟨rfl, -⟩⟩ := h
  · have hd := m.isdigit c hc
    rw [decide_eq_true_eq]
    rintro rfl
    exact absurd hd (by decide)
  · rw [decide_eq_true_eq]
    rintro rfl
    rcases List.mem_cons.mp hc with h | h
    · exact absurd h (by decide)
    · exact absurd (m.isdigit 0 h) (by decide)

/-- The library functions use up every decimal number. -/
theorem IsDecimal.loose {str : Bytes} {v : ℤ} (h : IsDecimal str v) : Loose (Comms.cStr str) v := by
  rw [h.cStr]
  obtain ⟨m, ⟨rfl, rfl⟩ | ⟨rfl, rfl⟩⟩ := h
  · exact Loose.number [] [] m (by simp) (.inl rfl)
  · exact Loose.number [] [45] m (by simp) (.inr (.inr rfl))

/-! ### The conversions -/

theorem stringToInt64_eq (str : Bytes) : stringToInt64 str =
    if looseLength (cStr str) = (cStr str).length then
      some (max (-2 ^ 63) (min (2 ^ 63 - 1) (looseValue (cStr str)))) else none := by
  unfold stringToInt64
  rw [strtol_loose]

theorem stringToInt64_holds {str : Bytes} {v : ℤ} (h : stringToInt64 str = some v) :
    IntType.int64.Holds v := by
  rw [stringToInt64_eq] at h
  split at h
  · obtain rfl := Option.some.inj h
    change -2 ^ 63 ≤ _ ∧ _ < 2 ^ 63
    omega
  · cases h

/-- Nothing that is left over is accepted. -/
theorem IntType.parse_none (t : IntType) {str : Bytes} (h : ∀ w, ¬ Loose (cStr str) w) :
    t.parse str = none := by
  have hlen : looseLength (cStr str) ≠ (cStr str).length := fun hlen =>
    (loose_of_length hlen).elim h
  have h64 : stringToInt64 str = none := by rw [stringToInt64_eq, if_neg hlen]
  cases t with
  | int64 => exact h64
  | int32 =>
    unfold parse stringToInt32
    rw [h64]
    rfl
  | uint32 =>
    unfold parse stringToUInt32
    rw [h64]
    rfl
  | uint64 =>
    unfold parse stringToUInt64
    rw [strtoull_loose]
    dsimp only
    rw [if_neg hlen]
    rfl

/-- A number of the type is read as it is. -/
theorem IntType.parse_holds (t : IntType) {str : Bytes} {w : ℤ} (h : Loose (cStr str) w)
    (hw : t.Holds w) : t.parse str = some w := by
  obtain ⟨hlen, hvalue, hdigits⟩ := h.read
  have h64 : t ≠ uint64 → stringToInt64 str = some w := by
    intro ht
    rw [stringToInt64_eq, if_pos hlen, hvalue]
    congr 1
    cases t with
    | uint64 => exact absurd rfl ht
    | int64 => unfold Holds at hw; dsimp only at hw; omega
    | int32 => unfold Holds at hw; dsimp only at hw; omega
    | uint32 => unfold Holds at hw; dsimp only at hw; omega
  unfold Holds at hw
  cases t with
  | int64 => exact h64 (by decide)
  | int32 =>
    unfold parse stringToInt32
    dsimp only at hw ⊢
    rw [h64 (by decide), Option.bind_some, if_neg (by omega)]
  | uint32 =>
    unfold parse stringToUInt32
    dsimp only at hw ⊢
    rw [h64 (by decide), Option.bind_some, if_neg (by omega), Option.map_some]
    exact congrArg some (Int.toNat_of_nonneg hw.1)
  | uint64 =>
    unfold parse stringToUInt64
    dsimp only at hw ⊢
    rw [strtoull_loose, hvalue, hdigits]
    dsimp only
    rw [if_pos hlen, if_neg (by omega), Option.map_some]
    exact congrArg some (by omega)

/-- A number out of the type's range is refused by the conversions that check. -/
theorem IntType.parse_checked {t : IntType} {str : Bytes} {w : ℤ} (h : Loose (cStr str) w)
    (ht : t.Checked) (hw : ¬ t.Holds w) : t.parse str = none := by
  obtain ⟨hlen, hvalue, -⟩ := h.read
  unfold Holds at hw
  rcases ht with rfl | rfl
  · unfold parse stringToInt32
    dsimp only at hw ⊢
    rw [stringToInt64_eq, if_pos hlen, hvalue, Option.bind_some, if_pos (by omega)]
  · unfold parse stringToUInt32
    dsimp only at hw ⊢
    rw [stringToInt64_eq, if_pos hlen, hvalue, Option.bind_some, if_pos (by omega)]
    rfl

/-- The others accept whatever is used up. -/
theorem IntType.parse_unchecked {t : IntType} {str : Bytes} {w : ℤ} (h : Loose (cStr str) w)
    (ht : ¬ t.Checked) : ∃ v, t.parse str = some v := by
  obtain ⟨hlen, -, -⟩ := h.read
  cases t with
  | int64 =>
    unfold parse
    dsimp only
    rw [stringToInt64_eq, if_pos hlen]
    exact ⟨_, rfl⟩
  | uint64 =>
    unfold parse stringToUInt64
    dsimp only
    rw [strtoull_loose]
    dsimp only
    rw [if_pos hlen]
    exact ⟨_, rfl⟩
  | int32 => exact absurd (.inl rfl) ht
  | uint32 => exact absurd (.inr rfl) ht

theorem IntType.convert_some {t : IntType} {str : Bytes} {v : ℤ} (h : t.parse str = some v)
    (value : ℤ) : t.convert str value = (true, v) := by
  unfold convert
  rw [h]

theorem IntType.convert_none {t : IntType} {str : Bytes} (h : t.parse str = none) (value : ℤ) :
    t.convert str value = (false, value) := by
  unfold convert
  rw [h]

/-- **Where the conversions are exact.** What `strtoll` uses up of the C string (for the 32-bit
types only as far as its value is in range) has to be the whole string, a plain decimal number of
the type. -/
theorem exact_iff (t : IntType) (str : Bytes) :
    t.Exact str ↔ ∀ w, Loose (cStr str) w → (t.Checked → t.Holds w) →
      IsDecimal str w ∧ t.Holds w := by
  constructor
  · intro hexact w hw hchecked
    have haccepted : ∃ v, t.parse str = some v := by
      by_cases ht : t.Checked
      · exact ⟨w, t.parse_holds hw (hchecked ht)⟩
      · exact IntType.parse_unchecked hw ht
    obtain ⟨u, hu⟩ := haccepted
    -- an accepted string is a number of the type, or it would have been refused
    by_contra hnot
    have hnone : ∀ v, IsDecimal str v → ¬ t.Holds v := by
      intro v hv hholds
      obtain rfl := hv.loose.unique hw
      exact hnot ⟨hv, hholds⟩
    have hrefused := (hexact 0).2 hnone
    rw [IntType.convert_some hu] at hrefused
    cases hrefused
  · intro h value
    refine ⟨fun v hv hholds => IntType.convert_some (t.parse_holds hv.loose hholds) value,
      fun hnone => IntType.convert_none ?_ value⟩
    by_cases hloose : ∃ w, Loose (cStr str) w
    swap
    · exact t.parse_none (not_exists.mp hloose)
    obtain ⟨w, hw⟩ := hloose
    by_cases hside : t.Checked → t.Holds w
    · obtain ⟨hdec, hholds⟩ := h w hw hside
      exact absurd hholds (hnone w hdec)
    · obtain ⟨ht, hholds⟩ := Classical.not_imp.mp hside
      exact IntType.parse_checked hw ht hholds

/-- The empty string is the number `0`. -/
theorem empty_not_exact : ¬ ∀ (t : IntType) (str : Bytes), t.Exact str := by
  intro h
  have hrefused := (h .int64 [] 7).2 fun v hv => by
    obtain ⟨m, ⟨hm, -⟩ | ⟨hm, -⟩⟩ := hv
    · exact absurd hm.symm m.ne
    · cases hm
  exact absurd hrefused (by decide)

end Comms
