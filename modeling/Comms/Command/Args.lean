import Comms.Codec.RedisCommand

/-!
# Arguments

The conversions of `util/string_helper.hpp` and `util/helpers.hpp` that handlers apply to their
arguments. All but `raw_toint64` work on the C string of an argument, which ends at its first NUL;
the empty string is the number `0` to them, since `strtoll` leaves `endptr` at its end.
-/

namespace Comms

/-- `str.c_str()`, up to the terminating NUL. -/
def cStr (str : Bytes) : Bytes := str.takeWhile (· ≠ 0)

/-- `string_toint64`: all of the C string is used up. -/
def stringToInt64 (str : Bytes) : Option ℤ :=
  let (value, n) := strtol (cStr str)
  if n = (cStr str).length then some value else none

/-- `string_touint32`. -/
def stringToUInt32 (str : Bytes) : Option ℕ :=
  (stringToInt64 str).bind fun v => if v < 0 ∨ 0xffffffff < v then none else some v.toNat

theorem stringToUInt32_lt {str : Bytes} {n : ℕ} (h : stringToUInt32 str = some n) : n < 2 ^ 32 := by
  obtain ⟨v, -, hv⟩ := Option.bind_eq_some_iff.1 h
  split at hv
  · cases hv
  · next hrange =>
    obtain rfl := Option.some.inj hv
    omega

/-- `string_toint32`. -/
def stringToInt32 (str : Bytes) : Option ℤ :=
  (stringToInt64 str).bind fun v => if 2147483647 < v ∨ v < -2147483648 then none else some v

/-- `strtoull(raw, &endptr, 10)`: a minus sign negates in unsigned arithmetic. -/
def strtoull (raw : Bytes) : ℕ × ℕ :=
  let blanks := (raw.takeWhile isspace).length
  let sign := (raw.drop blanks).headD 0
  let signs := if sign = 43 ∨ sign = 45 then 1 else 0
  let digits := (raw.drop (blanks + signs)).takeWhile isdigit
  if digits = [] then (0, 0)
  else
    let value := digitsValue digits
    (if 2 ^ 64 ≤ value then 2 ^ 64 - 1
      else if sign = 45 then (2 ^ 64 - value) % 2 ^ 64 else value,
      blanks + signs + digits.length)

/-- `string_touint64`. -/
def stringToUInt64 (str : Bytes) : Option ℕ :=
  let (value, n) := strtoull (cStr str)
  if n = (cStr str).length then some value else none

/-- `raw_toint64`: a plain decimal `int64`, without leading zeros. -/
def rawToInt64 (raw : Bytes) : Option ℤ :=
  if raw = [48] then some 0
  else
    let negative := raw.headD 0 = 45
    let digits := if negative then raw.drop 1 else raw
    if digits.headD 0 < 49 ∨ 57 < digits.headD 0 ∨ !digits.all isdigit then none
    else if negative then
      if 2 ^ 63 < digitsValue digits then none else some (-(digitsValue digits : ℤ))
    else if 2 ^ 63 ≤ digitsValue digits then none
    else some (digitsValue digits)

/-- `tolower` in the C locale. -/
def toLower (c : UInt8) : UInt8 := if 65 ≤ c ∧ c ≤ 90 then c + 32 else c

/-- `!strcasecmp(arg.c_str(), word)`, for a word in lower case. -/
def eqNoCase (arg word : Bytes) : Bool := (cStr arg).map toLower = word

/-- `pairs` of consecutive arguments; a last one that is alone is paired with the empty string. -/
def pairUp : List Bytes → List (Bytes × Bytes)
  | [] => []
  | [a] => [(a, [])]
  | a :: b :: rest => (a, b) :: pairUp rest

end Comms
