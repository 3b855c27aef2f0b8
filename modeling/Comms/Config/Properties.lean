import Mathlib.Logic.Function.Basic
import Comms.Command.Args
import Comms.Lib.Occurrence

/-!
# Properties

`util/config_helper.cpp`: a configuration file is a map from names to the lines that have them, and
a value is the first of the first line.

* `confSet`, `confDel` — what `CONFIG SET`, `ADD` and `DEL` do to the map;
* `confGetString`, `confGetInt64`, `confGetBool` — reading a value over one that is there already;
* `replaceEnvVar` — the variables of the environment.
-/

namespace Comms

/-- An ASCII text. -/
def ascii (s : String) : Bytes := s.toList.map (·.toNat.toUInt8)

namespace Config

/-- `ConfItems`: what stands behind a name on one line, never nothing. -/
structure ConfItems where
  first : Bytes
  rest : List Bytes
deriving DecidableEq, Repr

/-- `Properties`. -/
abbrev Properties := Bytes → Option (List ConfItems)

/-- `conf_set`. -/
def confSet (conf : Properties) (name value : Bytes) (replace : Bool) : Properties :=
  Function.update conf name
    (some ((if replace then [] else (conf name).getD []) ++ [⟨value, []⟩]))

/-- `conf_del`. A name that is not there gets an entry without lines. -/
def confDel (conf : Properties) (name value : Bytes) : Properties :=
  let arrays := (conf name).getD []
  if arrays = [] then Function.update conf name (some [])
  else
    let arrays := arrays.eraseP (·.first = value)
    Function.update conf name (if arrays = [] then none else some arrays)

/-- `found->second[0][0]`, if it is there. -/
def value? (conf : Properties) (name : Bytes) : Option Bytes :=
  (conf name).bind fun arrays => arrays.head?.map ConfItems.first

/-! ### Reading -/

/-- `str.find(pat, start)`, for a `pat` that is not empty. -/
def find (str pat : Bytes) (start : ℕ) : Option ℕ :=
  ((str.drop start).tails.findIdx? (pat.isPrefixOf ·)).map (start + ·)

theorem find_eq (str pat : Bytes) (start : ℕ) :
    find str pat start = (Occurrence.first (str.drop start) pat).map (start + ·) := rfl

/-- `find`, from the front. -/
theorem find_zero (str pat : Bytes) : find str pat 0 = Occurrence.first str pat := by
  rw [find_eq, List.drop_zero]
  cases Occurrence.first str pat <;> simp

/-- `std::string::npos`. -/
def npos : ℕ := 2 ^ 64 - 1

/-- `toupper`. -/
def toUpper (c : UInt8) : UInt8 := if 97 ≤ c ∧ c ≤ 122 then c - 32 else c

/-- `str.find(unit) == str.size() - unit.size()`. -/
def endsInUnit (str unit : Bytes) : Bool :=
  (find str unit 0).getD npos = (str.length + 2 ^ 64 - unit.length) % 2 ^ 64

/-- What `conf_get_int64` makes of a text, and whether it answers `true`. -/
def sizedInt64 (text : Bytes) : Bool × ℤ :=
  match stringToInt64 text with
  | some value => (true, value)
  | none =>
    let sizeStr := text.map toUpper
    let value := (strtol (cStr sizeStr)).1
    if endsInUnit sizeStr (ascii "M") || endsInUnit sizeStr (ascii "MB") then
      (true, (value * 2 ^ 20).bmod (2 ^ 64))
    else if endsInUnit sizeStr (ascii "G") || endsInUnit sizeStr (ascii "GB") then
      (true, (value * 2 ^ 30).bmod (2 ^ 64))
    else if endsInUnit sizeStr (ascii "K") || endsInUnit sizeStr (ascii "KB") then
      (true, (value * 2 ^ 10).bmod (2 ^ 64))
    else (false, value)

/-- `conf_get_int64`: what it answers, and `value` after it. -/
def confGetInt64 (conf : Properties) (name : Bytes) (value : ℤ) (ignoreNonexist : Bool) :
    Bool × ℤ :=
  match value? conf name with
  | none => (ignoreNonexist, value)
  | some text => sizedInt64 text

/-- `conf_get_string`. -/
def confGetString (conf : Properties) (name value : Bytes) (ignoreNonexist : Bool) : Bool × Bytes :=
  match value? conf name with
  | none => (ignoreNonexist, value)
  | some text => (true, text)

/-- `conf_get_bool`. -/
def confGetBool (conf : Properties) (name : Bytes) (value ignoreNonexist : Bool) : Bool × Bool :=
  match value? conf name with
  | none => (ignoreNonexist, value)
  | some text =>
    (true, eqNoCase text (ascii "true") || eqNoCase text (ascii "1") || eqNoCase text (ascii "yes"))

section Reading

variable (conf : Properties) (name : Bytes)

/-- Reading the value again changes nothing. -/
@[simp] theorem confGetInt64_again (value : ℤ) :
    (confGetInt64 conf name (confGetInt64 conf name value false).2 false).2 =
      (confGetInt64 conf name value false).2 := by
  unfold confGetInt64
  cases value? conf name <;> rfl

@[simp] theorem confGetString_again (value : Bytes) :
    (confGetString conf name (confGetString conf name value false).2 false).2 =
      (confGetString conf name value false).2 := by
  unfold confGetString
  cases value? conf name <;> rfl

@[simp] theorem confGetBool_again (value : Bool) :
    (confGetBool conf name (confGetBool conf name value false).2 false).2 =
      (confGetBool conf name value false).2 := by
  unfold confGetBool
  cases value? conf name <;> rfl

end Reading

/-- `split_string(str, sep)`, for one character. -/
def splitString (str : Bytes) (sep : UInt8) : List Bytes :=
  (str.splitOnP (· = sep)).filter (· ≠ [])

/-- `split_uint32_array`, into an array that is empty; `none` is `-1`, after which the array is
cleared. -/
def splitUint32Array (str : Bytes) (sep : UInt8) : Option (List ℕ) :=
  (splitString str sep).mapM stringToUInt32

/-! ### The environment -/

/-- The variables of a value, from the left. `fuel` bounds the replacements: a variable whose value
contains itself is replaced for ever. -/
def replaceEnv (getenv : Bytes → Option Bytes) : ℕ → Bytes → Bytes
  | 0, value => value
  | fuel + 1, value =>
    match find value (ascii "$\x7b") 0 with
    | none => value
    | some pos =>
      match find value (ascii "\x7d") (pos + 1) with
      | none => value
      | some next =>
        match getenv (cStr ((value.drop (pos + 2)).take (next - pos - 2))) with
        | none => value
        | some env => replaceEnv getenv fuel (value.take pos ++ env ++ value.drop (next + 1))

/-- `replace_env_var`. -/
def replaceEnvVar (getenv : Bytes → Option Bytes) (fuel : ℕ) (props : Properties) : Properties :=
  fun name => (props name).map fun arrays => arrays.map fun items =>
    ⟨replaceEnv getenv fuel items.first, items.rest.map (replaceEnv getenv fuel)⟩

end Config

end Comms
