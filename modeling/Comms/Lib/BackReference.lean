import Mathlib.Data.List.Basic

/-!
# Literals and back references

A text in pieces, of which each is either items as they are, or a number of items that stand some way
back in the text made so far. A copy may reach into what it makes itself.

* `Token`, `copyBack`, `expand` — the pieces, and the text they make;
* `copyBack_take` — a copy continues a text, if that repeats there what stands before;
* `expand_concat_literal`, `expand_concat_reference` — one piece more.
-/

namespace Comms
namespace BackReference

variable {α : Type}

/-- Items as they are, or `n` items from `off + 1` items back. -/
inductive Token (α : Type)
  | literal (xs : List α)
  | reference (off n : ℕ)

/-- `n` items one after the other, each from `off + 1` items back; nothing if there is none. -/
def copyBack (off : ℕ) : ℕ → List α → Option (List α)
  | 0, out => some out
  | n + 1, out => (out.reverse[off]?).bind fun x => copyBack off n (out ++ [x])

/-- The text of the tokens, behind `out`. -/
def expand : List (Token α) → List α → Option (List α)
  | [], out => some out
  | .literal xs :: ts, out => expand ts (out ++ xs)
  | .reference off n :: ts, out => (copyBack off n out).bind (expand ts)

theorem expand_append (ts us : List (Token α)) (out : List α) :
    expand (ts ++ us) out = (expand ts out).bind (expand us) := by
  induction ts generalizing out with
  | nil => rfl
  | cons t ts ih =>
    cases t with
    | literal xs => exact ih (out ++ xs)
    | reference off n =>
      change (copyBack off n out).bind (expand (ts ++ us)) = ((copyBack off n out).bind (expand ts)).bind _
      rw [Option.bind_assoc]
      exact congrArg _ (funext ih)

/-- A copy keeps what is there, and adds `n` items. -/
theorem copyBack_prefix {off n : ℕ} {out r : List α} (h : copyBack off n out = some r) :
    ∃ xs, xs.length = n ∧ r = out ++ xs := by
  induction n generalizing out with
  | zero => exact ⟨[], rfl, by rw [List.append_nil]; exact (Option.some.inj h).symm⟩
  | succ n ih =>
    obtain ⟨x, -, hx⟩ := Option.bind_eq_some_iff.mp h
    obtain ⟨xs, hlen, rfl⟩ := ih hx
    exact ⟨x :: xs, congrArg (· + 1) hlen, by rw [List.append_assoc]; rfl⟩

/-- The tokens keep what is there. -/
theorem expand_prefix {ts : List (Token α)} {out r : List α} (h : expand ts out = some r) :
    ∃ xs, r = out ++ xs := by
  induction ts generalizing out with
  | nil => exact ⟨[], by rw [List.append_nil]; exact (Option.some.inj h).symm⟩
  | cons t ts ih =>
    cases t with
    | literal xs =>
      obtain ⟨ys, rfl⟩ := ih h
      exact ⟨xs ++ ys, List.append_assoc _ _ _⟩
    | reference off n =>
      obtain ⟨mid, hmid, hrest⟩ := Option.bind_eq_some_iff.mp h
      obtain ⟨xs, -, rfl⟩ := copyBack_prefix hmid
      obtain ⟨ys, rfl⟩ := ih hrest
      exact ⟨xs ++ ys, List.append_assoc _ _ _⟩

/-- The last items of the front of a text. -/
theorem getElem?_reverse_take {whole : List α} {p off : ℕ} (hoff : off < p) (hp : p ≤ whole.length) :
    (whole.take p).reverse[off]? = whole[p - 1 - off]? := by
  have hlen : (whole.take p).length = p := List.length_take_of_le hp
  rw [List.getElem?_reverse (hlen.symm ▸ hoff), hlen, List.getElem?_take_of_lt (by omega)]

/-- **A copy continues the text** where that repeats for `n` items what stands `off + 1` items before. -/
theorem copyBack_take {whole : List α} {p off n : ℕ} (hoff : off < p) (hend : p + n ≤ whole.length)
    (hrep : ∀ i < n, whole[p + i]? = whole[p + i - 1 - off]?) :
    copyBack off n (whole.take p) = some (whole.take (p + n)) := by
  induction n generalizing p with
  | zero => rfl
  | succ n ih =>
    have hlt : p < whole.length := by omega
    have hfirst : (whole.take p).reverse[off]? = some whole[p] := by
      rw [getElem?_reverse_take hoff (by omega), ← List.getElem?_eq_getElem hlt]
      exact (hrep 0 (by omega)).symm
    rw [copyBack, hfirst, Option.bind_some, List.take_append_getElem hlt]
    have hrest := @ih (p + 1) (by omega) (by omega) fun i hi => by
      have h := hrep (i + 1) (by omega)
      rwa [show p + (i + 1) = p + 1 + i by omega] at h
    rw [hrest]
    exact congrArg some (congrArg whole.take (by omega))

section Concat

variable {whole : List α} {ts : List (Token α)} {p n : ℕ} (h : expand ts [] = some (whole.take p))
include h

/-- One literal more. -/
theorem expand_concat_literal (n : ℕ) :
    expand (ts ++ [.literal ((whole.drop p).take n)]) [] = some (whole.take (p + n)) := by
  rw [expand_append, h, Option.bind_some, List.take_add]
  rfl

/-- One reference more. -/
theorem expand_concat_reference {off : ℕ} (hoff : off < p) (hend : p + n ≤ whole.length)
    (hrep : ∀ i < n, whole[p + i]? = whole[p + i - 1 - off]?) :
    expand (ts ++ [.reference off n]) [] = some (whole.take (p + n)) := by
  rw [expand_append, h, Option.bind_some, expand, copyBack_take hoff hend hrep]
  rfl

end Concat

end BackReference
end Comms
