import ProcessSpaces.EvalError
import ProcessSpaces.Valuation.Basic

/-!
# The valuations of a list of names, one after the other

There are three to the power `n` ways to give each of `n` names a truth value
(`Valuation.number`). They are numbered from `0`, and the number of a valuation, written in base
three with one digit for each name, spells out its values: the first name has the most
significant digit (`Valuation.choices`). Counting up therefore changes the last name fastest.

A table has a row for each valuation, so their number has to fit in a machine word. It does up
to `maxVariables` names and no further (`Valuation.number_le_maxWord_iff`), and longer lists are
refused.

`Cursor` is a place in this sequence. It holds no list: the valuation at a number is computed
from the number, so that a cursor moves over any distance in one step.
-/

namespace ProcessSpaces

/-- The greatest number of names whose valuations can be counted in a machine word. -/
def maxVariables : Nat := 40

/-- The greatest number that fits in a machine word. -/
def maxWord : Nat := UInt64.size - 1

namespace Valuation

/-- The number of valuations of `n` names. -/
def number (n : Nat) : Nat := Nat.pow 3 n

theorem number_le_number {m n : Nat} (h : m ≤ n) : number m ≤ number n :=
  Nat.pow_le_pow_right (by decide) h

/-- The valuations of up to forty names can be counted in a machine word, and of no more. -/
theorem number_le_maxWord_iff {n : Nat} : number n ≤ maxWord ↔ n ≤ maxVariables := by
  constructor
  · intro h
    refine Nat.le_of_not_lt fun hn => ?_
    have h41 : number 41 ≤ maxWord := Nat.le_trans (number_le_number hn) h
    exact absurd h41 (by decide)
  · intro h
    have h40 : number maxVariables ≤ maxWord := by decide
    exact Nat.le_trans (number_le_number h) h40

/-- The number of valuations of `n` names, if it fits in a machine word. -/
def count (n : Nat) : Except EvalError Nat :=
  if n ≤ maxVariables then .ok (number n) else .error (.tooManyVariables n)

/-- The names with the values that the number `i` spells out in base three. -/
def choices : List String → Nat → List (String × Truth)
  | [], _ => []
  | x :: xs, i =>
    let digit : Fin 3 := ⟨i / number xs.length % 3, Nat.mod_lt _ (by decide)⟩
    (x, Truth.ofDigit digit) :: choices xs i

/-- The valuation with the number `i`. A name that is listed twice keeps its first place and
takes its last value. -/
def nth (names : List String) (i : Nat) : Valuation := ofList (choices names i)

@[simp] theorem map_fst_choices (names : List String) (i : Nat) :
    (choices names i).map Prod.fst = names := by
  induction names with
  | nil => rfl
  | cons x xs ih => simp [choices, ih]

end Valuation

/-- A place in the sequence of the valuations of a list of names. -/
structure Cursor where
  /-- The names. -/
  names : List String
  /-- The number of the valuation that comes next. -/
  index : Nat
  /-- The valuations can be counted. -/
  length_le : names.length ≤ maxVariables
  /-- The place is not behind the end of the sequence. -/
  index_le : index ≤ Valuation.number names.length

namespace Cursor

/-- The place in front of the first valuation, if the valuations can be counted. -/
def start (names : List String) : Except EvalError Cursor :=
  if h : names.length ≤ maxVariables then
    .ok ⟨names, 0, h, Nat.zero_le _⟩
  else
    .error (.tooManyVariables names.length)

/-- The number of valuations that are still to come. -/
def remaining (c : Cursor) : Nat := Valuation.number c.names.length - c.index

/-- The place behind the next `k` valuations, or the end if there are not as many. -/
def skip (c : Cursor) (k : Nat) : Cursor :=
  { c with index := min (c.index + k) (Valuation.number c.names.length), index_le := Nat.min_le_right _ _ }

/-- The valuation that comes after the next `k`, if there is one. -/
def get? (c : Cursor) (k : Nat) : Option Valuation :=
  if k < c.remaining then some (Valuation.nth c.names (c.index + k)) else none

/-- Passes over `k` valuations and takes the one behind them. At the end of the sequence there
is none to take. -/
def take? (c : Cursor) (k : Nat) : Option Valuation × Cursor := (c.get? k, c.skip (k + 1))

/-- Takes the next valuation. -/
def next? (c : Cursor) : Option Valuation × Cursor := c.take? 0

/-- The valuations that are still to come. -/
def toList (c : Cursor) : List Valuation :=
  (List.range c.remaining).map fun k => Valuation.nth c.names (c.index + k)

theorem remaining_skip (c : Cursor) (k : Nat) : (c.skip k).remaining = c.remaining - k := by
  simp only [remaining, skip]; omega

@[simp] theorem length_toList (c : Cursor) : c.toList.length = c.remaining := by
  simp [toList]

/-- Looking ahead by `k` finds the `k`-th of the valuations still to come. -/
theorem getElem?_toList (c : Cursor) (k : Nat) : c.toList[k]? = c.get? k := by
  by_cases h : k < c.remaining
  · simp [toList, get?, h]
  · simp [toList, get?, h]

/-- Skipping `k` valuations drops them from those still to come. -/
theorem toList_skip (c : Cursor) (k : Nat) : (c.skip k).toList = c.toList.drop k := by
  apply List.ext_getElem?
  intro j
  rw [List.getElem?_drop, getElem?_toList, getElem?_toList]
  simp only [get?, remaining_skip]
  by_cases h : j < c.remaining - k
  · have hk : k + j < c.remaining := by omega
    have hi : (c.skip k).index = c.index + k := by
      simp only [skip, remaining] at h ⊢; omega
    rw [if_pos h, if_pos hk, hi, Nat.add_assoc]; rfl
  · rw [if_neg h, if_neg (by omega)]

end Cursor

end ProcessSpaces
