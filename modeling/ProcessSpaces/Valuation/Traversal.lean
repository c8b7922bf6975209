import ProcessSpaces.Valuation.Sequence

/-!
# Going through the valuations with machine words

A `Cursor` may hold numbers of any size. Here the valuations of a list of names are gone through
as a machine does it, which has a fixed number of bits for each number.

* The valuation with a given number is made by filling slots, one for each name, from the last
  to the first. Each takes the remainder of the number by three, and the number is divided by three
  before the next one (`Valuation.fill`).
* A `WordCursor` holds the number of the next valuation and the number of all valuations, and goes
  from one valuation to the next. Every sum and every difference is checked: where the result is no
  machine word there is a `Fault` in its place (`checkedAdd`, `checkedSub`).

Who goes through the valuations may ask for the next one, or for a later one, or for how many there
are still to come, and may keep copies of the place and go back to them. `Iteration.run` answers a
list of such requests. It leaves open what the places are: they may be word cursors, or cursors, or
simply the lists of what is still to come, and these last say what the answers ought to be
(`Iteration.ofList`).
-/

namespace ProcessSpaces

/-! ### Checked arithmetic -/

/-- What must not happen to a program that counts with machine words. -/
inductive Fault where
  /-- The result of an operation is no machine word. -/
  | overflow
  /-- Two bounds that should be the same are not. -/
  | inexact
deriving DecidableEq, Repr

/-- The sum of two machine words, if it is one. -/
def checkedAdd (a b : UInt64) : Except Fault UInt64 :=
  if a.toNat + b.toNat ≤ maxWord then .ok (a + b) else .error .overflow

/-- The difference of two machine words, if it is one. -/
def checkedSub (a b : UInt64) : Except Fault UInt64 :=
  if b ≤ a then .ok (a - b) else .error .overflow

namespace Valuation

/-- Fills slots with the digits of a number in base three, from the last to the first, and answers
with what is left of the number. A remainder that is no digit would count as `reject`. -/
def fill : (slots : List Truth) → (number : UInt64) → List Truth × UInt64
  | [], number => ([], number)
  | _ :: slots, number =>
    let (filled, left) := fill slots number
    ((Truth.ofDigit? (left % 3).toNat).getD .reject :: filled, left / 3)

/-- The valuation that has a machine word as its number. -/
def nthWord (names : List String) (number : UInt64) : Valuation :=
  ofList (names.zip (fill (List.replicate names.length .reject) number).1)

end Valuation

/-! ### Cursors on machine words -/

/-- A place in the sequence of the valuations of a list of names, in two machine words. -/
structure WordCursor where
  /-- The names. -/
  names : List String
  /-- The number of the valuation that comes next. -/
  index : UInt64
  /-- The number of all valuations. -/
  stop : UInt64
deriving DecidableEq, Repr

namespace WordCursor

/-- The place in front of the first valuation, if the valuations can be counted. -/
def start (names : List String) : Except EvalError WordCursor := do
  let n ← Valuation.count names.length
  return ⟨names, 0, .ofNat n⟩

/-- Takes the next valuation, if there is one. -/
def next? (c : WordCursor) : Except Fault (Option Valuation × WordCursor) :=
  if c.stop ≤ c.index then .ok (none, c)
  else do
    let index ← checkedAdd c.index 1
    return (some (Valuation.nthWord c.names c.index), { c with index })

/-- Passes over `k` valuations, one after the other, and takes the one behind them. -/
def nth? : (k : Nat) → (c : WordCursor) → Except Fault (Option Valuation × WordCursor)
  | 0, c => c.next?
  | k + 1, c => do
    match ← c.next? with
    | (none, c) => return (none, c)
    | (some _, c) => nth? k c

/-- A lower and an upper bound for the number of valuations that are still to come. -/
def bounds (c : WordCursor) : Except Fault (Nat × Option Nat) := do
  let n ← checkedSub c.stop c.index
  return (n.toNat, some n.toNat)

/-- The number of valuations that are still to come, read off the bounds. -/
def length (c : WordCursor) : Except Fault Nat := do
  let (lower, upper?) ← c.bounds
  if upper? = some lower then return lower else .error .inexact

end WordCursor

/-! ### Requests -/

/-- What one may ask for who goes through the valuations. -/
inductive Request where
  /-- The next valuation. -/
  | next
  /-- The valuation that comes after the next `k`. -/
  | nth (k : UInt64)
  /-- The number of valuations that are still to come. -/
  | length
  /-- Bounds for this number. -/
  | bounds
  /-- To keep a copy of the place. -/
  | save
  /-- To go on from the copy with the number `i`. -/
  | restore (i : Nat)
deriving DecidableEq, Repr

/-- The answer to a request. -/
inductive Reply where
  /-- A valuation, or none at the end. -/
  | item (σ? : Option Valuation)
  /-- The number of valuations that are still to come. -/
  | length (n : Nat)
  /-- Bounds for this number. -/
  | bounds (lower : Nat) (upper? : Option Nat)
  /-- What was asked for is done. -/
  | done
deriving DecidableEq

/-- A way to go through valuations, in which the places are of the type `γ`. -/
structure Iteration (γ : Type) where
  /-- Takes the next valuation. -/
  next : γ → Except Fault (Option Valuation × γ)
  /-- Passes over some valuations and takes the one behind them. -/
  nth : Nat → γ → Except Fault (Option Valuation × γ)
  /-- The number of valuations that are still to come. -/
  length : γ → Except Fault Nat
  /-- Bounds for this number. -/
  bounds : γ → Except Fault (Nat × Option Nat)

/-- The place where one is and the copies of places that have been kept. -/
structure Traversal (γ : Type) where
  /-- The place where one is. -/
  current : γ
  /-- The copies, in the order in which they were made. -/
  kept : List γ

namespace Iteration

variable {γ : Type}

/-- Answers a request. A copy that has never been made cannot be gone back to. -/
def answer (I : Iteration γ) : Request → Traversal γ → Except Fault (Reply × Traversal γ)
  | .next, t => do
    let (σ?, c) ← I.next t.current
    return (.item σ?, { t with current := c })
  | .nth k, t => do
    let (σ?, c) ← I.nth k.toNat t.current
    return (.item σ?, { t with current := c })
  | .length, t => do
    let n ← I.length t.current
    return (.length n, t)
  | .bounds, t => do
    let (lower, upper?) ← I.bounds t.current
    return (.bounds lower upper?, t)
  | .save, t => return (.done, { t with kept := t.kept ++ [t.current] })
  | .restore i, t => return (.done, { t with current := t.kept.getD i t.current })

/-- Answers requests one after the other. -/
def run (I : Iteration γ) : List Request → Traversal γ → Except Fault (List Reply × Traversal γ)
  | [], t => return ([], t)
  | request :: requests, t => do
    let (reply, t) ← I.answer request t
    let (replies, t) ← run I requests t
    return (reply :: replies, t)

/-- Going through a list, the place in which is the list of what is still to come. -/
def ofList : Iteration (List Valuation) where
  next l := .ok (l.head?, l.tail)
  nth k l := .ok (l[k]?, l.drop (k + 1))
  length l := .ok l.length
  bounds l := .ok (l.length, some l.length)

/-- Going through the valuations with a cursor. -/
def ofCursor : Iteration Cursor where
  next c := .ok c.next?
  nth k c := .ok (c.take? k)
  length c := .ok c.remaining
  bounds c := .ok (c.remaining, some c.remaining)

/-- Going through the valuations with machine words. -/
def ofWords : Iteration WordCursor where
  next := WordCursor.next?
  nth := WordCursor.nth?
  length := WordCursor.length
  bounds := WordCursor.bounds

end Iteration

end ProcessSpaces
