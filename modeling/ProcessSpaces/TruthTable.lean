import ProcessSpaces.Evaluation
import ProcessSpaces.Log
import ProcessSpaces.Valuation.Sequence

/-!
# Truth tables

The truth table of an expression has a row for each valuation of its variables, in the order
of `Valuation.nth`, with the value of the expression under it. An expression is **valid** if it
is true in every row; the rows in which it is not are its counterexamples.

`tabulate` makes the table of an expression, row after row, and keeps a log of what it does.
It ends at the first row that has no value, with the error of that row, and then there is no
table at all.
-/

namespace ProcessSpaces

/-- The truth table of an expression. -/
structure TruthTable where
  /-- The expression as it was given. -/
  expression : String
  /-- The names of the variables, in the order in which they first occur. -/
  names : List String
  /-- The rows in the order of their valuations. -/
  rows : List Row
deriving DecidableEq

namespace TruthTable

/-- Whether the expression is true in every row. -/
def isValid (t : TruthTable) : Bool := t.rows.all Row.holds

/-- The rows in which the expression is not true. -/
def counterexamples (t : TruthTable) : List Row := t.rows.filter fun r => !r.holds

/-- The table as it is written: the expression and the rows, a line each. -/
def text (t : TruthTable) : String :=
  t.expression ++ "\n" ++ String.join (t.rows.map fun r => r.text ++ "\n")

end TruthTable

/-- The rows of the tokens from the valuation with the number `index` on, at most `count` of
them, behind the rows `done`; and the error at which they break off, if one of them has no
value. No valuation is computed before its row is due, since there may be far more of them than
rows that have a value. -/
def rowsFrom (tokens : List Token) (names : List String) :
    (count index : Nat) → (done : Array Row) → Array Row × Option EvalError
  | 0, _, done => (done, none)
  | count + 1, index, done =>
    let σ := Valuation.nth names index
    match valueOf σ tokens with
    | .ok v => rowsFrom tokens names count (index + 1) (done.push ⟨σ, v⟩)
    | .error e => (done, some e)

/-- What comes behind the rows `done` does not depend on them. -/
theorem rowsFrom_eq_append (tokens : List Token) (names : List String) (count index : Nat)
    (done : Array Row) :
    rowsFrom tokens names count index done =
      (done ++ (rowsFrom tokens names count index #[]).1,
        (rowsFrom tokens names count index #[]).2) := by
  induction count generalizing index done with
  | zero => simp [rowsFrom]
  | succ count ih =>
    simp only [rowsFrom]
    cases valueOf (Valuation.nth names index) tokens with
    | error e => simp
    | ok v =>
      -- both sides go on behind one more row, which is the last of `done` on the left
      simp only
      rw [ih, ih (index + 1) (#[].push _)]
      simp

/-- Makes the truth table of an expression. -/
def tabulate (expression : String) : Logged TruthTable :=
  let tokens := tokensOf expression
  let names := variablesOf tokens
  match Valuation.count names.length with
  | .error e => ⟨[], .error e⟩
  | .ok count =>
    let (rows, failure?) := rowsFrom tokens names count 0 #[]
    { log := .enumerating count names expression :: rows.toList.map .row
      result :=
        match failure? with
        | none => .ok ⟨expression, names, rows.toList⟩
        | some e => .error e }

end ProcessSpaces
