import ProcessSpaces.Valuation.Basic
import ProcessSpaces.Value

/-!
# Rows of truth tables

A row pairs a valuation of the variables with the value of an expression under it.
-/

namespace ProcessSpaces

/-- A row of a truth table. -/
structure Row where
  /-- The values of the variables. -/
  valuation : Valuation
  /-- The value of the expression. -/
  value : Value
deriving DecidableEq

namespace Row

/-- Whether the expression is true, which no truth value of the logic counts as. -/
def holds (r : Row) : Bool := r.value = .boolean true

/-- The row as it is written in a table. -/
def text (r : Row) : String := r.valuation.text ++ " " ++ r.value.text

@[simp] theorem holds_iff {r : Row} : r.holds = true ↔ r.value = .boolean true := by
  simp [holds]

end Row

end ProcessSpaces
