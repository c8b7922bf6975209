import ProcessSpaces.TruthTable

/-!
# What is printed about an expression

An expression is answered either with its whole truth table (`TruthTable.describe`) or with the
judgement whether it is valid (`TruthTable.judge`), which lists the counterexamples if there are
any. Blanks around the expression do not count, and if there is nothing between them, the answer
is a hint to the reader in place of a table.

`showTable` always gives the whole table. `answer` gives what was asked for, and ends with a line
feed in each of the three cases: the hint is the only text that needs one added.
-/

namespace ProcessSpaces

/-- What is answered where an expression is missing. -/
def hint : String :=
  "Please type a prefix expression using process spaces operators and any symbols for variables."

namespace TruthTable

/-- The text that shows the whole table. -/
def describe (t : TruthTable) : String :=
  s!"Your expression: {t.expression}\nTriuth table:\n{t.text}"

/-- The text that says whether the expression is valid, and where it is not true. -/
def judge (t : TruthTable) : String :=
  if t.isValid then
    s!"{t.expression}: holds in all {t.rows.length} rows\n"
  else
    s!"{t.expression}: does not hold\n" ++
      String.join (t.counterexamples.map fun r => s!"  {r.text}\n")

end TruthTable

/-- The table of the expression between the blanks, or the hint. -/
def showTable (raw : String) : Logged String :=
  let expression := Text.trim raw
  if expression.isEmpty then
    ⟨[], .ok hint⟩
  else
    (tabulate expression).map TruthTable.describe

/-- The lines printed for the expression between the blanks: the judgement on it if it is only
to be checked, and otherwise its table. -/
def answer (check : Bool) (raw : String) : Logged String :=
  let expression := Text.trim raw
  if expression.isEmpty then
    ⟨[], .ok (hint ++ "\n")⟩
  else
    (tabulate expression).map (if check then TruthTable.judge else TruthTable.describe)

end ProcessSpaces
