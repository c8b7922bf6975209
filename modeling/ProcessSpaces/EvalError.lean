import ProcessSpaces.Value

/-!
# Why an expression has no value

`EvalError` lists the causes for which reading or tabulating an expression fails. All but the
last point at a token by its index in the expression. The wording of each is fixed by
`EvalError.message`, and nowhere else.
-/

namespace ProcessSpaces

/-- Why an expression, or the table of an expression, has no value. -/
inductive EvalError where
  /-- A token stands where an expression should begin and begins none. -/
  | strayToken (text : String) (position : Nat)
  /-- The expression ends where an operand should begin. -/
  | endOfInput (position : Nat)
  /-- Tokens are left over behind a complete expression. -/
  | trailingTokens (text : String) (position : Nat)
  /-- More operators are nested in one another than the limit allows. -/
  | nestedTooDeep (position : Nat)
  /-- A variable has no value. -/
  | unboundVariable (name : String) (position : Nat)
  /-- An operand is not of the kind that its operator takes. -/
  | kindMismatch (operator : String) (expected found : Kind) (position : Nat)
  /-- The number of rows of the table does not fit in a machine word. -/
  | tooManyVariables (count : Nat)
deriving DecidableEq, Repr

/-- The message shown for an error. -/
def EvalError.message : EvalError → String
  | strayToken text position => s!"Error at token {position}: Unexpected token: {text}."
  | endOfInput position =>
    s!"Error at token {position}: Unexpected end of input; an operator is missing operands."
  | trailingTokens text position =>
    s!"Error at token {position}: Extra tokens after expression, starting with '{text}'."
  | nestedTooDeep position => s!"Error at token {position}: Expression is nested too deeply."
  | unboundVariable name position => s!"Error at token {position}: Undefined variable '{name}'."
  | kindMismatch operator expected found position =>
    s!"Error at token {position}: Type mismatch: '{operator}' expects a {expected.text} " ++
      s!"operand, found a {found.text}."
  | tooManyVariables count =>
    s!"Too many variables: {count} variables give more than usize::MAX assignments."

end ProcessSpaces
