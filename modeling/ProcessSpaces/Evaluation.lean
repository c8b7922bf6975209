import ProcessSpaces.Token
import ProcessSpaces.Valuation.Basic

/-!
# The value of an expression

An expression is written in prefix order, every operator in front of its operands, so it has
to be read from left to right and needs no brackets. `readExpression` reads the expression with
which a row of tokens begins and computes its value on the way; it answers with the value, the
position behind the expression and the tokens that are left. Each operand is read in full
before any of them is looked at, and it is read in the room its operator has left for it: the
room shrinks by one with each operator around an operand, and where none is left the reading
stops. This is what bounds the recursion.

`valueAt` reads an expression from some position on, and `valueOf` asks in addition that
nothing is left over. That a reading takes tokens from the front only, and counts them rightly,
is `exists_append_of_readExpression`.
-/

namespace ProcessSpaces

/-- The greatest number of operators that may be nested in one another. -/
def maxNesting : Nat := 1024

/-- What reading an expression yields. -/
structure Reading where
  /-- The value of the expression. -/
  value : Value
  /-- The position of the first token behind the expression. -/
  next : Nat
  /-- The tokens behind the expression. -/
  rest : List Token
deriving DecidableEq, Repr

/-- Reads one expression from the front of the tokens, of which the first has the position
`position`. At most `room` expressions may stand inside one another. -/
def readExpression (σ : Valuation) :
    (room : Nat) → (position : Nat) → List Token → Except EvalError Reading
  | 0, position, _ => .error (.nestedTooDeep position)
  | _ + 1, position, [] => .error (.endOfInput position)
  | room + 1, position, t :: rest =>
    match t with
    | .constant a => .ok ⟨.ternary a, position + 1, rest⟩
    | .var x =>
      match σ.get? x with
      | some a => .ok ⟨.ternary a, position + 1, rest⟩
      | none => .error (.unboundVariable x position)
    | .unary op => do
      let a ← readExpression σ room (position + 1) rest
      let v ← op.apply position a.value
      return { a with value := v }
    | .binary op => do
      let a ← readExpression σ room (position + 1) rest
      let b ← readExpression σ room a.next a.rest
      let v ← op.apply position a.value b.value
      return { b with value := v }
    | .gap => .error (.strayToken Token.gap.text position)

/-- A reading takes some tokens from the front, at least one, and leaves the others; the position
it answers with lies as many tokens further on as it has taken. -/
theorem exists_append_of_readExpression {σ : Valuation} {room position : Nat}
    {tokens : List Token} {r : Reading} (h : readExpression σ room position tokens = .ok r) :
    ∃ t taken, tokens = t :: taken ++ r.rest ∧ r.next = position + (taken.length + 1) := by
  induction room generalizing position tokens r with
  | zero => cases h
  | succ room ih =>
    cases tokens with
    | nil => cases h
    | cons t rest =>
      refine ⟨t, ?_⟩
      cases t with
      | constant a => cases h; exact ⟨[], rfl, rfl⟩
      | var x =>
        simp only [readExpression] at h
        split at h
        · cases h; exact ⟨[], rfl, rfl⟩
        · cases h
      | unary op =>
        simp only [readExpression, bind, Except.bind, pure, Except.pure] at h
        split at h
        · cases h
        next a ha =>
        split at h
        · cases h
        obtain ⟨u, taken, rfl, hnext⟩ := ih ha
        cases h
        exact ⟨u :: taken, by simp, by simp only [hnext, List.length_cons]; omega⟩
      | binary op =>
        simp only [readExpression, bind, Except.bind, pure, Except.pure] at h
        split at h
        · cases h
        next a ha =>
        split at h
        · cases h
        next b hb =>
        split at h
        · cases h
        -- the right operand is read from what the left one has left
        obtain ⟨u, takenL, rfl, hL⟩ := ih ha
        obtain ⟨w, takenR, hrest, hR⟩ := ih hb
        cases h
        refine ⟨u :: takenL ++ w :: takenR, by simp [hrest], ?_⟩
        simp only [hR, hL, List.length_append, List.length_cons]; omega
      | gap => cases h

/-- The value of the expression that begins at a position, and the position behind it. -/
def valueAt (σ : Valuation) (tokens : List Token) (position : Nat) :
    Except EvalError (Value × Nat) := do
  let r ← readExpression σ (maxNesting + 1) position (tokens.drop position)
  return (r.value, r.next)

/-- The value of the expression that the tokens form. -/
def valueOf (σ : Valuation) (tokens : List Token) : Except EvalError Value := do
  let r ← readExpression σ (maxNesting + 1) 0 tokens
  match r.rest with
  | [] => return r.value
  | t :: _ => .error (.trailingTokens t.text r.next)

end ProcessSpaces
