import ProcessSpaces.Machine

/-!
# The stack does what the recursion does

There are two ways to read an expression. `readExpression` calls itself for the operands of an
operator, and what is still to be done with a value is nowhere to be seen: it is in the calls that
wait. `Machine.run` walks along the tokens once and writes down on its stack what is still to be
done. This file says that the two come to the same, whether they end with a value or with an error
(`valueAt_eq_run`).

What connects them is `Machine.resume`, the continuation that a stack stands for: given an
expression that has been read, it hands its value to the frames and lets the machine go on behind
it. **Running the machine is reading one expression by recursion and then resuming**
(`Machine.run_eq_bind_resume`), whatever waits on the stack. The room that is left for the
recursion and the number of frames always add up to the same number, since each operator takes
away one place and pushes one frame; so both give up at the same token when the nesting is too
deep, and both ask for the nesting before they ask whether there is a token.
-/

namespace ProcessSpaces

namespace Machine

variable {σ : Valuation} {frames : List Frame} {position : Nat} {tokens rest : List Token}

/-! ### Going on behind an expression -/

/-- What the machine does behind an expression that has been read: the frames get its value, and
if one of them waits for another operand, reading goes on. -/
def resume (σ : Valuation) (frames : List Frame) (r : Reading) :
    Except EvalError (Value × Nat) := do
  match ← deliver r.value frames with
  | .waiting frames => run σ frames r.next r.rest
  | .done v => return (v, r.next)

/-- Without a frame the expression was all there was to read. -/
theorem resume_nil (r : Reading) : resume σ [] r = .ok (r.value, r.next) := rfl

/-- A unary operator on top is applied, and its value takes the place of its operand. -/
theorem resume_unary (op : UnaryOp) (r : Reading) :
    resume σ (.unary op position :: frames) r =
      op.apply position r.value >>= fun v => resume σ frames { r with value := v } := by
  rw [resume, deliver, bind_assoc]
  rfl

/-- A binary operator on top keeps the value as its left operand, and its right operand is read
next. -/
theorem resume_left (op : BinaryOp) (r : Reading) :
    resume σ (.left op position :: frames) r =
      run σ (.right op position r.value :: frames) r.next r.rest := rfl

/-- A binary operator on top that has its left operand is applied, and its value takes the place of
its right operand. -/
theorem resume_right (op : BinaryOp) (a : Value) (r : Reading) :
    resume σ (.right op position a :: frames) r =
      op.apply position a r.value >>= fun v => resume σ frames { r with value := v } := by
  rw [resume, deliver, bind_assoc]
  rfl

/-! ### One step of the machine -/

/-- With too many frames the machine gives up, whether or not there is a token. -/
theorem run_of_lt_length (h : maxNesting < frames.length) :
    run σ frames position tokens = .error (.nestedTooDeep position) := by
  cases tokens with
  | nil => exact if_pos h
  | cons t rest =>
    rw [run.eq_def]
    exact if_pos h

/-- At the end of the tokens the machine misses an operand. -/
theorem run_nil (h : frames.length ≤ maxNesting) :
    run σ frames position [] = .error (.endOfInput position) := by
  rw [run, if_neg (Nat.not_lt_of_le h)]

/-- A constant is an expression that has been read. -/
theorem run_constant (h : frames.length ≤ maxNesting) (a : Truth) :
    run σ frames position (.constant a :: rest) =
      resume σ frames ⟨.ternary a, position + 1, rest⟩ := by
  rw [run, if_neg (Nat.not_lt_of_le h)]
  rfl

/-- A variable is an expression that has been read, if it has a value. -/
theorem run_var (h : frames.length ≤ maxNesting) (x : String) :
    run σ frames position (.var x :: rest) =
      match σ.get? x with
      | some a => resume σ frames ⟨.ternary a, position + 1, rest⟩
      | none => .error (.unboundVariable x position) := by
  rw [run, if_neg (Nat.not_lt_of_le h)]
  cases σ.get? x with
  | none => rfl
  | some a => rfl

/-- A unary operator is pushed. -/
theorem run_unary (h : frames.length ≤ maxNesting) (op : UnaryOp) :
    run σ frames position (.unary op :: rest) =
      run σ (.unary op position :: frames) (position + 1) rest := by
  rw [run, if_neg (Nat.not_lt_of_le h)]

/-- A binary operator is pushed. -/
theorem run_binary (h : frames.length ≤ maxNesting) (op : BinaryOp) :
    run σ frames position (.binary op :: rest) =
      run σ (.left op position :: frames) (position + 1) rest := by
  rw [run, if_neg (Nat.not_lt_of_le h)]

/-- At a gap the machine stops. -/
theorem run_gap (h : frames.length ≤ maxNesting) :
    run σ frames position (.gap :: rest) = .error (.strayToken Token.gap.text position) := by
  rw [run, if_neg (Nat.not_lt_of_le h)]

/-! ### The whole run -/

/-- **Running the machine is reading one expression by recursion and then resuming.** -/
theorem run_eq_bind_resume {room : Nat} (h : room + frames.length = maxNesting + 1) :
    run σ frames position tokens =
      readExpression σ room position tokens >>= resume σ frames := by
  -- along the room, with any frames: an operator trades one place of the room for one frame
  induction room generalizing frames position tokens with
  | zero =>
    have hdeep : maxNesting < frames.length := by omega
    exact run_of_lt_length hdeep
  | succ room ih =>
    have hlength : frames.length ≤ maxNesting := by omega
    cases tokens with
    | nil => exact run_nil hlength
    | cons t rest =>
      cases t with
      | constant a => exact run_constant hlength a
      | var x =>
        rw [run_var hlength, readExpression]
        cases σ.get? x with
        | none => rfl
        | some a => rfl
      | unary op =>
        have hpush : room + (Frame.unary op position :: frames).length = maxNesting + 1 := by
          rw [List.length_cons]
          omega
        rw [run_unary hlength, ih hpush, readExpression, bind_assoc]
        refine bind_congr fun a => ?_
        rw [resume_unary, bind_assoc]
        rfl
      | binary op =>
        have hpush : room + (Frame.left op position :: frames).length = maxNesting + 1 := by
          rw [List.length_cons]
          omega
        rw [run_binary hlength, ih hpush, readExpression, bind_assoc]
        refine bind_congr fun a => ?_
        -- the operator keeps its place on the stack while its right operand is read
        have hkeep : room + (Frame.right op position a.value :: frames).length = maxNesting + 1 :=
          hpush
        rw [resume_left, ih hkeep, bind_assoc]
        refine bind_congr fun b => ?_
        rw [resume_right, bind_assoc]
        rfl
      | gap => exact run_gap hlength

end Machine

/-- **Reading with a stack comes to the same as reading by recursion**: from every position on and
under every valuation, the machine that starts with an empty stack answers with the value of the
expression and the position behind it, or with the error, that the recursion answers with. -/
theorem valueAt_eq_run (σ : Valuation) (tokens : List Token) (position : Nat) :
    valueAt σ tokens position = Machine.run σ [] position (tokens.drop position) := by
  have hroom : maxNesting + 1 + ([] : List Machine.Frame).length = maxNesting + 1 := rfl
  rw [Machine.run_eq_bind_resume hroom, valueAt]
  refine bind_congr fun r => ?_
  rw [Machine.resume_nil]
  rfl

end ProcessSpaces
