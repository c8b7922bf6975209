import ProcessSpaces.Evaluation

/-!
# Reading with a stack

An expression in prefix order can be read in a single pass without recursion into its operands,
if the operators that still wait for an operand are kept on a stack. `Machine.run` is this
machine. Its stack holds a `Frame` for each such operator, the innermost on top. An operator
pushes a frame; a constant or a variable has a value at once, and a value is handed to the
frames (`Machine.deliver`): it is the left operand of the topmost operator, or it completes that
operator, whose value is then handed on to the frame below. When the last frame is completed,
its value is that of the expression.

The machine looks at each token once and never goes back.
-/

namespace ProcessSpaces.Machine

/-- An operator that waits for an operand, with the position of its token. -/
inductive Frame where
  /-- An operator of one operand. -/
  | unary (op : UnaryOp) (position : Nat)
  /-- An operator of two operands of which none is there. -/
  | left (op : BinaryOp) (position : Nat)
  /-- An operator of two operands of which the left one is there. -/
  | right (op : BinaryOp) (position : Nat) (a : Value)
deriving DecidableEq, Repr

/-- What handing over a value leads to. -/
inductive Progress where
  /-- The frames that wait now. -/
  | waiting (frames : List Frame)
  /-- The value of the expression. -/
  | done (v : Value)
deriving DecidableEq, Repr

/-- Hands a value to the frames. -/
def deliver (v : Value) : List Frame → Except EvalError Progress
  | [] => .ok (.done v)
  | .unary op position :: frames => do
    let w ← op.apply position v
    deliver w frames
  | .left op position :: frames => .ok (.waiting (.right op position v :: frames))
  | .right op position a :: frames => do
    let w ← op.apply position a v
    deliver w frames

/-- Reads the tokens, of which the first has the position `position`, until no frame waits any
more; answers with the value and the position behind the last token read. -/
def run (σ : Valuation) :
    (frames : List Frame) → (position : Nat) → List Token → Except EvalError (Value × Nat)
  | frames, position, [] =>
    if maxNesting < frames.length then .error (.nestedTooDeep position)
    else .error (.endOfInput position)
  | frames, position, t :: rest =>
    if maxNesting < frames.length then .error (.nestedTooDeep position)
    else
      match t with
      | .gap => .error (.strayToken Token.gap.text position)
      | .unary op => run σ (.unary op position :: frames) (position + 1) rest
      | .binary op => run σ (.left op position :: frames) (position + 1) rest
      | .constant a => do
        match ← deliver (.ternary a) frames with
        | .waiting frames => run σ frames (position + 1) rest
        | .done v => return (v, position + 1)
      | .var x =>
        match σ.get? x with
        | none => .error (.unboundVariable x position)
        | some a => do
          match ← deliver (.ternary a) frames with
          | .waiting frames => run σ frames (position + 1) rest
          | .done v => return (v, position + 1)

end ProcessSpaces.Machine
