import ProcessSpaces.EvalError

/-!
# Operators

The language has four operators of one operand and eleven of two. Each takes operands of one
kind and yields a value of one kind, and its meaning (`UnaryOp.denote`, `BinaryOp.denote`) is a
function between the values of these kinds, so that it never has to ask what it was given.

The binary operators fall into three families, which differ in nothing but these kinds:
**tables** combine two truth values to a third, **comparisons** test two truth values, and the
**logic** combines two booleans.

That operands are of the right kind is checked in one place, `Value.require`, on the way from
values to meanings: `UnaryOp.apply` and `BinaryOp.apply` check their operands from left to
right and then apply the meaning. `BinaryOp.applyWithin` is the same for a caller that has
already settled on a family, to which the operator may turn out not to belong.
-/

namespace ProcessSpaces

/-- The operators of one operand. -/
inductive UnaryOp where
  /-- The operator `-`. -/
  | neg
  /-- The operator `/`. -/
  | cycle
  /-- The test for robustness. -/
  | robust
  /-- The negation of booleans. -/
  | not
deriving DecidableEq, Repr

/-- The operators of two operands. -/
inductive BinaryOp where
  /-- The operator `||`. -/
  | par
  /-- The dual of `par`. -/
  | oplus
  /-- The meet. -/
  | meet
  /-- The join. -/
  | join
  /-- The linear implication. -/
  | lpop
  /-- The entailment `[=`. -/
  | entails
  /-- The equality `==` of truth values. -/
  | equal
  /-- The conjunction of booleans. -/
  | and
  /-- The disjunction of booleans. -/
  | or
  /-- The implication of booleans. -/
  | implies
  /-- The equivalence of booleans. -/
  | equiv
deriving DecidableEq, Repr

/-! ### Operators of one operand -/

namespace UnaryOp

/-- All operators of one operand. -/
def all : List UnaryOp := [neg, cycle, robust, not]

/-- The operator as it is written. -/
def text : UnaryOp → String
  | neg => "-"
  | cycle => "/"
  | robust => "robust"
  | not => "not"

/-- The kind of operand that the operator takes. -/
@[reducible] def operandKind : UnaryOp → Kind
  | neg => .ternary
  | cycle => .ternary
  | robust => .ternary
  | not => .boolean

/-- The kind of value that the operator yields. -/
@[reducible] def resultKind : UnaryOp → Kind
  | neg => .ternary
  | cycle => .ternary
  | robust => .boolean
  | not => .boolean

/-- The meaning of the operator. -/
def denote : (op : UnaryOp) → op.operandKind.Carrier → op.resultKind.Carrier
  | neg => Truth.neg
  | cycle => Truth.cycle
  | robust => Truth.isRobust
  | not => Bool.not

end UnaryOp

/-! ### Operators of two operands -/

/-- The families of operators of two operands. -/
inductive Family where
  /-- Two truth values to a truth value. -/
  | table
  /-- Two truth values to a boolean. -/
  | comparison
  /-- Two booleans to a boolean. -/
  | logic
deriving DecidableEq, Repr

/-- The kind of both operands of a family. -/
@[reducible] def Family.operandKind : Family → Kind
  | table => .ternary
  | comparison => .ternary
  | logic => .boolean

/-- The kind of value that a family yields. -/
@[reducible] def Family.resultKind : Family → Kind
  | table => .ternary
  | comparison => .boolean
  | logic => .boolean

namespace BinaryOp

/-- All operators of two operands. -/
def all : List BinaryOp :=
  [par, entails, equal, oplus, meet, join, lpop, and, or, implies, equiv]

/-- The operator as it is written. -/
def text : BinaryOp → String
  | par => "||"
  | oplus => "oplus"
  | meet => "meet"
  | join => "join"
  | lpop => "lpop"
  | entails => "[="
  | equal => "=="
  | and => "and"
  | or => "or"
  | implies => "implies"
  | equiv => "equiv"

/-- The family of the operator. -/
@[reducible] def family : BinaryOp → Family
  | par => .table
  | oplus => .table
  | meet => .table
  | join => .table
  | lpop => .table
  | entails => .comparison
  | equal => .comparison
  | and => .logic
  | or => .logic
  | implies => .logic
  | equiv => .logic

/-- The kind of both operands. -/
@[reducible] def operandKind (op : BinaryOp) : Kind := op.family.operandKind

/-- The kind of value that the operator yields. -/
@[reducible] def resultKind (op : BinaryOp) : Kind := op.family.resultKind

/-- The meaning of the operator. -/
def denote : (op : BinaryOp) →
    op.operandKind.Carrier → op.operandKind.Carrier → op.resultKind.Carrier
  | par => Truth.par
  | oplus => Truth.oplus
  | meet => Truth.meet
  | join => Truth.join
  | lpop => Truth.lpop
  | entails => Truth.entails
  | equal => fun a b => decide (a = b)
  | and => Bool.and
  | or => Bool.or
  | implies => fun a b => !a || b
  | equiv => fun a b => a == b

end BinaryOp

/-! ### Application to values -/

/-- The value at the kind `k`, or the mismatch that an operator written `operator` at the token
`position` reports. -/
def Value.require (k : Kind) (operator : String) (position : Nat) (v : Value) :
    Except EvalError k.Carrier :=
  match v.as? k with
  | some a => .ok a
  | none => .error (.kindMismatch operator k v.kind position)

/-- The value of the operator, which stands at the token `position`, for an operand. -/
def UnaryOp.apply (op : UnaryOp) (position : Nat) (v : Value) : Except EvalError Value := do
  let a ← v.require op.operandKind op.text position
  return .ofCarrier op.resultKind (op.denote a)

/-- The value of the operator, which stands at the token `position`, for two operands. -/
def BinaryOp.apply (op : BinaryOp) (position : Nat) (v w : Value) : Except EvalError Value := do
  let a ← v.require op.operandKind op.text position
  let b ← w.require op.operandKind op.text position
  return .ofCarrier op.resultKind (op.denote a b)

/-- Why a family yields no value for an operator and its operands. -/
inductive FamilyError where
  /-- An operand is of the wrong kind. -/
  | operand (e : EvalError)
  /-- The operator belongs to another family. -/
  | foreign
deriving DecidableEq, Repr

/-- The value that the family `f` yields for an operator and two operands. Tables look for the
operator first, the other families look at the operands first. -/
def BinaryOp.applyWithin (f : Family) (op : BinaryOp) (position : Nat) (v w : Value) :
    Except FamilyError Value :=
  if op.family = f then
    (op.apply position v w).mapError .operand
  else if f = .table then
    .error .foreign
  else
    -- the left operand is looked at first, so its mismatch is the one reported
    match v.require f.operandKind op.text position, w.require f.operandKind op.text position with
    | .error e, _ => .error (.operand e)
    | .ok _, .error e => .error (.operand e)
    | .ok _, .ok _ => .error .foreign

end ProcessSpaces
