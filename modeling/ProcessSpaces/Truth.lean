/-!
# The three truth values

A formula of the logic of process spaces takes one of three values: a process may be
**rejected**, **granted** or left **neutral**. They are ordered by entailment, `neutral`
below `grant` below `reject`, and numbered the other way round, from `reject` to
`neutral`, which is the order in which truth tables run through them.

The file holds the type, its numbering (`Truth.digit`, `Truth.ofDigit`), its order and the
algebra of the logic: two unary operations and five binary ones. Each binary operation is
written row by row, a row being a left operand, so that every case of every table can be
read off; a row that leaves the right operand as it is says so with a variable.
-/

namespace ProcessSpaces

/-- A truth value of the logic of process spaces. -/
inductive Truth where
  /-- Rejected; the constant `bot`. -/
  | reject
  /-- Granted; the constant `phi`. -/
  | grant
  /-- Neutral; the constant `top`. -/
  | neutral
deriving DecidableEq, Repr, Inhabited

namespace Truth

/-! ### Labels and digits -/

/-- The letter that stands for the value in tables. -/
def label : Truth → Char
  | reject => 'R'
  | grant => 'G'
  | neutral => 'E'

/-- The letter of the value as a text. -/
def text (a : Truth) : String := a.label.toString

/-- The values in the order in which tables list them. -/
def all : List Truth := [reject, grant, neutral]

/-- The place of the value in `Truth.all`, its digit in base three. -/
def digit : Truth → Fin 3
  | reject => 0
  | grant => 1
  | neutral => 2

/-- The value with a given digit. -/
def ofDigit : Fin 3 → Truth
  | 0 => reject
  | 1 => grant
  | 2 => neutral

/-- The value with a given digit, if the number is a digit in base three. -/
def ofDigit? (n : Nat) : Option Truth :=
  if h : n < 3 then some (ofDigit ⟨n, h⟩) else none

@[simp] theorem ofDigit_digit (a : Truth) : ofDigit a.digit = a := by
  cases a <;> rfl

@[simp] theorem digit_ofDigit (d : Fin 3) : (ofDigit d).digit = d := by
  revert d; decide

/-! ### The entailment order -/

/-- The entailment order, in which a greater digit lies lower. -/
instance : LE Truth where
  le a b := b.digit ≤ a.digit

instance : LT Truth where
  lt a b := b.digit < a.digit

instance (a b : Truth) : Decidable (a ≤ b) :=
  inferInstanceAs (Decidable (b.digit ≤ a.digit))

instance (a b : Truth) : Decidable (a < b) :=
  inferInstanceAs (Decidable (b.digit < a.digit))

instance : Ord Truth where
  compare a b := compare b.digit a.digit

instance : Max Truth where
  max a b := if a ≤ b then b else a

/-- The left value entails the right one: it is at least as great. -/
def entails (a b : Truth) : Bool := b ≤ a

/-! ### The algebra -/

/-- Negation swaps `reject` and `neutral`. -/
def neg : Truth → Truth
  | reject => neutral
  | grant => grant
  | neutral => reject

/-- The cyclic negation takes each value to the one with the next digit. -/
def cycle : Truth → Truth
  | reject => grant
  | grant => neutral
  | neutral => reject

/-- A value is robust unless it is rejected. -/
def isRobust : Truth → Bool
  | reject => false
  | grant => true
  | neutral => true

/-- The multiplicative disjunction: `neutral` wins over `reject`, and `grant` changes nothing. -/
def par : Truth → Truth → Truth
  | reject, reject => reject
  | reject, grant => reject
  | reject, neutral => neutral
  | grant, b => b
  | neutral, _ => neutral

/-- The dual of `par`: `reject` wins over `neutral`, and `grant` changes nothing. -/
def oplus : Truth → Truth → Truth
  | reject, _ => reject
  | grant, b => b
  | neutral, reject => reject
  | neutral, grant => neutral
  | neutral, neutral => neutral

/-- The meet: `grant` wins over `neutral`, and `reject` changes nothing. -/
def meet : Truth → Truth → Truth
  | reject, b => b
  | grant, _ => grant
  | neutral, reject => neutral
  | neutral, grant => grant
  | neutral, neutral => neutral

/-- The join: `grant` wins over `reject`, and `neutral` changes nothing. -/
def join : Truth → Truth → Truth
  | reject, reject => reject
  | reject, grant => grant
  | reject, neutral => reject
  | grant, _ => grant
  | neutral, b => b

/-- The linear implication. -/
def lpop : Truth → Truth → Truth
  | reject, _ => neutral
  | grant, b => b
  | neutral, reject => reject
  | neutral, grant => reject
  | neutral, neutral => neutral

end Truth

end ProcessSpaces
