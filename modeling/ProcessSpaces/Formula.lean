import ProcessSpaces.Evaluation

/-!
# Formulas

A formula is the tree behind an expression. Written in prefix order (`Formula.tokens`) it needs
no brackets, since each token says how many operands follow. The kind of a formula is settled
by its outermost operator, and a formula is *well kinded* if every operator in it gets operands
of the kind it takes. Its value under a valuation is computed from the inside out
(`Formula.value?`), without a thought about tokens, positions or nesting.

The expression of a formula that has a value is read as that formula, wherever it stands:
reading it yields the value and leaves exactly what follows (`readExpression_tokens_append`),
provided that there is room for its depth.
-/

namespace ProcessSpaces

/-- The formulas of the language. -/
inductive Formula where
  /-- A constant. -/
  | constant (a : Truth)
  /-- A variable. -/
  | var (name : String)
  /-- An operator with its operand. -/
  | unary (op : UnaryOp) (φ : Formula)
  /-- An operator with its left and its right operand. -/
  | binary (op : BinaryOp) (φ ψ : Formula)
deriving DecidableEq, Repr

namespace Formula

/-- The formula as an expression, in prefix order. -/
def tokens : Formula → List Token
  | constant a => [.constant a]
  | var name => [.var name]
  | unary op φ => .unary op :: φ.tokens
  | binary op φ ψ => .binary op :: (φ.tokens ++ ψ.tokens)

/-- The greatest number of operators that are nested in one another. -/
def depth : Formula → Nat
  | constant _ => 0
  | var _ => 0
  | unary _ φ => φ.depth + 1
  | binary _ φ ψ => max φ.depth ψ.depth + 1

/-- The kind of value that the formula has. -/
def kind : Formula → Kind
  | constant _ => .ternary
  | var _ => .ternary
  | unary op _ => op.resultKind
  | binary op _ _ => op.resultKind

/-- Every operator of the formula gets operands of the kind it takes. -/
def WellKinded : Formula → Prop
  | constant _ => True
  | var _ => True
  | unary op φ => φ.WellKinded ∧ φ.kind = op.operandKind
  | binary op φ ψ =>
    φ.WellKinded ∧ ψ.WellKinded ∧ φ.kind = op.operandKind ∧ ψ.kind = op.operandKind

/-- The value of the formula, if its variables have values and it is well kinded. -/
def value? (σ : Valuation) : Formula → Option Value
  | constant a => some (.ternary a)
  | var name => (σ.get? name).map .ternary
  | unary op φ => do
    let a ← (← φ.value? σ).as? op.operandKind
    return .ofCarrier op.resultKind (op.denote a)
  | binary op φ ψ => do
    let a ← (← φ.value? σ).as? op.operandKind
    let b ← (← ψ.value? σ).as? op.operandKind
    return .ofCarrier op.resultKind (op.denote a b)

theorem value?_unary_eq_some_iff {σ : Valuation} {op : UnaryOp} {φ : Formula} {v : Value} :
    (unary op φ).value? σ = some v ↔
      ∃ a, φ.value? σ = some (.ofCarrier op.operandKind a) ∧
        v = .ofCarrier op.resultKind (op.denote a) := by
  simp only [value?, Option.bind_eq_bind, Option.bind_eq_some_iff, Option.pure_def,
    Option.some.injEq, Value.as?_eq_some_iff]
  constructor
  · rintro ⟨u, hu, a, rfl, rfl⟩
    exact ⟨a, hu, rfl⟩
  · rintro ⟨a, ha, rfl⟩
    exact ⟨_, ha, a, rfl, rfl⟩

theorem value?_binary_eq_some_iff {σ : Valuation} {op : BinaryOp} {φ ψ : Formula} {v : Value} :
    (binary op φ ψ).value? σ = some v ↔
      ∃ a b, φ.value? σ = some (.ofCarrier op.operandKind a) ∧
        ψ.value? σ = some (.ofCarrier op.operandKind b) ∧
        v = .ofCarrier op.resultKind (op.denote a b) := by
  simp only [value?, Option.bind_eq_bind, Option.bind_eq_some_iff, Option.pure_def,
    Option.some.injEq, Value.as?_eq_some_iff]
  constructor
  · rintro ⟨u, hu, a, rfl, w, hw, b, rfl, rfl⟩
    exact ⟨a, b, hu, hw, rfl⟩
  · rintro ⟨a, b, ha, hb, rfl⟩
    exact ⟨_, ha, a, rfl, _, hb, b, rfl, rfl⟩

/-- A unary operator takes the value of its operand to a value. -/
theorem value?_unary {σ : Valuation} {φ : Formula} (op : UnaryOp) {a : op.operandKind.Carrier}
    (h : φ.value? σ = some (.ofCarrier _ a)) :
    (unary op φ).value? σ = some (.ofCarrier _ (op.denote a)) :=
  value?_unary_eq_some_iff.2 ⟨a, h, rfl⟩

/-- A binary operator takes the values of its operands to a value. -/
theorem value?_binary {σ : Valuation} {φ ψ : Formula} (op : BinaryOp)
    {a b : op.operandKind.Carrier} (hφ : φ.value? σ = some (.ofCarrier _ a))
    (hψ : ψ.value? σ = some (.ofCarrier _ b)) :
    (binary op φ ψ).value? σ = some (.ofCarrier _ (op.denote a b)) :=
  value?_binary_eq_some_iff.2 ⟨a, b, hφ, hψ, rfl⟩

end Formula

/-! ### Reading the expression of a formula -/

theorem Value.require_ofCarrier (k : Kind) (operator : String) (position : Nat) (a : k.Carrier) :
    (Value.ofCarrier k a).require k operator position = .ok a := by
  simp [Value.require]

/-- The expression of a formula is read as that formula, whatever follows it. -/
theorem readExpression_tokens_append {σ : Valuation} {φ : Formula} {v : Value} {room : Nat}
    (hv : φ.value? σ = some v) (hroom : φ.depth < room) (position : Nat) (rest : List Token) :
    readExpression σ room position (φ.tokens ++ rest) =
      .ok ⟨v, position + φ.tokens.length, rest⟩ := by
  induction φ generalizing v room position rest with
  | constant a =>
    obtain ⟨room, rfl⟩ := Nat.exists_eq_add_of_lt hroom
    cases hv; rfl
  | var name =>
    obtain ⟨room, rfl⟩ := Nat.exists_eq_add_of_lt hroom
    obtain ⟨a, ha, rfl⟩ := Option.map_eq_some_iff.1 hv
    simp [Formula.tokens, readExpression, ha]
  | unary op φ ih =>
    obtain ⟨room, rfl⟩ : ∃ k, room = k + 1 := ⟨room - 1, by omega⟩
    obtain ⟨a, ha, rfl⟩ := Formula.value?_unary_eq_some_iff.1 hv
    have hφ := ih ha (Nat.lt_of_succ_lt_succ hroom) (position + 1) rest
    simp only [Formula.tokens, List.cons_append, readExpression, hφ, UnaryOp.apply,
      Value.require_ofCarrier, bind, Except.bind, pure, Except.pure, List.length_cons]
    congr 2; omega
  | binary op φ ψ ihφ ihψ =>
    obtain ⟨room, rfl⟩ : ∃ k, room = k + 1 := ⟨room - 1, by omega⟩
    obtain ⟨a, b, ha, hb, rfl⟩ := Formula.value?_binary_eq_some_iff.1 hv
    -- both operands are read with one level less of room, the right one where the left one ends
    have hdepth : max φ.depth ψ.depth < room := Nat.lt_of_succ_lt_succ hroom
    have hφd : φ.depth < room := by omega
    have hψd : ψ.depth < room := by omega
    have hφ := ihφ ha hφd (position + 1) (ψ.tokens ++ rest)
    have hψ := ihψ hb hψd (position + 1 + φ.tokens.length) rest
    simp only [Formula.tokens, List.cons_append, List.append_assoc, readExpression, hφ, hψ,
      BinaryOp.apply, Value.require_ofCarrier, bind, Except.bind, pure, Except.pure,
      List.length_cons, List.length_append]
    congr 2; omega

end ProcessSpaces
