import ProcessSpaces.Proofs.Algebra
import ProcessSpaces.Proofs.UniqueReading

/-!
# Dual formulas

Negation turns the tables of the operators into one another: that of `||` into that of `oplus`, and
that of `meet` into that of `join`. Every operator has a dual in this sense, although for some of
them it takes more than one operator (`UnaryOp.dualize`, `BinaryOp.dualize`). Going one step round,
for instance, is dual to going two steps round.

If all operators and constants of a formula are replaced by their duals, and the values of the
variables by their negations, the value is negated as well (`valueOf_dual`). A boolean stays as it
is, since the duals of the tests have the same outcome for the negations. The dual may nest more
operators than the formula does, so that a formula that can be read may have a dual that is nested
too deep. But it nests at most twice as many (`Formula.depth_dual_le`), and this cannot happen to
formulas that use up no more than half of what may be nested (`valueOf_dual_of_depth_le`).
-/

namespace ProcessSpaces

/-! ### Duals of values and valuations -/

/-- The negation of a truth value. Booleans are their own duals. -/
def Value.dual : Value → Value
  | ternary a => ternary a.neg
  | boolean b => boolean b

/-- The valuation in which all values are negated. -/
def Valuation.neg (σ : Valuation) : Valuation where
  bindings := σ.bindings.map fun p => (p.1, p.2.neg)
  nodup_names := by
    rw [List.map_map]
    exact σ.nodup_names

theorem Valuation.get?_neg (σ : Valuation) (x : String) :
    σ.neg.get? x = (σ.get? x).map Truth.neg := by
  have hlookup (l : List (String × Truth)) :
      (l.map fun p => (p.1, p.2.neg)).lookup x = (l.lookup x).map Truth.neg := by
    induction l with
    | nil => rfl
    | cons p l ih =>
      rw [List.map_cons, List.lookup_cons, List.lookup_cons, ih]
      cases x == p.1 with
      | true => rfl
      | false => rfl
  exact hlookup σ.bindings

/-! ### Duals of operators -/

/-- The dual of a unary operator, for an operand that is a dual already. -/
def UnaryOp.dualize : UnaryOp → Formula → Formula
  | neg, φ => .unary .neg φ
  | cycle, φ => .unary .cycle (.unary .cycle φ)
  | robust, φ => .unary .not (.binary .equal φ (.constant .neutral))
  | not, φ => .unary .not φ

/-- The dual of a binary operator, for operands that are duals already. -/
def BinaryOp.dualize : BinaryOp → Formula → Formula → Formula
  | par, φ, ψ => .binary .oplus φ ψ
  | oplus, φ, ψ => .binary .par φ ψ
  | meet, φ, ψ => .binary .join φ ψ
  | join, φ, ψ => .binary .meet φ ψ
  | lpop, φ, ψ => .binary .oplus (.unary .neg φ) ψ
  | entails, φ, ψ => .binary .entails ψ φ
  | equal, φ, ψ => .binary .equal φ ψ
  | and, φ, ψ => .binary .and φ ψ
  | or, φ, ψ => .binary .or φ ψ
  | implies, φ, ψ => .binary .implies φ ψ
  | equiv, φ, ψ => .binary .equiv φ ψ

section Operators

variable {σ : Valuation} {φ ψ : Formula}

/-- **The dual of a unary operator takes the dual of a value to the dual of what the operator takes
the value to.** -/
theorem UnaryOp.value?_dualize (op : UnaryOp) {a : op.operandKind.Carrier}
    (h : φ.value? σ = some (Value.ofCarrier _ a).dual) :
    (op.dualize φ).value? σ = some (Value.ofCarrier _ (op.denote a)).dual := by
  cases op with
  | neg => exact Formula.value?_unary .neg h
  | cycle =>
    change _ = some (Value.ternary (Truth.cycle a).neg)
    rw [Truth.neg_cycle]
    exact Formula.value?_unary .cycle (Formula.value?_unary .cycle h)
  | robust =>
    have htop : (Formula.constant .neutral).value? σ = some (.ternary .neutral) := rfl
    change _ = some (Value.boolean (Truth.isRobust a))
    rw [Truth.isRobust_eq]
    exact Formula.value?_unary .not (Formula.value?_binary .equal h htop)
  | not => exact Formula.value?_unary .not h

/-- **The dual of a binary operator takes the duals of two values to the dual of what the operator
takes the values to.** -/
theorem BinaryOp.value?_dualize (op : BinaryOp) {a b : op.operandKind.Carrier}
    (hφ : φ.value? σ = some (Value.ofCarrier _ a).dual)
    (hψ : ψ.value? σ = some (Value.ofCarrier _ b).dual) :
    (op.dualize φ ψ).value? σ = some (Value.ofCarrier _ (op.denote a b)).dual := by
  cases op with
  | par =>
    change _ = some (Value.ternary (Truth.par a b).neg)
    rw [Truth.neg_par]
    exact Formula.value?_binary .oplus hφ hψ
  | oplus =>
    change _ = some (Value.ternary (Truth.oplus a b).neg)
    rw [Truth.neg_oplus]
    exact Formula.value?_binary .par hφ hψ
  | meet =>
    change _ = some (Value.ternary (Truth.meet a b).neg)
    rw [Truth.neg_meet]
    exact Formula.value?_binary .join hφ hψ
  | join =>
    change _ = some (Value.ternary (Truth.join a b).neg)
    rw [Truth.neg_join]
    exact Formula.value?_binary .meet hφ hψ
  | lpop =>
    change _ = some (Value.ternary (Truth.lpop a b).neg)
    rw [Truth.neg_lpop]
    exact Formula.value?_binary .oplus (Formula.value?_unary .neg hφ) hψ
  | entails =>
    -- the operands change places, since negation turns the order round
    change _ = some (Value.boolean (Truth.entails a b))
    rw [← Truth.entails_neg_neg]
    exact Formula.value?_binary .entails hψ hφ
  | equal =>
    have hinj : decide (Truth.neg a = Truth.neg b) = decide (a = b) :=
      decide_eq_decide.mpr Truth.neg_inj
    change _ = some (Value.boolean (decide (a = b)))
    rw [← hinj]
    exact Formula.value?_binary .equal hφ hψ
  | and => exact Formula.value?_binary .and hφ hψ
  | or => exact Formula.value?_binary .or hφ hψ
  | implies => exact Formula.value?_binary .implies hφ hψ
  | equiv => exact Formula.value?_binary .equiv hφ hψ

end Operators

/-! ### Duals of formulas -/

namespace Formula

/-- The formula in which all constants and operators are replaced by their duals. -/
def dual : Formula → Formula
  | constant a => constant a.neg
  | var x => var x
  | unary op φ => op.dualize φ.dual
  | binary op φ ψ => op.dualize φ.dual ψ.dual

variable {σ : Valuation} {φ : Formula} {v : Value}

/-- **The value of the dual is the dual of the value.** -/
theorem value?_dual (h : φ.value? σ = some v) : φ.dual.value? σ.neg = some v.dual := by
  induction φ generalizing v with
  | constant a =>
    cases h
    rfl
  | var x =>
    obtain ⟨a, ha, rfl⟩ := Option.map_eq_some_iff.mp h
    rw [dual, value?, Valuation.get?_neg, ha]
    rfl
  | unary op φ ih =>
    obtain ⟨a, ha, rfl⟩ := value?_unary_eq_some_iff.mp h
    exact op.value?_dualize (ih ha)
  | binary op φ ψ ihφ ihψ =>
    obtain ⟨a, b, ha, hb, rfl⟩ := value?_binary_eq_some_iff.mp h
    exact op.value?_dualize (ihφ ha) (ihψ hb)

/-- A dual nests at most twice as many operators. -/
theorem depth_dual_le (φ : Formula) : φ.dual.depth ≤ 2 * φ.depth := by
  induction φ with
  | constant a => exact Nat.le_refl 0
  | var x => exact Nat.le_refl 0
  | unary op φ ih =>
    have hop : (op.dualize φ.dual).depth ≤ φ.dual.depth + 2 := by
      cases op <;> simp [UnaryOp.dualize, depth]
    simp only [dual, depth]
    omega
  | binary op φ ψ ihφ ihψ =>
    have hop : (op.dualize φ.dual ψ.dual).depth ≤ max φ.dual.depth ψ.dual.depth + 2 := by
      cases op <;> simp only [BinaryOp.dualize, depth] <;> omega
    simp only [dual, depth]
    omega

end Formula

/-- The dual of a formula that nests at most 512 operators can be read, whichever these are. -/
theorem valueOf_dual_of_depth_le {σ : Valuation} {φ : Formula} {v : Value}
    (h : valueOf σ φ.tokens = .ok v) (hdepth : φ.depth ≤ 512) :
    valueOf σ.neg φ.dual.tokens = .ok v.dual := by
  obtain ⟨-, hvalue⟩ := valueOf_tokens_eq_ok_iff.mp h
  have hdual : φ.dual.depth ≤ maxNesting :=
    φ.depth_dual_le.trans (Nat.mul_le_mul_left 2 hdepth)
  exact valueOf_tokens_eq_ok_iff.mpr ⟨hdual, Formula.value?_dual hvalue⟩

/-- **De Morgan duality of the whole language.** If the expression of a formula has a value, and the
dual of the formula nests at most 1024 operators, then the expression of the dual has a value under
the valuation with all values negated. This is the negation of the value if it is a truth value, and
the same value if it is a boolean. -/
theorem valueOf_dual {σ : Valuation} {φ : Formula} {v : Value}
    (h : valueOf σ φ.tokens = .ok v) (hdepth : φ.dual.depth ≤ 1024) :
    valueOf σ.neg φ.dual.tokens = .ok v.dual := by
  obtain ⟨-, hvalue⟩ := valueOf_tokens_eq_ok_iff.mp h
  exact valueOf_tokens_eq_ok_iff.mpr ⟨hdepth, Formula.value?_dual hvalue⟩

/-- The formula `|| lpop A B / B` has the value `E` where `A` has the value `E` and `B` has `G`, and
it is robust. Its dual has the value `R` where `A` has `R` and `B` has `G`, and the dual of the test
for robustness is true there as well. -/
theorem valueOf_dual_par :
    ∃ (σ : Valuation) (φ : Formula), σ = .ofList [("A", .neutral), ("B", .grant)] ∧
      σ.neg = .ofList [("A", .reject), ("B", .grant)] ∧
      φ.tokens = tokensOf "|| lpop A B / B" ∧
      φ.dual.tokens = tokensOf "oplus oplus - A B / / B" ∧
      valueOf σ φ.tokens = .ok (.ternary .neutral) ∧
      valueOf σ.neg φ.dual.tokens = .ok (.ternary .reject) ∧
      (Formula.unary .robust φ).dual.tokens = tokensOf "not == oplus oplus - A B / / B top" ∧
      valueOf σ (Formula.unary .robust φ).tokens = .ok (.boolean true) ∧
      valueOf σ.neg (Formula.unary .robust φ).dual.tokens = .ok (.boolean true) := by
  let φ : Formula :=
    .binary .par (.binary .lpop (.var "A") (.var "B")) (.unary .cycle (.var "B"))
  let σ : Valuation := .ofList [("A", .neutral), ("B", .grant)]
  have hvalue : valueOf σ φ.tokens = .ok (.ternary .neutral) := rfl
  have hrobust : valueOf σ (Formula.unary .robust φ).tokens = .ok (.boolean true) := rfl
  exact ⟨σ, φ, rfl, rfl, by decide, by decide, hvalue, valueOf_dual hvalue (by decide), by decide,
    hrobust, valueOf_dual hrobust (by decide)⟩

end ProcessSpaces
