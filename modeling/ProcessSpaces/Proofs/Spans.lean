import Mathlib.Order.CompletePartialOrder
import Mathlib.Order.Interval.Set.Disjoint
import ProcessSpaces.Proofs.Causes

/-!
# The expressions within an expression

An expression takes up a stretch of the tokens, from the position where it begins to the one behind
it, which is its **span**. Reading it has come past each position of the span once, inside more or
fewer operators. This file says that the way there does not matter: at each position of the span
begins an expression that can be read by itself, afresh and with all the room there is, and it ends
within the span (`exists_valueAt_of_mem_span`). And the value that it has by itself is the one that
the operator in front of it has been applied to (`Composed`).

One step of this is `composed_of_valueAt`: what is read at a position is put together by the token
there from what is read behind it. The rest is an induction on the length of the span. The span of
an operator falls apart into its token and the spans of its operands, which are shorter, and a
position of it belongs to exactly one of them.

The spans are nested like the formulas that they stand for. Two of them never overlap in part, for
the second begins within the first and so cannot reach beyond it (`spans_nest`).
-/

namespace ProcessSpaces

/-! ### One token and what is behind it -/

/-- How the expression at a position comes by its value and by the position behind it: the token
puts it together from the expressions that begin behind the token. -/
inductive Composed (σ : Valuation) (tokens : List Token) (position : Nat) : Value → Nat → Prop
  /-- A constant is an expression by itself. -/
  | constant {a : Truth} (h : tokens[position]? = some (.constant a)) :
      Composed σ tokens position (.ternary a) (position + 1)
  /-- A variable that has a value is an expression by itself. -/
  | var {x : String} {a : Truth} (h : tokens[position]? = some (.var x))
      (hx : σ.get? x = some a) : Composed σ tokens position (.ternary a) (position + 1)
  /-- A unary operator is applied to the expression behind it, and ends where that one does. -/
  | unary {op : UnaryOp} {a v : Value} {next : Nat} (h : tokens[position]? = some (.unary op))
      (ha : valueAt σ tokens (position + 1) = .ok (a, next)) (hv : op.apply position a = .ok v) :
      Composed σ tokens position v next
  /-- A binary operator is applied to the expression behind it and to the one behind that, and ends
  where the latter does. -/
  | binary {op : BinaryOp} {a b v : Value} {middle next : Nat}
      (h : tokens[position]? = some (.binary op))
      (ha : valueAt σ tokens (position + 1) = .ok (a, middle))
      (hb : valueAt σ tokens middle = .ok (b, next)) (hv : op.apply position a b = .ok v) :
      Composed σ tokens position v next

section Spans

variable {σ : Valuation} {tokens : List Token} {room position q next next' : Nat} {v w : Value}
  {r : Reading}

/-- What is read at a position is put together from what is read behind it. Operands are read in
less room, so that they can be read by themselves all the more. -/
theorem composed_of_readExpression (hroom : room ≤ maxNesting + 1)
    (h : readExpression σ room position (tokens.drop position) = .ok r) :
    Composed σ tokens position r.value r.next := by
  cases room with
  | zero => cases h
  | succ room =>
    have hroom' : room ≤ maxNesting + 1 := Nat.le_of_succ_le hroom
    cases htokens : tokens.drop position with
    | nil =>
      rw [htokens] at h
      cases h
    | cons t rest =>
      obtain ⟨ht, rfl, -⟩ := getElem?_and_drop_of_drop_eq_cons htokens
      rw [htokens] at h
      cases t with
      | constant a =>
        cases h
        exact .constant ht
      | var x =>
        rw [readExpression] at h
        cases hx : σ.get? x with
        | none =>
          rw [hx] at h
          cases h
        | some a =>
          rw [hx] at h
          cases h
          exact .var ht hx
      | unary op =>
        obtain ⟨a, v, ha, hv, rfl⟩ := readExpression_unary_eq_ok_iff.mp h
        have hoperand := valueAt_of_readExpression ha hroom'
        exact .unary ht hoperand hv
      | binary op =>
        obtain ⟨a, b, v, ha, hb, hv, rfl⟩ := readExpression_binary_eq_ok_iff.mp h
        obtain ⟨hrest, -⟩ := rest_eq_drop_of_readExpression ha
        rw [hrest] at hb
        have hleft := valueAt_of_readExpression ha hroom'
        have hright := valueAt_of_readExpression hb hroom'
        exact .binary ht hleft hright hv
      | gap => cases h

/-- **What is read at a position is put together from what is read behind it.** -/
theorem composed_of_valueAt (h : valueAt σ tokens position = .ok (v, next)) :
    Composed σ tokens position v next := by
  obtain ⟨r, hr, hv⟩ := bind_eq_ok_iff.mp h
  cases hv
  exact composed_of_readExpression (Nat.le_refl _) hr

/-! ### Spans -/

/-- A span is not empty, and it lies within the tokens. -/
theorem lt_and_le_length_of_valueAt (h : valueAt σ tokens position = .ok (v, next)) :
    position < next ∧ next ≤ tokens.length := by
  obtain ⟨r, hr, hv⟩ := bind_eq_ok_iff.mp h
  cases hv
  exact (rest_eq_drop_of_readExpression hr).2

/-- **At each position of a span begins an expression**, and it ends within the span. -/
theorem exists_valueAt_of_mem_span (h : valueAt σ tokens position = .ok (v, next))
    (hq : position ≤ q) (hqn : q < next) :
    ∃ w next', valueAt σ tokens q = .ok (w, next') ∧ next' ≤ next := by
  induction hlength : next - position using Nat.strong_induction_on
    generalizing position v next with
  | _ length ih =>
    rcases Nat.eq_or_lt_of_le hq with rfl | hlt
    · exact ⟨v, next, h, Nat.le_refl _⟩
    · -- the position lies behind the first token, hence within an operand
      cases composed_of_valueAt h with
      | constant ht => omega
      | var ht hx => omega
      | unary ht ha hv => exact ih (next - (position + 1)) (by omega) ha hlt hqn rfl
      | @binary _ _ _ _ middle _ ht ha hb hv =>
        have hleft := (lt_and_le_length_of_valueAt ha).1
        have hright := (lt_and_le_length_of_valueAt hb).1
        rcases Nat.lt_or_ge q middle with hqm | hqm
        · obtain ⟨w, next', hw, hle⟩ :=
            ih (middle - (position + 1)) (by omega) ha hlt hqm rfl
          exact ⟨w, next', hw, Nat.le_trans hle (Nat.le_of_lt hright)⟩
        · exact ih (next - middle) (by omega) hb hqm hqn rfl

/-- **Two spans do not overlap in part**: one that begins within another lies within it. -/
theorem disjoint_or_subset_of_valueAt (h : valueAt σ tokens position = .ok (v, next))
    (hw : valueAt σ tokens q = .ok (w, next')) (hq : position < q) :
    Disjoint (Set.Ico position next) (Set.Ico q next') ∨
      Set.Ico q next' ⊆ Set.Ico position next := by
  rcases Nat.lt_or_ge q next with hlt | hle
  · -- what is read at a position is read there only once
    obtain ⟨w', next'', hw', hend⟩ := exists_valueAt_of_mem_span h (Nat.le_of_lt hq) hlt
    rw [hw, Except.ok.injEq, Prod.mk.injEq] at hw'
    obtain ⟨-, rfl⟩ := hw'
    exact Or.inr (Set.Ico_subset_Ico (Nat.le_of_lt hq) hend)
  · exact Or.inl (Set.Ico_disjoint_Ico.mpr (by omega))

end Spans

/-- **The expressions within an expression nest.** If an expression can be read from some position,
then its span is not empty and lies within the tokens. From each position of the span an expression
can be read by itself, whose span lies within that of the whole; and its value and its end come
about from the token there and from the expressions behind it, as they are read by themselves. Of
two positions of the span, the spans of their expressions are disjoint, or the second one lies
within the first. -/
theorem spans_nest {σ : Valuation} {tokens : List Token} {position next : Nat} {v : Value}
    (h : valueAt σ tokens position = .ok (v, next)) :
    position < next ∧ next ≤ tokens.length ∧
    (∀ q, position ≤ q → q < next → ∃ w end', valueAt σ tokens q = .ok (w, end') ∧
      q < end' ∧ end' ≤ next ∧ Composed σ tokens q w end') ∧
    ∀ q r w u end₁ end₂, position ≤ q → q < r → r < next →
      valueAt σ tokens q = .ok (w, end₁) → valueAt σ tokens r = .ok (u, end₂) →
      Disjoint (Set.Ico q end₁) (Set.Ico r end₂) ∨ Set.Ico r end₂ ⊆ Set.Ico q end₁ := by
  obtain ⟨hlt, hle⟩ := lt_and_le_length_of_valueAt h
  refine ⟨hlt, hle, fun q hq hqn => ?_, fun q r w u end₁ end₂ _ hqr _ hw hu => ?_⟩
  · obtain ⟨w, end', hw, hend⟩ := exists_valueAt_of_mem_span h hq hqn
    exact ⟨w, end', hw, (lt_and_le_length_of_valueAt hw).1, hend, composed_of_valueAt hw⟩
  · exact disjoint_or_subset_of_valueAt hw hu hqr

/-- In `top == lpop - A B A` the expression at the second token contains one at the fourth, which is
the operand `- A` of `lpop`, and its span and the span of the `B` behind it are disjoint. -/
theorem spans_nest_lpop :
    ∃ σ tokens, σ = Valuation.ofList [("A", .reject), ("B", .grant)] ∧
      tokens = tokensOf "top == lpop - A B A" ∧
      valueAt σ tokens 1 = .ok (.boolean true, 7) ∧
      (∃ w end', valueAt σ tokens 3 = .ok (w, end') ∧ 3 < end' ∧ end' ≤ 7 ∧
        Composed σ tokens 3 w end') ∧
      (Disjoint (Set.Ico 3 5) (Set.Ico 5 6) ∨ Set.Ico 5 6 ⊆ Set.Ico 3 5) := by
  have hvalue : valueAt (.ofList [("A", .reject), ("B", .grant)])
      (tokensOf "top == lpop - A B A") 1 = .ok (.boolean true, 7) := by decide
  obtain ⟨-, -, hwithin, hnested⟩ := spans_nest hvalue
  exact ⟨_, _, rfl, rfl, hvalue, hwithin 3 (by decide) (by decide),
    hnested 3 5 (.ternary .neutral) (.ternary .grant) 5 6 (by decide) (by decide) (by decide)
      (by decide) (by decide)⟩

end ProcessSpaces
