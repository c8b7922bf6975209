import ProcessSpaces.Truth

/-!
# Laws of the algebra of truth values

The operations on truth values are written out case by case, and it takes some laws to reason with
them. There are only three values, so that a law for all of them can be decided by looking at each
case, once this is made known (`Truth.forall_iff`). What is decided here is what relates one table
to another, or to the order:

* negation turns the order round, and turns each of the tables `par`, `oplus`, `meet` and `join`
  into another one (`Truth.neg_par` and the laws next to it);
* `par` and `oplus` go up with both of their operands (`Truth.par_le_par`, `Truth.oplus_le_oplus`),
  although neither of them is the least upper or the greatest lower bound.

The linear implication needs no table of its own, since it is `par` with its left operand negated
(`Truth.lpop_eq_par_neg`). Its laws are those of `par` and of negation.
-/

namespace ProcessSpaces.Truth

/-- What holds of each of the three values holds of all. -/
theorem forall_iff {P : Truth → Prop} : (∀ a, P a) ↔ P reject ∧ P grant ∧ P neutral := by
  constructor
  · intro h
    exact ⟨h reject, h grant, h neutral⟩
  · rintro ⟨hreject, hgrant, hneutral⟩ a
    cases a with
    | reject => exact hreject
    | grant => exact hgrant
    | neutral => exact hneutral

instance {P : Truth → Prop} [DecidablePred P] : Decidable (∀ a, P a) :=
  decidable_of_iff _ forall_iff.symm

variable {a b c a' b' : Truth}

/-! ### The order -/

theorem le_refl (a : Truth) : a ≤ a := Nat.le_refl _

theorem le_trans (h : a ≤ b) (h' : b ≤ c) : a ≤ c := Nat.le_trans h' h

theorem le_antisymm : ∀ {a b : Truth}, a ≤ b → b ≤ a → a = b := by decide

/-- Negation turns the order round. -/
theorem neg_le_neg : ∀ {a b : Truth}, a ≤ b → b.neg ≤ a.neg := by decide

theorem par_le_par : ∀ {a a' b b' : Truth}, a ≤ a' → b ≤ b' → a.par b ≤ a'.par b' := by decide

theorem oplus_le_oplus : ∀ {a a' b b' : Truth}, a ≤ a' → b ≤ b' → a.oplus b ≤ a'.oplus b' := by
  decide

/-- The linear implication is what it is defined by. -/
theorem lpop_eq_par_neg : ∀ a b : Truth, a.lpop b = a.neg.par b := by decide

theorem lpop_le_lpop (ha : a' ≤ a) (hb : b ≤ b') : a.lpop b ≤ a'.lpop b' := by
  rw [lpop_eq_par_neg, lpop_eq_par_neg]
  exact par_le_par (neg_le_neg ha) hb

/-- The greater a value, the less robust it is. -/
theorem isRobust_of_le : ∀ {a b : Truth}, a ≤ b → b.isRobust = true → a.isRobust = true := by decide

/-! ### Negation and the tables -/

/-- Going one step round and negating comes to negating and going two steps round. -/
theorem neg_cycle : ∀ a : Truth, a.cycle.neg = a.neg.cycle.cycle := by decide

theorem neg_par : ∀ a b : Truth, (a.par b).neg = a.neg.oplus b.neg := by decide

theorem neg_oplus : ∀ a b : Truth, (a.oplus b).neg = a.neg.par b.neg := by decide

theorem neg_meet : ∀ a b : Truth, (a.meet b).neg = a.neg.join b.neg := by decide

theorem neg_join : ∀ a b : Truth, (a.join b).neg = a.neg.meet b.neg := by decide

theorem neg_lpop (a b : Truth) : (a.lpop b).neg = a.neg.neg.oplus b.neg := by
  rw [lpop_eq_par_neg, neg_par]

/-- A value is robust unless its negation is neutral. -/
theorem isRobust_eq : ∀ a : Truth, a.isRobust = !decide (a.neg = neutral) := by decide

theorem neg_inj : ∀ {a b : Truth}, a.neg = b.neg ↔ a = b := by decide

/-- Entailment between negations goes the other way. -/
theorem entails_neg_neg : ∀ a b : Truth, b.neg.entails a.neg = a.entails b := by decide

end ProcessSpaces.Truth
