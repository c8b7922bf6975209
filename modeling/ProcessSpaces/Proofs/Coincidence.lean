import ProcessSpaces.Proofs.OperatorTables

/-!
# Two valuations side by side

The same tokens are read under two valuations. This file compares what comes out, for any relation
between values that the language *respects* (`Respected`): constants are related to themselves, and
operators take related operands to related values or to the same error. If the two valuations are
related at the variables among the tokens, then so are the outcomes, and they end in the same place
(`matched_readExpression`). The lemma is an induction along the reading, done here once and for
all; what a claim about two valuations has to bring is its relation.

Equality is respected, which is the **coincidence lemma** (`valueOf_congr`): the value of an
expression depends on the values of its own variables and on nothing else about the valuation.
Being of the same kind is respected as well (`respected_kind`), and this says that a value is never
looked at when it is decided how to go on.
-/

namespace ProcessSpaces

/-! ### Relations that the language respects -/

/-- The relation holds between constants and themselves, and operators take related operands to
outcomes that match: related values, or one error. -/
structure Respected (R : Value → Value → Prop) : Prop where
  /-- Constants are related to themselves. -/
  constant (a : Truth) : R (.ternary a) (.ternary a)
  /-- Unary operators go along with the relation. -/
  unary (op : UnaryOp) (position : Nat) {v v' : Value} (h : R v v') :
    Matched Eq R (op.apply position v) (op.apply position v')
  /-- Binary operators go along with the relation. -/
  binary (op : BinaryOp) (position : Nat) {v v' w w' : Value} (hv : R v v') (hw : R w w') :
    Matched Eq R (op.apply position v w) (op.apply position v' w')

/-- An outcome matches itself if its result is related to itself. -/
theorem matched_self {R : Value → Value → Prop} (hR : ∀ v, R v v) (x : Except EvalError Value) :
    Matched Eq R x x := by
  cases x with
  | error e => exact .error rfl
  | ok v => exact .ok (hR v)

/-- Equality is respected. -/
theorem respected_eq : Respected Eq where
  constant _ := rfl
  unary op position _ _ h := by
    rw [h]
    exact matched_self Eq.refl _
  binary op position _ _ _ _ hv hw := by
    rw [hv, hw]
    exact matched_self Eq.refl _

/-- **The operators cannot tell values of one kind apart** when they decide whether there is a
value and of which kind it is. -/
theorem respected_kind : Respected fun v w => v.kind = w.kind where
  constant _ := rfl
  unary op position v v' h := by
    by_cases hv : v.kind = op.operandKind
    · obtain ⟨u, hu, hukind⟩ := UnaryOp.exists_apply_eq_ok hv position
      obtain ⟨u', hu', hukind'⟩ := UnaryOp.exists_apply_eq_ok (h.symm.trans hv) position
      rw [hu, hu']
      exact .ok (hukind.trans hukind'.symm)
    · rw [UnaryOp.apply_of_kind_ne hv, UnaryOp.apply_of_kind_ne (h ▸ hv), h]
      exact .error rfl
  binary op position v v' w w' hvv hww := by
    by_cases hv : v.kind = op.operandKind
    · by_cases hw : w.kind = op.operandKind
      · obtain ⟨u, hu, hukind⟩ := BinaryOp.exists_apply_eq_ok hv hw position
        obtain ⟨u', hu', hukind'⟩ :=
          BinaryOp.exists_apply_eq_ok (hvv.symm.trans hv) (hww.symm.trans hw) position
        rw [hu, hu']
        exact .ok (hukind.trans hukind'.symm)
      · rw [BinaryOp.apply_of_kind_ne_right hv hw,
          BinaryOp.apply_of_kind_ne_right (hvv.symm.trans hv) (hww ▸ hw), hww]
        exact .error rfl
    · rw [BinaryOp.apply_of_kind_ne_left hv, BinaryOp.apply_of_kind_ne_left (hvv ▸ hv), hvv]
      exact .error rfl

/-! ### Reading under two valuations -/

section TwoValuations

variable {R : Value → Value → Prop} {σ τ : Valuation} {tokens : List Token}

/-- The two valuations give the variables among the tokens related values: both none, or truth
values that are related. -/
def RelatedOn (R : Value → Value → Prop) (σ τ : Valuation) (tokens : List Token) : Prop :=
  ∀ x, .var x ∈ tokens →
    Option.Rel (fun a b => R (.ternary a) (.ternary b)) (σ.get? x) (τ.get? x)

theorem RelatedOn.subset {l : List Token} (h : RelatedOn R σ τ tokens) (hl : l ⊆ tokens) :
    RelatedOn R σ τ l := fun x hx => h x (hl hx)

/-- What a reading leaves is among the tokens it was given. -/
theorem rest_subset_of_readExpression {room position : Nat} {r : Reading}
    (h : readExpression σ room position tokens = .ok r) : r.rest ⊆ tokens := by
  obtain ⟨t, taken, htokens, -⟩ := exists_append_of_readExpression h
  rw [htokens]
  exact List.subset_append_right _ _

/-- **Readings under related valuations match**: they yield related values in the same place, or
fail with the same error. -/
theorem matched_readExpression (hR : Respected R) (h : RelatedOn R σ τ tokens)
    (room position : Nat) :
    Matched Eq (fun r s : Reading => R r.value s.value ∧ r.next = s.next ∧ r.rest = s.rest)
      (readExpression σ room position tokens) (readExpression τ room position tokens) := by
  induction room generalizing position tokens with
  | zero => exact .error rfl
  | succ room ih =>
    cases tokens with
    | nil => exact .error rfl
    | cons t rest =>
      have hrest : RelatedOn R σ τ rest := h.subset (List.subset_cons_self t rest)
      cases t with
      | constant a => exact .ok ⟨hR.constant a, rfl, rfl⟩
      | var x =>
        have hx := h x List.mem_cons_self
        rw [readExpression, readExpression]
        revert hx
        cases σ.get? x <;> cases τ.get? x <;> intro hx <;> cases hx
        · exact .error rfl
        · next hab => exact .ok ⟨hab, rfl, rfl⟩
      | unary op =>
        refine (ih hrest (position + 1)).bind fun a b _ _ hab => ?_
        refine (hR.unary op position hab.1).bind fun v w _ _ hvw => ?_
        exact .ok ⟨hvw, hab.2⟩
      | binary op =>
        refine (ih hrest (position + 1)).bind fun a b ha _ hab => ?_
        -- the right operands begin in the same place, since the left ones end there
        obtain ⟨hvalue, hnext, htail⟩ := hab
        rw [← hnext, ← htail]
        have hleft : RelatedOn R σ τ a.rest := hrest.subset (rest_subset_of_readExpression ha)
        refine (ih hleft a.next).bind fun c d _ _ hcd => ?_
        refine (hR.binary op position hvalue hcd.1).bind fun v w _ _ hvw => ?_
        exact .ok ⟨hvw, hcd.2⟩
      | gap => exact .error rfl

/-- Values of expressions at a position match under related valuations, and so do the positions
behind them. -/
theorem matched_valueAt (hR : Respected R) (h : RelatedOn R σ τ tokens) (position : Nat) :
    Matched Eq (fun r s : Value × Nat => R r.1 s.1 ∧ r.2 = s.2)
      (valueAt σ tokens position) (valueAt τ tokens position) := by
  have hdrop : RelatedOn R σ τ (tokens.drop position) := h.subset (List.drop_subset _ _)
  refine (matched_readExpression hR hdrop _ position).bind fun a b _ _ hab => ?_
  exact .ok ⟨hab.1, hab.2.1⟩

/-- Values of rows of tokens match under related valuations. -/
theorem matched_valueOf (hR : Respected R) (h : RelatedOn R σ τ tokens) :
    Matched Eq R (valueOf σ tokens) (valueOf τ tokens) := by
  refine (matched_readExpression hR h _ 0).bind fun a b _ _ hab => ?_
  obtain ⟨hvalue, hnext, hrest⟩ := hab
  rw [hnext, hrest]
  cases b.rest with
  | nil => exact .ok hvalue
  | cons t rest => exact .error rfl

/-- Valuations that agree on the variables among the tokens give them the same values. -/
theorem relatedOn_eq (h : ∀ x, .var x ∈ tokens → σ.get? x = τ.get? x) :
    RelatedOn Eq σ τ tokens := by
  intro x hx
  rw [h x hx]
  cases τ.get? x with
  | none => exact .none
  | some a => exact .some rfl

/-- **The coincidence lemma**: valuations that agree on the variables among the tokens give them
the same outcome. -/
theorem valueOf_congr (h : ∀ x, .var x ∈ tokens → σ.get? x = τ.get? x) :
    valueOf σ tokens = valueOf τ tokens :=
  (matched_valueOf respected_eq (relatedOn_eq h)).eq

/-- The coincidence lemma for the expression at a position. -/
theorem valueAt_congr (h : ∀ x, .var x ∈ tokens → σ.get? x = τ.get? x) (position : Nat) :
    valueAt σ tokens position = valueAt τ tokens position := by
  rcases (matched_valueAt respected_eq (relatedOn_eq h) position).ok_or_error with
    ⟨r, s, hr, hs, hvalue, hnext⟩ | ⟨e, d, he, hd, rfl⟩
  · rw [hr, hs, Prod.ext hvalue hnext]
  · rw [he, hd]

end TwoValuations

end ProcessSpaces
