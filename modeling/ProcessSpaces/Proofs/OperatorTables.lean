import Mathlib.Data.Fin.VecNotation
import ProcessSpaces.Formula
import ProcessSpaces.Proofs.Outcome

/-!
# The operators by their tables

What an operator means has been said case by case, at the kinds it takes. This file says it once
more in the form in which a logic is usually presented: **tables**, with a row for each left
operand and a column for each right one, both in the order reject, grant, neutral, and with no
entry at all where an operand is of the wrong kind. `UnaryOp.entry?` and `BinaryOp.entry?` look
operands up, and `Formula.tableValue?` computes the value of a formula with nothing but them.

The two presentations agree: applying an operator succeeds exactly when the tables have an entry,
with that entry (`UnaryOp.apply_eq_ok_iff`, `BinaryOp.apply_eq_ok_iff`), and a formula has the
value that the tables give it (`Formula.tableValue?_eq_value?`).

Whether an application succeeds is a matter of kinds alone. An operand of the right kind leads
to a value of the kind that the operator yields, and an operand of the wrong one is reported, the
left operand before the right one.

To settle on a family beforehand makes no difference for its own operators
(`BinaryOp.applyWithin_family`), and there are no values for others
(`BinaryOp.applyWithin_eq_ok_iff`).
-/

namespace ProcessSpaces

/-! ### The tables -/

/-- The place of a truth value in the entailment order, counted from below. -/
def Truth.rank : Truth → Nat
  | neutral => 0
  | grant => 1
  | reject => 2

/-- The entry of the table of a unary operator, if the operand is of the kind it takes. -/
def UnaryOp.entry? : UnaryOp → Value → Option Value
  | neg, .ternary a => some (.ternary (![.neutral, .grant, .reject] a.digit))
  | cycle, .ternary a => some (.ternary (![.grant, .neutral, .reject] a.digit))
  | robust, .ternary a => some (.boolean (![false, true, true] a.digit))
  | not, .boolean b => some (.boolean (!b))
  | _, _ => none

namespace BinaryOp

/-- The table of `||`. -/
def parTable : Fin 3 → Fin 3 → Truth :=
  ![![.reject, .reject, .neutral],
    ![.reject, .grant, .neutral],
    ![.neutral, .neutral, .neutral]]

/-- The table of `oplus`. -/
def oplusTable : Fin 3 → Fin 3 → Truth :=
  ![![.reject, .reject, .reject],
    ![.reject, .grant, .neutral],
    ![.reject, .neutral, .neutral]]

/-- The table of `meet`. -/
def meetTable : Fin 3 → Fin 3 → Truth :=
  ![![.reject, .grant, .neutral],
    ![.grant, .grant, .grant],
    ![.neutral, .grant, .neutral]]

/-- The table of `join`. -/
def joinTable : Fin 3 → Fin 3 → Truth :=
  ![![.reject, .grant, .reject],
    ![.grant, .grant, .grant],
    ![.reject, .grant, .neutral]]

/-- The table of `lpop`. -/
def lpopTable : Fin 3 → Fin 3 → Truth :=
  ![![.neutral, .neutral, .neutral],
    ![.reject, .grant, .neutral],
    ![.reject, .reject, .neutral]]

/-- The entry of the table of a binary operator, if both operands are of the kind it takes. The
comparisons and the logic have no table: they are the order, equality, and the usual operations
on booleans. -/
def entry? : BinaryOp → Value → Value → Option Value
  | par, .ternary a, .ternary b => some (.ternary (parTable a.digit b.digit))
  | oplus, .ternary a, .ternary b => some (.ternary (oplusTable a.digit b.digit))
  | meet, .ternary a, .ternary b => some (.ternary (meetTable a.digit b.digit))
  | join, .ternary a, .ternary b => some (.ternary (joinTable a.digit b.digit))
  | lpop, .ternary a, .ternary b => some (.ternary (lpopTable a.digit b.digit))
  | entails, .ternary a, .ternary b => some (.boolean (b.rank ≤ a.rank))
  | equal, .ternary a, .ternary b => some (.boolean (a = b))
  | and, .boolean a, .boolean b => some (.boolean (a && b))
  | or, .boolean a, .boolean b => some (.boolean (a || b))
  | implies, .boolean a, .boolean b => some (.boolean (!a || b))
  | equiv, .boolean a, .boolean b => some (.boolean (a = b))
  | _, _, _ => none

end BinaryOp

/-- The value of a formula by the tables: none if a variable has no value or an operand is of
the wrong kind. -/
def Formula.tableValue? (σ : Valuation) : Formula → Option Value
  | constant a => some (.ternary a)
  | var name => (σ.get? name).map .ternary
  | unary op φ => (φ.tableValue? σ).bind op.entry?
  | binary op φ ψ =>
    (φ.tableValue? σ).bind fun v => (ψ.tableValue? σ).bind fun w => op.entry? v w

/-! ### The tables and the meanings agree -/

/-- A table has an entry exactly for an operand of the right kind, and the entry is the meaning
of the operator there. -/
theorem UnaryOp.entry?_eq (op : UnaryOp) (v : Value) :
    op.entry? v =
      (v.as? op.operandKind).bind fun a => some (.ofCarrier op.resultKind (op.denote a)) := by
  cases op <;> rcases v with a | b <;> (try cases a) <;> rfl

/-- A table has an entry exactly for two operands of the right kind, and the entry is the meaning
of the operator there. -/
theorem BinaryOp.entry?_eq (op : BinaryOp) (v w : Value) :
    op.entry? v w =
      (v.as? op.operandKind).bind fun a =>
        (w.as? op.operandKind).bind fun b =>
          some (.ofCarrier op.resultKind (op.denote a b)) := by
  cases op <;> rcases v with a | a <;> rcases w with b | b <;>
    (try cases a <;> cases b) <;> rfl

/-- **The value that the tables give to a formula is its value.** -/
theorem Formula.tableValue?_eq_value? (σ : Valuation) (φ : Formula) :
    φ.tableValue? σ = φ.value? σ := by
  induction φ with
  | constant a => rfl
  | var name => rfl
  | unary op φ ih =>
    rw [tableValue?, value?, ih]
    cases φ.value? σ with
    | none => rfl
    | some v => exact op.entry?_eq v
  | binary op φ ψ ihφ ihψ =>
    rw [tableValue?, value?, ihφ, ihψ]
    cases φ.value? σ with
    | none => rfl
    | some v =>
      cases ψ.value? σ with
      | none =>
        -- the meaning asks for the kind of the left operand before the right value is missed
        simp
      | some w => exact op.entry?_eq v w

/-! ### Applying an operator -/

section Require

variable {k : Kind} {v : Value}

/-- A value of the right kind is taken. -/
theorem Value.exists_require_eq_ok (h : v.kind = k) (operator : String) (position : Nat) :
    ∃ a, v.require k operator position = .ok a := by
  cases hv : v.as? k with
  | none => exact absurd h (Value.as?_eq_none_iff.mp hv)
  | some a => exact ⟨a, by rw [Value.require, hv]⟩

/-- A value of the wrong kind is reported. -/
theorem Value.require_of_kind_ne (h : v.kind ≠ k) (operator : String) (position : Nat) :
    v.require k operator position = .error (.kindMismatch operator k v.kind position) := by
  rw [Value.require, Value.as?_eq_none_iff.mpr h]

end Require

namespace UnaryOp

variable {op : UnaryOp} {position : Nat} {v w : Value}

/-- **Applying a unary operator succeeds exactly where its table has an entry.** -/
theorem apply_eq_ok_iff : op.apply position v = .ok w ↔ op.entry? v = some w := by
  rw [entry?_eq, apply, Value.require]
  cases v.as? op.operandKind with
  | none => simp [bind, Except.bind]
  | some a => simp [bind, Except.bind, pure, Except.pure]

/-- An operand of the right kind leads to a value of the kind that the operator yields. -/
theorem exists_apply_eq_ok (h : v.kind = op.operandKind) (position : Nat) :
    ∃ w, op.apply position v = .ok w ∧ w.kind = op.resultKind := by
  obtain ⟨a, ha⟩ := Value.exists_require_eq_ok h op.text position
  refine ⟨.ofCarrier op.resultKind (op.denote a), ?_, Value.kind_ofCarrier _ _⟩
  rw [apply, ha, ok_bind]
  rfl

/-- An operand of the wrong kind is reported. -/
theorem apply_of_kind_ne (h : v.kind ≠ op.operandKind) (position : Nat) :
    op.apply position v = .error (.kindMismatch op.text op.operandKind v.kind position) := by
  rw [apply, Value.require_of_kind_ne h, error_bind]

/-- The only thing that an application can report is that the operand is of the wrong kind. -/
theorem eq_of_apply_eq_error {e : EvalError} (h : op.apply position v = .error e) :
    v.kind ≠ op.operandKind ∧ e = .kindMismatch op.text op.operandKind v.kind position := by
  by_cases hv : v.kind = op.operandKind
  · obtain ⟨w, hw, -⟩ := exists_apply_eq_ok hv position
    rw [hw] at h
    cases h
  · rw [apply_of_kind_ne hv] at h
    exact ⟨hv, (Except.error.inj h).symm⟩

end UnaryOp

namespace BinaryOp

variable {op : BinaryOp} {position : Nat} {v w u : Value}

/-- **Applying a binary operator succeeds exactly where its table has an entry.** -/
theorem apply_eq_ok_iff : op.apply position v w = .ok u ↔ op.entry? v w = some u := by
  rw [entry?_eq, apply, Value.require, Value.require]
  cases v.as? op.operandKind with
  | none => simp [bind, Except.bind]
  | some a =>
    cases w.as? op.operandKind with
    | none => simp [bind, Except.bind]
    | some b => simp [bind, Except.bind, pure, Except.pure]

/-- Two operands of the right kind lead to a value of the kind that the operator yields. -/
theorem exists_apply_eq_ok (hv : v.kind = op.operandKind) (hw : w.kind = op.operandKind)
    (position : Nat) : ∃ u, op.apply position v w = .ok u ∧ u.kind = op.resultKind := by
  obtain ⟨a, ha⟩ := Value.exists_require_eq_ok hv op.text position
  obtain ⟨b, hb⟩ := Value.exists_require_eq_ok hw op.text position
  refine ⟨.ofCarrier op.resultKind (op.denote a b), ?_, Value.kind_ofCarrier _ _⟩
  rw [apply, ha, ok_bind, hb, ok_bind]
  rfl

/-- A left operand of the wrong kind is reported, whatever the right one is. -/
theorem apply_of_kind_ne_left (h : v.kind ≠ op.operandKind) (position : Nat) (w : Value) :
    op.apply position v w = .error (.kindMismatch op.text op.operandKind v.kind position) := by
  rw [apply, Value.require_of_kind_ne h, error_bind]

/-- A right operand of the wrong kind is reported if the left one is of the right kind. -/
theorem apply_of_kind_ne_right (hv : v.kind = op.operandKind) (hw : w.kind ≠ op.operandKind)
    (position : Nat) :
    op.apply position v w = .error (.kindMismatch op.text op.operandKind w.kind position) := by
  obtain ⟨a, ha⟩ := Value.exists_require_eq_ok hv op.text position
  rw [apply, ha, ok_bind, Value.require_of_kind_ne hw, error_bind]

/-- The only thing that an application can report is an operand of the wrong kind, and of two such
operands it reports the left one. -/
theorem eq_of_apply_eq_error {e : EvalError} (h : op.apply position v w = .error e) :
    (v.kind ≠ op.operandKind ∧ e = .kindMismatch op.text op.operandKind v.kind position) ∨
      (v.kind = op.operandKind ∧ w.kind ≠ op.operandKind ∧
        e = .kindMismatch op.text op.operandKind w.kind position) := by
  by_cases hv : v.kind = op.operandKind
  · by_cases hw : w.kind = op.operandKind
    · obtain ⟨u, hu, -⟩ := exists_apply_eq_ok hv hw position
      rw [hu] at h
      cases h
    · rw [apply_of_kind_ne_right hv hw] at h
      exact Or.inr ⟨hv, hw, (Except.error.inj h).symm⟩
  · rw [apply_of_kind_ne_left hv] at h
    exact Or.inl ⟨hv, (Except.error.inj h).symm⟩

/-! ### Applying an operator within a family -/

variable {f : Family}

/-- Within its own family an operator is applied as it is anywhere else. -/
theorem applyWithin_family (op : BinaryOp) (position : Nat) (v w : Value) :
    op.applyWithin op.family position v w = (op.apply position v w).mapError .operand :=
  if_pos rfl

/-- **What a family makes of an operator of another one**: it is found out to be foreign, but in a
family other than the tables only if both operands are of the kind that the family takes. If not,
the first operand that is of another kind is reported, in the name of the foreign operator. -/
theorem applyWithin_of_family_ne (h : op.family ≠ f) (position : Nat) (v w : Value) :
    op.applyWithin f position v w =
      if f = .table ∨ (v.kind = f.operandKind ∧ w.kind = f.operandKind) then
        .error .foreign
      else
        .error (.operand (.kindMismatch op.text f.operandKind
          (if v.kind = f.operandKind then w.kind else v.kind) position)) := by
  rw [applyWithin, if_neg h]
  by_cases hf : f = .table
  · rw [if_pos hf, if_pos (Or.inl hf)]
  · rw [if_neg hf]
    by_cases hv : v.kind = f.operandKind
    · obtain ⟨a, ha⟩ := Value.exists_require_eq_ok hv op.text position
      rw [ha, if_pos hv]
      by_cases hw : w.kind = f.operandKind
      · obtain ⟨b, hb⟩ := Value.exists_require_eq_ok hw op.text position
        rw [hb, if_pos (Or.inr ⟨hv, hw⟩)]
      · rw [Value.require_of_kind_ne hw, if_neg fun hor => hor.elim hf fun hand => hw hand.2]
    · rw [Value.require_of_kind_ne hv, if_neg hv,
        if_neg fun hor => hor.elim hf fun hand => hv hand.1]

/-- **A family has values for its own operators only**, and these are the entries of their
tables. -/
theorem applyWithin_eq_ok_iff :
    op.applyWithin f position v w = .ok u ↔ op.family = f ∧ op.entry? v w = some u := by
  by_cases h : op.family = f
  · rw [and_iff_right h, ← h, applyWithin_family, mapError_eq_ok_iff, apply_eq_ok_iff]
  · refine iff_of_false (fun hok => ?_) fun hand => h hand.1
    rw [applyWithin_of_family_ne h] at hok
    split at hok
    · cases hok
    · cases hok

end BinaryOp

end ProcessSpaces
