import ProcessSpaces.Proofs.Tabulation
import ProcessSpaces.Proofs.UniqueReading

/-!
# What is known before any value is

The values of an expression are computed while it is read, and only then are their kinds looked
at. All the same, whether an expression has a value, which error it has otherwise, where it ends
and of which kind its value is can be told without knowing the values of its variables: these are
the same under any two valuations that give values to the same variables of it
(`valueAt_static`, `valueOf_static`). The kind of a value is settled by the token with which the
expression begins (`Token.kind`).

The rows of a table differ in nothing but the values of the variables. So if the first row has
a value then all rows have, of one kind, and if it has none then no row is ever finished
(`outcome_static`): there are no tables in part.
-/

namespace ProcessSpaces

/-! ### The kind that a token announces -/

/-- The tokens with which the expressions of booleans begin. -/
def Token.booleans : List Token :=
  [.unary .robust, .unary .not, .binary .entails, .binary .equal,
    .binary .and, .binary .or, .binary .implies, .binary .equiv]

/-- The kind of the expressions that begin with the token. -/
def Token.kind (t : Token) : Kind := if t ∈ Token.booleans then .boolean else .ternary

theorem UnaryOp.kind_token (op : UnaryOp) : (Token.unary op).kind = op.resultKind := by
  cases op <;> rfl

theorem BinaryOp.kind_token (op : BinaryOp) : (Token.binary op).kind = op.resultKind := by
  cases op <;> rfl

/-- The expression of a formula begins with a token that announces the kind of the formula. -/
theorem Formula.exists_tokens_eq_cons (φ : Formula) :
    ∃ t l, φ.tokens = t :: l ∧ φ.kind = t.kind := by
  cases φ with
  | constant a => exact ⟨.constant a, [], rfl, rfl⟩
  | var name => exact ⟨.var name, [], rfl, rfl⟩
  | unary op φ => exact ⟨.unary op, φ.tokens, rfl, op.kind_token.symm⟩
  | binary op φ ψ => exact ⟨.binary op, φ.tokens ++ ψ.tokens, rfl, op.kind_token.symm⟩

/-- **What is read is of the kind that the first token announces.** -/
theorem kind_of_readExpression {σ : Valuation} {room position : Nat} {tokens : List Token}
    {r : Reading} (h : readExpression σ room position tokens = .ok r) :
    ∃ t, tokens.head? = some t ∧ r.value.kind = t.kind := by
  obtain ⟨φ, rfl, -, -, hvalue⟩ := exists_formula_of_readExpression h
  obtain ⟨t, l, htokens, hkind⟩ := φ.exists_tokens_eq_cons
  refine ⟨t, ?_, (Formula.kind_of_value?_eq_some hvalue).trans hkind⟩
  rw [htokens]
  rfl

/-- The value of an expression at a position is of the kind that the token there announces. -/
theorem kind_of_valueAt {σ : Valuation} {tokens : List Token} {position next : Nat} {v : Value}
    (h : valueAt σ tokens position = .ok (v, next)) :
    ∃ t, tokens[position]? = some t ∧ v.kind = t.kind := by
  obtain ⟨r, hr, hv⟩ := bind_eq_ok_iff.mp h
  cases hv
  obtain ⟨t, ht, hkind⟩ := kind_of_readExpression hr
  rw [List.head?_drop] at ht
  exact ⟨t, ht, hkind⟩

/-- The value of a row of tokens is of the kind that the first of them announces. -/
theorem kind_of_valueOf {σ : Valuation} {tokens : List Token} {v : Value}
    (h : valueOf σ tokens = .ok v) : ∃ t, tokens.head? = some t ∧ v.kind = t.kind := by
  obtain ⟨r, hr, -, rfl⟩ := valueOf_eq_ok_iff_readExpression.mp h
  exact kind_of_readExpression hr

/-! ### Two valuations of the same variables -/

section TwoValuations

variable {σ τ : Valuation} {tokens : List Token}

/-- The valuations give values to the same variables among the tokens. -/
def SameSupport (σ τ : Valuation) (tokens : List Token) : Prop :=
  ∀ x, .var x ∈ tokens → ((σ.get? x).isSome ↔ (τ.get? x).isSome)

/-- Valuations that give values to the same variables give them values of the same kind. -/
theorem SameSupport.relatedOn (h : SameSupport σ τ tokens) :
    RelatedOn (fun v w => v.kind = w.kind) σ τ tokens := by
  intro x hx
  have hsome := h x hx
  revert hsome
  cases σ.get? x <;> cases τ.get? x <;> intro hsome
  · exact .none
  · simp at hsome
  · simp at hsome
  · exact .some rfl

/-- **Two valuations of the same variables give an expression the same outcome but for the value**:
values of the kind that the first token announces, with the same position behind them, or the same
error. -/
theorem valueAt_static (h : SameSupport σ τ tokens) (position : Nat) :
    (∃ t v w next, tokens[position]? = some t ∧ valueAt σ tokens position = .ok (v, next) ∧
      valueAt τ tokens position = .ok (w, next) ∧ v.kind = t.kind ∧ w.kind = t.kind) ∨
    ∃ e, valueAt σ tokens position = .error e ∧ valueAt τ tokens position = .error e := by
  rcases (matched_valueAt respected_kind h.relatedOn position).ok_or_error with
    ⟨⟨v, next⟩, ⟨w, next'⟩, hσ, hτ, hkind, hnext⟩ | ⟨e, e', hσ, hτ, he⟩
  · obtain rfl : next = next' := hnext
    obtain ⟨t, ht, hvkind⟩ := kind_of_valueAt hσ
    exact Or.inl ⟨t, v, w, next, ht, hσ, hτ, hvkind, hkind.symm.trans hvkind⟩
  · exact Or.inr ⟨e, hσ, he ▸ hτ⟩

/-- **Two valuations of the same variables give a row of tokens the same outcome but for the
value.** -/
theorem valueOf_static (h : SameSupport σ τ tokens) :
    (∃ t v w, tokens.head? = some t ∧ valueOf σ tokens = .ok v ∧ valueOf τ tokens = .ok w ∧
      v.kind = t.kind ∧ w.kind = t.kind) ∨
    ∃ e, valueOf σ tokens = .error e ∧ valueOf τ tokens = .error e := by
  rcases (matched_valueOf respected_kind h.relatedOn).ok_or_error with
    ⟨v, w, hσ, hτ, hkind⟩ | ⟨e, e', hσ, hτ, he⟩
  · obtain ⟨t, ht, hvkind⟩ := kind_of_valueOf hσ
    exact Or.inl ⟨t, v, w, ht, hσ, hτ, hvkind, hkind.symm.trans hvkind⟩
  · exact Or.inr ⟨e, hσ, he ▸ hτ⟩

end TwoValuations

/-! ### The rows of a table -/

section Rows

variable {e : String}

/-- The valuations of all rows give values to the same variables, namely to all of them. -/
theorem sameSupport_nth (tokens : List Token) (i j : Nat) :
    SameSupport (Valuation.nth (variablesOf tokens) i) (Valuation.nth (variablesOf tokens) j)
      tokens := by
  intro x hx
  exact iff_of_true (Valuation.binds_nth tokens i x hx) (Valuation.binds_nth tokens j x hx)

/-- If the first row has no value, the loop over the rows ends at it. -/
theorem rowsFrom_of_first_eq_error {tokens : List Token} {err : EvalError}
    (h : valueOf (Valuation.nth (variablesOf tokens) 0) tokens = .error err) :
    rowsFrom tokens (variablesOf tokens) (Valuation.number (variablesOf tokens).length) 0 #[] =
      (#[], some err) := by
  obtain ⟨m, hm⟩ : ∃ m, Valuation.number (variablesOf tokens).length = m + 1 :=
    Nat.exists_eq_add_one_of_ne_zero (Nat.ne_of_gt (Valuation.number_pos _))
  rw [hm]
  exact rowsFrom_succ_of_eq_error h

/-- If the first row has no value, the table ends with the error of this row, and no row has been
finished. -/
theorem tabulate_of_first_eq_error {err : EvalError}
    (hle : (variablesOf (tokensOf e)).length ≤ maxVariables)
    (h : valueOf (Valuation.nth (variablesOf (tokensOf e)) 0) (tokensOf e) = .error err) :
    (tabulate e).result = .error err ∧ ∀ r, .row r ∉ (tabulate e).log := by
  have hloop := rowsFrom_of_first_eq_error h
  refine ⟨result_tabulate_of_rowsFrom hle hloop, fun r => ?_⟩
  rw [log_tabulate_of_rowsFrom hle hloop]
  simp

/-- If the first row has a value, all rows have. -/
theorem exists_valueOf_nth_eq_ok {tokens : List Token} {v : Value}
    (h : valueOf (Valuation.nth (variablesOf tokens) 0) tokens = .ok v) (i : Nat) :
    ∃ w, valueOf (Valuation.nth (variablesOf tokens) i) tokens = .ok w := by
  rcases valueOf_static (sameSupport_nth tokens 0 i) with ⟨_, _, w, _, _, hw, _⟩ | ⟨err, herr, _⟩
  · exact ⟨w, hw⟩
  · rw [h] at herr
    cases herr

/-- If the first row has a value, there is a table. -/
theorem tabulate_of_first_eq_ok {v : Value}
    (hle : (variablesOf (tokensOf e)).length ≤ maxVariables)
    (h : valueOf (Valuation.nth (variablesOf (tokensOf e)) 0) (tokensOf e) = .ok v) :
    ∃ t, (tabulate e).result = .ok t := by
  choose f hf using exists_valueOf_nth_eq_ok h
  let rows := (List.range (Valuation.number (variablesOf (tokensOf e)).length)).map fun i =>
    (⟨Valuation.nth (variablesOf (tokensOf e)) i, f i⟩ : Row)
  refine ⟨⟨e, variablesOf (tokensOf e), rows⟩,
    tabulate_eq_ok_iff.mpr ⟨rfl, rfl, hle, ?_, fun i r hr => ?_⟩⟩
  · rw [List.length_map, List.length_range]
  · obtain ⟨j, hj, rfl⟩ := List.getElem?_eq_some_iff.mp hr
    rw [List.getElem_map, List.getElem_range]
    exact ⟨rfl, hf i⟩

/-- If there is no table although the rows can be counted, then for the error of the first row. -/
theorem valueOf_first_of_tabulate_eq_error {err : EvalError}
    (hle : (variablesOf (tokensOf e)).length ≤ maxVariables)
    (h : (tabulate e).result = .error err) :
    valueOf (Valuation.nth (variablesOf (tokensOf e)) 0) (tokensOf e) = .error err := by
  cases hfirst : valueOf (Valuation.nth (variablesOf (tokensOf e)) 0) (tokensOf e) with
  | ok v =>
    obtain ⟨t, ht⟩ := tabulate_of_first_eq_ok hle hfirst
    rw [h] at ht
    cases ht
  | error err' =>
    rw [(tabulate_of_first_eq_error hle hfirst).1] at h
    cases h
    rfl

/-- All values of a table are of the kind that the first token of its expression announces. -/
theorem TruthTable.IsTableOf.kind_eq {t : TruthTable} (h : t.IsTableOf e) {r : Row}
    (hr : r ∈ t.rows) : ∃ k, (tokensOf e).head? = some k ∧ r.value.kind = k.kind :=
  kind_of_valueOf (h.valueOf_of_mem hr)

end Rows

/-- **Failure and kind are static.** Under two valuations of the same variables, an expression
has the same outcome but for the value, which is of the kind that its first token announces; this
is so at every position and for a whole row of tokens. Hence an expression whose rows can be
counted either fails at its first row, with no row finished, or it has a table with values of a
single kind; and an expression of more than forty variables is refused for that, whatever else is
wrong with it. -/
theorem outcome_static :
    (∀ (tokens : List Token) (σ τ : Valuation), SameSupport σ τ tokens →
      (∀ position,
        (∃ t v w next, tokens[position]? = some t ∧ valueAt σ tokens position = .ok (v, next) ∧
          valueAt τ tokens position = .ok (w, next) ∧ v.kind = t.kind ∧ w.kind = t.kind) ∨
        ∃ err, valueAt σ tokens position = .error err ∧ valueAt τ tokens position = .error err) ∧
      ((∃ t v w, tokens.head? = some t ∧ valueOf σ tokens = .ok v ∧ valueOf τ tokens = .ok w ∧
          v.kind = t.kind ∧ w.kind = t.kind) ∨
        ∃ err, valueOf σ tokens = .error err ∧ valueOf τ tokens = .error err)) ∧
    ∀ e : String,
      ((variablesOf (tokensOf e)).length ≤ 40 →
        (∃ err, valueOf (Valuation.nth (variablesOf (tokensOf e)) 0) (tokensOf e) = .error err ∧
          (tabulate e).result = .error err ∧ ∀ r, .row r ∉ (tabulate e).log) ∨
        ∃ t k, (tabulate e).result = .ok t ∧ (tokensOf e).head? = some k ∧
          ∀ r ∈ t.rows, r.value.kind = k.kind) ∧
      (40 < (variablesOf (tokensOf e)).length →
        (tabulate e).result = .error (.tooManyVariables (variablesOf (tokensOf e)).length)) := by
  refine ⟨fun tokens σ τ h => ⟨valueAt_static h, valueOf_static h⟩, fun e => ⟨fun hle => ?_, ?_⟩⟩
  · cases h : valueOf (Valuation.nth (variablesOf (tokensOf e)) 0) (tokensOf e) with
    | error err => exact Or.inl ⟨err, rfl, tabulate_of_first_eq_error hle h⟩
    | ok v =>
      obtain ⟨t, ht⟩ := tabulate_of_first_eq_ok hle h
      obtain ⟨k, hk, -⟩ := kind_of_valueOf h
      refine Or.inr ⟨t, k, ht, hk, fun r hr => ?_⟩
      obtain ⟨k', hk', hkind⟩ := (tabulate_eq_ok_iff.mp ht).kind_eq hr
      rw [hk, Option.some.injEq] at hk'
      rw [hkind, hk']
  · exact result_tabulate_of_lt

/-- Two valuations of `A`, one of which also gives a value to another name, both give `robust A`
some value that is a boolean. -/
theorem outcome_static_robust :
    ∃ σ τ, σ = Valuation.ofList [("A", .reject)] ∧
      τ = Valuation.ofList [("B", .grant), ("A", .neutral)] ∧
      SameSupport σ τ (tokensOf "robust A") ∧
      ∃ v w, valueOf σ (tokensOf "robust A") = .ok v ∧ valueOf τ (tokensOf "robust A") = .ok w ∧
        v.kind = .boolean ∧ w.kind = .boolean := by
  have hsupport : SameSupport (.ofList [("A", .reject)]) (.ofList [("B", .grant), ("A", .neutral)])
      (tokensOf "robust A") := by
    intro x hx
    obtain rfl : x = "A" := List.mem_singleton.mp (mem_variablesOf.mpr hx)
    exact Iff.of_eq rfl
  refine ⟨_, _, rfl, rfl, hsupport, ?_⟩
  rcases (outcome_static.1 _ _ _ hsupport).2 with
    ⟨t, v, w, ht, hv, hw, hvkind, hwkind⟩ | ⟨err, herr, -⟩
  · obtain rfl : .unary .robust = t := Option.some.inj ht
    exact ⟨v, w, hv, hw, hvkind, hwkind⟩
  · cases herr

end ProcessSpaces
