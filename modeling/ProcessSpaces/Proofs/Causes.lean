import ProcessSpaces.Proofs.Nesting

/-!
# What the errors point at

An error of reading carries a position, and with it goes the promise that one finds its cause there.
`Cause` spells this out, error by error, by looking at the tokens and not at how they were read: at
the position of a stray token there is a gap, at the position of an unbound variable there is this
variable, at the position of a mismatch there is the operator that complains, and its operands can
be read by themselves and are of the kinds that the message names.

**Every error has its cause** (`cause_of_readExpression`). Errors come up at some operand of some
operand and are passed on unchanged, so this is shown along the reading, for all positions in the
tokens at once. Two things have to be kept on the way. The position never lies behind the end
(`rest_eq_drop_of_readExpression`), since otherwise the end of input would be reported too far to
the right. And what is missing from the room has been spent on operators, each of which takes a
token at least; this is why a nesting that is too deep is found no earlier than 1025 tokens from the
beginning.
-/

namespace ProcessSpaces

/-! ### Causes -/

/-- The cause of an error that comes up when an expression is read from the position `start` on. -/
inductive Cause (σ : Valuation) (tokens : List Token) (start : Nat) : EvalError → Prop
  /-- The tokens end where an expression should begin. -/
  | endOfInput : Cause σ tokens start (.endOfInput tokens.length)
  /-- A gap stands where an expression should begin. -/
  | strayToken {q : Nat} (h : tokens[q]? = some .gap) : Cause σ tokens start (.strayToken " " q)
  /-- There are tokens enough in front of the position for the operators around it. -/
  | nestedTooDeep {q : Nat} (hstart : start + 1025 ≤ q) (hend : q ≤ tokens.length) :
      Cause σ tokens start (.nestedTooDeep q)
  /-- A variable stands there, and it has no value. -/
  | unboundVariable {x : String} {q : Nat} (h : tokens[q]? = some (.var x))
      (hx : σ.get? x = none) : Cause σ tokens start (.unboundVariable x q)
  /-- A unary operator stands there, and its operand is of the wrong kind. -/
  | operand {op : UnaryOp} {q next : Nat} {v : Value} (h : tokens[q]? = some (.unary op))
      (hv : valueAt σ tokens (q + 1) = .ok (v, next)) (hkind : v.kind ≠ op.operandKind) :
      Cause σ tokens start (.kindMismatch (Token.unary op).text op.operandKind v.kind q)
  /-- A binary operator stands there, and its left operand is of the wrong kind. -/
  | leftOperand {op : BinaryOp} {q middle next : Nat} {v w : Value}
      (h : tokens[q]? = some (.binary op))
      (hv : valueAt σ tokens (q + 1) = .ok (v, middle))
      (hw : valueAt σ tokens middle = .ok (w, next)) (hkind : v.kind ≠ op.operandKind) :
      Cause σ tokens start (.kindMismatch (Token.binary op).text op.operandKind v.kind q)
  /-- A binary operator stands there, and only its right operand is of the wrong kind. -/
  | rightOperand {op : BinaryOp} {q middle next : Nat} {v w : Value}
      (h : tokens[q]? = some (.binary op))
      (hv : valueAt σ tokens (q + 1) = .ok (v, middle))
      (hw : valueAt σ tokens middle = .ok (w, next)) (hleft : v.kind = op.operandKind)
      (hkind : w.kind ≠ op.operandKind) :
      Cause σ tokens start (.kindMismatch (Token.binary op).text op.operandKind w.kind q)

section Reading

variable {σ : Valuation} {tokens rest : List Token} {room position start : Nat} {t : Token}
  {r : Reading} {e : EvalError}

/-! ### Reading from a position in the tokens -/

/-- The first of the tokens from a position on stands at this position, and the others begin at the
next. -/
theorem getElem?_and_drop_of_drop_eq_cons (h : tokens.drop position = t :: rest) :
    tokens[position]? = some t ∧ rest = tokens.drop (position + 1) ∧
      position + 1 ≤ tokens.length := by
  have hget : tokens[position]? = some t := by
    rw [← List.head?_drop, h]
    rfl
  refine ⟨hget, ?_, (List.getElem?_eq_some_iff.mp hget).1⟩
  rw [← List.tail_drop, h]
  rfl

/-- A reading from a position on leaves the tokens from the position it answers with on, and this
position is further on and not behind the end. -/
theorem rest_eq_drop_of_readExpression
    (h : readExpression σ room position (tokens.drop position) = .ok r) :
    r.rest = tokens.drop r.next ∧ position < r.next ∧ r.next ≤ tokens.length := by
  obtain ⟨t, taken, htokens, hnext⟩ := exists_append_of_readExpression h
  have hlength : tokens.length - position = taken.length + 1 + r.rest.length := by
    rw [← List.length_drop, htokens, List.length_append, List.length_cons]
  refine ⟨?_, by omega, by omega⟩
  have hdrop : (tokens.drop position).drop (taken.length + 1) = r.rest := by
    rw [htokens]
    exact List.drop_left
  rw [← hdrop, List.drop_drop, hnext]

/-- What has been read as an operand can be read by itself. -/
theorem valueAt_of_readExpression
    (h : readExpression σ room position (tokens.drop position) = .ok r)
    (hroom : room ≤ maxNesting + 1) : valueAt σ tokens position = .ok (r.value, r.next) := by
  rw [valueAt, readExpression_of_le h hroom]
  rfl

/-! ### Every error has its cause -/

/-- A unary operator complains with reason. -/
theorem cause_of_apply_unary {op : UnaryOp} (ht : tokens[position]? = some (.unary op))
    (ha : readExpression σ room (position + 1) (tokens.drop (position + 1)) = .ok r)
    (hroom : room ≤ maxNesting + 1) (h : op.apply position r.value = .error e) :
    Cause σ tokens start e := by
  obtain ⟨hkind, rfl⟩ := UnaryOp.eq_of_apply_eq_error h
  exact .operand ht (valueAt_of_readExpression ha hroom) hkind

/-- A binary operator complains with reason. -/
theorem cause_of_apply_binary {op : BinaryOp} {s : Reading}
    (ht : tokens[position]? = some (.binary op))
    (ha : readExpression σ room (position + 1) (tokens.drop (position + 1)) = .ok r)
    (hb : readExpression σ room r.next (tokens.drop r.next) = .ok s)
    (hroom : room ≤ maxNesting + 1) (h : op.apply position r.value s.value = .error e) :
    Cause σ tokens start e := by
  have hv := valueAt_of_readExpression ha hroom
  have hw := valueAt_of_readExpression hb hroom
  rcases BinaryOp.eq_of_apply_eq_error h with ⟨hkind, rfl⟩ | ⟨hleft, hkind, rfl⟩
  · exact .leftOperand ht hv hw hkind
  · exact .rightOperand ht hv hw hleft hkind

/-- **Every error has its cause**, wherever in the tokens a reading begins, if no more of the room
has been spent than there are tokens in front. -/
theorem cause_of_readExpression (hroom : room ≤ maxNesting + 1)
    (hspent : start + (maxNesting + 1) ≤ position + room) (hend : position ≤ tokens.length)
    (h : readExpression σ room position (tokens.drop position) = .error e) :
    Cause σ tokens start e := by
  induction room generalizing position with
  | zero =>
    cases h
    exact .nestedTooDeep hspent hend
  | succ room ih =>
    have hroom' : room ≤ maxNesting + 1 := Nat.le_of_succ_le hroom
    cases htokens : tokens.drop position with
    | nil =>
      rw [htokens] at h
      cases h
      have hlength : tokens.length ≤ position := List.drop_eq_nil_iff.mp htokens
      obtain rfl : position = tokens.length := Nat.le_antisymm hend hlength
      exact .endOfInput
    | cons t rest =>
      obtain ⟨ht, rfl, hend'⟩ := getElem?_and_drop_of_drop_eq_cons htokens
      rw [htokens] at h
      -- an operator spends one place of the room and one token
      have hspent' : start + (maxNesting + 1) ≤ position + 1 + room := by omega
      cases t with
      | constant a => cases h
      | var x =>
        rw [readExpression] at h
        cases hx : σ.get? x with
        | some a =>
          rw [hx] at h
          cases h
        | none =>
          rw [hx] at h
          cases h
          exact .unboundVariable ht hx
      | unary op =>
        rw [readExpression] at h
        rcases bind_eq_error_iff.mp h with hoperand | ⟨a, ha, h⟩
        · exact ih hroom' hspent' hend' hoperand
        rcases bind_eq_error_iff.mp h with happly | ⟨v, -, h⟩
        · exact cause_of_apply_unary ht ha hroom' happly
        · cases h
      | binary op =>
        rw [readExpression] at h
        rcases bind_eq_error_iff.mp h with hleft | ⟨a, ha, h⟩
        · exact ih hroom' hspent' hend' hleft
        obtain ⟨hrest, hnext, hmiddle⟩ := rest_eq_drop_of_readExpression ha
        rw [hrest] at h
        rcases bind_eq_error_iff.mp h with hright | ⟨b, hb, h⟩
        · exact ih hroom' (by omega) hmiddle hright
        rcases bind_eq_error_iff.mp h with happly | ⟨v, -, h⟩
        · exact cause_of_apply_binary ht ha hb hroom' happly
        · cases h
      | gap =>
        cases h
        exact .strayToken ht

/-- The error of an expression at a position has its cause. -/
theorem cause_of_valueAt (hend : position ≤ tokens.length)
    (h : valueAt σ tokens position = .error e) : Cause σ tokens position e := by
  rcases bind_eq_error_iff.mp h with hread | ⟨r, -, h⟩
  · exact cause_of_readExpression (Nat.le_refl _) (Nat.le_refl _) hend hread
  · cases h

/-- The error of a row of tokens has its cause, or else there are tokens behind an expression that
can be read. -/
theorem cause_of_valueOf (h : valueOf σ tokens = .error e) :
    Cause σ tokens 0 e ∨
      ∃ v q t, valueAt σ tokens 0 = .ok (v, q) ∧ tokens[q]? = some t ∧
        e = .trailingTokens t.text q := by
  rcases bind_eq_error_iff.mp h with hread | ⟨r, hr, h⟩
  · exact Or.inl (cause_of_readExpression (Nat.le_refl _) (Nat.le_refl _) (Nat.zero_le _) hread)
  · obtain ⟨hrest, -⟩ := rest_eq_drop_of_readExpression hr
    cases htokens : r.rest with
    | nil =>
      rw [htokens] at h
      cases h
    | cons t rest =>
      rw [htokens] at h hrest
      cases h
      obtain ⟨ht, -⟩ := getElem?_and_drop_of_drop_eq_cons hrest.symm
      exact Or.inr ⟨r.value, r.next, t, valueAt_of_readExpression hr (Nat.le_refl _), ht, rfl⟩

/-- Reading has nothing to do with the number of variables, wherever it begins. -/
theorem valueAt_ne_tooManyVariables (σ : Valuation) (tokens : List Token) (position n : Nat) :
    valueAt σ tokens position ≠ .error (.tooManyVariables n) := by
  intro h
  rcases Nat.lt_or_ge tokens.length position with hlt | hle
  · rw [valueAt, List.drop_eq_nil_of_le (Nat.le_of_lt hlt)] at h
    cases h
  · cases cause_of_valueAt hle h

end Reading

/-- **Errors point at their causes.** If reading an expression from a position in the tokens fails,
then the error has its cause there. If a row of tokens has no value, then the error has its cause
for a reading from the beginning, or else an expression can be read there and the error names the
token behind it. The number of variables is never an error of reading. -/
theorem errors_have_causes (σ : Valuation) (tokens : List Token) :
    (∀ position e, position ≤ tokens.length → valueAt σ tokens position = .error e →
      Cause σ tokens position e) ∧
    (∀ e, valueOf σ tokens = .error e →
      Cause σ tokens 0 e ∨
        ∃ v q t, valueAt σ tokens 0 = .ok (v, q) ∧ tokens[q]? = some t ∧
          e = .trailingTokens t.text q) ∧
    (∀ position n, valueAt σ tokens position ≠ .error (.tooManyVariables n)) ∧
    ∀ n, valueOf σ tokens ≠ .error (.tooManyVariables n) := by
  refine ⟨fun position e => cause_of_valueAt, fun e => cause_of_valueOf,
    valueAt_ne_tooManyVariables σ tokens, fun n h => ?_⟩
  rcases cause_of_valueOf h with hcause | ⟨v, q, t, -, -, htrailing⟩
  · cases hcause
  · cases htrailing

/-- In `top and A == A B` reading fails from the second token on, since `and` takes no truth values
of the logic; and reading the whole stops at this token, since there is an expression in front of
it. -/
theorem errors_have_causes_and :
    ∃ σ tokens, σ = Valuation.ofList [("A", .grant), ("B", .reject)] ∧
      tokens = tokensOf "top and A == A B" ∧
      valueAt σ tokens 1 = .error (.kindMismatch "and" .boolean .ternary 1) ∧
      Cause σ tokens 1 (.kindMismatch "and" .boolean .ternary 1) ∧
      valueOf σ tokens = .error (.trailingTokens "and" 1) ∧
      (Cause σ tokens 0 (.trailingTokens "and" 1) ∨
        ∃ v q t, valueAt σ tokens 0 = .ok (v, q) ∧ tokens[q]? = some t ∧
          .trailingTokens "and" 1 = EvalError.trailingTokens t.text q) := by
  have hcauses := errors_have_causes (.ofList [("A", .grant), ("B", .reject)])
    (tokensOf "top and A == A B")
  have hmismatch := hcauses.1 1 (.kindMismatch "and" .boolean .ternary 1) (by decide) (by decide)
  have htrailing := hcauses.2.1 (.trailingTokens "and" 1) (by decide)
  exact ⟨_, _, rfl, rfl, by decide, hmismatch, by decide, htrailing⟩

end ProcessSpaces
