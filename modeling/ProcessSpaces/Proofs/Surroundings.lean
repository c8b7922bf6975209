import ProcessSpaces.Proofs.UniqueReading

/-!
# What stands around an expression

An expression is read in the midst of other tokens, from a position that has been reached somehow.
This file says in how far the tokens around it matter.

Those in front of it do not. They are not looked at, and all they do is to move on what is said
about positions, in the result as in an error (`valueAt_append_left`). Those behind it do not
either, with a single exception. A reading looks at no token behind the one at which it ends, so
that more tokens at the end change nothing, unless it has come to the end and found that there are
too few (`valueAt_append_right`). It is of no use to add tokens to an expression that is nested too
deep, not even if this has been noticed at the very end: whether there is room is asked before it
is asked whether there is a token.

So an expression can be read from among other tokens exactly if it has a value by itself, and no
expression with a value goes on beyond another one (`expression_stands_alone`).
-/

namespace ProcessSpaces

variable {σ τ : Valuation} {tokens pre ts ext : List Token} {room position k n : Nat} {v w : Value}

/-! ### Tokens in front -/

/-- The error with its position moved on by `k` tokens. -/
def EvalError.shift (k : Nat) : EvalError → EvalError
  | strayToken text position => strayToken text (k + position)
  | endOfInput position => endOfInput (k + position)
  | trailingTokens text position => trailingTokens text (k + position)
  | nestedTooDeep position => nestedTooDeep (k + position)
  | unboundVariable name position => unboundVariable name (k + position)
  | kindMismatch operator expected found position =>
    kindMismatch operator expected found (k + position)
  | tooManyVariables count => tooManyVariables count

/-- What is read with everything that it says about positions moved on by `k` tokens. -/
def shiftResult (k : Nat) : Except EvalError (Value × Nat) → Except EvalError (Value × Nat)
  | .ok (v, next) => .ok (v, k + next)
  | .error e => .error (e.shift k)

theorem shiftResult_eq_ok_iff {x : Except EvalError (Value × Nat)} :
    shiftResult k x = .ok (v, k + n) ↔ x = .ok (v, n) := by
  rcases x with e | ⟨w, m⟩
  · simp [shiftResult]
  · simp [shiftResult]

/-- Operands are checked alike wherever the operator stands. -/
theorem Value.matched_require_shift (k : Nat) (expected : Kind) (operator : String) (position : Nat)
    (v : Value) :
    Matched (fun e d => d = e.shift k) Eq (v.require expected operator position)
      (v.require expected operator (k + position)) := by
  rw [Value.require, Value.require]
  cases v.as? expected with
  | none => exact .error rfl
  | some a => exact .ok rfl

theorem UnaryOp.matched_apply_shift (k : Nat) (op : UnaryOp) (position : Nat) (v : Value) :
    Matched (fun e d => d = e.shift k) Eq (op.apply position v) (op.apply (k + position) v) := by
  refine (Value.matched_require_shift k _ _ position v).bind ?_
  rintro a _ - - rfl
  exact .ok rfl

theorem BinaryOp.matched_apply_shift (k : Nat) (op : BinaryOp) (position : Nat) (v w : Value) :
    Matched (fun e d => d = e.shift k) Eq (op.apply position v w)
      (op.apply (k + position) v w) := by
  refine (Value.matched_require_shift k _ _ position v).bind ?_
  rintro a _ - - rfl
  refine (Value.matched_require_shift k _ _ position w).bind ?_
  rintro b _ - - rfl
  exact .ok rfl

/-- **Where the tokens stand makes no difference to what is read**, but for the positions. -/
theorem matched_readExpression_shift (k room position : Nat) (tokens : List Token) :
    Matched (fun e d => d = e.shift k) (fun r s : Reading => s = { r with next := k + r.next })
      (readExpression σ room position tokens) (readExpression σ room (k + position) tokens) := by
  induction room generalizing position tokens with
  | zero => exact .error rfl
  | succ room ih =>
    rcases tokens with _ | ⟨t, rest⟩
    · exact .error rfl
    cases t with
    | constant a => exact .ok rfl
    | var x =>
      rw [readExpression, readExpression]
      cases σ.get? x with
      | none => exact .error rfl
      | some a => exact .ok rfl
    | unary op =>
      refine (ih (position + 1) rest).bind ?_
      rintro a _ - - rfl
      refine (op.matched_apply_shift k position a.value).bind ?_
      rintro v _ - - rfl
      exact .ok rfl
    | binary op =>
      refine (ih (position + 1) rest).bind ?_
      rintro a _ - - rfl
      -- the right operand is read from where the left one ends, which is moved on as well
      refine (ih a.next a.rest).bind ?_
      rintro b _ - - rfl
      refine (op.matched_apply_shift k position a.value b.value).bind ?_
      rintro v _ - - rfl
      exact .ok rfl
    | gap => exact .error rfl

/-- **Tokens in front of an expression do nothing but move it on.** -/
theorem valueAt_append_left (σ : Valuation) (pre ts : List Token) (position : Nat) :
    valueAt σ (pre ++ ts) (pre.length + position) =
      shiftResult pre.length (valueAt σ ts position) := by
  have hdrop : (pre ++ ts).drop (pre.length + position) = ts.drop position := by
    simp [List.drop_append]
  rw [valueAt, valueAt, hdrop]
  rcases (matched_readExpression_shift (σ := σ) pre.length (maxNesting + 1) position
    (ts.drop position)).ok_or_error with ⟨r, s, hr, hs, rfl⟩ | ⟨e, d, he, hd, rfl⟩
  · rw [hr, hs]
    rfl
  · rw [he, hd]
    rfl

/-! ### Tokens behind -/

/-- What has been read if there are more tokens behind all others. -/
def Reading.append (r : Reading) (ext : List Token) : Reading := { r with rest := r.rest ++ ext }

/-- **More tokens at the end are not looked at**, unless there have been too few. -/
theorem readExpression_append
    (h : ∀ q, readExpression σ room position tokens ≠ .error (.endOfInput q)) (ext : List Token) :
    readExpression σ room position (tokens ++ ext) =
      (readExpression σ room position tokens).map fun r => r.append ext := by
  induction room generalizing position tokens with
  | zero => rfl
  | succ room ih =>
    rcases tokens with _ | ⟨t, rest⟩
    · exact absurd rfl (h position)
    rw [List.cons_append]
    cases t with
    | constant a => rfl
    | var x =>
      rw [readExpression, readExpression]
      cases σ.get? x with
      | none => rfl
      | some a => rfl
    | unary op =>
      rw [readExpression] at h
      have hoperand := ih fun q hq => h q (bind_eq_error_iff.mpr (Or.inl hq))
      rw [readExpression, readExpression, hoperand]
      refine map_bind_congr fun a _ => ?_
      rw [bind_map]
      rfl
    | binary op =>
      rw [readExpression] at h
      have hleft := ih fun q hq => h q (bind_eq_error_iff.mpr (Or.inl hq))
      rw [readExpression, readExpression, hleft]
      refine map_bind_congr fun a ha => ?_
      -- the right operand is read from what the left one has left, and the new tokens behind it
      have hright := ih fun q hq =>
        h q (bind_eq_error_iff.mpr (Or.inr ⟨a, ha, bind_eq_error_iff.mpr (Or.inl hq)⟩))
      change (readExpression σ room a.next (a.rest ++ ext) >>= _) = _
      rw [hright]
      refine map_bind_congr fun b _ => ?_
      rw [bind_map]
      rfl
    | gap => rfl

/-- **Tokens behind an expression make no difference to it**, unless it has been incomplete. -/
theorem valueAt_append_right (h : ∀ q, valueAt σ ts position ≠ .error (.endOfInput q))
    (ext : List Token) : valueAt σ (ts ++ ext) position = valueAt σ ts position := by
  have hread : ∀ q, readExpression σ (maxNesting + 1) position (ts.drop position) ≠
      .error (.endOfInput q) := fun q hq => h q (bind_eq_error_iff.mpr (Or.inl hq))
  rcases Nat.lt_or_ge ts.length position with hlt | hle
  · -- there is nothing to read from there on
    refine absurd ?_ (hread position)
    rw [List.drop_eq_nil_of_le (Nat.le_of_lt hlt)]
    rfl
  · rw [valueAt, valueAt, List.drop_append_of_le_length hle, readExpression_append hread]
    cases readExpression σ (maxNesting + 1) position (ts.drop position) with
    | error e => rfl
    | ok r => rfl

/-! ### An expression by itself -/

/-- An expression is read from the front of some tokens exactly if it has a value by itself. -/
theorem valueAt_zero_append_eq_ok_iff {mid post : List Token} :
    valueAt σ (mid ++ post) 0 = .ok (v, mid.length) ↔ valueOf σ mid = .ok v := by
  constructor
  · intro h
    obtain ⟨r, hr, hv⟩ := bind_eq_ok_iff.mp h
    obtain ⟨φ, htokens, hnext, hdepth, hvalue⟩ := readExpression_eq_ok_iff.mp hr
    obtain ⟨rfl, hlength⟩ := Prod.mk.inj (Except.ok.inj hv)
    rw [List.drop_zero] at htokens
    obtain ⟨rfl, -⟩ := List.append_inj htokens (by omega)
    exact valueOf_eq_ok_iff.mpr ⟨φ, rfl, Nat.le_of_lt_succ hdepth, hvalue⟩
  · intro h
    obtain ⟨φ, rfl, hdepth, hvalue⟩ := valueOf_eq_ok_iff.mp h
    rw [valueAt, List.drop_zero,
      readExpression_tokens_append hvalue (Nat.lt_succ_of_le hdepth), Nat.zero_add]
    rfl

/-- **An expression is read from among other tokens exactly if it has a value by itself.** -/
theorem valueAt_append_append_eq_ok_iff {mid post : List Token} :
    valueAt σ (pre ++ mid ++ post) pre.length = .ok (v, pre.length + mid.length) ↔
      valueOf σ mid = .ok v := by
  have hshift := valueAt_append_left σ pre (mid ++ post) 0
  rw [Nat.add_zero, ← List.append_assoc] at hshift
  rw [hshift, shiftResult_eq_ok_iff, valueAt_zero_append_eq_ok_iff]

/-- **No expression with a value is the beginning of another one.** -/
theorem eq_nil_of_valueOf_append {front back : List Token} (h : valueOf σ (front ++ back) = .ok v)
    (hfront : valueOf τ front = .ok w) : back = [] := by
  obtain ⟨φ, rfl, -⟩ := valueOf_eq_ok_iff.mp hfront
  obtain ⟨ψ, hψ, -⟩ := valueOf_eq_ok_iff.mp h
  rw [← List.append_nil ψ.tokens] at hψ
  exact (Formula.eq_of_tokens_append_eq hψ).2

/-- **An expression stands alone.** Whatever tokens are in front of some others, reading from a
position in these has the same outcome with them and without, but that all positions are moved on
by their number, those in errors included. Whatever tokens are behind, reading has the very same
outcome with them and without, unless the outcome is that the input ends too early. Hence some
tokens within others have a value as the expression that begins and ends where they do exactly if
they have this value by themselves; and if tokens have a value, then no proper beginning of them has
one. -/
theorem expression_stands_alone (σ : Valuation) :
    (∀ pre ts position, valueAt σ (pre ++ ts) (pre.length + position) =
      shiftResult pre.length (valueAt σ ts position)) ∧
    (∀ ts ext position, (∀ q, valueAt σ ts position ≠ .error (.endOfInput q)) →
      valueAt σ (ts ++ ext) position = valueAt σ ts position) ∧
    (∀ pre mid post v,
      valueAt σ (pre ++ mid ++ post) pre.length = .ok (v, pre.length + mid.length) ↔
        valueOf σ mid = .ok v) ∧
    ∀ front back v, valueOf σ (front ++ back) = .ok v → back ≠ [] →
      ∀ w, valueOf σ front ≠ .ok w := by
  refine ⟨valueAt_append_left σ, fun ts ext position h => valueAt_append_right h ext,
    fun pre mid post v => valueAt_append_append_eq_ok_iff, fun front back v h hne w hfront => ?_⟩
  exact hne (eq_nil_of_valueOf_append h hfront)

/-- In `and robust || - A phi not A` the part `|| - A phi` has the value that it has by itself, and
the complaint of `not A` is the one that it has by itself, but that it is about the token behind the
part. -/
theorem expression_stands_alone_par :
    ∃ (σ : Valuation) (pre mid post : List Token) (v : Value), σ = .ofList [("A", .reject)] ∧
      pre = tokensOf "and robust" ∧ mid = tokensOf "|| - A phi" ∧ post = tokensOf "not A" ∧
      valueOf σ mid = .ok v ∧ valueAt σ (pre ++ mid ++ post) 2 = .ok (v, 6) ∧
      valueAt σ (pre ++ mid ++ post) 6 = shiftResult 6 (valueAt σ post 0) ∧
      valueAt σ post 0 = .error (.kindMismatch "not" .boolean .ternary 0) ∧
      valueAt σ (mid ++ post) 0 = valueAt σ mid 0 ∧
      ∀ w, valueOf σ (tokensOf "|| - A") ≠ .ok w := by
  obtain ⟨hleft, hright, hpart, hfront⟩ := expression_stands_alone (.ofList [("A", .reject)])
  have hcomplete : ∀ q, valueAt (.ofList [("A", .reject)]) (tokensOf "|| - A phi") 0 ≠
      .error (.endOfInput q) := by
    intro q h
    cases h
  exact ⟨_, _, _, _, .ternary .neutral, rfl, rfl, rfl, rfl, by decide,
    (hpart (tokensOf "and robust") (tokensOf "|| - A phi") (tokensOf "not A") _).mpr (by decide),
    hleft (tokensOf "and robust" ++ tokensOf "|| - A phi") (tokensOf "not A") 0, by decide,
    hright _ _ _ hcomplete, hfront _ (tokensOf "phi") (.ternary .neutral) (by decide) (by decide)⟩

end ProcessSpaces
