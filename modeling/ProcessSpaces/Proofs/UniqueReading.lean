import ProcessSpaces.Proofs.OperatorTables

/-!
# What is read is a formula

Reading an expression does several things in one pass: it finds out where the operands end, looks
the variables up, checks the kinds, keeps count of the nesting and computes the value. Behind all
of this is one formula. That a formula is read off its own expression has been settled where
formulas are defined (`readExpression_tokens_append`); this file is the converse. Whatever is read
successfully is the expression of a formula that nests no deeper than the room allows and has the
value that was read (`exists_formula_of_readExpression`), and there is only one such formula, since
no expression is the beginning of another (`Formula.eq_of_tokens_append_eq`).

So the tokens that have a value are exactly the expressions of well-kinded formulas whose
variables have values (`valueOf_eq_ok_iff_exists_unique_formula`), and the value is what the tables
of the operators say.
-/

namespace ProcessSpaces

/-! ### Unique readability -/

namespace Formula

/-- **No expression is the beginning of another**: whatever follows two expressions, the tokens
tell where the first one ends and which formula it is. -/
theorem eq_of_tokens_append_eq {φ ψ : Formula} {l m : List Token}
    (h : φ.tokens ++ l = ψ.tokens ++ m) : φ = ψ ∧ l = m := by
  induction φ generalizing ψ l m with
  | constant a =>
    cases ψ with
    | constant b =>
      obtain ⟨hab, hlm⟩ := List.cons.inj h
      cases hab
      exact ⟨rfl, hlm⟩
    | _ => cases h
  | var name =>
    cases ψ with
    | var name' =>
      obtain ⟨hname, hlm⟩ := List.cons.inj h
      cases hname
      exact ⟨rfl, hlm⟩
    | _ => cases h
  | unary op φ ih =>
    cases ψ with
    | unary op' ψ =>
      obtain ⟨hop, htail⟩ := List.cons.inj h
      cases hop
      obtain ⟨rfl, hlm⟩ := ih htail
      exact ⟨rfl, hlm⟩
    | _ => cases h
  | binary op φ₁ φ₂ ih₁ ih₂ =>
    cases ψ with
    | binary op' ψ₁ ψ₂ =>
      simp only [tokens, List.cons_append, List.append_assoc] at h
      obtain ⟨hop, htail⟩ := List.cons.inj h
      cases hop
      -- the left operand is settled first, and with it where the right one begins
      obtain ⟨rfl, hright⟩ := ih₁ htail
      obtain ⟨rfl, hlm⟩ := ih₂ hright
      exact ⟨rfl, hlm⟩
    | _ => cases h

/-- A formula is determined by its expression. -/
theorem eq_of_tokens_eq {φ ψ : Formula} (h : φ.tokens = ψ.tokens) : φ = ψ := by
  have happ : φ.tokens ++ [] = ψ.tokens ++ [] := by rw [h]
  exact (eq_of_tokens_append_eq happ).1

/-! ### What a formula with a value is like -/

variable {σ : Valuation} {φ : Formula} {v : Value}

/-- The value of a formula is of the kind of the formula. -/
theorem kind_of_value?_eq_some (h : φ.value? σ = some v) : v.kind = φ.kind := by
  cases φ with
  | constant a =>
    cases h
    rfl
  | var name =>
    obtain ⟨a, -, rfl⟩ := Option.map_eq_some_iff.mp h
    rfl
  | unary op φ =>
    obtain ⟨a, -, rfl⟩ := value?_unary_eq_some_iff.mp h
    exact Value.kind_ofCarrier _ _
  | binary op φ ψ =>
    obtain ⟨a, b, -, -, rfl⟩ := value?_binary_eq_some_iff.mp h
    exact Value.kind_ofCarrier _ _

/-- A formula with a value is well kinded. -/
theorem wellKinded_of_value?_eq_some (h : φ.value? σ = some v) : φ.WellKinded := by
  induction φ generalizing v with
  | constant a => trivial
  | var name => trivial
  | unary op φ ih =>
    obtain ⟨a, ha, -⟩ := value?_unary_eq_some_iff.mp h
    have hkind := kind_of_value?_eq_some ha
    rw [Value.kind_ofCarrier] at hkind
    exact ⟨ih ha, hkind.symm⟩
  | binary op φ ψ ihφ ihψ =>
    obtain ⟨a, b, ha, hb, -⟩ := value?_binary_eq_some_iff.mp h
    have hkindφ := kind_of_value?_eq_some ha
    have hkindψ := kind_of_value?_eq_some hb
    rw [Value.kind_ofCarrier] at hkindφ hkindψ
    exact ⟨ihφ ha, ihψ hb, hkindφ.symm, hkindψ.symm⟩

/-- All variables of a formula with a value have values. -/
theorem isSome_get?_of_value?_eq_some (h : φ.value? σ = some v) {x : String}
    (hx : .var x ∈ φ.tokens) : (σ.get? x).isSome := by
  induction φ generalizing v with
  | constant a => simp [tokens] at hx
  | var name =>
    obtain ⟨a, ha, -⟩ := Option.map_eq_some_iff.mp h
    obtain rfl : x = name := by simpa [tokens] using hx
    rw [ha]
    rfl
  | unary op φ ih =>
    obtain ⟨a, ha, -⟩ := value?_unary_eq_some_iff.mp h
    exact ih ha (by simpa [tokens] using hx)
  | binary op φ ψ ihφ ihψ =>
    obtain ⟨a, b, ha, hb, -⟩ := value?_binary_eq_some_iff.mp h
    have hmem : .var x ∈ φ.tokens ∨ .var x ∈ ψ.tokens := by simpa [tokens] using hx
    rcases hmem with hφ | hψ
    · exact ihφ ha hφ
    · exact ihψ hb hψ

variable {ψ : Formula} {P : String → Prop}

/-- The variables of a unary operator with its operand are those of the operand. -/
theorem forall_var_unary_iff {op : UnaryOp} :
    (∀ x, .var x ∈ (unary op φ).tokens → P x) ↔ ∀ x, .var x ∈ φ.tokens → P x := by
  simp [tokens]

/-- The variables of a binary operator with its operands are those of the two. -/
theorem forall_var_binary_iff {op : BinaryOp} :
    (∀ x, .var x ∈ (binary op φ ψ).tokens → P x) ↔
      (∀ x, .var x ∈ φ.tokens → P x) ∧ ∀ x, .var x ∈ ψ.tokens → P x := by
  simp [tokens, or_imp, forall_and]

/-- **A well-kinded formula whose variables have values has a value**, of the kind of the
formula. -/
theorem exists_value?_eq_some (h : φ.WellKinded)
    (hσ : ∀ x, .var x ∈ φ.tokens → (σ.get? x).isSome) :
    ∃ v, φ.value? σ = some v ∧ v.kind = φ.kind := by
  induction φ with
  | constant a => exact ⟨.ternary a, rfl, rfl⟩
  | var x =>
    obtain ⟨a, ha⟩ := Option.isSome_iff_exists.mp (hσ x List.mem_cons_self)
    refine ⟨.ternary a, ?_, rfl⟩
    rw [value?, ha]
    rfl
  | unary op φ ih =>
    obtain ⟨hφ, hkind⟩ := h
    obtain ⟨v, hv, hvkind⟩ := ih hφ (forall_var_unary_iff.mp hσ)
    obtain ⟨w, hw, hwkind⟩ := UnaryOp.exists_apply_eq_ok (hvkind.trans hkind) 0
    refine ⟨w, ?_, hwkind⟩
    rw [← tableValue?_eq_value?] at hv ⊢
    rw [tableValue?, hv]
    exact UnaryOp.apply_eq_ok_iff.mp hw
  | binary op φ ψ ihφ ihψ =>
    obtain ⟨hφ, hψ, hkindφ, hkindψ⟩ := h
    obtain ⟨hleft, hright⟩ := forall_var_binary_iff.mp hσ
    obtain ⟨v, hv, hvkind⟩ := ihφ hφ hleft
    obtain ⟨w, hw, hwkind⟩ := ihψ hψ hright
    obtain ⟨u, hu, hukind⟩ :=
      BinaryOp.exists_apply_eq_ok (hvkind.trans hkindφ) (hwkind.trans hkindψ) 0
    refine ⟨u, ?_, hukind⟩
    rw [← tableValue?_eq_value?] at hv hw ⊢
    rw [tableValue?, hv, hw]
    exact BinaryOp.apply_eq_ok_iff.mp hu

end Formula

/-! ### From a reading back to its formula -/

section Reading

variable {σ : Valuation} {room position : Nat} {tokens rest : List Token} {r : Reading}

/-- A unary operator is read if its operand is and the operator can be applied to it. -/
theorem readExpression_unary_eq_ok_iff {op : UnaryOp} :
    readExpression σ (room + 1) position (.unary op :: rest) = .ok r ↔
      ∃ a v, readExpression σ room (position + 1) rest = .ok a ∧
        op.apply position a.value = .ok v ∧ r = { a with value := v } := by
  simp only [readExpression, bind_eq_ok_iff, pure, Except.pure, Except.ok.injEq]
  constructor
  · rintro ⟨a, ha, v, hv, rfl⟩
    exact ⟨a, v, ha, hv, rfl⟩
  · rintro ⟨a, v, ha, hv, rfl⟩
    exact ⟨a, ha, v, hv, rfl⟩

/-- A binary operator is read if its operands are, the right one from where the left one ends,
and the operator can be applied to them. -/
theorem readExpression_binary_eq_ok_iff {op : BinaryOp} :
    readExpression σ (room + 1) position (.binary op :: rest) = .ok r ↔
      ∃ a b v, readExpression σ room (position + 1) rest = .ok a ∧
        readExpression σ room a.next a.rest = .ok b ∧
        op.apply position a.value b.value = .ok v ∧ r = { b with value := v } := by
  simp only [readExpression, bind_eq_ok_iff, pure, Except.pure, Except.ok.injEq]
  constructor
  · rintro ⟨a, ha, b, hb, v, hv, rfl⟩
    exact ⟨a, b, v, ha, hb, hv, rfl⟩
  · rintro ⟨a, b, v, ha, hb, hv, rfl⟩
    exact ⟨a, ha, b, hb, v, hv, rfl⟩

/-- **What is read is a formula.** The tokens begin with the expression of a formula that is less
deep than there is room for, the reading ends behind it, and its value is that of the formula. -/
theorem exists_formula_of_readExpression (h : readExpression σ room position tokens = .ok r) :
    ∃ φ : Formula, tokens = φ.tokens ++ r.rest ∧ r.next = position + φ.tokens.length ∧
      φ.depth < room ∧ φ.value? σ = some r.value := by
  induction room generalizing position tokens r with
  | zero => cases h
  | succ room ih =>
    cases tokens with
    | nil => cases h
    | cons t rest =>
      cases t with
      | constant a =>
        cases h
        exact ⟨.constant a, rfl, rfl, Nat.succ_pos room, rfl⟩
      | var x =>
        simp only [readExpression] at h
        split at h
        · next a ha =>
          cases h
          exact ⟨.var x, rfl, rfl, Nat.succ_pos room, by rw [Formula.value?, ha]; rfl⟩
        · cases h
      | unary op =>
        obtain ⟨a, v, ha, hv, rfl⟩ := readExpression_unary_eq_ok_iff.mp h
        obtain ⟨φ, rfl, hnext, hdepth, hvalue⟩ := ih ha
        refine ⟨.unary op φ, rfl, ?_, Nat.succ_lt_succ hdepth, ?_⟩
        · rw [hnext, Formula.tokens, List.length_cons]
          omega
        · rw [← Formula.tableValue?_eq_value?] at hvalue ⊢
          rw [Formula.tableValue?, hvalue]
          exact UnaryOp.apply_eq_ok_iff.mp hv
      | binary op =>
        obtain ⟨a, b, v, ha, hb, hv, rfl⟩ := readExpression_binary_eq_ok_iff.mp h
        obtain ⟨φ, rfl, hnextφ, hdepthφ, hvalueφ⟩ := ih ha
        obtain ⟨ψ, hrest, hnextψ, hdepthψ, hvalueψ⟩ := ih hb
        refine ⟨.binary op φ ψ, ?_, ?_, Nat.succ_lt_succ (Nat.max_lt.mpr ⟨hdepthφ, hdepthψ⟩), ?_⟩
        · rw [hrest, Formula.tokens, List.cons_append, List.append_assoc]
        · rw [hnextψ, hnextφ, Formula.tokens, List.length_cons, List.length_append]
          omega
        · rw [← Formula.tableValue?_eq_value?] at hvalueφ hvalueψ ⊢
          rw [Formula.tableValue?, hvalueφ, hvalueψ]
          exact BinaryOp.apply_eq_ok_iff.mp hv
      | gap => cases h

/-- **A reading succeeds exactly on the expressions of formulas that have a value and fit into the
room**, and it yields that value and whatever follows. -/
theorem readExpression_eq_ok_iff :
    readExpression σ room position tokens = .ok r ↔
      ∃ φ : Formula, tokens = φ.tokens ++ r.rest ∧ r.next = position + φ.tokens.length ∧
        φ.depth < room ∧ φ.value? σ = some r.value := by
  constructor
  · exact exists_formula_of_readExpression
  · rintro ⟨φ, rfl, hnext, hdepth, hvalue⟩
    rw [readExpression_tokens_append hvalue hdepth, ← hnext]

end Reading

/-! ### The value of a row of tokens -/

/-- Tokens have a value if reading them succeeds and leaves none of them. -/
theorem valueOf_eq_ok_iff_readExpression {σ : Valuation} {tokens : List Token} {v : Value} :
    valueOf σ tokens = .ok v ↔
      ∃ r, readExpression σ (maxNesting + 1) 0 tokens = .ok r ∧ r.rest = [] ∧ r.value = v := by
  rw [valueOf, bind_eq_ok_iff]
  refine exists_congr fun r => and_congr_right fun _ => ?_
  cases r.rest with
  | nil => simp [pure, Except.pure]
  | cons t rest => simp

/-- Tokens have a value if they are the expression of a formula that has it and is not too
deep. -/
theorem valueOf_eq_ok_iff {σ : Valuation} {tokens : List Token} {v : Value} :
    valueOf σ tokens = .ok v ↔
      ∃ φ : Formula, tokens = φ.tokens ∧ φ.depth ≤ maxNesting ∧ φ.value? σ = some v := by
  rw [valueOf_eq_ok_iff_readExpression]
  constructor
  · rintro ⟨r, hr, hrest, rfl⟩
    obtain ⟨φ, htokens, -, hdepth, hvalue⟩ := readExpression_eq_ok_iff.mp hr
    rw [hrest, List.append_nil] at htokens
    exact ⟨φ, htokens, Nat.le_of_lt_succ hdepth, hvalue⟩
  · rintro ⟨φ, rfl, hdepth, hvalue⟩
    have hread : readExpression σ (maxNesting + 1) 0 φ.tokens =
        .ok ⟨v, 0 + φ.tokens.length, []⟩ :=
      readExpression_eq_ok_iff.mpr
        ⟨φ, (List.append_nil _).symm, rfl, Nat.lt_succ_of_le hdepth, hvalue⟩
    exact ⟨_, hread, rfl, rfl⟩

/-- The expression of a formula has the value of the formula, unless this is too deep. -/
theorem valueOf_tokens_eq_ok_iff {σ : Valuation} {φ : Formula} {v : Value} :
    valueOf σ φ.tokens = .ok v ↔ φ.depth ≤ maxNesting ∧ φ.value? σ = some v := by
  rw [valueOf_eq_ok_iff]
  constructor
  · rintro ⟨ψ, hψ, hdepth, hvalue⟩
    obtain rfl := Formula.eq_of_tokens_eq hψ
    exact ⟨hdepth, hvalue⟩
  · rintro ⟨hdepth, hvalue⟩
    exact ⟨φ, rfl, hdepth, hvalue⟩

/-- **The tokens that have a value are the expressions of well-kinded formulas**: tokens have the
value `v` exactly if they are the expression of a formula that nests at most 1024 operators, whose
variables all have values, in which every operator gets operands of the kind it takes, and to
which the tables give the value `v`. No tokens are the expression of two formulas. -/
theorem valueOf_eq_ok_iff_exists_unique_formula (σ : Valuation) (tokens : List Token) :
    (∀ v, valueOf σ tokens = .ok v ↔
      ∃ φ : Formula, tokens = φ.tokens ∧ φ.depth ≤ 1024 ∧
        (∀ x, .var x ∈ tokens → (σ.get? x).isSome) ∧ φ.WellKinded ∧
        φ.tableValue? σ = some v) ∧
    ∀ φ ψ : Formula, tokens = φ.tokens → tokens = ψ.tokens → φ = ψ := by
  refine ⟨fun v => ?_, fun φ ψ hφ hψ => Formula.eq_of_tokens_eq (hφ.symm.trans hψ)⟩
  rw [valueOf_eq_ok_iff]
  constructor
  · rintro ⟨φ, rfl, hdepth, hvalue⟩
    refine ⟨φ, rfl, hdepth, fun x hx => Formula.isSome_get?_of_value?_eq_some hvalue hx,
      Formula.wellKinded_of_value?_eq_some hvalue, ?_⟩
    rw [Formula.tableValue?_eq_value?]
    exact hvalue
  · rintro ⟨φ, rfl, hdepth, -, -, hvalue⟩
    rw [Formula.tableValue?_eq_value?] at hvalue
    exact ⟨φ, rfl, hdepth, hvalue⟩

end ProcessSpaces
