import ProcessSpaces.Arity
import ProcessSpaces.Proofs.Causes

/-!
# Reading agrees with counting

Reading an expression looks variables up, checks kinds and watches the nesting, and fails at the
first thing that is wrong. Counting the operands that are owed looks at nothing but the arities.
Still the two agree about where an expression ends: a reading that succeeds ends where nothing is
owed for the first time (`completesAt_of_readExpression`), and a reading that runs out of tokens
does so because something has been owed all along (`le_owedFrom_of_endOfInput`).

Both are shown for any number of expressions that are owed when the reading begins
(`owedFrom`), since a right operand is read while those of the operators around it are still
pending. An expression lowers that number by one, and does not fall below it before its end
(`owedFrom_tokens_append_add`, `le_owedFrom_tokens_append`).

Where no gaps are among them, counting even decides which tokens are the expression of a formula
(`completesAt_length_iff`): from tokens whose count comes out right, as many formulas can be built
as are owed (`exists_formulas_of_owedFrom`).
-/

namespace ProcessSpaces

section Counting

variable {tokens rest : List Token} {n : Int} {j k : Nat}

/-! ### Counting from any number -/

/-- The number of expressions that are still owed when the first `k` tokens have been read, if `n`
are owed before. -/
def owedFrom (n : Int) (tokens : List Token) (k : Nat) : Int :=
  (tokens.take k).foldl (fun n t => n - 1 + t.arity) n

theorem owed_eq_owedFrom (tokens : List Token) (k : Nat) : owed tokens k = owedFrom 1 tokens k :=
  rfl

@[simp] theorem owedFrom_zero (n : Int) (tokens : List Token) : owedFrom n tokens 0 = n := rfl

@[simp] theorem owedFrom_nil (n : Int) (k : Nat) : owedFrom n [] k = n := by
  simp [owedFrom]

@[simp] theorem owedFrom_cons_succ (n : Int) (t : Token) (rest : List Token) (k : Nat) :
    owedFrom n (t :: rest) (k + 1) = owedFrom (n - 1 + t.arity) rest k := rfl

/-- An operator of two operands owes one expression more than it settles. -/
theorem owedFrom_binary_succ (n : Int) (op : BinaryOp) (rest : List Token) (k : Nat) :
    owedFrom n (.binary op :: rest) (k + 1) = owedFrom (n + 1) rest k := by
  rw [owedFrom_cons_succ]
  congr 1
  simp only [Token.arity]
  omega

/-- An operator of one operand owes as much as it settles. -/
theorem owedFrom_unary_succ (n : Int) (op : UnaryOp) (rest : List Token) (k : Nat) :
    owedFrom n (.unary op :: rest) (k + 1) = owedFrom n rest k := by
  rw [owedFrom_cons_succ]
  congr 1
  simp only [Token.arity]
  omega

/-! ### The first zero -/

/-- If nothing has been settled completely so far, something is owed: no token settles more than
one expression. -/
theorem owed_pos_of_forall_ne_zero (hk : k ≤ tokens.length)
    (h : ∀ j ≤ k, owed tokens j ≠ 0) : 0 < owed tokens k := by
  induction k with
  | zero => exact Int.one_pos
  | succ k ih =>
    have hpos : 0 < owed tokens k :=
      ih (Nat.le_of_succ_le hk) fun j hj => h j (Nat.le_succ_of_le hj)
    have hstep := owed_succ (List.getElem?_eq_getElem hk)
    have hne := h (k + 1) (Nat.le_refl _)
    omega

/-- An expression is complete where the count is zero for the first time. -/
theorem completesAt_iff :
    CompletesAt tokens k ↔
      k ≤ tokens.length ∧ owed tokens k = 0 ∧ ∀ j < k, owed tokens j ≠ 0 := by
  refine and_congr_right fun hk => and_congr_right fun _ => ⟨fun h j hj => ?_, fun h j hj => ?_⟩
  · exact ne_of_gt (h j hj)
  · exact owed_pos_of_forall_ne_zero (by omega) fun i hi => h i (by omega)

/-- There is at most one place where an expression is complete. -/
theorem CompletesAt.unique (hj : CompletesAt tokens j) (hk : CompletesAt tokens k) : j = k := by
  obtain ⟨-, hj₀, hj⟩ := hj
  obtain ⟨-, hk₀, hk⟩ := hk
  rcases Nat.lt_trichotomy j k with hlt | heq | hlt
  · exact absurd hj₀ (ne_of_gt (hk j hlt))
  · exact heq
  · exact absurd hk₀ (ne_of_gt (hj k hlt))

/-- Either an expression is complete somewhere, or something is owed up to the end. -/
theorem exists_completesAt_or_forall_pos (tokens : List Token) :
    (∃ k, CompletesAt tokens k) ∨ ∀ k ≤ tokens.length, 0 < owed tokens k := by
  by_cases h : ∃ k, k ≤ tokens.length ∧ owed tokens k = 0
  · obtain ⟨hle, hzero⟩ := Nat.find_spec h
    refine Or.inl ⟨Nat.find h, completesAt_iff.mpr ⟨hle, hzero, fun j hj hj₀ => ?_⟩⟩
    exact Nat.find_min h hj ⟨by omega, hj₀⟩
  · refine Or.inr fun k hk => owed_pos_of_forall_ne_zero hk fun j hj hj₀ => ?_
    exact h ⟨j, by omega, hj₀⟩

/-! ### The count along an expression -/

/-- Behind an expression one less is owed than in front of it. -/
theorem owedFrom_tokens_append_add (φ : Formula) (n : Int) (rest : List Token) (j : Nat) :
    owedFrom n (φ.tokens ++ rest) (φ.tokens.length + j) = owedFrom (n - 1) rest j := by
  induction φ generalizing n rest j with
  | constant a =>
    rw [Formula.tokens, List.length_singleton, Nat.add_comm]
    simp [Token.arity]
  | var name =>
    rw [Formula.tokens, List.length_singleton, Nat.add_comm]
    simp [Token.arity]
  | unary op φ ih =>
    rw [Formula.tokens, List.cons_append, List.length_cons, Nat.add_right_comm,
      owedFrom_unary_succ, ih]
  | binary op φ ψ ihφ ihψ =>
    have hindex : (Formula.binary op φ ψ).tokens.length + j =
        φ.tokens.length + (ψ.tokens.length + j) + 1 := by
      rw [Formula.tokens, List.length_cons, List.length_append]
      omega
    rw [hindex, Formula.tokens, List.cons_append, List.append_assoc, owedFrom_binary_succ, ihφ,
      ihψ, Int.add_sub_cancel]

/-- Inside an expression no less is owed than in front of it. -/
theorem le_owedFrom_tokens_append (φ : Formula) (n : Int) (rest : List Token)
    (hj : j < φ.tokens.length) : n ≤ owedFrom n (φ.tokens ++ rest) j := by
  induction φ generalizing n rest j with
  | constant a =>
    obtain rfl : j = 0 := Nat.lt_one_iff.mp hj
    exact le_rfl
  | var name =>
    obtain rfl : j = 0 := Nat.lt_one_iff.mp hj
    exact le_rfl
  | unary op φ ih =>
    rw [Formula.tokens, List.length_cons] at hj
    cases j with
    | zero => exact le_rfl
    | succ j =>
      rw [Formula.tokens, List.cons_append, owedFrom_unary_succ]
      exact ih n rest (Nat.lt_of_succ_lt_succ hj)
  | binary op φ ψ ihφ ihψ =>
    rw [Formula.tokens, List.length_cons, List.length_append] at hj
    cases j with
    | zero => exact le_rfl
    | succ j =>
      rw [Formula.tokens, List.cons_append, List.append_assoc, owedFrom_binary_succ]
      rcases Nat.lt_or_ge j φ.tokens.length with hlt | hge
      · have hleft := ihφ (n + 1) (ψ.tokens ++ rest) hlt
        omega
      · -- inside the right operand, which is what the left one has left to be settled
        obtain ⟨i, rfl⟩ := Nat.exists_eq_add_of_le hge
        rw [owedFrom_tokens_append_add, Int.add_sub_cancel]
        exact ihψ n rest (by omega)

/-- If what follows an expression keeps to a bound, then so does the expression with what follows
it, and one more that is owed in front. -/
theorem le_owedFrom_tokens_append_of_forall (φ : Formula) (h : ∀ i, n ≤ owedFrom n rest i)
    (j : Nat) : n ≤ owedFrom (n + 1) (φ.tokens ++ rest) j := by
  rcases Nat.lt_or_ge j φ.tokens.length with hlt | hge
  · have hinside := le_owedFrom_tokens_append φ (n + 1) rest hlt
    omega
  · obtain ⟨i, rfl⟩ := Nat.exists_eq_add_of_le hge
    rw [owedFrom_tokens_append_add, Int.add_sub_cancel]
    exact h i

/-- An expression is complete at its end, whatever follows it. -/
theorem completesAt_tokens_append (φ : Formula) (rest : List Token) :
    CompletesAt (φ.tokens ++ rest) φ.tokens.length := by
  refine ⟨?_, ?_, fun j hj => ?_⟩
  · rw [List.length_append]
    exact Nat.le_add_right _ _
  · rw [owed_eq_owedFrom]
    exact owedFrom_tokens_append_add φ 1 rest 0
  · rw [owed_eq_owedFrom]
    exact le_owedFrom_tokens_append φ 1 rest hj

theorem completesAt_tokens (φ : Formula) : CompletesAt φ.tokens φ.tokens.length := by
  have h := completesAt_tokens_append φ []
  rwa [List.append_nil] at h

/-! ### Formulas from the count -/

/-- **From tokens whose count comes out right, as many formulas can be built as are owed.** -/
theorem exists_formulas_of_owedFrom (hgap : .gap ∉ tokens)
    (hend : owedFrom n tokens tokens.length = 0)
    (hpos : ∀ j < tokens.length, 0 < owedFrom n tokens j) :
    ∃ φs : List Formula, φs.length = n ∧ φs.flatMap Formula.tokens = tokens := by
  induction tokens generalizing n with
  | nil =>
    rw [owedFrom_nil] at hend
    exact ⟨[], hend.symm, rfl⟩
  | cons t rest ih =>
    have hn : 0 < n := hpos 0 (Nat.succ_pos _)
    have hgap' : .gap ∉ rest := fun h => hgap (List.mem_cons_of_mem t h)
    obtain ⟨φs, hlength, hflat⟩ :=
      ih hgap' hend fun j hj => hpos (j + 1) (Nat.succ_lt_succ hj)
    cases t with
    | constant a =>
      simp only [Token.arity] at hlength
      refine ⟨.constant a :: φs, ?_, ?_⟩
      · rw [List.length_cons]
        omega
      · rw [List.flatMap_cons, hflat]
        rfl
    | var name =>
      simp only [Token.arity] at hlength
      refine ⟨.var name :: φs, ?_, ?_⟩
      · rw [List.length_cons]
        omega
      · rw [List.flatMap_cons, hflat]
        rfl
    | unary op =>
      simp only [Token.arity] at hlength
      -- the first of the formulas is the operand
      obtain ⟨φ, φs, rfl⟩ := List.exists_cons_of_length_pos (l := φs) (by omega)
      refine ⟨.unary op φ :: φs, ?_, ?_⟩
      · rw [List.length_cons] at hlength ⊢
        omega
      · rw [← hflat]
        rfl
    | binary op =>
      simp only [Token.arity] at hlength
      -- the first two of the formulas are the operands
      obtain ⟨φ, φs, rfl⟩ := List.exists_cons_of_length_pos (l := φs) (by omega)
      rw [List.length_cons] at hlength
      obtain ⟨ψ, φs, rfl⟩ := List.exists_cons_of_length_pos (l := φs) (by omega)
      refine ⟨.binary op φ ψ :: φs, ?_, ?_⟩
      · rw [List.length_cons] at hlength ⊢
        omega
      · rw [← hflat, List.flatMap_cons, List.flatMap_cons, List.flatMap_cons, Formula.tokens,
          List.cons_append, List.append_assoc]
    | gap => exact absurd List.mem_cons_self hgap

/-- **Counting decides which tokens are the expression of a formula.** -/
theorem completesAt_length_iff (hgap : .gap ∉ tokens) :
    CompletesAt tokens tokens.length ↔ ∃ φ : Formula, φ.tokens = tokens := by
  constructor
  · rintro ⟨-, hend, hpos⟩
    obtain ⟨φs, hlength, hflat⟩ := exists_formulas_of_owedFrom hgap hend hpos
    obtain ⟨φ, rfl⟩ := List.length_eq_one_iff.mp (Int.ofNat_inj.mp hlength)
    refine ⟨φ, ?_⟩
    rw [← hflat, List.flatMap_singleton]
  · rintro ⟨φ, rfl⟩
    exact completesAt_tokens φ

end Counting

/-! ### The count along a reading -/

section Reading

variable {σ : Valuation} {tokens : List Token} {room position q : Nat} {r : Reading} {v : Value}

/-- **A reading ends where nothing is owed for the first time.** -/
theorem completesAt_of_readExpression (h : readExpression σ room position tokens = .ok r) :
    CompletesAt tokens (r.next - position) := by
  obtain ⟨φ, htokens, hnext, -⟩ := exists_formula_of_readExpression h
  rw [hnext, Nat.add_sub_cancel_left, htokens]
  exact completesAt_tokens_append φ r.rest

/-- **A reading that runs out of tokens does so where something is owed**: no less is owed at any
place than in front of the tokens. -/
theorem le_owedFrom_of_endOfInput
    (h : readExpression σ room position tokens = .error (.endOfInput q)) (n : Int) (k : Nat) :
    n ≤ owedFrom n tokens k := by
  induction room generalizing position tokens n k with
  | zero => cases h
  | succ room ih =>
    cases tokens with
    | nil => rw [owedFrom_nil]
    | cons t rest =>
      cases k with
      | zero => exact le_rfl
      | succ k =>
        cases t with
        | constant a => cases h
        | var x =>
          rw [readExpression] at h
          split at h <;> cases h
        | unary op =>
          rw [owedFrom_unary_succ]
          rw [readExpression] at h
          rcases bind_eq_error_iff.mp h with hoperand | ⟨a, -, h⟩
          · exact ih hoperand n k
          rcases bind_eq_error_iff.mp h with happly | ⟨w, -, h⟩
          · obtain ⟨-, he⟩ := UnaryOp.eq_of_apply_eq_error happly
            cases he
          · cases h
        | binary op =>
          rw [owedFrom_binary_succ]
          rw [readExpression] at h
          rcases bind_eq_error_iff.mp h with hleft | ⟨a, ha, h⟩
          · have hk := ih hleft (n + 1) k
            omega
          obtain ⟨φ, htokens, -⟩ := exists_formula_of_readExpression ha
          rw [htokens]
          rcases bind_eq_error_iff.mp h with hright | ⟨b, -, h⟩
          · -- the left operand is settled, and the tokens run out in the right one
            exact le_owedFrom_tokens_append_of_forall φ (ih hright n) k
          rcases bind_eq_error_iff.mp h with happly | ⟨w, -, h⟩
          · rcases BinaryOp.eq_of_apply_eq_error happly with ⟨-, he⟩ | ⟨-, -, he⟩
            · cases he
            · cases he
          · cases h
        | gap => cases h

theorem completesAt_of_valueAt {next : Nat} (h : valueAt σ tokens 0 = .ok (v, next)) :
    CompletesAt tokens next := by
  obtain ⟨r, hr, hv⟩ := bind_eq_ok_iff.mp h
  cases hv
  exact completesAt_of_readExpression hr

/-- Tokens that have a value are complete at their end. -/
theorem completesAt_of_valueOf (h : valueOf σ tokens = .ok v) :
    CompletesAt tokens tokens.length := by
  obtain ⟨φ, rfl, -⟩ := valueOf_eq_ok_iff.mp h
  exact completesAt_tokens φ

/-- Where tokens are left over, those in front of them are complete. -/
theorem completesAt_of_trailingTokens {s : String}
    (h : valueOf σ tokens = .error (.trailingTokens s q)) :
    CompletesAt tokens q ∧ q < tokens.length := by
  rcases cause_of_valueOf h with hcause | ⟨v, q, t, hv, ht, he⟩
  · cases hcause
  · cases he
    exact ⟨completesAt_of_valueAt hv, (List.getElem?_eq_some_iff.mp ht).1⟩

/-- Where the tokens of an expression run out, something is owed all along. -/
theorem owed_pos_of_endOfInput (h : valueOf σ tokens = .error (.endOfInput q)) (k : Nat) :
    0 < owed tokens k := by
  rcases bind_eq_error_iff.mp h with hread | ⟨r, -, h⟩
  · rw [owed_eq_owedFrom]
    exact le_owedFrom_of_endOfInput hread 1 k
  · split at h <;> cases h

end Reading

/-- **Counting operands decides where an expression ends**, whatever the values of the variables.

If the count reaches zero for the first time at the end of the tokens, reading them neither runs out
of tokens nor leaves any over. If it does so earlier, they have no value and do not run out, and
if tokens are reported as left over then from that place on. If it never does, they have no value
and none are left over. One of these is the case. A reading that succeeds ends where the count
reaches zero for the first time; and where no gaps are among the tokens, this is at their end
exactly if they are the expression of a formula. -/
theorem counting_decides_completeness (σ : Valuation) (tokens : List Token) :
    (CompletesAt tokens tokens.length →
      (∀ q, valueOf σ tokens ≠ .error (.endOfInput q)) ∧
        ∀ s q, valueOf σ tokens ≠ .error (.trailingTokens s q)) ∧
    (∀ k < tokens.length, CompletesAt tokens k →
      (∀ v, valueOf σ tokens ≠ .ok v) ∧
        (∀ q, valueOf σ tokens ≠ .error (.endOfInput q)) ∧
        ∀ s q, valueOf σ tokens = .error (.trailingTokens s q) → q = k) ∧
    ((∀ k ≤ tokens.length, 0 < owed tokens k) →
      (∀ v, valueOf σ tokens ≠ .ok v) ∧
        ∀ s q, valueOf σ tokens ≠ .error (.trailingTokens s q)) ∧
    ((∃ k, CompletesAt tokens k) ∨ ∀ k ≤ tokens.length, 0 < owed tokens k) ∧
    (∀ v next, valueAt σ tokens 0 = .ok (v, next) → CompletesAt tokens next) ∧
    (.gap ∉ tokens → (CompletesAt tokens tokens.length ↔ ∃ φ : Formula, φ.tokens = tokens)) := by
  have hend : ∀ {k q}, CompletesAt tokens k → valueOf σ tokens ≠ .error (.endOfInput q) :=
    fun hk h => absurd hk.2.1 (ne_of_gt (owed_pos_of_endOfInput h _))
  refine ⟨fun hlen => ⟨fun q => hend hlen, fun s q h => ?_⟩,
    fun k hlt hk => ⟨fun v h => ?_, fun q => hend hk, fun s q h => ?_⟩,
    fun hpos => ⟨fun v h => ?_, fun s q h => ?_⟩, exists_completesAt_or_forall_pos tokens,
    fun v next => completesAt_of_valueAt, completesAt_length_iff⟩
  · obtain ⟨hq, hlt⟩ := completesAt_of_trailingTokens h
    exact absurd (hq.unique hlen) (Nat.ne_of_lt hlt)
  · exact absurd (hk.unique (completesAt_of_valueOf h)) (Nat.ne_of_lt hlt)
  · exact (completesAt_of_trailingTokens h).1.unique hk
  · exact absurd (completesAt_of_valueOf h).2.1 (ne_of_gt (hpos _ le_rfl))
  · obtain ⟨hq, hlt⟩ := completesAt_of_trailingTokens h
    exact absurd hq.2.1 (ne_of_gt (hpos q (Nat.le_of_lt hlt)))

/-- In `lpop - A / B C` the count reaches zero behind `B`, and this is where the tokens are reported
as left over; without its last two tokens, something is owed all along, and nothing is left over. -/
theorem counting_decides_completeness_lpop :
    ∃ σ tokens, σ = Valuation.ofList [("A", .grant), ("B", .reject)] ∧
      tokens = tokensOf "lpop - A / B C" ∧ CompletesAt tokens 5 ∧
      valueOf σ tokens = .error (.trailingTokens "C" 5) ∧
      (∀ s q, valueOf σ tokens = .error (.trailingTokens s q) → q = 5) ∧
      (∀ k ≤ 4, 0 < owed (tokensOf "lpop - A /") k) ∧
      ∀ v, valueOf σ (tokensOf "lpop - A /") ≠ .ok v := by
  have hleft := (counting_decides_completeness (.ofList [("A", .grant), ("B", .reject)])
    (tokensOf "lpop - A / B C")).2.1 5 (by decide) (by decide)
  have hshort := (counting_decides_completeness (.ofList [("A", .grant), ("B", .reject)])
    (tokensOf "lpop - A /")).2.2.1 (by decide)
  exact ⟨_, _, rfl, rfl, by decide, by decide, hleft.2.2, by decide, hshort.1⟩

end ProcessSpaces
