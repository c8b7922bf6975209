import ProcessSpaces.Proofs.Nesting
import ProcessSpaces.Proofs.Validity

/-!
# Putting expressions in the place of variables

A variable stands for some truth value of the logic, and so does an expression of ternary kind. To
**substitute** is to put such expressions in the place of the variables, everywhere and at once. On
tokens this is a matter of copying (`substTokens`): the tokens of the expression take the place of
the token of the variable, whatever stands around it. On formulas it is the usual substitution in
a tree (`Formula.subst`), and the two go together (`Formula.tokens_subst`).

A formula in which something has been substituted has the value that the formula itself has once
the variables are given the values of what takes their place (`Formula.value?_subst`). To say the
same of tokens, one has to know that nothing comes about by copying: if the tokens form an
expression *after* a substitution, then they did so before, since no expression is the beginning
of another (`exists_subst_of_substTokens_append_eq`). What a substitution can spoil is the depth,
and nothing else.

Valid expressions are therefore **schemas**: whatever is substituted in a valid expression, the
result is valid, as long as it is not nested too deep (`Valid.subst`). This holds although
the two tables have nothing in common, neither their variables nor the number of their rows.
-/

namespace ProcessSpaces

/-! ### Substitution in formulas -/

namespace Formula

instance : Inhabited Formula := ⟨.constant .neutral⟩

/-- The formula with `f x` in the place of each variable `x`. -/
def subst (f : String → Formula) : Formula → Formula
  | constant a => constant a
  | var x => f x
  | unary op φ => unary op (φ.subst f)
  | binary op φ ψ => binary op (φ.subst f) (ψ.subst f)

variable {f : String → Formula} {φ : Formula} {σ τ : Valuation}

/-- Substitution never makes a formula less deep. -/
theorem depth_le_depth_subst (f : String → Formula) (φ : Formula) :
    φ.depth ≤ (φ.subst f).depth := by
  induction φ with
  | constant a => exact Nat.le_refl _
  | var x => exact Nat.zero_le _
  | unary op φ ih => exact Nat.succ_le_succ ih
  | binary op φ ψ ihφ ihψ => exact Nat.succ_le_succ (max_le_max ihφ ihψ)

/-- **The value after a substitution** is the value under the valuation that gives each variable
the value of what takes its place. -/
theorem value?_subst
    (h : ∀ x, .var x ∈ φ.tokens → (f x).value? σ = (τ.get? x).map .ternary) :
    (φ.subst f).value? σ = φ.value? τ := by
  induction φ with
  | constant a => rfl
  | var x => exact h x List.mem_cons_self
  | unary op φ ih =>
    have hφ : (φ.subst f).value? σ = φ.value? τ := ih (forall_var_unary_iff.mp h)
    rw [subst, value?, value?, hφ]
  | binary op φ ψ ihφ ihψ =>
    obtain ⟨hleft, hright⟩ := forall_var_binary_iff.mp h
    have hφ : (φ.subst f).value? σ = φ.value? τ := ihφ hleft
    have hψ : (ψ.subst f).value? σ = ψ.value? τ := ihψ hright
    rw [subst, value?, value?, hφ, hψ]

end Formula

/-! ### Substitution in tokens -/

/-- What takes the place of a token: `θ x` that of a variable `x`, and every other token its own. -/
def Token.subst (θ : String → List Token) : Token → List Token
  | .var x => θ x
  | t => [t]

/-- The tokens with `θ x` in the place of each variable `x`. -/
def substTokens (θ : String → List Token) (tokens : List Token) : List Token :=
  tokens.flatMap (Token.subst θ)

section Tokens

variable {θ : String → List Token} {f : String → Formula} {tokens rest : List Token}

theorem substTokens_append (θ : String → List Token) (l m : List Token) :
    substTokens θ (l ++ m) = substTokens θ l ++ substTokens θ m := List.flatMap_append

/-- The variables after a substitution are those of what has been put in. -/
theorem mem_substTokens_of_mem {x : String} {t : Token} (hx : .var x ∈ tokens) (ht : t ∈ θ x) :
    t ∈ substTokens θ tokens := List.mem_flatMap.mpr ⟨.var x, hx, ht⟩

/-- **Substitution in a formula is substitution in its expression.** -/
theorem Formula.tokens_subst {φ : Formula}
    (hθ : ∀ x, .var x ∈ φ.tokens → θ x = (f x).tokens) :
    (φ.subst f).tokens = substTokens θ φ.tokens := by
  induction φ with
  | constant a => rfl
  | var x =>
    have hx : θ x = (f x).tokens := hθ x List.mem_cons_self
    exact hx.symm.trans (List.append_nil _).symm
  | unary op φ ih =>
    have hφ : (φ.subst f).tokens = substTokens θ φ.tokens := ih (forall_var_unary_iff.mp hθ)
    rw [subst, tokens, hφ]
    rfl
  | binary op φ ψ ihφ ihψ =>
    obtain ⟨hleft, hright⟩ := forall_var_binary_iff.mp hθ
    have hφ : (φ.subst f).tokens = substTokens θ φ.tokens := ihφ hleft
    have hψ : (ψ.subst f).tokens = substTokens θ ψ.tokens := ihψ hright
    rw [subst, tokens, hφ, hψ, ← substTokens_append]
    rfl

/-- The first token after a substitution is the first token before it, or else there was a
variable. -/
theorem exists_of_substTokens_eq_cons {u : Token} {l : List Token}
    (h : substTokens θ tokens = u :: l) :
    (∃ x m, tokens = .var x :: m) ∨ ∃ m, tokens = u :: m ∧ substTokens θ m = l := by
  cases tokens with
  | nil => cases h
  | cons t m =>
    cases t with
    | var x => exact Or.inl ⟨x, m, rfl⟩
    | _ =>
      obtain ⟨rfl, hl⟩ := List.cons.inj h
      exact Or.inr ⟨m, rfl, hl⟩

/-- Where a variable comes first, the expression that comes first after the substitution is the one
that has taken its place. -/
theorem exists_subst_of_var_cons {x : String} {m : List Token} {χ : Formula}
    (hx : θ x = (f x).tokens) (h : substTokens θ (.var x :: m) = χ.tokens ++ rest) :
    ∃ (φ : Formula) (l : List Token),
      .var x :: m = φ.tokens ++ l ∧ φ.subst f = χ ∧ substTokens θ l = rest := by
  have happ : (f x).tokens ++ substTokens θ m = χ.tokens ++ rest := by
    rw [← hx, ← h]
    rfl
  obtain ⟨hχ, hrest⟩ := Formula.eq_of_tokens_append_eq happ
  exact ⟨.var x, m, rfl, hχ, hrest⟩

/-- **No expression comes about by a substitution of expressions**: if the tokens begin with an
expression after it, they did so before, and the expression is the one with the substitution made
in it. -/
theorem exists_subst_of_substTokens_append_eq {χ : Formula}
    (hθ : ∀ x, .var x ∈ tokens → θ x = (f x).tokens)
    (h : substTokens θ tokens = χ.tokens ++ rest) :
    ∃ (φ : Formula) (l : List Token),
      tokens = φ.tokens ++ l ∧ φ.subst f = χ ∧ substTokens θ l = rest := by
  -- along the formula after the substitution; a variable in front stands for the whole of it
  induction χ generalizing tokens rest with
  | constant a =>
    rcases exists_of_substTokens_eq_cons h with ⟨x, m, rfl⟩ | ⟨m, rfl, hm⟩
    · exact exists_subst_of_var_cons (hθ x List.mem_cons_self) h
    · exact ⟨.constant a, m, rfl, rfl, hm⟩
  | var y =>
    rcases exists_of_substTokens_eq_cons h with ⟨x, m, rfl⟩ | ⟨m, rfl, hm⟩
    · exact exists_subst_of_var_cons (hθ x List.mem_cons_self) h
    · exact exists_subst_of_var_cons (hθ y List.mem_cons_self) h
  | unary op χ ih =>
    rcases exists_of_substTokens_eq_cons h with ⟨x, m, rfl⟩ | ⟨m, rfl, hm⟩
    · exact exists_subst_of_var_cons (hθ x List.mem_cons_self) h
    · obtain ⟨φ, l, rfl, rfl, hl⟩ := ih (fun x hx => hθ x (List.mem_cons_of_mem _ hx)) hm
      exact ⟨.unary op φ, l, rfl, rfl, hl⟩
  | binary op χ₁ χ₂ ih₁ ih₂ =>
    rcases exists_of_substTokens_eq_cons h with ⟨x, m, rfl⟩ | ⟨m, rfl, hm⟩
    · exact exists_subst_of_var_cons (hθ x List.mem_cons_self) h
    · have hm' : substTokens θ m = χ₁.tokens ++ (χ₂.tokens ++ rest) :=
        hm.trans (List.append_assoc _ _ _)
      have htail : ∀ x, .var x ∈ m → θ x = (f x).tokens :=
        fun x hx => hθ x (List.mem_cons_of_mem _ hx)
      obtain ⟨φ₁, l₁, rfl, rfl, hl₁⟩ := ih₁ htail hm'
      obtain ⟨φ₂, l₂, rfl, rfl, hl₂⟩ :=
        ih₂ (fun x hx => htail x (List.mem_append_right _ hx)) hl₁
      refine ⟨.binary op φ₁ φ₂, l₂, ?_, rfl, hl₂⟩
      rw [Formula.tokens, List.cons_append, List.append_assoc]

/-- A substitution of expressions makes nothing disappear. -/
theorem eq_nil_of_substTokens_eq_nil (hθ : ∀ x, .var x ∈ tokens → θ x = (f x).tokens)
    (h : substTokens θ tokens = []) : tokens = [] := by
  cases tokens with
  | nil => rfl
  | cons t m =>
    cases t with
    | var x =>
      have hempty : θ x = [] := (List.append_eq_nil_iff.mp h).1
      obtain ⟨u, l, hx, -⟩ := (f x).exists_tokens_eq_cons
      rw [hθ x List.mem_cons_self, hx] at hempty
      cases hempty
    | _ => cases h

/-- If the tokens are an expression after a substitution of expressions, they were so before. -/
theorem exists_subst_of_substTokens_eq {χ : Formula}
    (hθ : ∀ x, .var x ∈ tokens → θ x = (f x).tokens) (h : substTokens θ tokens = χ.tokens) :
    ∃ φ : Formula, tokens = φ.tokens ∧ φ.subst f = χ := by
  rw [← List.append_nil χ.tokens] at h
  obtain ⟨φ, l, rfl, hχ, hl⟩ := exists_subst_of_substTokens_append_eq hθ h
  obtain rfl : l = [] :=
    eq_nil_of_substTokens_eq_nil (fun x hx => hθ x (List.mem_append_right _ hx)) hl
  exact ⟨φ, List.append_nil _, hχ⟩

end Tokens

/-! ### Values and substitution -/

section Values

variable {θ : String → List Token} {tokens : List Token} {f : String → Formula} {σ τ : Valuation}
  {a : String → Truth} {v : Value}

/-- What is put in consists of the expressions of the formulas `f`, and these have the truth values
`a` under the valuation. -/
structure Assigns (θ : String → List Token) (f : String → Formula) (σ : Valuation)
    (a : String → Truth) (tokens : List Token) : Prop where
  /-- The expressions are those of the formulas. -/
  tokens_eq (x : String) : .var x ∈ tokens → θ x = (f x).tokens
  /-- The formulas have the truth values. -/
  value?_eq (x : String) : .var x ∈ tokens → (f x).value? σ = some (.ternary (a x))

/-- Where what is put in has values, it consists of expressions of formulas with these values. -/
theorem exists_assigns_of_valueOf
    (hθ : ∀ x, .var x ∈ tokens → valueOf σ (θ x) = .ok (.ternary (a x))) :
    ∃ f, Assigns θ f σ a tokens := by
  have hformula : ∀ x, .var x ∈ tokens →
      ∃ φ : Formula, θ x = φ.tokens ∧ φ.value? σ = some (.ternary (a x)) := by
    intro x hx
    obtain ⟨φ, hφ, -, hvalue⟩ := valueOf_eq_ok_iff.mp (hθ x hx)
    exact ⟨φ, hφ, hvalue⟩
  choose! f hf using hformula
  exact ⟨f, fun x hx => (hf x hx).1, fun x hx => (hf x hx).2⟩

/-- A formula has the same value after the substitution and under the truth values of what is put
in. -/
theorem Assigns.value?_subst {φ : Formula} (h : Assigns θ f σ a φ.tokens)
    (hτ : ∀ x, .var x ∈ φ.tokens → τ.get? x = some (a x)) :
    (φ.subst f).value? σ = φ.value? τ := by
  refine Formula.value?_subst fun x hx => ?_
  rw [h.value?_eq x hx, hτ x hx]
  rfl

/-- **Substitution keeps the value, or else the nesting gets too deep.** -/
theorem valueOf_substTokens_of_valueOf
    (hθ : ∀ x, .var x ∈ tokens → valueOf σ (θ x) = .ok (.ternary (a x)))
    (hτ : ∀ x, .var x ∈ tokens → τ.get? x = some (a x)) (h : valueOf τ tokens = .ok v) :
    valueOf σ (substTokens θ tokens) = .ok v ∨
      ∃ q, valueOf σ (substTokens θ tokens) = .error (.nestedTooDeep q) := by
  obtain ⟨f, hf⟩ := exists_assigns_of_valueOf hθ
  obtain ⟨φ, rfl, -, hvalue⟩ := valueOf_eq_ok_iff.mp h
  have hsubst : (φ.subst f).value? σ = some v := (hf.value?_subst hτ).trans hvalue
  rw [← Formula.tokens_subst hf.tokens_eq]
  rcases valueOf_tokens hsubst with ⟨-, hok⟩ | ⟨-, herror⟩
  · exact Or.inl hok
  · exact Or.inr herror

/-- **A value after a substitution was there before it.** -/
theorem valueOf_of_valueOf_substTokens
    (hθ : ∀ x, .var x ∈ tokens → valueOf σ (θ x) = .ok (.ternary (a x)))
    (hτ : ∀ x, .var x ∈ tokens → τ.get? x = some (a x))
    (h : valueOf σ (substTokens θ tokens) = .ok v) : valueOf τ tokens = .ok v := by
  obtain ⟨f, hf⟩ := exists_assigns_of_valueOf hθ
  obtain ⟨χ, hχ, hdepth, hvalue⟩ := valueOf_eq_ok_iff.mp h
  obtain ⟨φ, rfl, rfl⟩ := exists_subst_of_substTokens_eq hf.tokens_eq hχ
  have hφ : φ.value? τ = some v := (hf.value?_subst hτ).symm.trans hvalue
  have hφdepth : φ.depth ≤ maxNesting := Nat.le_trans (Formula.depth_le_depth_subst f φ) hdepth
  exact valueOf_eq_ok_iff.mpr ⟨φ, rfl, hφdepth, hφ⟩

end Values

/-! ### Valid expressions are schemas -/

section Schema

variable {θ : String → List Token} {tokens : List Token} {σ : Valuation}

/-- What is put in for the variables among the tokens are expressions of well-kinded formulas of
ternary kind. -/
def TernaryOn (θ : String → List Token) (tokens : List Token) : Prop :=
  ∀ x, .var x ∈ tokens → ∃ φ : Formula, θ x = φ.tokens ∧ φ.WellKinded ∧ φ.kind = .ternary

/-- There is a valuation that gives the variables among the tokens any truth values. -/
theorem Valuation.exists_get?_eq (tokens : List Token) (a : String → Truth) :
    ∃ τ : Valuation, ∀ x, .var x ∈ tokens → τ.get? x = some (a x) := by
  have hplace := (forall_get?_nth_iff (nodup_variablesOf tokens)
    (place_lt a (variablesOf tokens))).mpr rfl
  exact ⟨_, fun x hx => hplace x (mem_variablesOf.mpr hx)⟩

/-- A value of ternary kind is a truth value. -/
theorem Value.exists_eq_ternary {v : Value} (h : v.kind = .ternary) : ∃ a, v = .ternary a := by
  cases v with
  | ternary a => exact ⟨a, rfl⟩
  | boolean b => cases h

/-- Under a valuation of the variables after the substitution, everything that is put in has a
truth value. -/
theorem TernaryOn.exists_assigns (h : TernaryOn θ tokens) (hσ : σ.Binds (substTokens θ tokens)) :
    ∃ f a, Assigns θ f σ a tokens := by
  have hvalue : ∀ x, .var x ∈ tokens →
      ∃ (φ : Formula) (a : Truth), θ x = φ.tokens ∧ φ.value? σ = some (.ternary a) := by
    intro x hx
    obtain ⟨φ, hφ, hkinded, hkind⟩ := h x hx
    have hbound : ∀ y, .var y ∈ φ.tokens → (σ.get? y).isSome := by
      intro y hy
      rw [← hφ] at hy
      exact hσ y (mem_substTokens_of_mem hx hy)
    obtain ⟨v, hv, hvkind⟩ := Formula.exists_value?_eq_some hkinded hbound
    obtain ⟨a, rfl⟩ := Value.exists_eq_ternary (hvkind.trans hkind)
    exact ⟨φ, a, hφ, hv⟩
  choose! f a hf using hvalue
  exact ⟨f, a, fun x hx => (hf x hx).1, fun x hx => (hf x hx).2⟩

/-- **Whatever is substituted in a valid expression, the result is valid**, unless it is nested too
deep. -/
theorem Valid.subst (h : Valid tokens) (hθ : TernaryOn θ tokens)
    (hdepth : ∀ χ : Formula, substTokens θ tokens = χ.tokens → χ.depth ≤ maxNesting) :
    Valid (substTokens θ tokens) := by
  intro σ hσ
  obtain ⟨f, a, hf⟩ := hθ.exists_assigns hσ
  obtain ⟨τ, hτ⟩ := Valuation.exists_get?_eq tokens a
  have hbinds : τ.Binds tokens := by
    intro x hx
    rw [hτ x hx]
    rfl
  obtain ⟨φ, rfl, -, hvalue⟩ := valueOf_eq_ok_iff.mp (h τ hbinds)
  have htokens : (φ.subst f).tokens = substTokens θ φ.tokens :=
    Formula.tokens_subst hf.tokens_eq
  exact valueOf_eq_ok_iff.mpr
    ⟨φ.subst f, htokens.symm, hdepth _ htokens.symm, (hf.value?_subst hτ).trans hvalue⟩

/-- An expression that is valid and has few enough variables has a table, and this is valid. -/
theorem Valid.exists_table {e : String} (h : Valid (tokensOf e))
    (hle : (variablesOf (tokensOf e)).length ≤ maxVariables) :
    ∃ t, (tabulate e).result = .ok t ∧ t.isValid = true := by
  have hfirst := h (Valuation.nth (variablesOf (tokensOf e)) 0) (Valuation.binds_nth _ 0)
  obtain ⟨t, ht⟩ := tabulate_of_first_eq_ok hle hfirst
  exact ⟨t, ht, (tabulate_eq_ok_iff.mp ht).isValid_iff.mpr h⟩

end Schema

/-- **Checked expressions are schemas.** Let expressions be put in the place of the variables of
some tokens, and let them have truth values under a valuation. If the tokens have a value once the
variables are given these truth values, then they have it after the substitution, unless they are
nested too deep; and if they have a value after the substitution, it is the one that they had
before.

Hence, if the table of an expression is valid, and well-kinded expressions of ternary kind are put
in the place of its variables such that the result nests at most 1024 operators and has few enough
variables, then there is a table for the result, and it is valid. -/
theorem substitution_sound (θ : String → List Token) :
    (∀ (tokens : List Token) (σ τ : Valuation) (a : String → Truth),
      (∀ x, .var x ∈ tokens → valueOf σ (θ x) = .ok (.ternary (a x))) →
      (∀ x, .var x ∈ tokens → τ.get? x = some (a x)) →
      ∀ v,
        (valueOf τ tokens = .ok v →
          valueOf σ (substTokens θ tokens) = .ok v ∨
            ∃ q, valueOf σ (substTokens θ tokens) = .error (.nestedTooDeep q)) ∧
        (valueOf σ (substTokens θ tokens) = .ok v → valueOf τ tokens = .ok v)) ∧
    ∀ (e e' : String) (t : TruthTable),
      (tabulate e).result = .ok t → t.isValid = true →
      TernaryOn θ (tokensOf e) → tokensOf e' = substTokens θ (tokensOf e) →
      (∀ χ : Formula, tokensOf e' = χ.tokens → χ.depth ≤ 1024) →
      (variablesOf (tokensOf e')).length ≤ 36 →
      ∃ t', (tabulate e').result = .ok t' ∧ t'.isValid = true := by
  constructor
  · intro tokens σ τ a hθ hτ v
    exact ⟨valueOf_substTokens_of_valueOf hθ hτ, valueOf_of_valueOf_substTokens hθ hτ⟩
  · intro e e' t ht hvalid hθ he' hdepth hle
    have hschema : Valid (tokensOf e) := (tabulate_eq_ok_iff.mp ht).isValid_iff.mp hvalid
    rw [he'] at hdepth
    have hinstance : Valid (tokensOf e') := by
      rw [he']
      exact hschema.subst hθ hdepth
    exact hinstance.exists_table (Nat.le_trans hle (by decide))

/-- In `[= phi || A - A`, which is valid, `meet B A` takes the place of `A`. The result has the
value that `[= phi || A - A` has when `A` is given the value of `meet B A`, and its table is
valid. -/
theorem substitution_sound_meet :
    ∃ θ σ τ, θ = (fun x => if x = "A" then tokensOf "meet B A" else [.var x]) ∧
      tokensOf "[= phi || meet B A - meet B A" = substTokens θ (tokensOf "[= phi || A - A") ∧
      σ = Valuation.ofList [("A", .reject), ("B", .neutral)] ∧
      τ = Valuation.ofList [("A", .neutral)] ∧
      valueOf τ (tokensOf "[= phi || A - A") = .ok (.boolean true) ∧
      (valueOf σ (tokensOf "[= phi || meet B A - meet B A") = .ok (.boolean true) ∨
        ∃ q, valueOf σ (tokensOf "[= phi || meet B A - meet B A") = .error (.nestedTooDeep q)) ∧
      ∃ t', (tabulate "[= phi || meet B A - meet B A").result = .ok t' ∧ t'.isValid = true := by
  obtain ⟨θ, hθ⟩ : ∃ θ : String → List Token,
    θ = fun x => if x = "A" then tokensOf "meet B A" else [.var x] := ⟨_, rfl⟩
  obtain ⟨φ, hφ⟩ : ∃ φ : Formula, φ = .binary .meet (.var "B") (.var "A") := ⟨_, rfl⟩
  have htokens : tokensOf "[= phi || meet B A - meet B A" =
      substTokens θ (tokensOf "[= phi || A - A") := by
    rw [hθ]
    decide
  have hvars : ∀ x, .var x ∈ tokensOf "[= phi || A - A" → x = "A" := fun x hx =>
    List.mem_singleton.mp (mem_variablesOf.mpr hx)
  have hsound := substitution_sound θ
  refine ⟨θ, .ofList [("A", .reject), ("B", .neutral)], .ofList [("A", .neutral)], hθ, htokens,
    rfl, rfl, by decide, ?_, ?_⟩
  · have hvalue := hsound.1 (tokensOf "[= phi || A - A") (.ofList [("A", .reject), ("B", .neutral)])
      (.ofList [("A", .neutral)]) (fun _ => .neutral)
      (fun x hx => by rw [hvars x hx, hθ]; decide) (fun x hx => by rw [hvars x hx]; decide)
    rw [htokens]
    exact (hvalue (.boolean true)).1 (by decide)
  · obtain ⟨t, ht, hvalid⟩ :
      ∃ t : TruthTable, (tabulate "[= phi || A - A").result = .ok t ∧ t.isValid = true :=
        ⟨_, rfl, rfl⟩
    refine hsound.2 _ _ t ht hvalid (fun x hx => ⟨φ, ?_⟩) htokens (fun χ hχ => ?_) (by decide)
    · rw [hvars x hx, hθ, hφ]
      exact ⟨rfl, ⟨trivial, trivial, rfl, rfl⟩, rfl⟩
    · -- the result is the expression of one formula only, and this nests three operators
      have hresult : tokensOf "[= phi || meet B A - meet B A" =
          (Formula.binary .entails (.constant .grant)
            (.binary .par φ (.unary .neg φ))).tokens := by
        rw [hφ]
        decide
      obtain rfl := Formula.eq_of_tokens_eq (hχ.symm.trans hresult)
      rw [hφ]
      decide

end ProcessSpaces
