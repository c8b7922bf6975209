import ProcessSpaces.Proofs.Algebra
import ProcessSpaces.Proofs.Nesting
import ProcessSpaces.Proofs.StaticKinds

/-!
# Replacing equals by equals

An expression within an expression may be replaced by another one that has the same value, and the
value of the whole stays what it was. On formulas there is little to this. A **context**
(`Formula.Context`) is a formula with a hole in one place, and formulas of the same value have the
same value in every context (`Formula.Context.value?_fill_congr`).

What has to be shown is that tokens are no different. Given only that some tokens in the midst of
an expression form an expression by themselves, it might be thought that they belong to several
operands, the end of one and the beginning of the next. They never do: **an expression within an
expression fills a context** (`Formula.exists_context_of_tokens_eq`), because no expression is the
beginning of another. The proof walks along the outer formula and finds the inner one either behind
the operand it is at or inside of it.

Positions behind the place are shifted by a replacement, and no value depends on them. The depth is
all that may change for the worse: an expression that nests deeper than the one it replaces can
make the whole exceed the limit (`replacement_of_equals`).
-/

namespace ProcessSpaces

namespace Formula

/-- A formula with a hole in one place. -/
inductive Context where
  /-- There is nothing but the hole. -/
  | hole
  /-- The hole is in the operand. -/
  | unary (op : UnaryOp) (C : Context)
  /-- The hole is in the left operand. -/
  | left (op : BinaryOp) (C : Context) (ψ : Formula)
  /-- The hole is in the right operand. -/
  | right (op : BinaryOp) (φ : Formula) (C : Context)
deriving DecidableEq, Repr

namespace Context

/-- The formula with another one in the hole. -/
def fill : Context → Formula → Formula
  | hole, χ => χ
  | unary op C, χ => .unary op (C.fill χ)
  | left op C ψ, χ => .binary op (C.fill χ) ψ
  | right op φ C, χ => .binary op φ (C.fill χ)

/-- The tokens in front of the hole. -/
def before : Context → List Token
  | hole => []
  | unary op C => .unary op :: C.before
  | left op C _ => .binary op :: C.before
  | right op φ C => .binary op :: (φ.tokens ++ C.before)

/-- The tokens behind the hole. -/
def after : Context → List Token
  | hole => []
  | unary _ C => C.after
  | left _ C ψ => C.after ++ ψ.tokens
  | right _ _ C => C.after

variable {φ ψ : Formula} {σ : Valuation}

/-- The expression of a filled context is that of the filling between what is in front of the hole
and what is behind it. -/
theorem tokens_fill (C : Context) (φ : Formula) :
    (C.fill φ).tokens = C.before ++ φ.tokens ++ C.after := by
  induction C with
  | hole => exact (List.append_nil _).symm
  | unary op C ih => rw [fill, tokens, ih, before, after, List.cons_append, List.cons_append]
  | left op C ψ ih =>
    rw [fill, tokens, ih, before, after, List.cons_append, List.cons_append, List.append_assoc]
  | right op φ' C ih =>
    rw [fill, tokens, ih, before, after, List.cons_append, List.cons_append]
    simp only [List.append_assoc]

/-- **Formulas of the same value have the same value in every context.** -/
theorem value?_fill_congr (C : Context) (h : φ.value? σ = ψ.value? σ) :
    (C.fill φ).value? σ = (C.fill ψ).value? σ := by
  induction C with
  | hole => exact h
  | unary op C ih => rw [fill, fill, value?, value?, ih]
  | left op C χ ih => rw [fill, fill, value?, value?, ih]
  | right op χ C ih => rw [fill, fill, value?, value?, ih]

/-- A filled context has a value only if the filling has one. -/
theorem exists_value?_of_fill (C : Context) {w : Value} (h : (C.fill φ).value? σ = some w) :
    ∃ v, φ.value? σ = some v := by
  induction C generalizing w with
  | hole => exact ⟨w, h⟩
  | unary op C ih =>
    obtain ⟨a, ha, -⟩ := value?_unary_eq_some_iff.mp h
    exact ih ha
  | left op C ψ ih =>
    obtain ⟨a, b, ha, -, -⟩ := value?_binary_eq_some_iff.mp h
    exact ih ha
  | right op χ C ih =>
    obtain ⟨a, b, -, hb, -⟩ := value?_binary_eq_some_iff.mp h
    exact ih hb

/-- The less deep the filling, the less deep the whole. -/
theorem depth_fill_le (C : Context) (h : φ.depth ≤ ψ.depth) :
    (C.fill φ).depth ≤ (C.fill ψ).depth := by
  induction C with
  | hole => exact h
  | unary op C ih => exact Nat.succ_le_succ ih
  | left op C χ ih => exact Nat.succ_le_succ (max_le_max ih (Nat.le_refl _))
  | right op χ C ih => exact Nat.succ_le_succ (max_le_max (Nat.le_refl _) ih)

end Context

/-! ### An expression within an expression -/

/-- An expression with nothing in front of it fills the empty context. -/
theorem exists_context_of_tokens_append_eq {φ χ : Formula} {post rest : List Token}
    (h : φ.tokens ++ post = χ.tokens ++ rest) :
    ∃ C : Context, [] = C.before ∧ post = C.after ++ rest ∧ χ = C.fill φ := by
  obtain ⟨rfl, rfl⟩ := eq_of_tokens_append_eq h
  exact ⟨.hole, rfl, rfl, rfl⟩

/-- **An expression that begins no earlier than another either begins behind its end, or fills a
context in it.** It never overlaps the end. -/
theorem append_eq_or_exists_context {φ χ : Formula} {pre post rest : List Token}
    (h : pre ++ φ.tokens ++ post = χ.tokens ++ rest) :
    (∃ l, pre = χ.tokens ++ l ∧ l ++ φ.tokens ++ post = rest) ∨
      ∃ C : Context, pre = C.before ∧ post = C.after ++ rest ∧ χ = C.fill φ := by
  induction χ generalizing pre rest with
  | constant a =>
    cases pre with
    | nil => exact Or.inr (exists_context_of_tokens_append_eq h)
    | cons t pre =>
      obtain ⟨rfl, hrest⟩ := List.cons.inj h
      exact Or.inl ⟨pre, rfl, hrest⟩
  | var x =>
    cases pre with
    | nil => exact Or.inr (exists_context_of_tokens_append_eq h)
    | cons t pre =>
      obtain ⟨rfl, hrest⟩ := List.cons.inj h
      exact Or.inl ⟨pre, rfl, hrest⟩
  | unary op χ ih =>
    cases pre with
    | nil => exact Or.inr (exists_context_of_tokens_append_eq h)
    | cons t pre =>
      obtain ⟨rfl, htail⟩ := List.cons.inj h
      rcases ih htail with ⟨l, rfl, hl⟩ | ⟨C, rfl, rfl, rfl⟩
      · exact Or.inl ⟨l, rfl, hl⟩
      · exact Or.inr ⟨.unary op C, rfl, rfl, rfl⟩
  | binary op χ₁ χ₂ ih₁ ih₂ =>
    cases pre with
    | nil => exact Or.inr (exists_context_of_tokens_append_eq h)
    | cons t pre =>
      obtain ⟨rfl, htail⟩ := List.cons.inj h
      have hleft : pre ++ φ.tokens ++ post = χ₁.tokens ++ (χ₂.tokens ++ rest) :=
        htail.trans (List.append_assoc _ _ _)
      -- first it is looked for in the left operand, and only behind it in the right one
      rcases ih₁ hleft with ⟨l, rfl, hl⟩ | ⟨C, rfl, rfl, rfl⟩
      · rcases ih₂ hl with ⟨m, rfl, hm⟩ | ⟨C, rfl, rfl, rfl⟩
        · refine Or.inl ⟨m, ?_, hm⟩
          rw [tokens, List.cons_append, List.append_assoc]
        · exact Or.inr ⟨.right op χ₁ C, rfl, rfl, rfl⟩
      · refine Or.inr ⟨.left op C χ₂, rfl, ?_, rfl⟩
        rw [Context.after, List.append_assoc]

/-- **An expression within an expression fills a context.** -/
theorem exists_context_of_tokens_eq {φ χ : Formula} {pre post : List Token}
    (h : pre ++ φ.tokens ++ post = χ.tokens) :
    ∃ C : Context, pre = C.before ∧ post = C.after ∧ χ = C.fill φ := by
  rw [← List.append_nil χ.tokens] at h
  rcases append_eq_or_exists_context h with ⟨l, -, hl⟩ | ⟨C, hpre, hpost, hχ⟩
  · obtain ⟨t, m, hφ, -⟩ := φ.exists_tokens_eq_cons
    rw [hφ] at hl
    simp at hl
  · exact ⟨C, hpre, hpost.trans (List.append_nil _), hχ⟩

end Formula

/-! ### Replacement -/

section Replacement

variable {σ : Valuation} {pre post : List Token} {φ ψ : Formula} {w : Value}

/-- The tokens are the expression of a formula that nests too many operators, and for this they are
refused. -/
def TooDeep (σ : Valuation) (tokens : List Token) : Prop :=
  ∃ (q : Nat) (χ : Formula), valueOf σ tokens = .error (.nestedTooDeep q) ∧
    tokens = χ.tokens ∧ 1024 < χ.depth

/-- An expression within an expression that has a value has a value itself. -/
theorem exists_value?_of_valueOf (h : valueOf σ (pre ++ φ.tokens ++ post) = .ok w) :
    ∃ v, φ.value? σ = some v := by
  obtain ⟨χ, hχ, -, hvalue⟩ := valueOf_eq_ok_iff.mp h
  obtain ⟨C, -, -, rfl⟩ := Formula.exists_context_of_tokens_eq hχ
  exact C.exists_value?_of_fill hvalue

/-- **A formula within an expression may be replaced by one of the same value**: the value of the
whole stays, unless the formula is deeper than the one it replaces and makes the whole too deep. -/
theorem valueOf_replace (hvalue : φ.value? σ = ψ.value? σ)
    (h : valueOf σ (pre ++ φ.tokens ++ post) = .ok w) :
    valueOf σ (pre ++ ψ.tokens ++ post) = .ok w ∨
      (φ.depth < ψ.depth ∧ TooDeep σ (pre ++ ψ.tokens ++ post)) := by
  obtain ⟨χ, hχ, hdepth, hw⟩ := valueOf_eq_ok_iff.mp h
  obtain ⟨C, rfl, rfl, rfl⟩ := Formula.exists_context_of_tokens_eq hχ
  rw [C.value?_fill_congr hvalue] at hw
  rw [← C.tokens_fill]
  rcases valueOf_tokens hw with ⟨-, hok⟩ | ⟨hdeep, q, hq⟩
  · exact Or.inl hok
  · refine Or.inr ⟨?_, q, C.fill ψ, hq, rfl, hdeep⟩
    by_contra hnot
    have hle : (C.fill ψ).depth ≤ (C.fill φ).depth := C.depth_fill_le (Nat.le_of_not_lt hnot)
    omega

/-- In every formula `lpop` may be written with `||` and `-`. -/
theorem Formula.value?_lpop {v : Value} (h : (binary .lpop φ ψ).value? σ = some v) :
    (binary .par (unary .neg φ) ψ).value? σ = some v := by
  obtain ⟨a, b, ha, hb, rfl⟩ := value?_binary_eq_some_iff.mp h
  have hneg : (unary .neg φ).value? σ = some (.ternary (Truth.neg a)) :=
    value?_unary_eq_some_iff.mpr ⟨a, ha, rfl⟩
  refine value?_binary_eq_some_iff.mpr ⟨Truth.neg a, b, hneg, hb, ?_⟩
  exact congrArg Value.ternary (Truth.lpop_eq_par_neg a b)

end Replacement

/-- **Replacement of equals.** If some tokens within an expression have a value by themselves, and
others that have the same value are put in their place, then the value of the whole stays. The only
thing that can happen besides is that the whole is refused for its depth; and this happens only if
the new tokens nest deeper than the old ones, and the whole exceeds the limit.

In particular `lpop` may be replaced by what it is defined by, wherever it stands. -/
theorem replacement_of_equals (σ : Valuation) (pre post : List Token) (w : Value) :
    (∀ (S T : List Token) (v : Value),
      valueOf σ S = .ok v → valueOf σ T = .ok v → valueOf σ (pre ++ S ++ post) = .ok w →
      valueOf σ (pre ++ T ++ post) = .ok w ∨
        ∃ φ ψ : Formula, S = φ.tokens ∧ T = ψ.tokens ∧ φ.depth < ψ.depth ∧
          TooDeep σ (pre ++ T ++ post)) ∧
    ∀ φ ψ : Formula,
      valueOf σ (pre ++ (.binary .lpop :: φ.tokens ++ ψ.tokens) ++ post) = .ok w →
      valueOf σ (pre ++ (.binary .par :: .unary .neg :: φ.tokens ++ ψ.tokens) ++ post) = .ok w ∨
        TooDeep σ (pre ++ (.binary .par :: .unary .neg :: φ.tokens ++ ψ.tokens) ++ post) := by
  constructor
  · intro S T v hS hT h
    obtain ⟨φ, rfl, -, hφ⟩ := valueOf_eq_ok_iff.mp hS
    obtain ⟨ψ, rfl, -, hψ⟩ := valueOf_eq_ok_iff.mp hT
    rcases valueOf_replace (hφ.trans hψ.symm) h with hok | ⟨hdepth, hdeep⟩
    · exact Or.inl hok
    · exact Or.inr ⟨φ, ψ, rfl, rfl, hdepth, hdeep⟩
  · intro φ ψ h
    have hlpop : valueOf σ (pre ++ (Formula.binary .lpop φ ψ).tokens ++ post) = .ok w := h
    obtain ⟨v, hv⟩ := exists_value?_of_valueOf hlpop
    rcases valueOf_replace (hv.trans (Formula.value?_lpop hv).symm) hlpop with hok | ⟨-, hdeep⟩
    · exact Or.inl hok
    · exact Or.inr hdeep

/-- In `equiv robust lpop A B == A B` the part `lpop A B` has the value of `/ B` if `A` is rejected
and `B` is granted, so that one may be put in the place of the other there; and it may be written
with `||` and `-`. -/
theorem replacement_of_equals_lpop :
    ∃ (σ : Valuation) (pre post : List Token),
      σ = .ofList [("A", .reject), ("B", .grant)] ∧
      pre = tokensOf "equiv robust" ∧ post = tokensOf "== A B" ∧
      valueOf σ (tokensOf "lpop A B") = .ok (.ternary .neutral) ∧
      valueOf σ (tokensOf "/ B") = .ok (.ternary .neutral) ∧
      valueOf σ (pre ++ tokensOf "lpop A B" ++ post) = .ok (.boolean false) ∧
      (valueOf σ (pre ++ tokensOf "/ B" ++ post) = .ok (.boolean false) ∨
        ∃ φ ψ : Formula, tokensOf "lpop A B" = φ.tokens ∧ tokensOf "/ B" = ψ.tokens ∧
          φ.depth < ψ.depth ∧ TooDeep σ (pre ++ tokensOf "/ B" ++ post)) ∧
      (valueOf σ (pre ++ tokensOf "|| - A B" ++ post) = .ok (.boolean false) ∨
        TooDeep σ (pre ++ tokensOf "|| - A B" ++ post)) := by
  have hequals := replacement_of_equals (.ofList [("A", .reject), ("B", .grant)])
    (tokensOf "equiv robust") (tokensOf "== A B") (.boolean false)
  have hpart := hequals.1 (tokensOf "lpop A B") (tokensOf "/ B") (.ternary .neutral)
    (by decide) (by decide) (by decide)
  have hlpop := hequals.2 (.var "A") (.var "B") (by decide)
  exact ⟨_, _, _, rfl, rfl, rfl, by decide, by decide, by decide, hpart, hlpop⟩

end ProcessSpaces
