import ProcessSpaces.Proofs.OrderedMap
import ProcessSpaces.Proofs.Tabulation

/-!
# What an expression sees of a valuation

A valuation tells more than the values of the variables in an expression. It binds other names,
its names have an order, and there are many ways to come by it. None of this is seen by the
expression: if two valuations agree on the names that are noted along the tokens, then reading
them has the same outcome under both, from every position, and so has reading the whole, results and
errors alike (`sameOutcomes_of_agreeOn`).

This is the coincidence lemma once more, for positions within the tokens, and with the list of the
names in the place of the tokens. What is added is that the ways in which a valuation can be changed
out of sight are ways to leave these names alone. A permutation of the bindings changes the
valuation, unless the names keep their order, but nothing that can be looked up
(`Valuation.get?_eq_of_perm`).
-/

namespace ProcessSpaces

namespace Valuation

variable {σ τ : Valuation} {x : String}

/-- **What is looked up does not depend on the order** of the bindings. -/
theorem get?_eq_of_perm (h : σ.bindings.Perm τ.bindings) (x : String) : σ.get? x = τ.get? x := by
  apply Option.ext
  intro a
  rw [← mem_bindings_iff, ← mem_bindings_iff]
  exact h.mem_iff

/-- Valuations with the same bindings are told apart by the order of their names, and by nothing
else. -/
theorem eq_iff_names_eq_of_perm (h : σ.bindings.Perm τ.bindings) :
    σ = τ ↔ σ.names = τ.names := by
  constructor
  · rintro rfl
    rfl
  · intro hnames
    exact ext_get? hnames (get?_eq_of_perm h)

end Valuation

section Outcomes

variable {σ τ : Valuation} {tokens : List Token}

/-- Reading the tokens has the same outcome under both valuations, from each position and as a
whole. -/
def SameOutcomes (tokens : List Token) (σ τ : Valuation) : Prop :=
  (∀ position, valueAt σ tokens position = valueAt τ tokens position) ∧
    valueOf σ tokens = valueOf τ tokens

/-- **Valuations that agree on the names noted along the tokens have the same outcomes.** -/
theorem sameOutcomes_of_agreeOn (h : σ.AgreeOn (variablesOf tokens) τ) :
    SameOutcomes tokens σ τ := by
  have hvars : ∀ x, .var x ∈ tokens → σ.get? x = τ.get? x :=
    fun x hx => h x (mem_variablesOf.mpr hx)
  exact ⟨valueAt_congr hvars, valueOf_congr hvars⟩

/-- Valuations in which the same is looked up have the same outcomes. -/
theorem sameOutcomes_of_get?_eq (h : ∀ x, σ.get? x = τ.get? x) : SameOutcomes tokens σ τ :=
  sameOutcomes_of_agreeOn fun x _ => h x

end Outcomes

/-- **An expression sees nothing of a valuation but the values of its variables.** Under two
valuations that agree on the names noted along the tokens, whatever else they bind and however they
have been made, reading has the same outcome from each position and as a whole, results and errors
alike.

In particular the order of the bindings may be changed, although this makes for another valuation
unless the names keep their order; a name may be given once more the value that it has; and a name
that does not occur may be given any value. -/
theorem outcome_depends_on_variables (tokens : List Token) :
    (∀ σ τ : Valuation, σ.AgreeOn (variablesOf tokens) τ → SameOutcomes tokens σ τ) ∧
    (∀ σ τ : Valuation, σ.bindings.Perm τ.bindings →
      (σ = τ ↔ σ.names = τ.names) ∧ SameOutcomes tokens σ τ) ∧
    (∀ (σ : Valuation) (x : String) (a : Truth), σ.get? x = some a →
      SameOutcomes tokens (σ.insert x a) σ) ∧
    ∀ (σ : Valuation) (x : String) (a : Truth), x ∉ variablesOf tokens →
      SameOutcomes tokens (σ.insert x a) σ := by
  refine ⟨fun σ τ => sameOutcomes_of_agreeOn, fun σ τ h => ?_, fun σ x a h => ?_,
    fun σ x a hx => ?_⟩
  · exact ⟨Valuation.eq_iff_names_eq_of_perm h,
      sameOutcomes_of_get?_eq (Valuation.get?_eq_of_perm h)⟩
  · rw [Valuation.insert_of_get?_eq_some h]
    exact sameOutcomes_of_get?_eq fun _ => rfl
  · refine sameOutcomes_of_agreeOn fun y hy => ?_
    have hyx : y ≠ x := fun h => hx (h ▸ hy)
    exact Valuation.get?_insert_of_ne σ hyx a

/-- Two valuations with the same bindings in another order are different, and they have the same
outcomes for `|| A B not C`, as they have if `A` is given its value again, or `D` any value. -/
theorem outcome_depends_on_variables_par :
    ∃ σ τ : Valuation, σ = .ofList [("A", .reject), ("B", .grant)] ∧
      τ = .ofList [("B", .grant), ("A", .reject)] ∧ σ ≠ τ ∧
      SameOutcomes (tokensOf "|| A B not C") σ τ ∧
      SameOutcomes (tokensOf "|| A B not C") (σ.insert "A" .reject) σ ∧
      SameOutcomes (tokensOf "|| A B not C") (σ.insert "D" .neutral) σ ∧
      SameOutcomes (tokensOf "|| A B not C") (τ.insert "D" .neutral) σ := by
  obtain ⟨hagree, hperm, hagain, hother⟩ := outcome_depends_on_variables (tokensOf "|| A B not C")
  obtain ⟨heq, hsame⟩ := hperm (.ofList [("A", .reject), ("B", .grant)])
    (.ofList [("B", .grant), ("A", .reject)]) (by decide)
  exact ⟨_, _, rfl, rfl, fun h => absurd (heq.mp h) (by decide), hsame,
    hagain _ "A" .reject (by decide), hother _ "D" .neutral (by decide),
    hagree _ _ (by decide)⟩

end ProcessSpaces
