import ProcessSpaces.EvalError

/-!
# Computations that can fail

Reading an expression is a chain of steps each of which may fail, and the first failure is the
outcome of the whole chain. Two things about such chains are needed again and again, and this
file says them once:

* a chain succeeds exactly when each of its steps does, and fails with the error of the first one
  that does not (`bind_eq_ok_iff`, `bind_eq_error_iff`);
* two chains that go on alike from related intermediate results end alike (`Matched.bind`).
  `Matched` is the relation this is about: two outcomes **match** if both are results or both
  are errors, and what they hold is related.
-/

namespace ProcessSpaces

variable {ε δ α β γ ι : Type}

/-! ### One chain -/

/-- A first step that succeeds hands its result to the rest. -/
theorem ok_bind (a : α) (f : α → Except ε β) : (Except.ok a >>= f) = f a := rfl

/-- A first step that fails is the end of the chain. -/
theorem error_bind (e : ε) (f : α → Except ε β) : (Except.error e >>= f) = .error e := rfl

/-- A chain succeeds exactly when its first step does and the rest does on what that yields. -/
theorem bind_eq_ok_iff {x : Except ε α} {f : α → Except ε β} {b : β} :
    (x >>= f) = .ok b ↔ ∃ a, x = .ok a ∧ f a = .ok b := by
  cases x with
  | error e =>
    constructor
    · intro h
      cases h
    · rintro ⟨a, ha, -⟩
      cases ha
  | ok a =>
    constructor
    · intro h
      exact ⟨a, rfl, h⟩
    · rintro ⟨a', ha, h⟩
      cases ha
      exact h

/-- A chain fails exactly when its first step does, or the rest does on what that yields. -/
theorem bind_eq_error_iff {x : Except ε α} {f : α → Except ε β} {e : ε} :
    (x >>= f) = .error e ↔ x = .error e ∨ ∃ a, x = .ok a ∧ f a = .error e := by
  cases x with
  | error d =>
    rw [error_bind]
    constructor
    · intro h
      exact Or.inl (congrArg Except.error (Except.error.inj h))
    · rintro (h | ⟨a, ha, -⟩)
      · exact congrArg Except.error (Except.error.inj h)
      · cases ha
  | ok a =>
    rw [ok_bind]
    constructor
    · intro h
      exact Or.inr ⟨a, rfl, h⟩
    · rintro (h | ⟨a', ha, h⟩)
      · cases h
      · cases ha
        exact h

/-- Two functions are applied to the result of a computation one after the other. -/
theorem map_map (x : Except ε α) (f : α → β) (g : β → γ) :
    (x.map f).map g = x.map fun a => g (f a) := by
  cases x with
  | error e => rfl
  | ok a => rfl

/-- A function applied to the result of a computation changes nothing about its success. -/
theorem map_eq_ok_iff {x : Except ε α} {f : α → β} {b : β} :
    x.map f = .ok b ↔ ∃ a, x = .ok a ∧ f a = b := by
  cases x with
  | error e => simp [Except.map]
  | ok a => simp [Except.map]

/-- A function applied to the result of a computation changes nothing about its error. -/
theorem map_eq_error_iff {x : Except ε α} {f : α → β} {e : ε} :
    x.map f = .error e ↔ x = .error e := by
  cases x with
  | error d => simp [Except.map]
  | ok a => simp [Except.map]

/-- Wrapping the error of a computation changes nothing about its success. -/
theorem mapError_eq_ok_iff {x : Except ε α} {f : ε → δ} {a : α} :
    x.mapError f = .ok a ↔ x = .ok a := by
  cases x with
  | error e =>
    constructor
    · intro h
      cases h
    · intro h
      cases h
  | ok a =>
    constructor
    · intro h
      cases h
      rfl
    · intro h
      cases h
      rfl

/-- A function applied to the result of a first step and one applied to the result of the whole
chain come to the same if they do so for the rest of the chain. -/
theorem map_bind_congr {x : Except ε α} {g : α → γ} {f : α → Except ε β} {f' : γ → Except ε δ}
    {g' : β → δ} (h : ∀ a, x = .ok a → f' (g a) = (f a).map g') :
    (x.map g >>= f') = (x >>= f).map g' := by
  cases x with
  | error e => rfl
  | ok a => exact h a rfl

/-- A function applied to the result of a chain may be applied to that of its last step. -/
theorem bind_map (x : Except ε α) (f : α → Except ε β) (g : β → γ) :
    (x >>= f).map g = x >>= fun a => (f a).map g := by
  cases x with
  | error e => rfl
  | ok a => rfl

/-! ### Two chains side by side -/

/-- Two outcomes **match**: they are results related by `R`, or errors related by `E`. -/
inductive Matched (E : ε → δ → Prop) (R : α → β → Prop) : Except ε α → Except δ β → Prop
  /-- Two results. -/
  | ok {a : α} {b : β} (h : R a b) : Matched E R (.ok a) (.ok b)
  /-- Two errors. -/
  | error {e : ε} {d : δ} (h : E e d) : Matched E R (.error e) (.error d)

namespace Matched

variable {E : ε → δ → Prop} {R : α → β → Prop} {S : γ → ι → Prop}

/-- Two chains match if their first steps do and they go on alike from the related results of
these. -/
theorem bind {x : Except ε α} {y : Except δ β} {f : α → Except ε γ} {g : β → Except δ ι}
    (h : Matched E R x y)
    (hfg : ∀ a b, x = .ok a → y = .ok b → R a b → Matched E S (f a) (g b)) :
    Matched E S (x >>= f) (y >>= g) := by
  cases h with
  | ok hab => exact hfg _ _ rfl rfl hab
  | error he => exact .error he

/-- Outcomes that match with equality on both sides are the same. -/
theorem eq {x y : Except ε α} (h : Matched Eq Eq x y) : x = y := by
  cases h with
  | ok h => rw [h]
  | error h => rw [h]

/-- Two outcomes that match are two results or two errors. -/
theorem ok_or_error {x : Except ε α} {y : Except δ β} (h : Matched E R x y) :
    (∃ a b, x = .ok a ∧ y = .ok b ∧ R a b) ∨ ∃ e d, x = .error e ∧ y = .error d ∧ E e d := by
  cases h with
  | ok h => exact Or.inl ⟨_, _, rfl, rfl, h⟩
  | error h => exact Or.inr ⟨_, _, rfl, rfl, h⟩

end Matched

end ProcessSpaces
