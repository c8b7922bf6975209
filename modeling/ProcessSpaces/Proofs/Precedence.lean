import ProcessSpaces.Proofs.Algebra
import ProcessSpaces.Proofs.UniqueReading

/-!
# Operators by which one operand prevails

For each of the operators `||`, `oplus`, `meet` and `join` there is an order of precedence among the
three truth values. Of two operands, the one that comes first in it prevails, and the value is its
value (`Selector.pick_eq`).

Such an operator may be applied to several operands, if they are grouped into pairs (`Grouping`). At
each pair the first of two values is taken, so that in the end the first of all is left
(`Grouping.exists_prevails`). This does not depend on how the operands are grouped, on the order in
which they come, or on how often they are there, but only on what values there are among them
(`grouping_immaterial`). The one thing for which grouping matters is the nesting: pairs within pairs
are operators within operators, and there may be too many of them.
-/

namespace ProcessSpaces

/-! ### Orders of precedence -/

/-- The operators by which one operand prevails. -/
inductive Selector where
  /-- The operator `||`. -/
  | par
  /-- The operator `oplus`. -/
  | oplus
  /-- The operator `meet`. -/
  | meet
  /-- The operator `join`. -/
  | join
deriving DecidableEq, Repr

namespace Selector

/-- The operator as one of the language. -/
def op : Selector → BinaryOp
  | par => .par
  | oplus => .oplus
  | meet => .meet
  | join => .join

/-- The operation on truth values. -/
def pick : Selector → Truth → Truth → Truth
  | par => Truth.par
  | oplus => Truth.oplus
  | meet => Truth.meet
  | join => Truth.join

/-- The truth values, those that prevail over others in front of them. -/
def precedence : Selector → List Truth
  | par => [.neutral, .reject, .grant]
  | oplus => [.reject, .neutral, .grant]
  | meet => [.grant, .neutral, .reject]
  | join => [.grant, .reject, .neutral]

/-- The number of values that prevail over the value. -/
def rank (s : Selector) (a : Truth) : Nat := s.precedence.idxOf a

/-- Of the values that have a property, this one prevails. -/
structure Prevails (s : Selector) (P : Truth → Prop) (a : Truth) : Prop where
  /-- The value has the property. -/
  holds : P a
  /-- No value that has it prevails over this one. -/
  rank_le {b : Truth} (hb : P b) : s.rank a ≤ s.rank b

variable {s : Selector} {P Q : Truth → Prop} {a b : Truth}

/-- **Of two operands the one of lower rank prevails.** -/
theorem pick_eq (s : Selector) : ∀ a b, s.pick a b = if s.rank a ≤ s.rank b then a else b := by
  cases s with
  | par => decide
  | oplus => decide
  | meet => decide
  | join => decide

theorem mem_precedence (s : Selector) : ∀ a, a ∈ s.precedence := by
  cases s with
  | par => decide
  | oplus => decide
  | meet => decide
  | join => decide

theorem nodup_precedence (s : Selector) : s.precedence.Nodup := by
  cases s with
  | par => decide
  | oplus => decide
  | meet => decide
  | join => decide

/-- Where two properties are put together, one of the two values that prevailed prevails again. -/
theorem Prevails.pick (ha : s.Prevails P a) (hb : s.Prevails Q b) :
    s.Prevails (fun c => P c ∨ Q c) (s.pick a b) := by
  rw [pick_eq]
  split
  · next hle =>
    refine ⟨Or.inl ha.holds, ?_⟩
    rintro c (hc | hc)
    · exact ha.rank_le hc
    · exact Nat.le_trans hle (hb.rank_le hc)
  · next hnot =>
    refine ⟨Or.inr hb.holds, ?_⟩
    rintro c (hc | hc)
    · exact Nat.le_trans (Nat.le_of_not_le hnot) (ha.rank_le hc)
    · exact hb.rank_le hc

/-- The value that prevails is the first one that is found. -/
theorem Prevails.find?_eq [DecidablePred P] (h : s.Prevails P a) :
    s.precedence.find? (fun b => P b) = some a := by
  have hlt : s.rank a < s.precedence.length := List.idxOf_lt_length_of_mem (s.mem_precedence a)
  rw [List.find?_eq_some_iff_getElem]
  refine ⟨decide_eq_true h.holds, s.rank a, hlt, List.getElem_idxOf hlt, fun j hj => ?_⟩
  rw [Bool.not_eq_true', decide_eq_false_iff_not]
  intro hP
  -- the rank of what stands at a place is that place
  have hrank : s.rank s.precedence[j] = j := s.nodup_precedence.idxOf_getElem j _
  have hle : s.rank a ≤ j := hrank ▸ h.rank_le hP
  exact absurd hle (Nat.not_le_of_lt hj)

/-- The value of the operator for two operands. -/
theorem value?_op {σ : Valuation} {φ ψ : Formula} (hφ : φ.value? σ = some (.ternary a))
    (hψ : ψ.value? σ = some (.ternary b)) :
    (Formula.binary s.op φ ψ).value? σ = some (.ternary (s.pick a b)) := by
  cases s with
  | par => exact Formula.value?_binary .par hφ hψ
  | oplus => exact Formula.value?_binary .oplus hφ hψ
  | meet => exact Formula.value?_binary .meet hφ hψ
  | join => exact Formula.value?_binary .join hφ hψ

end Selector

/-! ### Groupings -/

/-- Operands that are grouped into pairs, and these into pairs again. -/
inductive Grouping where
  /-- A single operand. -/
  | operand (φ : Formula)
  /-- A pair. -/
  | pair (g h : Grouping)
deriving DecidableEq, Repr

namespace Grouping

/-- The formula in which the operator stands in front of each pair. -/
def formula (s : Selector) : Grouping → Formula
  | operand φ => φ
  | pair g h => .binary s.op (g.formula s) (h.formula s)

/-- The operands from left to right. -/
def operands : Grouping → List Formula
  | operand φ => [φ]
  | pair g h => g.operands ++ h.operands

/-- Some operand has the value. -/
def Attains (σ : Valuation) (g : Grouping) (a : Truth) : Prop :=
  ∃ φ ∈ g.operands, valueOf σ φ.tokens = .ok (.ternary a)

instance (σ : Valuation) (g : Grouping) (a : Truth) : Decidable (g.Attains σ a) :=
  inferInstanceAs (Decidable (∃ φ ∈ g.operands, _))

/-- All operands have truth values of the logic for their values. -/
def Ternary (σ : Valuation) (g : Grouping) : Prop :=
  ∀ φ ∈ g.operands, ∃ a, valueOf σ φ.tokens = .ok (.ternary a)

variable {s : Selector} {σ : Valuation} {g h : Grouping} {a : Truth}

theorem attains_pair_iff : (pair g h).Attains σ a ↔ g.Attains σ a ∨ h.Attains σ a := by
  simp only [Attains, operands, List.mem_append, or_and_right, exists_or]

/-- **At the end, the value that prevails among all operands is left.** -/
theorem exists_prevails (hg : g.Ternary σ) :
    ∃ a, (g.formula s).value? σ = some (.ternary a) ∧ s.Prevails (g.Attains σ) a := by
  induction g with
  | operand φ =>
    obtain ⟨a, ha⟩ := hg φ List.mem_cons_self
    refine ⟨a, (valueOf_tokens_eq_ok_iff.mp ha).2, ⟨φ, List.mem_cons_self, ha⟩, ?_⟩
    rintro b ⟨ψ, hψ, hb⟩
    -- there is no other operand, so there is no other value
    rw [List.mem_singleton.mp hψ, ha] at hb
    cases hb
    exact Nat.le_refl _
  | pair g h ihg ihh =>
    obtain ⟨hleft, hright⟩ := List.forall_mem_append.mp hg
    obtain ⟨a, ha, hprevails⟩ := ihg hleft
    obtain ⟨b, hb, hprevails'⟩ := ihh hright
    refine ⟨s.pick a b, Selector.value?_op ha hb, ?_⟩
    have hpick := hprevails.pick hprevails'
    exact ⟨attains_pair_iff.mpr hpick.holds, fun hc => hpick.rank_le (attains_pair_iff.mp hc)⟩

/-- The value of a grouping is the value that is found first. -/
theorem exists_valueOf_eq (hdepth : (g.formula s).depth ≤ maxNesting) (hg : g.Ternary σ) :
    ∃ a, valueOf σ (g.formula s).tokens = .ok (.ternary a) ∧
      s.precedence.find? (fun b => g.Attains σ b) = some a := by
  obtain ⟨a, ha, hprevails⟩ := exists_prevails hg
  exact ⟨a, valueOf_tokens_eq_ok_iff.mpr ⟨hdepth, ha⟩, hprevails.find?_eq⟩

/-- Groupings of operands with the same values have the same value. -/
theorem valueOf_eq_of_attains_iff (hgdepth : (g.formula s).depth ≤ maxNesting)
    (hhdepth : (h.formula s).depth ≤ maxNesting) (hg : g.Ternary σ) (hh : h.Ternary σ)
    (hiff : ∀ a, g.Attains σ a ↔ h.Attains σ a) :
    valueOf σ (g.formula s).tokens = valueOf σ (h.formula s).tokens := by
  obtain ⟨a, ha, hfind⟩ := exists_valueOf_eq hgdepth hg
  obtain ⟨b, hb, hfind'⟩ := exists_valueOf_eq hhdepth hh
  simp only [hiff, hfind', Option.some.injEq] at hfind
  rw [ha, hb, hfind]

end Grouping

/-- **It does not matter how operands are grouped.** Let operands with truth values of the logic be
grouped into pairs, with one of the operators `||`, `oplus`, `meet` and `join` in front of each
pair, so that at most 1024 operators are nested in all. Then the whole has a value. It is the first
among the values of the operands, where `||` looks for `E`, `R` and `G` in turn, `oplus` for `R`,
`E` and `G`, `meet` for `G`, `E` and `R`, and `join` for `G`, `R` and `E`.

Hence two groupings have the same value if the same values are found among their operands, and in
particular if they have the same operands, in whatever order, groups and numbers. -/
theorem grouping_immaterial (s : Selector) (σ : Valuation) :
    (∀ g : Grouping, (g.formula s).depth ≤ 1024 → g.Ternary σ →
      ∃ a, valueOf σ (g.formula s).tokens = .ok (.ternary a) ∧
        s.precedence.find? (fun b => g.Attains σ b) = some a) ∧
    (∀ g h : Grouping, (g.formula s).depth ≤ 1024 → (h.formula s).depth ≤ 1024 →
      g.Ternary σ → h.Ternary σ → (∀ a, g.Attains σ a ↔ h.Attains σ a) →
      valueOf σ (g.formula s).tokens = valueOf σ (h.formula s).tokens) ∧
    ∀ g h : Grouping, (g.formula s).depth ≤ 1024 → (h.formula s).depth ≤ 1024 →
      g.Ternary σ → (∀ φ, φ ∈ g.operands ↔ φ ∈ h.operands) →
      valueOf σ (g.formula s).tokens = valueOf σ (h.formula s).tokens := by
  refine ⟨fun g => Grouping.exists_valueOf_eq, fun g h => Grouping.valueOf_eq_of_attains_iff,
    fun g h hgdepth hhdepth hg hiff => ?_⟩
  have hh : h.Ternary σ := fun φ hφ => hg φ ((hiff φ).mpr hφ)
  refine Grouping.valueOf_eq_of_attains_iff hgdepth hhdepth hg hh fun a => ?_
  exact exists_congr fun φ => and_congr_left fun _ => hiff φ

/-- The operands `A`, `B` and `- A` can be grouped in different ways, with some of them written
twice, and all of this has the value `E`, which is that of `- A`. -/
theorem grouping_immaterial_par :
    ∃ (σ : Valuation) (g h : Grouping), σ = .ofList [("A", .reject), ("B", .grant)] ∧
      (g.formula .par).tokens = tokensOf "|| || A B - A" ∧
      (h.formula .par).tokens = tokensOf "|| B || - A || A B" ∧ g.Ternary σ ∧
      valueOf σ (g.formula .par).tokens = .ok (.ternary .neutral) ∧
      valueOf σ (g.formula .par).tokens = valueOf σ (h.formula .par).tokens := by
  let g : Grouping :=
    .pair (.pair (.operand (.var "A")) (.operand (.var "B"))) (.operand (.unary .neg (.var "A")))
  let h : Grouping := .pair (.operand (.var "B"))
    (.pair (.operand (.unary .neg (.var "A")))
      (.pair (.operand (.var "A")) (.operand (.var "B"))))
  let σ : Valuation := .ofList [("A", .reject), ("B", .grant)]
  have hg : g.Ternary σ :=
    List.forall_mem_cons.mpr ⟨⟨.reject, rfl⟩, List.forall_mem_cons.mpr ⟨⟨.grant, rfl⟩,
      List.forall_mem_singleton.mpr ⟨.neutral, rfl⟩⟩⟩
  have hsame : ∀ φ, φ ∈ g.operands ↔ φ ∈ h.operands := by
    simp only [g, h, Grouping.operands, List.mem_append, List.mem_singleton]
    tauto
  have hfirst : Selector.par.precedence.find? (fun b => g.Attains σ b) = some .neutral := by decide
  obtain ⟨hvalue, -, hgroup⟩ := grouping_immaterial .par σ
  obtain ⟨a, ha, hfind⟩ := hvalue g (by decide) hg
  obtain rfl : .neutral = a := Option.some.inj (hfirst.symm.trans hfind)
  exact ⟨σ, g, h, rfl, by decide, by decide, hg, ha,
    hgroup g h (by decide) (by decide) hg hsame⟩

end ProcessSpaces
