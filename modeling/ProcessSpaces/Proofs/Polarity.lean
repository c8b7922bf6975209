import Mathlib.Algebra.Ring.Parity
import ProcessSpaces.Proofs.Algebra
import ProcessSpaces.Proofs.StaticKinds

/-!
# What becomes of a value when a variable goes up

Truth values are ordered by entailment, and `false` lies below `true`. Most operators go along with
this order in each of their operands, or against it (`Effect`). The others, which are `/`, `meet`,
`join`, `==` and `equiv`, can go either way.

An occurrence of a variable lies in an operand of an operator, and this one in an operand of
another, and so on (`Formula.occurrences`). If none of these operands is one with which a value can
go either way, then the direction in which the whole goes is turned round once for each operand that
reverses it. So if the number of these is even for each occurrence of the variable, the value goes
up with the variable or stays, and if it is odd for each, the value goes down or stays
(`value_monotone`). What the operators are in operands where the variable does not occur makes no
difference.

The proof follows the formula with both directions at once (`Turned.directed`), since an operand may
have to go down for the whole to go up.
-/

namespace ProcessSpaces

/-! ### The order of values -/

/-- Truth values are ordered by entailment, and `false` lies below `true`. Values of different kinds
are not related. -/
instance : LE Value where
  le v w := match v, w with
    | .ternary a, .ternary b => a ≤ b
    | .ternary _, .boolean _ => False
    | .boolean _, .ternary _ => False
    | .boolean b, .boolean c => b = true → c = true

namespace Value

theorem le_refl (v : Value) : v ≤ v := by
  cases v with
  | ternary a => exact Truth.le_refl a
  | boolean b => exact id

theorem le_antisymm {v w : Value} (h : v ≤ w) (h' : w ≤ v) : v = w := by
  cases v with
  | ternary a =>
    cases w with
    | ternary b => exact congrArg ternary (Truth.le_antisymm h h')
    | boolean c => cases h
  | boolean b =>
    cases w with
    | ternary a => cases h
    | boolean c => exact congrArg boolean (Bool.eq_iff_iff.mpr ⟨h, h'⟩)

end Value

/-! ### Effects -/

/-- What it does to the value of an operator if one of its operands goes up. -/
inductive Effect where
  /-- The value goes up or stays. -/
  | preserving
  /-- The value goes down or stays. -/
  | reversing
  /-- The value may go either way. -/
  | mixed
deriving DecidableEq, Repr

/-- With this effect, an operand that goes from `v` to `w` takes the value of the operator up. -/
def Effect.Raises : Effect → Value → Value → Prop
  | preserving, v, w => v ≤ w
  | reversing, v, w => w ≤ v
  | mixed, v, w => v = w

theorem Effect.raises_self (e : Effect) (v : Value) : e.Raises v v := by
  cases e with
  | preserving => exact Value.le_refl v
  | reversing => exact Value.le_refl v
  | mixed => rfl

/-- The effect of the operand. -/
def UnaryOp.effect : UnaryOp → Effect
  | neg => .reversing
  | cycle => .mixed
  | robust => .reversing
  | not => .reversing

/-- The effect of the left operand. -/
def BinaryOp.leftEffect : BinaryOp → Effect
  | par => .preserving
  | oplus => .preserving
  | meet => .mixed
  | join => .mixed
  | lpop => .reversing
  | entails => .preserving
  | equal => .mixed
  | and => .preserving
  | or => .preserving
  | implies => .reversing
  | equiv => .mixed

/-- The effect of the right operand. -/
def BinaryOp.rightEffect : BinaryOp → Effect
  | par => .preserving
  | oplus => .preserving
  | meet => .mixed
  | join => .mixed
  | lpop => .preserving
  | entails => .reversing
  | equal => .mixed
  | and => .preserving
  | or => .preserving
  | implies => .preserving
  | equiv => .mixed

/-- **A unary operator has the effect that is ascribed to it.** -/
theorem UnaryOp.denote_le (op : UnaryOp) {a b : op.operandKind.Carrier}
    (h : op.effect.Raises (.ofCarrier _ a) (.ofCarrier _ b)) :
    Value.ofCarrier op.resultKind (op.denote a) ≤ .ofCarrier op.resultKind (op.denote b) := by
  cases op with
  | neg => exact Truth.neg_le_neg h
  | cycle =>
    cases h
    exact Value.le_refl _
  | robust => exact Truth.isRobust_of_le h
  | not =>
    have hnot : ∀ {a b : Bool}, (b = true → a = true) → (!a) = true → (!b) = true := by decide
    exact hnot h

/-- **A binary operator has the effects that are ascribed to it.** -/
theorem BinaryOp.denote_le (op : BinaryOp) {a a' b b' : op.operandKind.Carrier}
    (h : op.leftEffect.Raises (.ofCarrier _ a) (.ofCarrier _ a'))
    (h' : op.rightEffect.Raises (.ofCarrier _ b) (.ofCarrier _ b')) :
    Value.ofCarrier op.resultKind (op.denote a b) ≤ .ofCarrier op.resultKind (op.denote a' b') := by
  cases op with
  | par => exact Truth.par_le_par h h'
  | oplus => exact Truth.oplus_le_oplus h h'
  | lpop => exact Truth.lpop_le_lpop h h'
  | entails =>
    -- the right operand goes down and the left one up, so they stay in order
    intro hle
    exact decide_eq_true (Truth.le_trans h' (Truth.le_trans (of_decide_eq_true hle) h))
  | and =>
    have hand : ∀ {a a' b b' : Bool}, (a = true → a' = true) → (b = true → b' = true) →
        (a && b) = true → (a' && b') = true := by decide
    exact hand h h'
  | or =>
    have hor : ∀ {a a' b b' : Bool}, (a = true → a' = true) → (b = true → b' = true) →
        (a || b) = true → (a' || b') = true := by decide
    exact hor h h'
  | implies =>
    have himplies : ∀ {a a' b b' : Bool}, (a' = true → a = true) → (b = true → b' = true) →
        (!a || b) = true → (!a' || b') = true := by decide
    exact himplies h h'
  | meet | join | equal | equiv =>
    -- with these, the operands do not move at all
    cases h
    cases h'
    exact Value.le_refl _

/-! ### Where a variable occurs -/

/-- A place for an operand. -/
inductive Slot where
  /-- The operand of a unary operator. -/
  | only (op : UnaryOp)
  /-- The left operand of a binary operator. -/
  | left (op : BinaryOp)
  /-- The right operand of a binary operator. -/
  | right (op : BinaryOp)
deriving DecidableEq, Repr

namespace Slot

/-- The effect of an operand in this place. -/
def effect : Slot → Effect
  | only op => op.effect
  | left op => op.leftEffect
  | right op => op.rightEffect

/-- An operand in this place goes up when the value goes down. -/
def reverses (s : Slot) : Bool := s.effect = .reversing

end Slot

/-- The occurrences of a variable. For each there is a list of the operands that it is in, the one
that holds all others first. -/
def Formula.occurrences (x : String) : Formula → List (List Slot)
  | constant _ => []
  | var y => if y = x then [[]] else []
  | unary op φ => (φ.occurrences x).map (.only op :: ·)
  | binary op φ ψ =>
    (φ.occurrences x).map (.left op :: ·) ++ (ψ.occurrences x).map (.right op :: ·)

/-- A variable occurs as often as its token does. -/
theorem Formula.length_occurrences (x : String) (φ : Formula) :
    (φ.occurrences x).length = φ.tokens.count (.var x) := by
  induction φ with
  | constant a => rfl
  | var y =>
    by_cases hyx : y = x
    · simp [occurrences, tokens, hyx]
    · simp [occurrences, tokens, hyx]
  | unary op φ ih => simp [occurrences, tokens, ih]
  | binary op φ ψ ihφ ihψ => simp [occurrences, tokens, ihφ, ihψ]

/-- None of the operands that the occurrences are in has a mixed effect. The number of those that
reverse the direction is odd for each occurrence, or it is even for each. -/
def Turned (odd : Bool) (occurrences : List (List Slot)) : Prop :=
  ∀ l ∈ occurrences, (∀ s ∈ l, s.effect ≠ .mixed) ∧ (Odd (l.countP Slot.reverses) ↔ odd = true)

/-- The relation holds between the values, from left to right or the other way round. -/
def Directed (R : Value → Value → Prop) : (odd : Bool) → Value → Value → Prop
  | false, v, w => R v w
  | true, v, w => R w v

section Directions

variable {odd : Bool} {v w : Value} {s : Slot} {occurrences : List (List Slot)}

theorem Directed.of_self {R : Value → Value → Prop} (h : R v v) (odd : Bool) :
    Directed R odd v v := by
  cases odd with
  | false => exact h
  | true => exact h

theorem UnaryOp.directed {op : UnaryOp} {a b : op.operandKind.Carrier}
    (h : Directed op.effect.Raises odd (.ofCarrier _ a) (.ofCarrier _ b)) :
    Directed (· ≤ ·) odd (.ofCarrier op.resultKind (op.denote a))
      (.ofCarrier op.resultKind (op.denote b)) := by
  cases odd with
  | false => exact op.denote_le h
  | true => exact op.denote_le h

theorem BinaryOp.directed {op : BinaryOp} {a a' b b' : op.operandKind.Carrier}
    (h : Directed op.leftEffect.Raises odd (.ofCarrier _ a) (.ofCarrier _ a'))
    (h' : Directed op.rightEffect.Raises odd (.ofCarrier _ b) (.ofCarrier _ b')) :
    Directed (· ≤ ·) odd (.ofCarrier op.resultKind (op.denote a b))
      (.ofCarrier op.resultKind (op.denote a' b')) := by
  cases odd with
  | false => exact op.denote_le h h'
  | true => exact op.denote_le h h'

/-- The occurrences in an operand are turned as those in the whole are, or the other way if the
operand reverses the order. An operand of mixed effect has none. -/
theorem Turned.of_map_cons (h : Turned odd (occurrences.map (s :: ·))) :
    s.effect = .preserving ∧ Turned odd occurrences ∨
      s.effect = .reversing ∧ Turned (!odd) occurrences ∨ occurrences = [] := by
  unfold Turned at h
  simp only [List.forall_mem_map, List.forall_mem_cons] at h
  cases hs : s.effect with
  | preserving =>
    refine Or.inl ⟨rfl, fun l hl => ⟨(h l hl).1.2, ?_⟩⟩
    have hcount : (s :: l).countP Slot.reverses = l.countP Slot.reverses :=
      List.countP_cons_of_neg (by simp [Slot.reverses, hs])
    exact hcount ▸ (h l hl).2
  | reversing =>
    refine Or.inr (Or.inl ⟨rfl, fun l hl => ⟨(h l hl).1.2, ?_⟩⟩)
    have hcount : (s :: l).countP Slot.reverses = l.countP Slot.reverses + 1 :=
      List.countP_cons_of_pos (by simp [Slot.reverses, hs])
    have hodd := (h l hl).2
    rw [hcount, Nat.odd_add_one] at hodd
    rw [Bool.not_eq_true', ← Bool.not_eq_true, ← hodd, not_not]
  | mixed =>
    refine Or.inr (Or.inr (List.eq_nil_iff_forall_not_mem.mpr fun l hl => ?_))
    exact (h l hl).1.1 hs

/-- **An operand that follows the variable takes the whole along.** Where the variable does not
occur, the operand stays as it is, and its effect makes no difference. -/
theorem Turned.raises (h : Turned odd (occurrences.map (s :: ·)))
    (hvw : ∀ {odd}, Turned odd occurrences → Directed (· ≤ ·) odd v w) :
    Directed s.effect.Raises odd v w := by
  rcases h.of_map_cons with ⟨hs, hturned⟩ | ⟨hs, hturned⟩ | rfl
  · rw [hs]
    exact hvw hturned
  · rw [hs]
    have hnot := hvw hturned
    cases odd with
    | false => exact hnot
    | true => exact hnot
  · -- there is no occurrence, so the operand goes neither up nor down
    have hup : v ≤ w := @hvw false fun _ hl => nomatch hl
    have hdown : w ≤ v := @hvw true fun _ hl => nomatch hl
    obtain rfl := Value.le_antisymm hup hdown
    exact .of_self (s.effect.raises_self v) odd

end Directions

/-! ### Two valuations -/

/-- The valuations give a variable values of which the second is at least as great as the first,
and they give all other variables the same. -/
structure RaisedAt (x : String) (σ τ : Valuation) : Prop where
  /-- The variable has values that are in order. -/
  raised : ∃ a b, σ.get? x = some a ∧ τ.get? x = some b ∧ a ≤ b
  /-- The other variables have the same values, or none. -/
  others {y : String} (hy : y ≠ x) : σ.get? y = τ.get? y

section TwoValuations

variable {x : String} {σ τ : Valuation} {φ : Formula} {v w : Value} {odd : Bool}

/-- Giving a variable a greater value raises it. -/
theorem raisedAt_insert {a b : Truth} (ha : σ.get? x = some a) (hab : a ≤ b) :
    RaisedAt x σ (σ.insert x b) where
  raised := ⟨a, b, ha, σ.get?_insert_self x b, hab⟩
  others hy := (σ.get?_insert_of_ne hy b).symm

theorem RaisedAt.sameSupport (h : RaisedAt x σ τ) (tokens : List Token) :
    SameSupport σ τ tokens := by
  intro y _
  by_cases hyx : y = x
  · obtain ⟨a, b, ha, hb, -⟩ := h.raised
    rw [hyx, ha, hb]
    exact iff_of_true rfl rfl
  · rw [h.others hyx]

/-- **A formula goes in the direction in which the occurrences of the variable take it.** -/
theorem Turned.directed (h : RaisedAt x σ τ) (hodd : Turned odd (φ.occurrences x))
    (hv : φ.value? σ = some v) (hw : φ.value? τ = some w) : Directed (· ≤ ·) odd v w := by
  induction φ generalizing odd v w with
  | constant a =>
    cases hv
    cases hw
    exact .of_self (Value.le_refl _) odd
  | var y =>
    obtain ⟨a, ha, rfl⟩ := Option.map_eq_some_iff.mp hv
    obtain ⟨b, hb, rfl⟩ := Option.map_eq_some_iff.mp hw
    by_cases hyx : y = x
    · -- the occurrence is in no operand at all, so the direction is not turned round
      obtain ⟨a', b', ha', hb', hle⟩ := h.raised
      rw [hyx, ha', Option.some.injEq] at ha
      rw [hyx, hb', Option.some.injEq] at hb
      subst ha hb
      have hnil := (hodd [] (by simp [Formula.occurrences, hyx])).2
      cases odd with
      | false => exact hle
      | true => exact absurd (hnil.mpr rfl) (by decide)
    · rw [h.others hyx, hb, Option.some.injEq] at ha
      rw [ha]
      exact .of_self (Value.le_refl _) odd
  | unary op φ ih =>
    obtain ⟨a, ha, rfl⟩ := Formula.value?_unary_eq_some_iff.mp hv
    obtain ⟨b, hb, rfl⟩ := Formula.value?_unary_eq_some_iff.mp hw
    exact UnaryOp.directed (hodd.raises fun hturned => ih hturned ha hb)
  | binary op φ ψ ihφ ihψ =>
    obtain ⟨a, b, ha, hb, rfl⟩ := Formula.value?_binary_eq_some_iff.mp hv
    obtain ⟨a', b', ha', hb', rfl⟩ := Formula.value?_binary_eq_some_iff.mp hw
    obtain ⟨hleft, hright⟩ := List.forall_mem_append.mp hodd
    have hφ := Turned.raises hleft fun hturned => ihφ hturned ha ha'
    have hψ := Turned.raises hright fun hturned => ihψ hturned hb hb'
    exact BinaryOp.directed hφ hψ

end TwoValuations

/-- **A value goes up or down with a variable, as the operands in which this occurs keep the order
or reverse it.** Let two valuations differ in the value of one variable only, which goes up from the
first to the second. Then they give a row of tokens the same error, or the row is the expression of
a formula, and they both give it a value. If no occurrence of the variable is in an operand of `/`,
`meet`, `join`, `==` or `equiv`, and each is in an even number of operands that reverse the order,
the value goes up or stays; if each is in an odd number of them, it goes down or stays. -/
theorem value_monotone {x : String} {σ τ : Valuation} (h : RaisedAt x σ τ) (tokens : List Token) :
    (∃ e, valueOf σ tokens = .error e ∧ valueOf τ tokens = .error e) ∨
    ∃ (φ : Formula) (v w : Value), tokens = φ.tokens ∧
      (φ.occurrences x).length = tokens.count (.var x) ∧
      valueOf σ tokens = .ok v ∧ valueOf τ tokens = .ok w ∧
      ((∀ l ∈ φ.occurrences x, (∀ s ∈ l, s.effect ≠ .mixed) ∧ Even (l.countP Slot.reverses)) →
        v ≤ w) ∧
      ((∀ l ∈ φ.occurrences x, (∀ s ∈ l, s.effect ≠ .mixed) ∧ Odd (l.countP Slot.reverses)) →
        w ≤ v) := by
  rcases valueOf_static (h.sameSupport tokens) with ⟨-, v, w, -, hv, hw, -⟩ | herror
  · obtain ⟨φ, rfl, hdepth, hvalue⟩ := valueOf_eq_ok_iff.mp hv
    obtain ⟨-, hvalue'⟩ := valueOf_tokens_eq_ok_iff.mp hw
    refine Or.inr ⟨φ, v, w, rfl, φ.length_occurrences x, hv, hw, fun heven => ?_, fun hodd => ?_⟩
    · have hturned : Turned false (φ.occurrences x) := fun l hl =>
        ⟨(heven l hl).1, iff_of_false (Nat.not_odd_iff_even.mpr (heven l hl).2) Bool.false_ne_true⟩
      exact hturned.directed h hvalue hvalue'
    · have hturned : Turned true (φ.occurrences x) := fun l hl =>
        ⟨(hodd l hl).1, iff_of_true (hodd l hl).2 rfl⟩
      exact hturned.directed h hvalue hvalue'
  · exact Or.inl herror

/-- In `[= oplus A B lpop A B` the variable `A` occurs twice, in no operand that reverses the order
and in two of them. The expression is false where `A` has the value `E`, and true where it has the
value `R`. -/
theorem value_monotone_entails :
    ∃ (σ τ : Valuation) (φ : Formula) (v w : Value), RaisedAt "A" σ τ ∧
      σ.get? "A" = some .neutral ∧ τ.get? "A" = some .reject ∧
      φ.tokens = tokensOf "[= oplus A B lpop A B" ∧
      (φ.occurrences "A").map (List.countP Slot.reverses) = [0, 2] ∧
      valueOf σ φ.tokens = .ok v ∧ valueOf τ φ.tokens = .ok w ∧
      v = .boolean false ∧ w = .boolean true ∧ v ≤ w := by
  let σ : Valuation := .ofList [("A", .neutral), ("B", .grant)]
  let φ : Formula :=
    .binary .entails (.binary .oplus (.var "A") (.var "B")) (.binary .lpop (.var "A") (.var "B"))
  have hA : σ.get? "A" = some .neutral := rfl
  have hraised : RaisedAt "A" σ (σ.insert "A" .reject) := raisedAt_insert hA (by decide)
  rcases value_monotone hraised φ.tokens with ⟨e, he, -⟩ | ⟨ψ, v, w, hψ, -, hv, hw, hup, -⟩
  · cases he
  · obtain rfl := Formula.eq_of_tokens_eq hψ
    cases hv
    cases hw
    exact ⟨σ, _, φ, _, _, hraised, hA, rfl, by decide, by decide, rfl, rfl, rfl, rfl,
      hup (by decide)⟩

end ProcessSpaces
