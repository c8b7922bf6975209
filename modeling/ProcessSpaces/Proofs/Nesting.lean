import Mathlib.Data.List.Basic
import Mathlib.Logic.Function.Iterate
import ProcessSpaces.Proofs.UniqueReading

/-!
# How much room an expression needs

The room that a reading is given is the only thing about it that comes from outside: it bounds how
deep operators may be nested, and it has no part in the value. More room never hurts: what can be
read at all is read alike wherever there is more of it (`readExpression_of_le`). And too little
room is the only obstacle for an expression that makes sense.

How much room is enough is a matter of the single tokens. Each token of a formula stands inside some
operators (`Formula.ancestors`), and the number of these is its level (`Formula.levels`). A reading
comes to a token with as much room as is left by the operators around it, so it gets past all tokens
whose level is below the room, and stops at the first one whose level is not. No level is skipped on
the way down, so this is the first token whose level equals the room
(`readExpression_tokens_of_le_depth`). It makes no difference how much has been read before, or
whether the operators are nested to the left or to the right (`nesting_limit_exact`).

So when one formula is put in the place of another, and the values are known to agree, what remains
to be watched is the depth. `valueOf_tokens` is the form in which this is used.
-/

namespace ProcessSpaces

variable {σ : Valuation} {φ ψ : Formula} {v : Value} {room : Nat}

/-! ### The operators around a token -/

namespace Formula

/-- For each token of the expression, in their order, the operators that it stands inside, the
outermost first. -/
def ancestors : Formula → List (List Token)
  | constant _ => [[]]
  | var _ => [[]]
  | unary op φ => [] :: φ.ancestors.map (.unary op :: ·)
  | binary op φ ψ => [] :: (φ.ancestors ++ ψ.ancestors).map (.binary op :: ·)

/-- For each token of the expression, in their order, the number of operators that it stands
inside. -/
def levels (φ : Formula) : List Nat := φ.ancestors.map List.length

theorem length_ancestors (φ : Formula) : φ.ancestors.length = φ.tokens.length := by
  induction φ with
  | constant a => rfl
  | var name => rfl
  | unary op φ ih => simp [ancestors, tokens, ih]
  | binary op φ ψ ihφ ihψ => simp [ancestors, tokens, ihφ, ihψ]

theorem length_levels (φ : Formula) : φ.levels.length = φ.tokens.length := by
  rw [levels, List.length_map, length_ancestors]

/-- One more operator around all tokens raises every level by one. -/
theorem map_length_map_cons (t : Token) (ls : List (List Token)) :
    (ls.map (t :: ·)).map List.length = (ls.map List.length).map (· + 1) := by
  rw [List.map_map, List.map_map]
  rfl

theorem levels_unary (op : UnaryOp) (φ : Formula) :
    (unary op φ).levels = 0 :: φ.levels.map (· + 1) := by
  rw [levels, ancestors, List.map_cons, map_length_map_cons]
  rfl

theorem levels_binary (op : BinaryOp) (φ ψ : Formula) :
    (binary op φ ψ).levels = 0 :: (φ.levels ++ ψ.levels).map (· + 1) := by
  rw [levels, ancestors, List.map_cons, map_length_map_cons, List.map_append]
  rfl

/-- The level of a token is the number of operators around it. -/
theorem getElem?_levels_eq_some_iff {i n : Nat} :
    φ.levels[i]? = some n ↔ ∃ l, φ.ancestors[i]? = some l ∧ l.length = n := by
  rw [levels, List.getElem?_map, Option.map_eq_some_iff]

/-- **No level is skipped**: the levels of the tokens are all numbers up to the depth. -/
theorem mem_levels_iff {n : Nat} : n ∈ φ.levels ↔ n ≤ φ.depth := by
  induction φ generalizing n with
  | constant a => simp [levels, ancestors, depth]
  | var name => simp [levels, ancestors, depth]
  | unary op φ ih =>
    rw [levels_unary, depth]
    cases n with
    | zero => simp
    | succ n => simp [ih]
  | binary op φ ψ ihφ ihψ =>
    rw [levels_binary, depth]
    cases n with
    | zero => simp
    | succ n => simp [ihφ, ihψ]

/-- A formula is as deep as the greatest number of operators around one of its tokens. -/
theorem forall_length_ancestors_le_iff {n : Nat} :
    (∀ l ∈ φ.ancestors, l.length ≤ n) ↔ φ.depth ≤ n := by
  have hlevels : (∀ m ∈ φ.levels, m ≤ n) ↔ ∀ l ∈ φ.ancestors, l.length ≤ n := List.forall_mem_map
  rw [← hlevels]
  constructor
  · intro h
    exact h _ (mem_levels_iff.mpr (Nat.le_refl _))
  · intro h m hm
    exact Nat.le_trans (mem_levels_iff.mp hm) h

end Formula

/-! ### Enough room, and too little -/

/-- **What can be read is read alike in more room.** -/
theorem readExpression_of_le {position room' : Nat} {tokens : List Token} {r : Reading}
    (h : readExpression σ room position tokens = .ok r) (hle : room ≤ room') :
    readExpression σ room' position tokens = .ok r := by
  obtain ⟨φ, htokens, hnext, hdepth, hvalue⟩ := readExpression_eq_ok_iff.mp h
  have hdepth' : φ.depth < room' := Nat.lt_of_lt_of_le hdepth hle
  exact readExpression_eq_ok_iff.mpr ⟨φ, htokens, hnext, hdepth', hvalue⟩

/-- A number is found among successors where the number before it is found. -/
theorem idxOf_map_succ (l : List Nat) (n : Nat) : (l.map (· + 1)).idxOf (n + 1) = l.idxOf n := by
  induction l with
  | nil => rfl
  | cons m l ih =>
    by_cases h : m = n
    · rw [h, List.map_cons, List.idxOf_cons_self, List.idxOf_cons_self]
    · have h' : m + 1 ≠ n + 1 := fun e => h (Nat.succ.inj e)
      rw [List.map_cons, List.idxOf_cons_ne _ h', List.idxOf_cons_ne _ h, ih]

/-- A number is found at the first of the places where it is. -/
theorem idxOf_le_of_getElem? {l : List Nat} {i n : Nat} (h : l[i]? = some n) : l.idxOf n ≤ i := by
  obtain ⟨hi, rfl⟩ := List.getElem?_eq_some_iff.mp h
  refine Nat.le_of_not_lt fun hlt => ?_
  have hne := List.not_of_lt_findIdx hlt
  simp at hne

/-- **The expression of a formula that has a value is refused where it first runs out of room**, and
for nothing else: the error is at the first token with as many operators around it as there is
room for. -/
theorem readExpression_tokens_of_le_depth (hv : φ.value? σ = some v) (h : room ≤ φ.depth)
    (position : Nat) (rest : List Token) :
    readExpression σ room position (φ.tokens ++ rest) =
      .error (.nestedTooDeep (position + φ.levels.idxOf room)) := by
  induction φ generalizing v room position rest with
  | constant a =>
    obtain rfl : room = 0 := Nat.le_zero.mp h
    rfl
  | var name =>
    obtain rfl : room = 0 := Nat.le_zero.mp h
    rfl
  | unary op φ ih =>
    rw [Formula.levels_unary]
    cases room with
    | zero => rw [List.idxOf_cons_self]; rfl
    | succ room =>
      obtain ⟨a, ha, -⟩ := Formula.value?_unary_eq_some_iff.mp hv
      have hφ := ih ha (Nat.le_of_succ_le_succ h) (position + 1) rest
      rw [Formula.tokens, List.cons_append, readExpression, hφ, error_bind,
        List.idxOf_cons_ne _ (Nat.succ_ne_zero room).symm, idxOf_map_succ, Nat.add_assoc,
        Nat.add_comm 1]
  | binary op φ ψ ihφ ihψ =>
    rw [Formula.levels_binary]
    cases room with
    | zero => rw [List.idxOf_cons_self]; rfl
    | succ room =>
      obtain ⟨a, b, ha, hb, -⟩ := Formula.value?_binary_eq_some_iff.mp hv
      have hdepth : room ≤ max φ.depth ψ.depth := Nat.le_of_succ_le_succ h
      rw [Formula.tokens, List.cons_append, List.append_assoc, readExpression,
        List.idxOf_cons_ne _ (Nat.succ_ne_zero room).symm, idxOf_map_succ]
      rcases Nat.lt_or_ge φ.depth room with hφ | hφ
      · -- there is room for the left operand, so none of its tokens is the one
        have hψ : room ≤ ψ.depth := by omega
        have hnot : room ∉ φ.levels := fun hmem =>
          Nat.not_le_of_lt hφ (Formula.mem_levels_iff.mp hmem)
        have hleft := readExpression_tokens_append ha hφ (position + 1) (ψ.tokens ++ rest)
        have hright := ihψ hb hψ (position + 1 + φ.tokens.length) rest
        rw [hleft, ok_bind, hright, error_bind, List.idxOf_append_of_notMem hnot,
          Formula.length_levels]
        congr 2
        omega
      · have hleft := ihφ ha hφ (position + 1) (ψ.tokens ++ rest)
        rw [hleft, error_bind, List.idxOf_append_of_mem (Formula.mem_levels_iff.mpr hφ)]
        congr 2
        omega

/-! ### The value of a row of tokens -/

/-- The expression of a formula that has a value has this value, unless the formula is too deep; and
then it is refused at the first token inside one operator more than the limit. -/
theorem valueOf_tokens_eq (hv : φ.value? σ = some v) :
    valueOf σ φ.tokens =
      if φ.depth ≤ maxNesting then .ok v
      else .error (.nestedTooDeep (φ.levels.idxOf (maxNesting + 1))) := by
  split
  · next hdepth => exact valueOf_eq_ok_iff.mpr ⟨φ, rfl, hdepth, hv⟩
  · next hdepth =>
    have hread := readExpression_tokens_of_le_depth hv (Nat.lt_of_not_le hdepth) 0 []
    rw [List.append_nil, Nat.zero_add] at hread
    rw [valueOf, hread, error_bind]

/-- The expression of a formula that has a value has this value, unless the formula is too deep;
and then this is the error. -/
theorem valueOf_tokens (hv : φ.value? σ = some v) :
    (φ.depth ≤ maxNesting ∧ valueOf σ φ.tokens = .ok v) ∨
      (maxNesting < φ.depth ∧ ∃ q, valueOf σ φ.tokens = .error (.nestedTooDeep q)) := by
  rw [valueOf_tokens_eq hv]
  by_cases hdepth : φ.depth ≤ maxNesting
  · rw [if_pos hdepth]
    exact Or.inl ⟨hdepth, rfl⟩
  · rw [if_neg hdepth]
    exact Or.inr ⟨Nat.lt_of_not_le hdepth, _, rfl⟩

/-- **The limit on nesting is exact for every shape of expression.** The expression of a well-kinded
formula whose variables have values has a value exactly if no token of it stands inside more than
1024 operators. Otherwise it is refused for its nesting, at the first token that stands inside 1025
operators. -/
theorem nesting_limit_exact (hφ : φ.WellKinded)
    (hσ : ∀ x, .var x ∈ φ.tokens → (σ.get? x).isSome) :
    φ.ancestors.length = φ.tokens.length ∧
    ((∃ v, valueOf σ φ.tokens = .ok v) ↔ ∀ l ∈ φ.ancestors, l.length ≤ 1024) ∧
    ((¬∀ l ∈ φ.ancestors, l.length ≤ 1024) →
      ∃ q, valueOf σ φ.tokens = .error (.nestedTooDeep q) ∧
        (∃ l, φ.ancestors[q]? = some l ∧ l.length = 1025) ∧
        ∀ i l, φ.ancestors[i]? = some l → l.length = 1025 → q ≤ i) := by
  obtain ⟨v, hv, -⟩ := Formula.exists_value?_eq_some hφ hσ
  rw [valueOf_tokens_eq hv, Formula.forall_length_ancestors_le_iff]
  refine ⟨φ.length_ancestors, ?_, fun hdepth => ?_⟩
  · by_cases hdepth : φ.depth ≤ maxNesting
    · rw [if_pos hdepth]
      exact iff_of_true ⟨v, rfl⟩ hdepth
    · rw [if_neg hdepth]
      refine iff_of_false ?_ hdepth
      rintro ⟨w, hw⟩
      cases hw
  · have hmem : maxNesting + 1 ∈ φ.levels := Formula.mem_levels_iff.mpr (Nat.lt_of_not_le hdepth)
    refine ⟨_, if_neg hdepth, ?_, fun i l hi hl => ?_⟩
    · exact Formula.getElem?_levels_eq_some_iff.mp (List.getElem?_idxOf hmem)
    · exact idxOf_le_of_getElem? (Formula.getElem?_levels_eq_some_iff.mpr ⟨l, hi, hl⟩)

/-- Negations in front of a variable are nested in one another. -/
theorem Formula.iterate_neg (n : Nat) (x : String) :
    ((unary .neg)^[n] (var x)).WellKinded ∧ ((unary .neg)^[n] (var x)).kind = .ternary ∧
      ((unary .neg)^[n] (var x)).depth = n ∧
      ∀ y, .var y ∈ ((unary .neg)^[n] (var x)).tokens → y = x := by
  induction n with
  | zero => exact ⟨trivial, rfl, rfl, fun y hy => by simpa [tokens] using hy⟩
  | succ n ih =>
    obtain ⟨hkinded, hkind, hdepth, hvar⟩ := ih
    rw [Function.iterate_succ_apply']
    exact ⟨⟨hkinded, hkind⟩, rfl, by rw [depth, hdepth], forall_var_unary_iff.mpr hvar⟩

/-- A right operand with 1024 negations is too deep by one, and the error is at a token that stands
inside 1025 operators. -/
theorem nesting_limit_exact_par :
    ∃ φ σ, φ = Formula.binary .par (.constant .grant) ((Formula.unary .neg)^[1024] (.var "A")) ∧
      σ = Valuation.ofList [("A", .grant)] ∧ φ.WellKinded ∧
      (∀ x, .var x ∈ φ.tokens → (σ.get? x).isSome) ∧
      ∃ q l, valueOf σ φ.tokens = .error (.nestedTooDeep q) ∧ φ.ancestors[q]? = some l ∧
        l.length = 1025 := by
  obtain ⟨χ, hχ, hkinded, hkind, hdepth, hvar⟩ : ∃ χ : Formula,
    χ = (Formula.unary .neg)^[1024] (.var "A") ∧ χ.WellKinded ∧ χ.kind = .ternary ∧
      χ.depth = 1024 ∧ ∀ y, .var y ∈ χ.tokens → y = "A" := ⟨_, rfl, Formula.iterate_neg 1024 "A"⟩
  have hφ : (Formula.binary .par (.constant .grant) χ).WellKinded := ⟨trivial, hkinded, rfl, hkind⟩
  have hσ : ∀ x, .var x ∈ (Formula.binary .par (.constant .grant) χ).tokens →
      ((Valuation.ofList [("A", .grant)]).get? x).isSome := by
    refine Formula.forall_var_binary_iff.mpr ⟨fun x hx => ?_, fun x hx => ?_⟩
    · simp [Formula.tokens] at hx
    · rw [hvar x hx]
      rfl
  obtain ⟨-, -, hdeep⟩ := nesting_limit_exact hφ hσ
  have hnot : ¬∀ l ∈ (Formula.binary .par (.constant .grant) χ).ancestors, l.length ≤ 1024 := by
    rw [Formula.forall_length_ancestors_le_iff, Formula.depth, hdepth]
    decide
  obtain ⟨q, hq, ⟨l, hl, hlength⟩, -⟩ := hdeep hnot
  exact ⟨_, _, congrArg (Formula.binary .par (.constant .grant)) hχ, rfl, hφ, hσ, q, l, hq, hl,
    hlength⟩

end ProcessSpaces
