import ProcessSpaces.Proofs.StaticKinds
import ProcessSpaces.Proofs.Words
import ProcessSpaces.Report

/-!
# The judgement on an expression

An expression is *valid* if it is true under every valuation that gives values to its variables
(`Valid`). There is no end of such valuations, since they may bind other names as well; the
judgement is passed on the rows of a table, of which there are finitely many. It is right
nevertheless: each valuation agrees with exactly one row on the variables, and has the same value
as this row.

So a table is valid if and only if its expression is, and its counterexamples are all there are
(`TruthTable.IsTableOf.isValid_iff`, `TruthTable.IsTableOf.exists_unique_counterexample`). What is
printed about an expression that is only to be checked says the same (`judgement_correct`). A
table is never empty, so that no expression is valid for want of rows; and an expression of truth
values of the logic is never valid, whatever these are.
-/

namespace ProcessSpaces

/-! ### Validity and its refutation -/

/-- The expression is true under every valuation of its variables. -/
def Valid (tokens : List Token) : Prop :=
  ∀ σ : Valuation, σ.Binds tokens → valueOf σ tokens = .ok (.boolean true)

/-- The row shows that the expression is not valid: its valuation binds the variables, and it has
the value of the expression under this valuation, which is not that it is true. -/
structure Row.Refutes (tokens : List Token) (r : Row) : Prop where
  /-- The variables are bound. -/
  binds : r.valuation.Binds tokens
  /-- The value is the one under the valuation of the row. -/
  valueOf_eq : valueOf r.valuation tokens = .ok r.value
  /-- The value is not that the expression is true. -/
  value_ne : r.value ≠ .boolean true

theorem Row.Refutes.not_valid {tokens : List Token} {r : Row} (hr : r.Refutes tokens) :
    ¬Valid tokens := by
  intro h
  have hvalue := h r.valuation hr.binds
  rw [hr.valueOf_eq, Except.ok.injEq] at hvalue
  exact hr.value_ne hvalue

/-- An expression that has a truth value of the logic for its value is not valid: all its values
are of this kind, and there are valuations of its variables. -/
theorem not_valid_of_kind_eq_ternary {tokens : List Token} {σ : Valuation} {v : Value}
    (hv : valueOf σ tokens = .ok v) (hkind : v.kind = .ternary) : ¬Valid tokens := by
  intro h
  have htrue := h (.nth (variablesOf tokens) 0) (Valuation.binds_nth tokens 0)
  obtain ⟨t, ht, hvt⟩ := kind_of_valueOf hv
  obtain ⟨t', ht', htruet⟩ := kind_of_valueOf htrue
  rw [ht, Option.some.injEq] at ht'
  rw [← ht', ← hvt, hkind] at htruet
  cases htruet

namespace TruthTable

variable {t : TruthTable} {r : Row}

theorem mem_counterexamples_iff :
    r ∈ t.counterexamples ↔ r ∈ t.rows ∧ r.value ≠ .boolean true := by
  rw [counterexamples, List.mem_filter, Bool.not_eq_true', ← Bool.not_eq_true, Row.holds_iff]

/-- There is a counterexample exactly if the table is not valid. -/
theorem counterexamples_ne_nil_iff : t.counterexamples ≠ [] ↔ ¬t.isValid = true := by
  rw [Ne, counterexamples, List.filter_eq_nil_iff, isValid, List.all_eq_true]
  simp

end TruthTable

/-! ### The rows of a table and the valuations at large -/

namespace TruthTable.IsTableOf

variable {t : TruthTable} {e : String} {σ : Valuation} {r : Row}

/-- The rows of a table bind the variables. -/
theorem binds_of_mem (h : t.IsTableOf e) (hr : r ∈ t.rows) :
    r.valuation.Binds (tokensOf e) := by
  obtain ⟨i, hi⟩ := List.mem_iff_getElem?.mp hr
  rw [(h.isAt i r hi).1, h.names_eq]
  exact Valuation.binds_nth (tokensOf e) i

/-- A valuation that binds the variables gives each name in the table some value. -/
theorem exists_values (h : t.IsTableOf e) (hσ : σ.Binds (tokensOf e)) :
    ∃ f : String → Truth, ∀ x ∈ t.names, σ.get? x = some (f x) := by
  refine ⟨fun x => (σ.get? x).getD .neutral, fun x hx => ?_⟩
  obtain ⟨a, ha⟩ := Option.isSome_iff_exists.mp (hσ x ((h.listsVariables.mem_iff x).mp hx))
  simp only [ha, Option.getD_some]

/-- **Each valuation of the variables agrees with exactly one row.** -/
theorem exists_unique_agreeOn (h : t.IsTableOf e) (hσ : σ.Binds (tokensOf e)) :
    ∃! r, r ∈ t.rows ∧ r.valuation.AgreeOn t.names σ := by
  obtain ⟨f, hf⟩ := h.exists_values hσ
  obtain ⟨r, hr⟩ := h.exists_row f
  refine ⟨r, ⟨List.mem_of_getElem? hr, (h.agreeOn_iff hr hf).mpr rfl⟩, ?_⟩
  rintro r' ⟨hmem, hagree⟩
  obtain ⟨i, hi⟩ := List.mem_iff_getElem?.mp hmem
  rw [(h.agreeOn_iff hi hf).mp hagree, hr, Option.some.injEq] at hi
  exact hi.symm

/-- The valuations of the rows are all those of the names, in their order. -/
theorem map_valuation_rows (h : t.IsTableOf e) :
    t.rows.map Row.valuation =
      (List.range (Valuation.number t.names.length)).map (Valuation.nth t.names) := by
  refine List.ext_getElem ?_ fun i hi hi' => ?_
  · rw [List.length_map, List.length_map, List.length_range, h.length_rows]
  · rw [List.length_map] at hi
    rw [List.getElem_map, List.getElem_map, List.getElem_range]
    exact (h.isAt i t.rows[i] (List.getElem?_eq_getElem hi)).1

/-- No two rows have the same valuation. -/
theorem nodup_map_valuation (h : t.IsTableOf e) : (t.rows.map Row.valuation).Nodup := by
  rw [List.nodup_iff_injective_getElem]
  rintro ⟨i, hi⟩ ⟨j, hj⟩ hij
  rw [List.length_map] at hi hj
  simp only [List.getElem_map] at hij
  have hri : t.rows[i]? = some t.rows[i] := List.getElem?_eq_getElem hi
  have hrj : t.rows[j]? = some t.rows[j] := List.getElem?_eq_getElem hj
  -- both numbers are the place of the values that the one valuation gives
  obtain ⟨f, hf⟩ := h.exists_values (h.binds_of_mem (List.mem_of_getElem? hri))
  have hplace : i = Valuation.place f t.names := (h.agreeOn_iff hri hf).mp fun _ _ => rfl
  have hplace' : j = Valuation.place f t.names :=
    (h.agreeOn_iff hrj hf).mp fun _ _ => by rw [hij]
  exact Fin.ext (hplace.trans hplace'.symm)

/-! ### The judgement -/

/-- **Every counterexample refutes the expression.** -/
theorem refutes_of_mem_counterexamples (h : t.IsTableOf e) (hr : r ∈ t.counterexamples) :
    r.Refutes (tokensOf e) := by
  obtain ⟨hmem, hvalue⟩ := mem_counterexamples_iff.mp hr
  exact ⟨h.binds_of_mem hmem, h.valueOf_of_mem hmem, hvalue⟩

/-- **A table is valid if and only if its expression is.** -/
theorem isValid_iff (h : t.IsTableOf e) : t.isValid = true ↔ Valid (tokensOf e) := by
  constructor
  · intro hrows σ hσ
    rw [isValid, List.all_eq_true] at hrows
    obtain ⟨r, ⟨hr, hagree⟩, -⟩ := h.exists_unique_agreeOn hσ
    obtain ⟨i, hi⟩ := List.mem_iff_getElem?.mp hr
    rw [h.valueOf_eq_ok hi hagree, Row.holds_iff.mp (hrows r hr)]
  · intro hvalid
    by_contra hnot
    obtain ⟨r, hr⟩ := List.exists_mem_of_ne_nil _ (counterexamples_ne_nil_iff.mpr hnot)
    exact (h.refutes_of_mem_counterexamples hr).not_valid hvalid

/-- **Each valuation under which the expression is not true agrees with exactly one
counterexample.** -/
theorem exists_unique_counterexample (h : t.IsTableOf e) (hσ : σ.Binds (tokensOf e))
    (hvalue : valueOf σ (tokensOf e) ≠ .ok (.boolean true)) :
    ∃! r, r ∈ t.counterexamples ∧ r.valuation.AgreeOn t.names σ := by
  obtain ⟨r, ⟨hr, hagree⟩, hunique⟩ := h.exists_unique_agreeOn hσ
  obtain ⟨i, hi⟩ := List.mem_iff_getElem?.mp hr
  rw [h.valueOf_eq_ok hi hagree, Ne, Except.ok.injEq] at hvalue
  refine ⟨r, ⟨mem_counterexamples_iff.mpr ⟨hr, hvalue⟩, hagree⟩, ?_⟩
  rintro r' ⟨hr', hagree'⟩
  exact hunique r' ⟨(mem_counterexamples_iff.mp hr').1, hagree'⟩

end TruthTable.IsTableOf

/-! ### What is printed -/

/-- What is printed about an expression that does not hold is not what is printed about one that
does. -/
theorem does_not_hold_ne_holds (s l : String) (m : Nat) :
    s!"{s}: does not hold\n" ++ l ≠ s!"{s}: holds in all {m} rows\n" := by
  intro h
  have hlist := congrArg String.toList h
  simp [toString] at hlist

namespace TruthTable.IsTableOf

variable {t : TruthTable} {e : String}

/-- The table of an expression is also that of the expression without the blanks around it, but
for the text that it keeps. -/
theorem trim (h : t.IsTableOf e) :
    { t with expression := Text.trim e }.IsTableOf (Text.trim e) where
  expression_eq := rfl
  names_eq := by
    rw [tokensOf_trim]
    exact h.names_eq
  length_names_le := h.length_names_le
  length_rows := h.length_rows
  isAt i r hr := by
    rw [tokensOf_trim]
    exact h.isAt i r hr

/-- There is more than blanks to an expression that has a table. -/
theorem isEmpty_trim (h : t.IsTableOf e) : (Text.trim e).isEmpty = false := by
  obtain ⟨r, hr⟩ := h.exists_row fun _ => .neutral
  obtain ⟨k, hk, -⟩ := h.kind_eq (List.mem_of_getElem? hr)
  rw [← Bool.not_eq_true, String.isEmpty_iff]
  intro hempty
  rw [← tokensOf_trim, hempty, tokensOf_empty] at hk
  cases hk

/-- An expression that has a table and is to be checked is answered with the judgement on it. -/
theorem result_answer_check (h : t.IsTableOf e) :
    (answer true e).result = .ok { t with expression := Text.trim e }.judge := by
  have htable := tabulate_eq_ok_iff.mpr h.trim
  simp only [answer, h.isEmpty_trim, Bool.false_eq_true, if_false, if_true, Logged.map, htable]
  rfl

theorem result_answer_check_of_isValid (h : t.IsTableOf e) (hvalid : t.isValid = true) :
    (answer true e).result =
      .ok s!"{Text.trim e}: holds in all {3 ^ t.names.length} rows\n" := by
  have htrimmed : { t with expression := Text.trim e }.isValid = true := hvalid
  rw [h.result_answer_check, judge, if_pos htrimmed, h.length_rows, Valuation.number_eq_pow]

theorem result_answer_check_of_not_isValid (h : t.IsTableOf e) (hvalid : ¬t.isValid = true) :
    (answer true e).result = .ok (s!"{Text.trim e}: does not hold\n" ++
      String.join (t.counterexamples.map fun r => s!"  {r.text}\n")) := by
  have htrimmed : ¬{ t with expression := Text.trim e }.isValid = true := hvalid
  rw [h.result_answer_check, judge, if_neg htrimmed]
  rfl

end TruthTable.IsTableOf

/-- **The judgement is sound and complete.** If an expression has a table, then the table is valid
if and only if the expression is true under all valuations of its variables. The valuations of the
counterexamples are among those of the variables, in their order and without repetition. All of
them refute the expression, and each valuation under which it is not true agrees with exactly one.

Accordingly, that the expression holds in all rows is printed if and only if it is valid, which it
never is if it has truth values of the logic. Otherwise the counterexamples are printed, and there
is at least one. -/
theorem judgement_correct {e : String} {t : TruthTable} (h : (tabulate e).result = .ok t) :
    (t.isValid = true ↔ Valid (tokensOf e)) ∧
    ((t.counterexamples.map Row.valuation).Sublist
        ((List.range (3 ^ (variablesOf (tokensOf e)).length)).map
          (Valuation.nth (variablesOf (tokensOf e)))) ∧
      (t.counterexamples.map Row.valuation).Nodup ∧
      (∀ r ∈ t.counterexamples, r.Refutes (tokensOf e)) ∧
      ∀ σ : Valuation, σ.Binds (tokensOf e) → valueOf σ (tokensOf e) ≠ .ok (.boolean true) →
        ∃! r, r ∈ t.counterexamples ∧ r.valuation.AgreeOn (variablesOf (tokensOf e)) σ) ∧
    ((answer true e).result =
        .ok s!"{Text.trim e}: holds in all {3 ^ (variablesOf (tokensOf e)).length} rows\n" ↔
      Valid (tokensOf e)) ∧
    (∀ (σ : Valuation) (v : Value), valueOf σ (tokensOf e) = .ok v → v.kind = .ternary →
      ¬Valid (tokensOf e)) ∧
    (¬Valid (tokensOf e) →
      t.counterexamples ≠ [] ∧
        (answer true e).result = .ok (s!"{Text.trim e}: does not hold\n" ++
          String.join (t.counterexamples.map fun r => s!"  {r.text}\n"))) := by
  have ht : t.IsTableOf e := tabulate_eq_ok_iff.mp h
  rw [← ht.names_eq]
  have hsublist : (t.counterexamples.map Row.valuation).Sublist (t.rows.map Row.valuation) :=
    List.filter_sublist.map _
  refine ⟨ht.isValid_iff, ⟨?_, hsublist.nodup ht.nodup_map_valuation,
    fun r => ht.refutes_of_mem_counterexamples, fun σ => ht.exists_unique_counterexample⟩,
    ⟨fun hprinted => ?_, fun hvalid => ?_⟩, fun σ v => not_valid_of_kind_eq_ternary, fun hnot => ?_⟩
  · rw [ht.map_valuation_rows] at hsublist
    exact hsublist
  · by_contra hnot
    rw [ht.result_answer_check_of_not_isValid (mt ht.isValid_iff.mp hnot),
      Except.ok.injEq] at hprinted
    exact does_not_hold_ne_holds _ _ _ hprinted
  · exact ht.result_answer_check_of_isValid (ht.isValid_iff.mpr hvalid)
  · have hvalid : ¬t.isValid = true := mt ht.isValid_iff.mp hnot
    exact ⟨TruthTable.counterexamples_ne_nil_iff.mpr hvalid,
      ht.result_answer_check_of_not_isValid hvalid⟩

/-- The table of `robust A` is not valid, and a valuation that refuses `A` and gives a value to
another name agrees with exactly one of its counterexamples. -/
theorem judgement_correct_robust :
    ∃ t, (tabulate " robust A").result = .ok t ∧ ¬Valid (tokensOf " robust A") ∧
      ∃! r, r ∈ t.counterexamples ∧
        r.valuation.AgreeOn ["A"] (.ofList [("B", .grant), ("A", .reject)]) := by
  obtain ⟨t, ht, hvalid⟩ :
    ∃ t : TruthTable, (tabulate " robust A").result = .ok t ∧ t.isValid = false := ⟨_, rfl, rfl⟩
  obtain ⟨hvalid_iff, ⟨-, -, -, hunique⟩, -⟩ := judgement_correct ht
  refine ⟨t, ht, fun h => ?_, hunique _ (fun x hx => ?_) (by decide)⟩
  · rw [hvalid_iff.mpr h] at hvalid
    cases hvalid
  · obtain rfl : x = "A" := List.mem_singleton.mp (mem_variablesOf.mpr hx)
    rfl

end ProcessSpaces
