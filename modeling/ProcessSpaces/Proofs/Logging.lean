import ProcessSpaces.Proofs.StaticKinds

/-!
# What the log of a table says

A table is announced before its first row is made, and each row is noted as soon as it is done. So
the log is written while it is still open whether there will be a table at all, and one would expect
a run of rows that breaks off to leave its traces. It never does. What an expression lacks, it lacks
in every row, so that if there is an error then it strikes at the first row, before any has been
noted (`tabulate_of_first_eq_error`). The log of an expression with an error is thus the
announcement alone (`log_tabulate_of_eq_error`), the log of one with a table is the announcement and
the rows of the table (`TruthTable.IsTableOf.log_tabulate`), and there is no third kind but the
empty log of an expression whose rows cannot be counted (`log_all_or_nothing`).
-/

namespace ProcessSpaces

section Log

variable {e : String} {t : TruthTable} {err : EvalError}

/-- The entry that announces the table of an expression. -/
def announcement (e : String) : LogEntry :=
  .enumerating (Valuation.number (variablesOf (tokensOf e)).length) (variablesOf (tokensOf e)) e

/-- Nothing is said about an expression whose rows cannot be counted. -/
theorem log_tabulate_of_lt (h : maxVariables < (variablesOf (tokensOf e)).length) :
    (tabulate e).log = [] := by
  simp only [tabulate, Valuation.count, if_neg (Nat.not_le_of_lt h)]

/-- **The log of an expression with a table is the announcement and the rows of the table.** -/
theorem TruthTable.IsTableOf.log_tabulate (h : t.IsTableOf e) :
    (tabulate e).log = announcement e :: t.rows.map .row := by
  obtain ⟨expression, names, rows⟩ := t
  obtain ⟨-, hnames, hle, hlength, hrows⟩ := h
  obtain rfl : names = variablesOf (tokensOf e) := hnames
  have hloop := rowsFrom_eq_iff.mpr ⟨hlength, fun i r hr => (Nat.zero_add i).symm ▸ hrows i r hr⟩
  exact log_tabulate_of_rowsFrom hle hloop

/-- **The log of an expression with an error is the announcement alone**, if the rows can be
counted. -/
theorem log_tabulate_of_eq_error (hle : (variablesOf (tokensOf e)).length ≤ maxVariables)
    (h : (tabulate e).result = .error err) : (tabulate e).log = [announcement e] := by
  have hfirst := valueOf_first_of_tabulate_eq_error hle h
  exact log_tabulate_of_rowsFrom hle (rowsFrom_of_first_eq_error hfirst)

end Log

/-- **The log of a table holds all of its rows or none.** Nothing is said about an expression of
more than forty variables. About any other expression that has no table just one thing is said: how
many rows are due, over which variables, and for which expression. Where there is a table, this is
followed by one entry for each of its rows, in their order, and there are as many of them as have
been announced. -/
theorem log_all_or_nothing {e : String} {names : List String}
    (hnames : ListsVariables names (tokensOf e)) :
    (40 < names.length → (tabulate e).log = []) ∧
    (∀ err, names.length ≤ 40 → (tabulate e).result = .error err →
      (tabulate e).log.map (fun entry => (entry.level, entry.message)) =
        [(.debug, "enumerating " ++ toString (3 ^ names.length) ++ " assignments of " ++
          Text.quoteList names ++ " for '" ++ e ++ "'")]) ∧
    ∀ t, (tabulate e).result = .ok t →
      t.rows.length = 3 ^ names.length ∧
      (tabulate e).log.map (fun entry => (entry.level, entry.message)) =
        (.debug, "enumerating " ++ toString (3 ^ names.length) ++ " assignments of " ++
          Text.quoteList names ++ " for '" ++ e ++ "'") ::
        t.rows.map fun r => (.trace, r.valuation.text ++ " -> " ++ r.value.text) := by
  obtain rfl : names = variablesOf (tokensOf e) := hnames.unique (listsVariables_variablesOf _)
  refine ⟨log_tabulate_of_lt, fun err hle herr => ?_, fun t ht => ?_⟩
  · rw [log_tabulate_of_eq_error hle herr]
    rfl
  · have htable : t.IsTableOf e := tabulate_eq_ok_iff.mp ht
    refine ⟨?_, ?_⟩
    · rw [htable.length_rows, htable.names_eq, Valuation.number_eq_pow]
    · rw [htable.log_tabulate, List.map_cons, List.map_map]
      exact congrArg₂ List.cons rfl (List.map_congr_left fun r _ => rfl)

/-- Nothing but the announcement is logged about an expression with an operand too few, although the
error comes behind a complete operand; about `robust A` four things are. -/
theorem log_all_or_nothing_robust :
    ∃ names err t, names = ["A"] ∧
      ListsVariables names (tokensOf "and robust A robust") ∧
      (tabulate "and robust A robust").result = .error err ∧
      (tabulate "and robust A robust").log.map (fun entry => (entry.level, entry.message)) =
        [(.debug, "enumerating " ++ toString 3 ++ " assignments of " ++ Text.quoteList names ++
          " for '" ++ "and robust A robust" ++ "'")] ∧
      ListsVariables names (tokensOf "robust A") ∧
      (tabulate "robust A").result = .ok t ∧ t.rows.length = 3 ∧
      (tabulate "robust A").log.map (fun entry => (entry.level, entry.message)) =
        (.debug, "enumerating " ++ toString 3 ++ " assignments of " ++ Text.quoteList names ++
          " for '" ++ "robust A" ++ "'") ::
        t.rows.map fun r => (.trace, r.valuation.text ++ " -> " ++ r.value.text) := by
  have hnames : ListsVariables ["A"] (tokensOf "and robust A robust") :=
    listsVariables_variablesOf (tokensOf "and robust A robust")
  have hnames' : ListsVariables ["A"] (tokensOf "robust A") :=
    listsVariables_variablesOf (tokensOf "robust A")
  obtain ⟨err, herr⟩ :
    ∃ err, (tabulate "and robust A robust").result = .error err := ⟨_, rfl⟩
  obtain ⟨t, ht⟩ : ∃ t, (tabulate "robust A").result = .ok t := ⟨_, rfl⟩
  obtain ⟨-, hnone, -⟩ := log_all_or_nothing hnames
  obtain ⟨-, -, hall⟩ := log_all_or_nothing hnames'
  obtain ⟨hlength, hlog⟩ := hall t ht
  exact ⟨["A"], err, t, rfl, hnames, herr, hnone err (by decide) herr, hnames', ht, hlength, hlog⟩

end ProcessSpaces
