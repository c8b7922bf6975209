import ProcessSpaces.Proofs.Coincidence
import ProcessSpaces.Proofs.Place
import ProcessSpaces.Proofs.VariableNames
import ProcessSpaces.TruthTable

/-!
# What a truth table holds

A table is made row by row, in a loop that ends early at the first row without a value. This file
says what is left when it does not: the rows are those of all valuations of the variables, each at
the number of its valuation and with the value of the expression under it
(`TruthTable.IsTableOf`, `tabulate_eq_ok_iff`).

The valuations of the rows bind just the variables of the expression. A reader of the table has
some other valuation in mind, which may bind these in another order and bind much else. Since
values depend on the variables of the expression alone, one row answers for all the valuations
that agree on these, and it is found at the place that their values spell out in base three
(`exists_unique_row_of_tabulate`).
-/

namespace ProcessSpaces

/-! ### The loop -/

section Loop

variable {tokens : List Token} {names : List String} {count index : Nat}

/-- The row is the one at the number `i`: it has the valuation of this number and the value of
the tokens under it. -/
def Row.IsAt (tokens : List Token) (names : List String) (i : Nat) (r : Row) : Prop :=
  r.valuation = Valuation.nth names i ∧ valueOf r.valuation tokens = .ok r.value

/-- The first of some rows and the others are told apart in an array as they are in a list. -/
theorem singleton_append_eq_toArray_iff {a r : Row} {done : Array Row} {rows : List Row} :
    #[a] ++ done = (r :: rows).toArray ↔ a = r ∧ done = rows.toArray := by
  rw [← Array.toList_inj, Array.toList_append]
  simp [← Array.toList_inj]

/-- At a row that has a value the loop goes on. -/
theorem rowsFrom_succ_of_eq_ok {v : Value}
    (h : valueOf (Valuation.nth names index) tokens = .ok v) :
    rowsFrom tokens names (count + 1) index #[] =
      (#[⟨Valuation.nth names index, v⟩] ++ (rowsFrom tokens names count (index + 1) #[]).1,
        (rowsFrom tokens names count (index + 1) #[]).2) := by
  simp only [rowsFrom, h]
  rw [rowsFrom_eq_append]
  rfl

/-- At a row that has no value the loop ends, with the error of that row. -/
theorem rowsFrom_succ_of_eq_error {e : EvalError}
    (h : valueOf (Valuation.nth names index) tokens = .error e) :
    rowsFrom tokens names (count + 1) index #[] = (#[], some e) := by
  simp only [rowsFrom, h]

/-- **The loop runs to its end exactly if all its rows have values**, and these rows are then what
it yields, one for each number. -/
theorem rowsFrom_eq_iff {rows : List Row} :
    rowsFrom tokens names count index #[] = (rows.toArray, none) ↔
      rows.length = count ∧
        ∀ (k : Nat) (r : Row), rows[k]? = some r → r.IsAt tokens names (index + k) := by
  induction count generalizing index rows with
  | zero =>
    cases rows with
    | nil => simp [rowsFrom]
    | cons r rows => simp [rowsFrom]
  | succ count ih =>
    cases hv : valueOf (Valuation.nth names index) tokens with
    | error e =>
      rw [rowsFrom_succ_of_eq_error hv]
      constructor
      · intro h
        cases h
      · rintro ⟨hlength, hrows⟩
        -- there is a first row, and it would have a value
        have hpos : 0 < rows.length := by omega
        obtain ⟨hvaluation, hvalue⟩ := hrows 0 rows[0] (List.getElem?_eq_getElem hpos)
        rw [hvaluation, Nat.add_zero, hv] at hvalue
        cases hvalue
    | ok v =>
      rw [rowsFrom_succ_of_eq_ok hv]
      cases rows with
      | nil => simp
      | cons r rows =>
        rw [Prod.mk.injEq, singleton_append_eq_toArray_iff, and_assoc, ← Prod.mk.injEq,
          Prod.eta, ih, List.length_cons, Nat.add_right_cancel_iff]
        constructor
        · rintro ⟨rfl, hlength, hrows⟩
          refine ⟨hlength, fun k r hr => ?_⟩
          cases k with
          | zero =>
            cases hr
            exact ⟨rfl, hv⟩
          | succ k =>
            rw [← Nat.add_assoc, Nat.add_right_comm]
            exact hrows k r hr
        · rintro ⟨hlength, hrows⟩
          refine ⟨?_, hlength, fun k r' hr' => ?_⟩
          · obtain ⟨valuation, value⟩ := r
            obtain ⟨rfl, hvalue⟩ := hrows 0 _ rfl
            rw [Nat.add_zero, hv, Except.ok.injEq] at hvalue
            rw [hvalue]
            rfl
          · rw [Nat.add_right_comm, Nat.add_assoc]
            exact hrows (k + 1) r' hr'

end Loop

/-! ### The whole table -/

/-- The table holds what it should: the names of the variables of the expression, few enough that
the rows can be counted, and for each number of a valuation the row of that valuation. -/
structure TruthTable.IsTableOf (t : TruthTable) (expression : String) : Prop where
  /-- The expression is kept as it was given. -/
  expression_eq : t.expression = expression
  /-- The names are those of the variables. -/
  names_eq : t.names = variablesOf (tokensOf expression)
  /-- The rows can be counted. -/
  length_names_le : t.names.length ≤ maxVariables
  /-- There is a row for each number. -/
  length_rows : t.rows.length = Valuation.number t.names.length
  /-- Each row is at its number. -/
  isAt (i : Nat) (r : Row) : t.rows[i]? = some r → r.IsAt (tokensOf expression) t.names i

section Tabulate

variable {e : String} {t : TruthTable} {done : Array Row} {failure? : Option EvalError}

/-- The outcome of tabulating an expression is decided by the loop, if its valuations can be
counted. -/
theorem result_tabulate_of_rowsFrom (h : (variablesOf (tokensOf e)).length ≤ maxVariables)
    (hloop : rowsFrom (tokensOf e) (variablesOf (tokensOf e))
      (Valuation.number (variablesOf (tokensOf e)).length) 0 #[] = (done, failure?)) :
    (tabulate e).result =
      failure?.elim (.ok ⟨e, variablesOf (tokensOf e), done.toList⟩) .error := by
  simp only [tabulate, Valuation.count, if_pos h, hloop]
  cases failure? with
  | none => rfl
  | some err => rfl

/-- The log of tabulating an expression whose valuations can be counted holds the announcement and
the rows that the loop has made. -/
theorem log_tabulate_of_rowsFrom (h : (variablesOf (tokensOf e)).length ≤ maxVariables)
    (hloop : rowsFrom (tokensOf e) (variablesOf (tokensOf e))
      (Valuation.number (variablesOf (tokensOf e)).length) 0 #[] = (done, failure?)) :
    (tabulate e).log =
      .enumerating (Valuation.number (variablesOf (tokensOf e)).length)
        (variablesOf (tokensOf e)) e :: done.toList.map .row := by
  simp only [tabulate, Valuation.count, if_pos h, hloop]

/-- An expression whose valuations cannot be counted is refused. -/
theorem result_tabulate_of_lt {e : String}
    (h : maxVariables < (variablesOf (tokensOf e)).length) :
    (tabulate e).result = .error (.tooManyVariables (variablesOf (tokensOf e)).length) := by
  simp only [tabulate, Valuation.count, if_neg (Nat.not_le_of_lt h)]

/-- **Tabulating an expression yields its table and nothing else.** -/
theorem tabulate_eq_ok_iff : (tabulate e).result = .ok t ↔ t.IsTableOf e := by
  constructor
  · intro h
    rcases Nat.lt_or_ge maxVariables (variablesOf (tokensOf e)).length with hlt | hle
    · rw [result_tabulate_of_lt hlt] at h
      cases h
    · obtain ⟨⟨done, failure?⟩, hloop⟩ : ∃ p, rowsFrom (tokensOf e) (variablesOf (tokensOf e))
        (Valuation.number (variablesOf (tokensOf e)).length) 0 #[] = p := ⟨_, rfl⟩
      rw [result_tabulate_of_rowsFrom hle hloop] at h
      cases failure? with
      | some err => cases h
      | none =>
        cases h
        obtain ⟨hlength, hrows⟩ := rowsFrom_eq_iff.mp hloop
        refine ⟨rfl, rfl, hle, hlength, fun i r hr => ?_⟩
        rw [← Nat.zero_add i]
        exact hrows i r hr
  · intro h
    obtain ⟨expression, names, rows⟩ := t
    obtain ⟨hexpression, hnames, hle, hlength, hrows⟩ := h
    obtain rfl : expression = e := hexpression
    obtain rfl : names = variablesOf (tokensOf expression) := hnames
    have hloop := rowsFrom_eq_iff.mpr ⟨hlength, fun i r hr => (Nat.zero_add i).symm ▸ hrows i r hr⟩
    exact result_tabulate_of_rowsFrom hle hloop

end Tabulate

/-! ### The row for a choice of values -/

/-- The valuation gives a value to each variable among the tokens. -/
def Valuation.Binds (tokens : List Token) (σ : Valuation) : Prop :=
  ∀ x, .var x ∈ tokens → (σ.get? x).isSome

/-- The valuations of the variables give each of these a value. -/
theorem Valuation.binds_nth (tokens : List Token) (i : Nat) :
    (Valuation.nth (variablesOf tokens) i).Binds tokens := by
  intro x hx
  rw [isSome_get?_iff, names_nth (nodup_variablesOf tokens)]
  exact mem_variablesOf.mpr hx

/-- The valuations give the same values to the names. -/
def Valuation.AgreeOn (names : List String) (σ τ : Valuation) : Prop :=
  ∀ x ∈ names, σ.get? x = τ.get? x

instance (names : List String) (σ τ : Valuation) : Decidable (σ.AgreeOn names τ) :=
  inferInstanceAs (Decidable (∀ _ ∈ _, _))

namespace TruthTable.IsTableOf

variable {t : TruthTable} {e : String} {σ : Valuation} {f : String → Truth} {r : Row} {i : Nat}

theorem listsVariables (h : t.IsTableOf e) : ListsVariables t.names (tokensOf e) := by
  rw [h.names_eq]
  exact listsVariables_variablesOf _

theorem lt_number (h : t.IsTableOf e) (hr : t.rows[i]? = some r) :
    i < Valuation.number t.names.length := by
  rw [← h.length_rows]
  exact (List.getElem?_eq_some_iff.mp hr).1

/-- A row agrees with a valuation that gives the names the values `f` exactly if it stands at the
place of `f`. -/
theorem agreeOn_iff (h : t.IsTableOf e) (hr : t.rows[i]? = some r)
    (hσ : ∀ x ∈ t.names, σ.get? x = some (f x)) :
    r.valuation.AgreeOn t.names σ ↔ i = Valuation.place f t.names := by
  rw [← Valuation.forall_get?_nth_iff h.listsVariables.nodup (h.lt_number hr),
    ← (h.isAt i r hr).1]
  refine forall_congr' fun x => forall_congr' fun hx => ?_
  rw [hσ x hx]

/-- There is a row at the place of each choice of values. -/
theorem exists_row (h : t.IsTableOf e) (f : String → Truth) :
    ∃ r, t.rows[Valuation.place f t.names]? = some r := by
  have hlt : Valuation.place f t.names < t.rows.length := by
    rw [h.length_rows]
    exact Valuation.place_lt f t.names
  exact ⟨_, List.getElem?_eq_getElem hlt⟩

theorem valueOf_of_mem (h : t.IsTableOf e) (hr : r ∈ t.rows) :
    valueOf r.valuation (tokensOf e) = .ok r.value := by
  obtain ⟨i, hi⟩ := List.mem_iff_getElem?.mp hr
  exact (h.isAt i r hi).2

/-- A row has the value of the expression under every valuation that it agrees with. -/
theorem valueOf_eq_ok (h : t.IsTableOf e) (hr : t.rows[i]? = some r)
    (hσ : r.valuation.AgreeOn t.names σ) : valueOf σ (tokensOf e) = .ok r.value := by
  rw [← (h.isAt i r hr).2]
  refine valueOf_congr fun x hx => (hσ x ?_).symm
  exact (h.listsVariables.mem_iff x).mpr hx

/-- A row binds the names in their order. -/
theorem bindings_eq (h : t.IsTableOf e) (hr : t.rows[Valuation.place f t.names]? = some r) :
    r.valuation.bindings = t.names.map fun x => (x, f x) := by
  rw [(h.isAt _ r hr).1, Valuation.bindings_nth h.listsVariables.nodup,
    Valuation.choices_eq_map_iff, Nat.mod_eq_of_lt (Valuation.place_lt f t.names)]

end TruthTable.IsTableOf

/-- **A table is complete and correct.** It has a row for each choice of values for the variables
of its expression, which are listed in the order in which they first occur. Whatever else a
valuation binds, and in whatever order, if it gives the variables the values `f` then exactly one
row agrees with it: the one at the number that the values spell out in base three. That row binds
the variables in their order and nothing else, and it holds the value that the expression has
under the valuation. -/
theorem exists_unique_row_of_tabulate {e : String} {t : TruthTable}
    (h : (tabulate e).result = .ok t) :
    t.expression = e ∧ ListsVariables t.names (tokensOf e) ∧
      t.rows.length = 3 ^ t.names.length ∧
      ∀ (σ : Valuation) (f : String → Truth), (∀ x ∈ t.names, σ.get? x = some (f x)) →
        ∃ i r, i = ∑ j : Fin t.names.length,
            ((f t.names[j]).digit : Nat) * 3 ^ (t.names.length - 1 - j) ∧
          t.rows[i]? = some r ∧ r.valuation.AgreeOn t.names σ ∧
          r.valuation.bindings = (t.names.map fun x => (x, f x)) ∧
          valueOf σ (tokensOf e) = .ok r.value ∧
          ∀ (k : Nat) (r' : Row), t.rows[k]? = some r' → r'.valuation.AgreeOn t.names σ →
            k = i := by
  have ht : t.IsTableOf e := tabulate_eq_ok_iff.mp h
  refine ⟨ht.expression_eq, ht.listsVariables, ht.length_rows, fun σ f hσ => ?_⟩
  obtain ⟨r, hr⟩ := ht.exists_row f
  have hagree : r.valuation.AgreeOn t.names σ := (ht.agreeOn_iff hr hσ).mpr rfl
  refine ⟨Valuation.place f t.names, r, Valuation.place_eq_sum f t.names, hr, hagree,
    ht.bindings_eq hr, ht.valueOf_eq_ok hr hagree, fun k r' hr' hagree' => ?_⟩
  exact (ht.agreeOn_iff hr' hσ).mp hagree'

/-- The table of `[= B A` has nine rows, and a valuation that lists the names in the other order and
gives a value to a third name finds its row at the number five. -/
theorem exists_unique_row_entails :
    ∃ t σ, (tabulate "[= B A").result = .ok t ∧ t.rows.length = 9 ∧
      σ = Valuation.ofList [("C", .grant), ("A", .neutral), ("B", .grant)] ∧
      ∃ r, t.rows[5]? = some r ∧ r.valuation.bindings = [("B", .grant), ("A", .neutral)] ∧
        valueOf σ (tokensOf "[= B A") = .ok r.value := by
  obtain ⟨⟨expression, names, rows⟩, ht, hnames⟩ :
    ∃ t : TruthTable, (tabulate "[= B A").result = .ok t ∧ t.names = ["B", "A"] := ⟨_, rfl, rfl⟩
  obtain rfl : names = ["B", "A"] := hnames
  obtain ⟨-, -, hlength, hrow⟩ := exists_unique_row_of_tabulate ht
  dsimp only at hlength hrow
  obtain ⟨i, r, hi, hr, -, hbindings, hvalue, -⟩ :=
    hrow (.ofList [("C", .grant), ("A", .neutral), ("B", .grant)])
      (fun x => if x = "B" then .grant else .neutral) (by decide)
  obtain rfl : i = 5 := hi.trans rfl
  exact ⟨_, _, ht, hlength, rfl, r, hr, hbindings, hvalue⟩

end ProcessSpaces
