import Mathlib.Data.Set.Function
import ProcessSpaces.Proofs.Causes
import ProcessSpaces.Proofs.Validity

/-!
# Other names for the variables

Whoever writes an expression chooses the names of its variables, and nothing should hang on them but
the texts in which they are written. This file puts other names in their place, different names for
different variables, and follows what becomes of the table.

There are three stages. The names are noted in the order in which they first occur, and the new
ones occur in the same order (`variablesOf_map_rename`). Valuations give values to names by their
places in this order, so that each variable finds under its new name what it has found under the
old one (`Valuation.IsRenamed.get?_eq`). And reading looks at a name for no other purpose than to
look it up (`matched_readExpression_rename`). The first two stages rest on the new names being
different, since a name that stands for two variables is noted once and has one value.

So the table under the new names has the same values in the same rows, and if there is none, then
for the same reason (`matched_tabulate_rename`). The only name that an error of a table can show is
that of a variable left over behind the expression, and it shows the new one then.
-/

namespace ProcessSpaces

variable {ρ : String → String} {tokens : List Token} {names : List String} {x : String}

/-! ### Names -/

/-- The token with the name `ρ x` if it is a variable `x`. -/
def Token.rename (ρ : String → String) : Token → Token
  | .var x => .var (ρ x)
  | t => t

/-- A new name is among the new names exactly if the old name is among the old ones. -/
theorem mem_map_iff_of_forall (hx : ∀ y ∈ names, ρ y = ρ x → y = x) :
    ρ x ∈ names.map ρ ↔ x ∈ names := by
  rw [List.mem_map]
  constructor
  · rintro ⟨y, hy, hyx⟩
    rwa [← hx y hy hyx]
  · intro h
    exact ⟨x, h, rfl⟩

/-- **The new names are noted in the order of the old ones.** -/
theorem variablesOf_map_rename (hρ : Set.InjOn ρ {x | .var x ∈ tokens}) :
    variablesOf (tokens.map (Token.rename ρ)) = (variablesOf tokens).map ρ := by
  induction tokens using List.reverseRecOn with
  | nil => rfl
  | append_singleton tokens t ih =>
    have hfront : Set.InjOn ρ {x | .var x ∈ tokens} :=
      hρ.mono fun x hx => List.mem_append_left _ hx
    rw [List.map_append, List.map_singleton]
    cases t with
    | var x =>
      have hnew : ρ x ∈ (variablesOf tokens).map ρ ↔ x ∈ variablesOf tokens := by
        refine mem_map_iff_of_forall fun y hy hyx => hρ ?_ ?_ hyx
        · exact List.mem_append_left _ (mem_variablesOf.mp hy)
        · exact List.mem_append_right _ List.mem_cons_self
      rw [Token.rename, variablesOf_concat_var, variablesOf_concat_var, ih hfront]
      by_cases hx : x ∈ variablesOf tokens
      · rw [if_pos hx, if_pos (hnew.mpr hx)]
      · rw [if_neg hx, if_neg (mt hnew.mp hx), List.map_append, List.map_singleton]
    | _ =>
      rw [variablesOf_concat_of_name?_eq_none rfl, variablesOf_concat_of_name?_eq_none rfl,
        ih hfront]

/-! ### Valuations -/

namespace Valuation

variable {σ τ : Valuation}

/-- `τ` is `σ` under new names: it has the same values in the same order. -/
def IsRenamed (ρ : String → String) (σ τ : Valuation) : Prop :=
  τ.bindings = σ.bindings.map (Prod.map ρ id)

/-- A number spells out the same values for any names. -/
theorem choices_map (ρ : String → String) (names : List String) (i : Nat) :
    choices (names.map ρ) i = (choices names i).map (Prod.map ρ id) := by
  induction names with
  | nil => rfl
  | cons x names ih =>
    rw [List.map_cons, choices, choices, ih]
    simp only [List.length_map]
    rfl

/-- What is found under a new name is what is found under the old one. -/
theorem lookup_map_rename {l : List (String × Truth)}
    (hx : ∀ y ∈ l.map Prod.fst, ρ y = ρ x → y = x) :
    (l.map (Prod.map ρ id)).lookup (ρ x) = l.lookup x := by
  induction l with
  | nil => rfl
  | cons p l ih =>
    obtain ⟨y, a⟩ := p
    rw [List.map_cons, List.forall_mem_cons] at hx
    obtain ⟨hfirst, hrest⟩ := hx
    rw [List.map_cons, Prod.map, List.lookup_cons, List.lookup_cons, ih hrest]
    by_cases hxy : x = y
    · rw [hxy, beq_self_eq_true, beq_self_eq_true]
      rfl
    · have hne : ρ x ≠ ρ y := fun h => hxy (hfirst h.symm).symm
      rw [beq_false_of_ne hxy, beq_false_of_ne hne]

/-- **A variable finds under its new name what it has found under the old one**, if no other name
has become the same. -/
theorem IsRenamed.get?_eq (h : σ.IsRenamed ρ τ) (hx : ∀ y ∈ σ.names, ρ y = ρ x → y = x) :
    τ.get? (ρ x) = σ.get? x := by
  rw [get?, h]
  exact lookup_map_rename hx

/-- The valuation with a number gives the new names the same values. -/
theorem isRenamed_nth (h : names.Nodup) (h' : (names.map ρ).Nodup) (i : Nat) :
    (nth names i).IsRenamed ρ (nth (names.map ρ) i) := by
  rw [IsRenamed, bindings_nth h, bindings_nth h', choices_map]

end Valuation

/-! ### Reading -/

/-- How the error of some tokens looks under the new names. -/
inductive EvalError.IsRenamed (ρ : String → String) (tokens : List Token) :
    EvalError → EvalError → Prop
  /-- A token that is left over is shown with its new name. -/
  | trailingTokens {t : Token} {q : Nat} (h : tokens[q]? = some t) :
      IsRenamed ρ tokens (.trailingTokens t.text q) (.trailingTokens (t.rename ρ).text q)
  /-- All other errors look the same. -/
  | other {e : EvalError} (h : ∀ text q, e ≠ .trailingTokens text q) : IsRenamed ρ tokens e e

section Reading

variable {σ τ : Valuation}

/-- The reading with new names for what it leaves. -/
def Reading.rename (ρ : String → String) (r : Reading) : Reading :=
  { r with rest := r.rest.map (Token.rename ρ) }

/-- **Reading looks at a name only to look it up**: where the variables have the same values under
their new names, it ends alike. -/
theorem matched_readExpression_rename
    (h : ∀ x, .var x ∈ tokens → ∃ a, σ.get? x = some a ∧ τ.get? (ρ x) = some a)
    (room position : Nat) :
    Matched Eq (fun r s => s = r.rename ρ) (readExpression σ room position tokens)
      (readExpression τ room position (tokens.map (Token.rename ρ))) := by
  induction room generalizing position tokens with
  | zero => exact .error rfl
  | succ room ih =>
    cases tokens with
    | nil => exact .error rfl
    | cons t rest =>
      have hrest : ∀ x, .var x ∈ rest → ∃ a, σ.get? x = some a ∧ τ.get? (ρ x) = some a :=
        fun x hx => h x (List.mem_cons_of_mem t hx)
      rw [List.map_cons]
      cases t with
      | constant a => exact .ok rfl
      | var x =>
        obtain ⟨a, hσ, hτ⟩ := h x List.mem_cons_self
        rw [Token.rename, readExpression, readExpression, hσ, hτ]
        exact .ok rfl
      | unary op =>
        refine (ih hrest (position + 1)).bind ?_
        rintro a _ - - rfl
        refine (matched_self Eq.refl (op.apply position a.value)).bind ?_
        rintro v _ - - rfl
        exact .ok rfl
      | binary op =>
        refine (ih hrest (position + 1)).bind ?_
        rintro a _ ha - rfl
        -- what the left operand leaves is among the tokens, so its variables have values
        have hleft := rest_subset_of_readExpression ha
        refine (ih (fun x hx => hrest x (hleft hx)) a.next).bind ?_
        rintro b _ - - rfl
        refine (matched_self Eq.refl (op.apply position a.value b.value)).bind ?_
        rintro v _ - - rfl
        exact .ok rfl
      | gap => exact .error rfl

/-- **A row of tokens has the same value under new names**, or the error looks as it should. -/
theorem matched_valueOf_rename
    (h : ∀ x, .var x ∈ tokens → ∃ a, σ.get? x = some a ∧ τ.get? (ρ x) = some a) :
    Matched (EvalError.IsRenamed ρ tokens) Eq (valueOf σ tokens)
      (valueOf τ (tokens.map (Token.rename ρ))) := by
  rcases (matched_readExpression_rename h (maxNesting + 1) 0).ok_or_error with
    ⟨r, _, hr, hs, rfl⟩ | ⟨e, _, he, hd, rfl⟩
  · obtain ⟨hrest, -⟩ := rest_eq_drop_of_readExpression hr
    rw [valueOf, valueOf, hr, hs, ok_bind, ok_bind, Reading.rename]
    cases htokens : r.rest with
    | nil => exact .ok rfl
    | cons t rest =>
      rw [htokens] at hrest
      obtain ⟨ht, -⟩ := getElem?_and_drop_of_drop_eq_cons hrest.symm
      exact .error (.trailingTokens ht)
  · rw [valueOf, valueOf, he, hd]
    refine .error (.other fun text q htrailing => ?_)
    -- such an error is not found before the expression has been read
    have hcause := cause_of_readExpression (Nat.le_refl _) (Nat.le_refl _) (Nat.zero_le _) he
    rw [htrailing] at hcause
    cases hcause

end Reading

/-! ### Tables -/

/-- `r'` is the row `r` under new names. -/
structure Row.IsRenamed (ρ : String → String) (r r' : Row) : Prop where
  /-- The new names have the same values in the same order. -/
  valuation : r.valuation.IsRenamed ρ r'.valuation
  /-- The expression has the same value. -/
  value_eq : r'.value = r.value

namespace TruthTable

/-- The row with the number `i` is a counterexample. -/
def RefutedAt (t : TruthTable) (i : Nat) : Prop := ∃ r ∈ t.counterexamples, t.rows[i]? = some r

/-- `t'` is the table `t` under new names. -/
structure IsRenamed (ρ : String → String) (t t' : TruthTable) : Prop where
  /-- The new names are in the same order. -/
  names_eq : t'.names = t.names.map ρ
  /-- There are as many rows. -/
  length_rows : t'.rows.length = t.rows.length
  /-- Each row has its counterpart at the same number. -/
  row {i : Nat} {r r' : Row} (h : t.rows[i]? = some r) (h' : t'.rows[i]? = some r') :
    r.IsRenamed ρ r'

variable {t t' : TruthTable} {i : Nat}

theorem refutedAt_iff : t.RefutedAt i ↔ ∃ r, t.rows[i]? = some r ∧ r.value ≠ .boolean true := by
  refine exists_congr fun r => ?_
  rw [mem_counterexamples_iff]
  constructor
  · rintro ⟨⟨-, hvalue⟩, hr⟩
    exact ⟨hr, hvalue⟩
  · rintro ⟨hr, hvalue⟩
    exact ⟨⟨List.mem_of_getElem? hr, hvalue⟩, hr⟩

theorem isValid_iff_forall_not_refutedAt : t.isValid = true ↔ ∀ i, ¬t.RefutedAt i := by
  rw [← not_iff_not, ← counterexamples_ne_nil_iff, not_forall_not]
  constructor
  · intro hne
    obtain ⟨r, hr⟩ := List.exists_mem_of_ne_nil _ hne
    obtain ⟨i, hi⟩ := List.mem_iff_getElem?.mp (mem_counterexamples_iff.mp hr).1
    exact ⟨i, r, hr, hi⟩
  · rintro ⟨i, r, hr, -⟩
    exact List.ne_nil_of_mem hr

namespace IsRenamed

/-- The counterexamples are at the same numbers. -/
theorem refutedAt_iff (h : t.IsRenamed ρ t') : t'.RefutedAt i ↔ t.RefutedAt i := by
  rw [TruthTable.refutedAt_iff, TruthTable.refutedAt_iff]
  constructor
  · rintro ⟨r', hr', hvalue⟩
    have hi : i < t.rows.length := h.length_rows ▸ (List.getElem?_eq_some_iff.mp hr').1
    have hr : t.rows[i]? = some t.rows[i] := List.getElem?_eq_getElem hi
    exact ⟨_, hr, (h.row hr hr').value_eq ▸ hvalue⟩
  · rintro ⟨r, hr, hvalue⟩
    have hi : i < t'.rows.length := h.length_rows ▸ (List.getElem?_eq_some_iff.mp hr).1
    have hr' : t'.rows[i]? = some t'.rows[i] := List.getElem?_eq_getElem hi
    refine ⟨_, hr', ?_⟩
    rwa [(h.row hr hr').value_eq]

/-- A table is valid under any names. -/
theorem isValid_eq (h : t.IsRenamed ρ t') : t'.isValid = t.isValid := by
  rw [Bool.eq_iff_iff, isValid_iff_forall_not_refutedAt, isValid_iff_forall_not_refutedAt]
  exact forall_congr' fun i => not_congr h.refutedAt_iff

end IsRenamed

end TruthTable

section Tabulate

variable {e e' : String} {t t' : TruthTable}

/-- The variables have the same values in rows of the same number. -/
theorem exists_get?_nth_rename (hρ : Set.InjOn ρ {x | .var x ∈ tokens}) (i : Nat)
    (hx : .var x ∈ tokens) :
    ∃ a, (Valuation.nth (variablesOf tokens) i).get? x = some a ∧
      (Valuation.nth ((variablesOf tokens).map ρ) i).get? (ρ x) = some a := by
  obtain ⟨a, ha⟩ := Option.isSome_iff_exists.mp (Valuation.binds_nth tokens i x hx)
  have hnodup := nodup_variablesOf (tokens.map (Token.rename ρ))
  rw [variablesOf_map_rename hρ] at hnodup
  have hrenamed := Valuation.isRenamed_nth (nodup_variablesOf tokens) hnodup i
  refine ⟨a, ha, ?_⟩
  rw [hrenamed.get?_eq fun y hy hyx => ?_, ha]
  rw [Valuation.names_nth (nodup_variablesOf tokens)] at hy
  exact hρ (mem_variablesOf.mp hy) hx hyx

/-- The tables of an expression and of the same under new names have the same rows. -/
theorem TruthTable.IsTableOf.isRenamed (h : t.IsTableOf e) (h' : t'.IsTableOf e')
    (hρ : Set.InjOn ρ {x | .var x ∈ tokensOf e})
    (he : tokensOf e' = (tokensOf e).map (Token.rename ρ)) : t.IsRenamed ρ t' := by
  have hnames : t'.names = t.names.map ρ := by
    rw [h'.names_eq, he, variablesOf_map_rename hρ, h.names_eq]
  refine ⟨hnames, ?_, fun {i r r'} hr hr' => ?_⟩
  · rw [h'.length_rows, h.length_rows, hnames, List.length_map]
  · obtain ⟨hvaluation, hvalue⟩ := h.isAt i r hr
    obtain ⟨hvaluation', hvalue'⟩ := h'.isAt i r' hr'
    have hnodup := h'.listsVariables.nodup
    rw [hnames] at hnodup
    constructor
    · rw [hvaluation, hvaluation', hnames]
      exact Valuation.isRenamed_nth h.listsVariables.nodup hnodup i
    · have hmatched := matched_valueOf_rename fun x hx => exists_get?_nth_rename hρ i hx
      rw [hvaluation, h.names_eq] at hvalue
      rw [hvaluation', hnames, h.names_eq, he] at hvalue'
      rw [hvalue, hvalue'] at hmatched
      cases hmatched with
      | ok heq => exact heq.symm

/-- **The tables of an expression and of the same under new names match.** -/
theorem matched_tabulate_rename (hρ : Set.InjOn ρ {x | .var x ∈ tokensOf e})
    (he : tokensOf e' = (tokensOf e).map (Token.rename ρ)) :
    Matched (EvalError.IsRenamed ρ (tokensOf e)) (TruthTable.IsRenamed ρ) (tabulate e).result
      (tabulate e').result := by
  have hnames : variablesOf (tokensOf e') = (variablesOf (tokensOf e)).map ρ := by
    rw [he, variablesOf_map_rename hρ]
  have hlength : (variablesOf (tokensOf e')).length = (variablesOf (tokensOf e)).length := by
    rw [hnames, List.length_map]
  rcases Nat.lt_or_ge maxVariables (variablesOf (tokensOf e)).length with hlt | hle
  · rw [result_tabulate_of_lt hlt, result_tabulate_of_lt (hlength ▸ hlt), hlength]
    refine .error (.other fun text q h => ?_)
    cases h
  · -- the first rows decide whether there are tables at all
    have hfirst := matched_valueOf_rename fun x hx => exists_get?_nth_rename hρ 0 hx
    rw [← hnames, ← he] at hfirst
    rcases hfirst.ok_or_error with ⟨v, w, hv, hw, -⟩ | ⟨err, err', herr, herr', hrenamed⟩
    · obtain ⟨t, ht⟩ := tabulate_of_first_eq_ok hle hv
      obtain ⟨t', ht'⟩ := tabulate_of_first_eq_ok (hlength ▸ hle) hw
      rw [ht, ht']
      exact .ok ((tabulate_eq_ok_iff.mp ht).isRenamed (tabulate_eq_ok_iff.mp ht') hρ he)
    · rw [(tabulate_of_first_eq_error hle herr).1,
        (tabulate_of_first_eq_error (hlength ▸ hle) herr').1]
      exact .error hrenamed

end Tabulate

/-- **Tables do not depend on the names of the variables.** If the tokens of one expression are
those of another with other names for the variables, different ones for different variables, then
one of them has a table if and only if the other has. If they have, then the new names are listed in
the order of the old ones, and the rows of each number have the same value and give the new names
the same values in the same order; one table is valid if and only if the other is, and the
counterexamples have the same numbers. If they have none, then the errors are the same, but that a
variable left over is shown with its new name. -/
theorem tables_follow_renaming {e e' : String} {ρ : String → String}
    (hρ : Set.InjOn ρ {x | .var x ∈ tokensOf e})
    (he : tokensOf e' = (tokensOf e).map (Token.rename ρ)) :
    ((∃ t, (tabulate e).result = .ok t) ↔ ∃ t', (tabulate e').result = .ok t') ∧
    (∀ t t', (tabulate e).result = .ok t → (tabulate e').result = .ok t' →
      t'.names = t.names.map ρ ∧ t'.rows.length = t.rows.length ∧
      (∀ (i : Nat) (r r' : Row), t.rows[i]? = some r → t'.rows[i]? = some r' →
        r'.value = r.value ∧
          r'.valuation.bindings = r.valuation.bindings.map fun p => (ρ p.1, p.2)) ∧
      t'.isValid = t.isValid ∧ ∀ i, t'.RefutedAt i ↔ t.RefutedAt i) ∧
    ∀ err err', (tabulate e).result = .error err → (tabulate e').result = .error err' →
      err.IsRenamed ρ (tokensOf e) err' := by
  rcases (matched_tabulate_rename hρ he).ok_or_error with
    ⟨t, t', ht, ht', h⟩ | ⟨err, err', herr, herr', h⟩
  · rw [ht, ht']
    refine ⟨iff_of_true ⟨t, rfl⟩ ⟨t', rfl⟩, ?_, fun err err' herr => ?_⟩
    · rintro _ _ ⟨⟩ ⟨⟩
      exact ⟨h.names_eq, h.length_rows,
        fun i r r' hr hr' => ⟨(h.row hr hr').value_eq, (h.row hr hr').valuation⟩,
        h.isValid_eq, fun i => h.refutedAt_iff⟩
    · cases herr
  · rw [herr, herr']
    refine ⟨iff_of_false ?_ ?_, fun t t' ht => ?_, ?_⟩
    · rintro ⟨t, ht⟩
      cases ht
    · rintro ⟨t', ht'⟩
      cases ht'
    · cases ht
    · rintro _ _ ⟨⟩ ⟨⟩
      exact h

/-- Under the names `z` and `b` for `A` and `B`, which come in the other order, the table of
`robust || B A` is refuted in the same rows, and if `B` is left over behind `robust A` then the
error shows `b`. -/
theorem tables_follow_renaming_robust :
    ∃ (ρ : String → String) (t t' : TruthTable),
      (ρ = fun x => if x = "A" then "z" else "b") ∧
      Set.InjOn ρ {x | .var x ∈ tokensOf "robust || B A"} ∧
      tokensOf "robust || b z" = (tokensOf "robust || B A").map (Token.rename ρ) ∧
      (tabulate "robust || B A").result = .ok t ∧ (tabulate "robust || b z").result = .ok t' ∧
      t'.names = ["b", "z"] ∧ t'.isValid = t.isValid ∧ (∀ i, t'.RefutedAt i ↔ t.RefutedAt i) ∧
      EvalError.IsRenamed ρ (tokensOf "robust A B") (.trailingTokens "B" 2)
        (.trailingTokens "b" 2) := by
  obtain ⟨ρ, hρ⟩ : ∃ ρ : String → String, ρ = fun x => if x = "A" then "z" else "b" := ⟨_, rfl⟩
  have hinj : Set.InjOn ρ {x | x ∈ ["B", "A"]} := by
    rw [hρ]
    intro x hx y hy
    rcases List.mem_pair.mp hx with rfl | rfl <;> rcases List.mem_pair.mp hy with rfl | rfl <;> simp
  have htable : Set.InjOn ρ {x | .var x ∈ tokensOf "robust || B A"} :=
    hinj.mono fun x hx => mem_variablesOf.mpr hx
  have herror : Set.InjOn ρ {x | .var x ∈ tokensOf "robust A B"} :=
    hinj.mono fun x hx => List.mem_reverse.mpr (mem_variablesOf.mpr hx)
  have he : tokensOf "robust || b z" = (tokensOf "robust || B A").map (Token.rename ρ) := by
    rw [hρ]
    decide
  have he' : tokensOf "robust z b" = (tokensOf "robust A B").map (Token.rename ρ) := by
    rw [hρ]
    decide
  obtain ⟨hiff, hok, -⟩ := tables_follow_renaming htable he
  obtain ⟨-, -, hrenamed⟩ := tables_follow_renaming herror he'
  obtain ⟨t, ht, hnames⟩ :
    ∃ t : TruthTable, (tabulate "robust || B A").result = .ok t ∧ t.names = ["B", "A"] :=
      ⟨_, rfl, rfl⟩
  obtain ⟨t', ht'⟩ := hiff.mp ⟨t, ht⟩
  obtain ⟨hnames', -, -, hvalid, hrefuted⟩ := hok t t' ht ht'
  refine ⟨ρ, t, t', hρ, htable, he, ht, ht', ?_, hvalid, hrefuted, hrenamed _ _ rfl rfl⟩
  rw [hnames', hnames, hρ]
  rfl

end ProcessSpaces
