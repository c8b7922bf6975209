import ProcessSpaces.Proofs.OperandCount
import ProcessSpaces.Proofs.Spelling
import ProcessSpaces.Proofs.StaticKinds
import ProcessSpaces.Report

/-!
# What a report says

A report is made from an expression without the blanks around it, and shows the expression twice and
the rows of its table. Where there is no expression, a hint takes its place. That there is none is
found out by trimming, while it is the words of a text that are tabulated; but trimming leaves
nothing exactly if there are no words, and changes none where there are some. So a report holds the
rows of the table of the whole text, blanks and all, and fails exactly if this table does
(`report_shows_table`).

A report can be read back (`report_determines_expression`). This is less plain than it looks:
nothing marks the end of the expression, which may hold line feeds and any of the words that the
report itself uses. But if the expression could be cut off in two places, then the longer one would
be the shorter one, a blank and more tokens; and no complete expression has tokens behind it
(`eq_of_toList_eq_append`).
-/

namespace ProcessSpaces

section Report

variable {raw raw' text e : String} {t : TruthTable} {err : EvalError}

/-! ### The text of a report -/

theorem TruthTable.describe_eq_append_text (t : TruthTable) :
    t.describe = "Your expression: " ++ t.expression ++ "\nTriuth table:\n" ++ t.text := rfl

/-- A table is described by its expression, twice, and its rows. -/
theorem TruthTable.describe_eq (t : TruthTable) :
    t.describe = "Your expression: " ++ t.expression ++ "\nTriuth table:\n" ++
      t.expression ++ "\n" ++ String.join (t.rows.map fun r => r.text ++ "\n") := by
  rw [describe_eq_append_text, TruthTable.text, ← String.append_assoc, ← String.append_assoc]

/-- In the description of a table there is a line feed behind the expression. -/
theorem TruthTable.exists_toList_describe (t : TruthTable) :
    ∃ rest, t.describe.toList =
      "Your expression: ".toList ++ (t.expression.toList ++ '\n' :: rest) := by
  refine ⟨"Triuth table:\n".toList ++ t.text.toList, ?_⟩
  have hline : "\nTriuth table:\n".toList = '\n' :: "Triuth table:\n".toList := by simp
  rw [describe_eq_append_text, String.toList_append, String.toList_append, String.toList_append,
    hline, List.append_assoc, List.append_assoc, List.cons_append]

/-- The description of a table is not the hint. -/
theorem TruthTable.describe_ne_hint (t : TruthTable) : t.describe ≠ hint := by
  intro h
  obtain ⟨rest, hrest⟩ := t.exists_toList_describe
  -- the two texts begin with different letters
  have hfirst : hint.toList.head? = some 'P' := by simp [hint]
  rw [← h, hrest] at hfirst
  simp at hfirst

/-! ### Reports and tables -/

/-- Where there is nothing but blanks, the report is the hint. -/
theorem showTable_of_blank (h : Text.Blank raw) : showTable raw = ⟨[], .ok hint⟩ := by
  rw [showTable, Text.trim_eq_empty_iff.mpr h]
  rfl

/-- Where there is more than blanks, the report describes the table of the trimmed text. -/
theorem showTable_of_not_blank (h : ¬Text.Blank raw) :
    showTable raw = (tabulate (Text.trim raw)).map TruthTable.describe := by
  have hne : ¬(Text.trim raw).isEmpty = true := mt Text.isEmpty_trim_iff.mp h
  simp only [showTable, if_neg hne]

/-- Only what trimming leaves of a text counts for the report. -/
theorem showTable_congr (h : Text.trim raw = Text.trim raw') : showTable raw = showTable raw' := by
  simp only [showTable, h]

/-- **The report on a text describes its table**, with the trimmed text in place of the whole. -/
theorem result_showTable_of_not_blank (h : ¬Text.Blank raw) :
    (showTable raw).result =
      (tabulate raw).result.map fun t => { t with expression := Text.trim raw }.describe := by
  have htable := result_tabulate_of_tokensOf_eq (tokensOf_trim raw).symm
  rw [showTable_of_not_blank h, Logged.result_map, htable, map_map]

/-- A report on more than blanks describes a table of the trimmed text. -/
theorem exists_isTableOf_of_showTable (h : ¬Text.Blank raw)
    (htext : (showTable raw).result = .ok text) :
    ∃ t : TruthTable, t.IsTableOf (Text.trim raw) ∧ text = t.describe := by
  rw [showTable_of_not_blank h, Logged.result_map, map_eq_ok_iff] at htext
  obtain ⟨t, htable, rfl⟩ := htext
  exact ⟨t, tabulate_eq_ok_iff.mp htable, rfl⟩

/-- The report is the hint exactly if there are no tokens. -/
theorem showTable_eq_hint_iff : (showTable raw).result = .ok hint ↔ tokensOf raw = [] := by
  rw [tokensOf_eq_nil_iff]
  constructor
  · intro h
    by_contra hblank
    obtain ⟨t, -, ht⟩ := exists_isTableOf_of_showTable hblank h
    exact t.describe_ne_hint ht.symm
  · intro h
    rw [showTable_of_blank h]

/-! ### Errors of reports -/

/-- If an expression has no table, it has too many variables, or else it has no value under some
valuation. -/
theorem eq_or_exists_of_tabulate_eq_error (h : (tabulate e).result = .error err) :
    err = .tooManyVariables (variablesOf (tokensOf e)).length ∨
      ∃ σ, valueOf σ (tokensOf e) = .error err := by
  rcases Nat.lt_or_ge maxVariables (variablesOf (tokensOf e)).length with hlt | hle
  · rw [result_tabulate_of_lt hlt] at h
    cases h
    exact Or.inl rfl
  · exact Or.inr ⟨_, valueOf_first_of_tabulate_eq_error hle h⟩

/-- There is a token in front of the place where tokens run out, unless there is none at all. -/
theorem pos_of_endOfInput {σ : Valuation} {tokens : List Token} {q : Nat} (hne : tokens ≠ [])
    (h : valueOf σ tokens = .error (.endOfInput q)) : 1 ≤ q := by
  rcases cause_of_valueOf h with hcause | ⟨v, q', t, -, -, he⟩
  · cases hcause
    exact List.length_pos_iff.mpr hne
  · cases he

/-- There is a token in front of those that are left over. -/
theorem pos_of_trailingTokens {σ : Valuation} {tokens : List Token} {s : String} {q : Nat}
    (h : valueOf σ tokens = .error (.trailingTokens s q)) : 1 ≤ q := by
  obtain ⟨⟨-, hzero, -⟩, -⟩ := completesAt_of_trailingTokens h
  refine Nat.one_le_iff_ne_zero.mpr fun hq => ?_
  rw [hq, owed_zero] at hzero
  cases hzero

/-- An error of a report is one of its expression, and there is an expression. -/
theorem eq_or_exists_of_showTable_eq_error (h : (showTable raw).result = .error err) :
    tokensOf raw ≠ [] ∧
      (err = .tooManyVariables (variablesOf (tokensOf raw)).length ∨
        ∃ σ, valueOf σ (tokensOf raw) = .error err) := by
  by_cases hblank : Text.Blank raw
  · rw [showTable_of_blank hblank] at h
    cases h
  · refine ⟨mt tokensOf_eq_nil_iff.mp hblank, ?_⟩
    rw [result_showTable_of_not_blank hblank, map_eq_error_iff] at h
    exact eq_or_exists_of_tabulate_eq_error h

/-! ### Where the expression ends -/

/-- The tokens of an expression that has a table are those of a formula. -/
theorem TruthTable.IsTableOf.exists_formula (h : t.IsTableOf e) :
    ∃ φ : Formula, tokensOf e = φ.tokens := by
  obtain ⟨r, hr⟩ := h.exists_row fun _ => .neutral
  obtain ⟨φ, hφ, -⟩ := valueOf_eq_ok_iff.mp (h.valueOf_of_mem (List.mem_of_getElem? hr))
  exact ⟨φ, hφ⟩

/-- A text that ends with a blank and more blanks is not trimmed. -/
theorem not_trimmed_append_cons {cs ds : List Char} {c : Char}
    (h : ∀ d ∈ c :: ds, Text.isBlank d = true) : ¬Text.Trimmed (cs ++ c :: ds) := by
  intro htrimmed
  have hlast : (c :: ds).getLast (List.cons_ne_nil c ds) ∈ (cs ++ c :: ds).getLast? := by
    rw [List.getLast?_append_of_ne_nil _ (List.cons_ne_nil c ds), List.getLast?_eq_some_getLast]
    rfl
  have hblank := htrimmed.last _ hlast
  rw [h _ (List.getLast_mem _)] at hblank
  cases hblank

/-- **A complete expression does not go on behind a line feed**: if a trimmed expression begins with
another expression, and what is left of it begins with a line feed, then nothing is left of it. -/
theorem eq_of_toList_eq_append {φ ψ : Formula} {s s' : String} {a x y : List Char}
    (htrimmed : Text.Trimmed s'.toList) (hφ : tokensOf s = φ.tokens) (hψ : tokensOf s' = ψ.tokens)
    (hs' : s'.toList = s.toList ++ a) (ha : '\n' :: x = a ++ y) : s = s' := by
  cases a with
  | nil =>
    rw [List.append_nil] at hs'
    exact (String.toList_inj.mp hs').symm
  | cons c a =>
    obtain ⟨rfl, -⟩ := List.cons.inj ha
    rw [← String.ofList_toList (s := s'), hs', tokensOf_append_cons rfl, String.ofList_toList,
      hφ] at hψ
    -- no expression is the beginning of another, so there are no tokens behind the line feed
    have htokens : φ.tokens ++ tokensOf (String.ofList a) = ψ.tokens ++ [] := by
      rw [hψ, List.append_nil]
    have hblank := tokensOf_eq_nil_iff.mp (Formula.eq_of_tokens_append_eq htokens).2
    rw [Text.Blank, String.toList_ofList] at hblank
    rw [hs'] at htrimmed
    exact absurd htrimmed (not_trimmed_append_cons (List.forall_mem_cons.mpr ⟨rfl, hblank⟩))

/-- **The expression of a table is determined by its description**, if it is trimmed. -/
theorem expression_eq_of_describe_eq {t' : TruthTable} {e' : String} (h : t.IsTableOf e)
    (h' : t'.IsTableOf e') (htrimmed : Text.Trimmed e.toList) (htrimmed' : Text.Trimmed e'.toList)
    (heq : t.describe = t'.describe) : e = e' := by
  obtain ⟨x, hx⟩ := t.exists_toList_describe
  obtain ⟨y, hy⟩ := t'.exists_toList_describe
  rw [heq, hy, h.expression_eq, h'.expression_eq] at hx
  obtain ⟨φ, hφ⟩ := h.exists_formula
  obtain ⟨ψ, hψ⟩ := h'.exists_formula
  -- one of the two expressions begins with the other
  rcases List.append_eq_append_iff.mp (List.append_cancel_left hx) with ⟨a, ha, hxy⟩ | ⟨a, ha, hxy⟩
  · exact (eq_of_toList_eq_append htrimmed hψ hφ ha hxy).symm
  · exact eq_of_toList_eq_append htrimmed' hφ hψ ha hxy

end Report

/-- **A report shows the table of the text it is made for.** The report is the hint exactly if the
text has no tokens. Otherwise it fails exactly if the table of the whole text does, with the same
error, and where there is a table it shows the text without the blanks around it, twice, and then
the rows of this table. Blanks around the text make no difference to the report, and what it says
about tokens that are missing or left over is never said about the very first place. -/
theorem report_shows_table (raw : String) :
    ((showTable raw).result = .ok hint ↔ tokensOf raw = []) ∧
    (tokensOf raw ≠ [] →
      (∀ err, (showTable raw).result = .error err ↔ (tabulate raw).result = .error err) ∧
      ∀ t, (tabulate raw).result = .ok t →
        (showTable raw).result =
          .ok ("Your expression: " ++ Text.trim raw ++ "\nTriuth table:\n" ++ Text.trim raw ++
            "\n" ++ String.join (t.rows.map fun r => r.text ++ "\n"))) ∧
    (∀ front back, Text.Blank front → Text.Blank back →
      showTable (front ++ raw ++ back) = showTable raw) ∧
    (∀ q, (showTable raw).result = .error (.endOfInput q) → 1 ≤ q) ∧
    ∀ s q, (showTable raw).result = .error (.trailingTokens s q) → 1 ≤ q := by
  refine ⟨showTable_eq_hint_iff, fun hne => ⟨fun err => ?_, fun t ht => ?_⟩,
    fun front back hfront hback => ?_, fun q h => ?_, fun s q h => ?_⟩
  · rw [result_showTable_of_not_blank (mt tokensOf_eq_nil_iff.mpr hne)]
    exact map_eq_error_iff
  · rw [result_showTable_of_not_blank (mt tokensOf_eq_nil_iff.mpr hne), ht]
    exact congrArg Except.ok (TruthTable.describe_eq _)
  · exact showTable_congr (Text.trim_append_append hfront hback raw)
  · obtain ⟨hne, htoo | ⟨σ, hσ⟩⟩ := eq_or_exists_of_showTable_eq_error h
    · cases htoo
    · exact pos_of_endOfInput hne hσ
  · obtain ⟨-, htoo | ⟨σ, hσ⟩⟩ := eq_or_exists_of_showTable_eq_error h
    · cases htoo
    · exact pos_of_trailingTokens hσ

/-- The report on an expression with a no-break space and line feeds around it repeats what stands
between them. -/
theorem report_shows_table_par :
    ∃ raw t, raw = "\u00a0|| Triuth\ntable:\n" ∧ tokensOf raw ≠ [] ∧ (tabulate raw).result = .ok t ∧
      (showTable raw).result =
        .ok ("Your expression: " ++ "|| Triuth\ntable:" ++ "\nTriuth table:\n" ++
          "|| Triuth\ntable:" ++ "\n" ++ String.join (t.rows.map fun r => r.text ++ "\n")) ∧
      showTable ("\t" ++ raw ++ "\r\n") = showTable raw := by
  obtain ⟨t, ht⟩ :
    ∃ t : TruthTable, (tabulate "\u00a0|| Triuth\ntable:\n").result = .ok t := ⟨_, rfl⟩
  obtain ⟨-, hshows, hblank, -⟩ := report_shows_table "\u00a0|| Triuth\ntable:\n"
  have hne : tokensOf "\u00a0|| Triuth\ntable:\n" ≠ [] := by decide
  exact ⟨_, t, rfl, hne, ht, (hshows hne).2 t ht,
    hblank "\t" "\r\n" (by decide) (by decide)⟩

/-- **A report determines its expression.** If two texts have the same report, then either both are
blank and the report is the hint, or neither is, the report is not the hint, and the texts are the
same but for the blanks around them. -/
theorem report_determines_expression {raw raw' text : String}
    (h : (showTable raw).result = .ok text) (h' : (showTable raw').result = .ok text) :
    (Text.Blank raw ∧ Text.Blank raw' ∧ text = hint) ∨
      (¬Text.Blank raw ∧ ¬Text.Blank raw' ∧ text ≠ hint ∧ Text.trim raw = Text.trim raw') := by
  have hhint : text = hint → Text.Blank raw ∧ Text.Blank raw' := by
    rintro rfl
    exact ⟨tokensOf_eq_nil_iff.mp (showTable_eq_hint_iff.mp h),
      tokensOf_eq_nil_iff.mp (showTable_eq_hint_iff.mp h')⟩
  by_cases htext : text = hint
  · exact Or.inl ⟨(hhint htext).1, (hhint htext).2, htext⟩
  · have hblank : ¬Text.Blank raw := fun hb => htext (by
      rw [showTable_of_blank hb] at h
      exact (Except.ok.inj h).symm)
    have hblank' : ¬Text.Blank raw' := fun hb => htext (by
      rw [showTable_of_blank hb] at h'
      exact (Except.ok.inj h').symm)
    obtain ⟨t, ht, rfl⟩ := exists_isTableOf_of_showTable hblank h
    obtain ⟨t', ht', heq⟩ := exists_isTableOf_of_showTable hblank' h'
    exact Or.inr ⟨hblank, hblank', htext, expression_eq_of_describe_eq ht ht'
      (Text.trimmed_trim raw) (Text.trimmed_trim raw') heq⟩

/-- An expression has the same report with blanks around it and without. The line feed inside it,
behind which the report could seem to go on with the table, counts. -/
theorem report_determines_expression_par :
    ∃ e text, e = "|| Triuth\ntable:" ∧
      (showTable ("\u00a0" ++ e ++ "\n")).result = .ok text ∧ (showTable e).result = .ok text ∧
      text ≠ hint ∧ Text.trim ("\u00a0" ++ e ++ "\n") = Text.trim e := by
  obtain ⟨text, htext⟩ : ∃ text, (showTable "|| Triuth\ntable:").result = .ok text := ⟨_, rfl⟩
  have hblank : Text.Blank "\u00a0" ∧ Text.Blank "\n" := by decide
  have htext' : (showTable ("\u00a0" ++ "|| Triuth\ntable:" ++ "\n")).result = .ok text := by
    rw [showTable_congr (Text.trim_append_append hblank.1 hblank.2 _), htext]
  rcases report_determines_expression htext' htext with ⟨-, hnone, -⟩ | ⟨-, -, hne, htrim⟩
  · exact absurd (tokensOf_eq_nil_iff.mpr hnone) (by decide)
  · exact ⟨_, text, rfl, htext', htext, hne, htrim⟩

end ProcessSpaces
