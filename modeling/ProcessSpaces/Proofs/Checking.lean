import ProcessSpaces.Proofs.Reports
import ProcessSpaces.Proofs.RowText
import ProcessSpaces.Proofs.Scripts
import ProcessSpaces.Proofs.Validity

/-!
# Checking an expression and reading its table

An expression can be answered in two modes, with its table or with the judgement on it. What the
second says could as well be read off the lines that the first prints: it says that the expression
holds if all rows end in `true`, tells how many there are, and lists the others if there are any
(`check_agrees_with_table`).

The rows are found in the text of a table as the lines behind its heading (`rowLines`). The heading
holds the expression twice, which may have line feeds of its own, so that it cannot be told by
counting lines; but the expression is known, and the rows have no line feeds (`rowLines_append`).
That a line ends in `true` is the same as the expression being true in the row, so that the
counterexamples are the lines that do not (`TruthTable.map_text_counterexamples`).

Both modes look for blanks by themselves, and trim the text by themselves. That they do so alike,
and that a line feed has to be added nowhere but to the hint, is `answer_eq_endLine`.
-/

namespace ProcessSpaces

variable {raw e text : String} {t : TruthTable}

/-! ### Lines with their ends -/

/-- **Lines are found again in the text in which each of them has a line feed at its end**, and
behind the last of these the text is empty. -/
theorem Text.lines_join {ls : List String} (h : ∀ l ∈ ls, '\n' ∉ l.toList) :
    lines (String.join (ls.map fun l => l ++ "\n")).toList = ls.map String.toList ++ [[]] := by
  induction ls with
  | nil => rfl
  | cons l ls ih =>
    obtain ⟨hl, hrest⟩ := List.forall_mem_cons.mp h
    have hline : (l ++ "\n" ++ String.join (ls.map fun l => l ++ "\n")).toList =
        l.toList ++ '\n' :: (String.join (ls.map fun l => l ++ "\n")).toList := by
      rw [String.toList_append, String.toList_append, List.append_assoc]
      rfl
    rw [List.map_cons, String.join_cons, hline, lines_append_cons, lines_of_not_mem hl, ih hrest]
    rfl

/-- The text ends with a line feed. -/
def Text.LineEnded (s : String) : Prop := ['\n'] <:+ s.toList

instance (s : String) : Decidable (Text.LineEnded s) := inferInstanceAs (Decidable (_ <:+ _))

/-- The text with a line feed at its end, which is added only where there is none. -/
def Text.endLine (s : String) : String := if LineEnded s then s else s ++ "\n"

theorem Text.LineEnded.append_left {s' : String} (h : LineEnded s') (s : String) :
    LineEnded (s ++ s') := by
  rw [LineEnded, String.toList_append]
  exact h.trans (List.suffix_append _ _)

/-- Lines may be added behind a line feed. -/
theorem Text.LineEnded.append_join {s : String} (h : LineEnded s) (ls : List String) :
    LineEnded (s ++ String.join (ls.map fun l => l ++ "\n")) := by
  induction ls generalizing s with
  | nil =>
    rw [List.map_nil, String.join_nil, String.append_empty]
    exact h
  | cons l ls ih =>
    have hfeed : LineEnded "\n" := by decide
    rw [List.map_cons, String.join_cons, ← String.append_assoc]
    exact ih ((hfeed.append_left l).append_left s)

/-- What stands in front of the rows in the text of a table. -/
def tableHeading (e : String) : String :=
  "Your expression: " ++ e ++ "\nTriuth table:\n" ++ e ++ "\n"

/-- The lines of the rows in the text of a table: those behind the heading, each of which has a line
feed at its end. -/
def rowLines (e text : String) : List String :=
  ((Text.lines (text.toList.drop (tableHeading e).toList.length)).dropLast).map String.ofList

theorem rowLines_append {ls : List String} (h : ∀ l ∈ ls, '\n' ∉ l.toList) (e : String) :
    rowLines e (tableHeading e ++ String.join (ls.map fun l => l ++ "\n")) = ls := by
  rw [rowLines, String.toList_append, List.drop_left, Text.lines_join h, List.dropLast_concat,
    List.map_map]
  simp

/-! ### The two modes -/

/-- Where there are only blanks, both modes answer with the hint. -/
theorem answer_of_blank (h : Text.Blank raw) (check : Bool) :
    answer check raw = ⟨[], .ok (hint ++ "\n")⟩ := by
  rw [answer, Text.trim_eq_empty_iff.mpr h]
  rfl

/-- Where there is more than blanks, both modes tabulate the trimmed text. -/
theorem answer_of_not_blank (h : ¬Text.Blank raw) (check : Bool) :
    answer check raw =
      (tabulate (Text.trim raw)).map (if check then TruthTable.judge else TruthTable.describe) := by
  have hne : ¬(Text.trim raw).isEmpty = true := mt Text.isEmpty_trim_iff.mp h
  simp only [answer, if_neg hne]

/-- **Both modes fail alike.** -/
theorem answer_eq_error_iff {err : EvalError} :
    (answer true raw).result = .error err ↔ (answer false raw).result = .error err := by
  by_cases h : Text.Blank raw
  · rw [answer_of_blank h, answer_of_blank h]
  · rw [answer_of_not_blank h, answer_of_not_blank h, Logged.result_map, Logged.result_map,
      map_eq_error_iff, map_eq_error_iff]

/-! ### The judgement in terms of lines -/

namespace TruthTable

/-- A table is valid exactly if all its lines end in `true`. -/
theorem isValid_iff_endsInTrue (t : TruthTable) :
    t.isValid = true ↔ ∀ l ∈ t.rows.map Row.text, Row.EndsInTrue l := by
  rw [isValid, List.all_eq_true, List.forall_mem_map]
  refine forall₂_congr fun r _ => ?_
  rw [Row.endsInTrue_iff, Row.holds_iff]

/-- **The lines of the counterexamples are those that do not end in `true`.** -/
theorem map_text_counterexamples (t : TruthTable) :
    t.counterexamples.map Row.text =
      (t.rows.map Row.text).filter fun l => ¬Row.EndsInTrue l := by
  have hholds (r : Row) : (!r.holds) = decide (¬Row.EndsInTrue r.text) := by
    rw [Bool.eq_iff_iff, decide_eq_true_iff, Row.endsInTrue_iff, ← Row.holds_iff,
      Bool.not_eq_true', Bool.not_eq_true]
  rw [counterexamples, List.filter_map]
  simp only [Function.comp_def, hholds]

theorem describe_eq_heading (t : TruthTable) :
    t.describe = tableHeading t.expression ++
      String.join ((t.rows.map Row.text).map fun l => l ++ "\n") := by
  rw [List.map_map]
  exact t.describe_eq

theorem judge_of_isValid (h : t.isValid = true) :
    t.judge = t.expression ++ ": holds in all " ++ toString t.rows.length ++ " rows\n" :=
  if_pos h

theorem judge_of_not_isValid (h : ¬t.isValid = true) :
    t.judge = t.expression ++ ": does not hold\n" ++
      String.join ((t.counterexamples.map Row.text).map fun l => "  " ++ l ++ "\n") := by
  rw [List.map_map]
  exact if_neg h

end TruthTable

/-! ### Line feeds at the end -/

namespace TruthTable

/-- The description of a table ends with a line feed. -/
theorem lineEnded_describe (t : TruthTable) : Text.LineEnded t.describe := by
  have hfeed : Text.LineEnded "\n" := by decide
  have hheading : Text.LineEnded (tableHeading t.expression) := hfeed.append_left _
  rw [describe_eq_heading]
  exact hheading.append_join _

/-- The judgement ends with a line feed. -/
theorem lineEnded_judge (t : TruthTable) : Text.LineEnded t.judge := by
  by_cases h : t.isValid = true
  · have hrows : Text.LineEnded " rows\n" := by decide
    rw [judge_of_isValid h]
    exact hrows.append_left _
  · have hfails : Text.LineEnded ": does not hold\n" := by decide
    have hlines := (hfails.append_left t.expression).append_join
      ((t.counterexamples.map Row.text).map fun l => "  " ++ l)
    rw [List.map_map] at hlines
    rw [judge_of_not_isValid h]
    exact hlines

end TruthTable

/-- A text that ends with a line feed gets no other one. -/
theorem Logged.map_endLine {α : Type} {f : α → String} (hf : ∀ a, Text.LineEnded (f a))
    (o : Logged α) : (o.map f).map Text.endLine = o.map f := by
  have hend (a : α) : Text.endLine (f a) = f a := if_pos (hf a)
  obtain ⟨log, result⟩ := o
  rw [Logged.map, Logged.map, map_map]
  simp only [hend]

/-- The hint does not end with a line feed. -/
theorem endLine_hint : Text.endLine hint = hint ++ "\n" := if_neg (by decide)

/-- **Each answer ends with a line feed, which is added where it is missing.** An answer is the
judgement on the trimmed text or the report on it, for which it is trimmed and looked at for blanks
once more. Only the hint has no line feed of its own. -/
theorem answer_eq_endLine (check : Bool) (raw : String) :
    answer check raw =
      (if check && !(Text.trim raw).isEmpty then
        (tabulate (Text.trim raw)).map TruthTable.judge
      else
        showTable (Text.trim raw)).map Text.endLine := by
  by_cases h : Text.Blank raw
  · rw [Text.isEmpty_trim_iff.mpr h, Bool.not_true, Bool.and_false, if_neg Bool.false_ne_true,
      showTable_congr (Text.trim_trim raw), showTable_of_blank h, answer_of_blank h, ← endLine_hint]
    rfl
  · have hne : (Text.trim raw).isEmpty = false :=
      Bool.eq_false_iff.mpr (mt Text.isEmpty_trim_iff.mp h)
    rw [hne, Bool.not_false, Bool.and_true, showTable_congr (Text.trim_trim raw),
      showTable_of_not_blank h, answer_of_not_blank h]
    cases check with
    | false => exact (Logged.map_endLine TruthTable.lineEnded_describe _).symm
    | true => exact (Logged.map_endLine TruthTable.lineEnded_judge _).symm

/-- **The judgement can be read off the table.** The two modes fail alike, and otherwise both have
an answer. If there are only blanks, this is the hint in both. If there is an expression, let the
row lines be the lines behind the second copy of it in the text of the table; there is one for each
valuation of the variables. If all of them end in `true`, then the answer of the check is that the
expression holds in all rows, with their number. Otherwise it is that it does not hold, and then, in
the same order, the row lines that do not end in `true`, of which there is at least one. -/
theorem check_agrees_with_table (raw : String) :
    (∀ err, (answer true raw).result = .error err ↔ (answer false raw).result = .error err) ∧
    (Text.Blank raw → ∀ check, (answer check raw).result = .ok (hint ++ "\n")) ∧
    (¬Text.Blank raw → ∀ text, (answer false raw).result = .ok text →
      ∃ ls, ls = rowLines (Text.trim raw) text ∧
        text = tableHeading (Text.trim raw) ++ String.join (ls.map fun l => l ++ "\n") ∧
        (∀ l ∈ ls, '\n' ∉ l.toList) ∧
        ls.length = 3 ^ (variablesOf (tokensOf raw)).length ∧
        ((∀ l ∈ ls, Row.EndsInTrue l) → (answer true raw).result =
          .ok (Text.trim raw ++ ": holds in all " ++ toString ls.length ++ " rows\n")) ∧
        ((¬∀ l ∈ ls, Row.EndsInTrue l) → (ls.filter fun l => ¬Row.EndsInTrue l) ≠ [] ∧
          (answer true raw).result = .ok (Text.trim raw ++ ": does not hold\n" ++ String.join
            ((ls.filter fun l => ¬Row.EndsInTrue l).map fun l => "  " ++ l ++ "\n")))) := by
  refine ⟨fun err => answer_eq_error_iff, fun h check => ?_, fun h text htext => ?_⟩
  · rw [answer_of_blank h]
  · rw [answer_of_not_blank h, Logged.result_map, map_eq_ok_iff] at htext
    obtain ⟨t, htable, rfl⟩ := htext
    have ht : t.IsTableOf (Text.trim raw) := tabulate_eq_ok_iff.mp htable
    have hjudge : (answer true raw).result = .ok t.judge := by
      rw [answer_of_not_blank h, Logged.result_map, htable]
      rfl
    have hlines : ∀ l ∈ t.rows.map Row.text, '\n' ∉ l.toList := by
      intro l hl
      obtain ⟨r, hr, rfl⟩ := List.mem_map.mp hl
      exact (ht.onlySpaces_text hr).not_mem_lineFeed
    have hdescribe : t.describe = tableHeading (Text.trim raw) ++
        String.join ((t.rows.map Row.text).map fun l => l ++ "\n") := by
      rw [t.describe_eq_heading, ht.expression_eq]
    refine ⟨t.rows.map Row.text, ?_, hdescribe, hlines, ?_, fun hall => ?_, fun hnot => ?_⟩
    · exact (hdescribe ▸ rowLines_append hlines (Text.trim raw)).symm
    · rw [List.length_map, ht.length_rows, ht.names_eq, tokensOf_trim, Valuation.number_eq_pow]
    · rw [hjudge, TruthTable.judge_of_isValid (t.isValid_iff_endsInTrue.mpr hall),
        ht.expression_eq, List.length_map]
    · have hvalid : ¬t.isValid = true := mt t.isValid_iff_endsInTrue.mp hnot
      rw [hjudge, TruthTable.judge_of_not_isValid hvalid, ht.expression_eq,
        ← t.map_text_counterexamples]
      refine ⟨?_, rfl⟩
      rw [Ne, List.map_eq_nil_iff]
      exact TruthTable.counterexamples_ne_nil_iff.mpr hvalid

/-- A variable may have a name that begins with a brace and ends in `true`. The row in which it is
rejected ends in `false`, and is all that the check lists. -/
theorem check_agrees_with_table_robust :
    ∃ text, (answer false " robust \x7btrue\n").result = .ok text ∧
      rowLines "robust \x7btrue" text =
        ["\x7b\x7btrue: R\x7d false", "\x7b\x7btrue: G\x7d true", "\x7b\x7btrue: E\x7d true"] ∧
      (answer true " robust \x7btrue\n").result =
        .ok ("robust \x7btrue: does not hold\n" ++ "  \x7b\x7btrue: R\x7d false\n") := by
  obtain ⟨text, htext, hlines⟩ :
    ∃ text, (answer false " robust \x7btrue\n").result = .ok text ∧
      rowLines "robust \x7btrue" text =
        ["\x7b\x7btrue: R\x7d false", "\x7b\x7btrue: G\x7d true", "\x7b\x7btrue: E\x7d true"] :=
    ⟨_, rfl, by decide⟩
  obtain ⟨-, -, hagrees⟩ := check_agrees_with_table " robust \x7btrue\n"
  obtain ⟨ls, hls, -, -, -, -, hfails⟩ := hagrees (by decide) text htext
  have htrim : Text.trim " robust \x7btrue\n" = "robust \x7btrue" := by decide
  rw [htrim, hlines] at hls
  subst hls
  refine ⟨text, htext, hlines, ?_⟩
  rw [(hfails (by decide)).2, htrim]
  decide

end ProcessSpaces
