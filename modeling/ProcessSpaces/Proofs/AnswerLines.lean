import ProcessSpaces.Proofs.Checking

/-!
# The lines of an answer

An answer is printed as it is, and what is printed next follows on its heels. So each answer has to
end with a line feed, and with a single one. That there is one has been seen to already
(`answer_eq_endLine`); the question left is what stands in front of it. It is the full stop of the
hint, or the end of a judgement in words, or else the end of a row. For the last case it is needed
that there are rows at all: a table has at least one, since there is a valuation even of no names,
and an expression that does not hold has a counterexample (`Text.endsOnce_join`).

Inside an answer line feeds come from two sources. Some are put there to end lines, and others stand
in the expression, which may be spread over several lines. Rows have none of their own, since the
names of variables are words. So the lines of a table are those of the expression, twice, a fixed
line between the two copies, and one line for each row (`TruthTable.IsTableOf.lines_describe`). As a
text has one line more than it has line feeds (`Text.length_lines`), counting the ones is counting
the others.
-/

namespace ProcessSpaces

/-! ### Line feeds at the end -/

namespace Text

variable {s s' : String} {ls : List String}

/-- The text ends with exactly one line feed: some other character stands in front of it. -/
def EndsOnce (s : String) : Prop := ∃ cs c, s.toList = cs ++ [c, '\n'] ∧ c ≠ '\n'

theorem EndsOnce.append_left (h : EndsOnce s') (s : String) : EndsOnce (s ++ s') := by
  obtain ⟨cs, c, hs', hc⟩ := h
  exact ⟨s.toList ++ cs, c, by rw [String.toList_append, hs', List.append_assoc], hc⟩

/-- A line feed behind a text that does not end with one is the only one at the end. -/
theorem endsOnce_append_feed (hne : s ≠ "") (h : ¬LineEnded s) : EndsOnce (s ++ "\n") := by
  rcases s.toList.eq_nil_or_concat with hnil | ⟨cs, c, hs⟩
  · exact absurd (String.toList_eq_nil_iff.mp hnil) hne
  · rw [List.concat_eq_append] at hs
    refine ⟨cs, c, ?_, fun hc => h ⟨cs, ?_⟩⟩
    · rw [String.toList_append, hs, List.append_assoc]
      rfl
    · rw [hs, hc]

/-- **Lines end with one line feed**, if there are any, and each of them has something in it. -/
theorem endsOnce_join (hne : ls ≠ []) (h : ∀ l ∈ ls, l ≠ "" ∧ '\n' ∉ l.toList) :
    EndsOnce (String.join (ls.map fun l => l ++ "\n")) := by
  induction ls with
  | nil => exact absurd rfl hne
  | cons l ls ih =>
    obtain ⟨⟨hl, hfeed⟩, hrest⟩ := List.forall_mem_cons.mp h
    rw [List.map_cons, String.join_cons]
    cases ls with
    | nil =>
      have hnot : ¬LineEnded l := fun hend => hfeed (hend.mem (List.mem_singleton_self _))
      rw [List.map_nil, String.join_nil, String.append_empty]
      exact endsOnce_append_feed hl hnot
    | cons l' ls => exact (ih (List.cons_ne_nil _ _) hrest).append_left _

end Text

/-! ### Each answer ends with one line feed -/

section Answers

variable {raw e text : String} {t : TruthTable} {r : Row} {check : Bool}

/-- A row is written with a space in it. -/
theorem Row.text_ne_empty (r : Row) : r.text ≠ "" := by
  intro h
  have hspace : ' ' ∈ r.text.toList := by simp [Row.text]
  rw [h] at hspace
  cases hspace

/-- The hint is followed by a single line feed. -/
theorem endsOnce_hint : Text.EndsOnce (hint ++ "\n") :=
  Text.endsOnce_append_feed (by decide) (by decide)

/-- The description of a table ends with the line feed of its last row. -/
theorem TruthTable.IsTableOf.endsOnce_describe (h : t.IsTableOf e) :
    Text.EndsOnce t.describe := by
  have hne : t.rows.map Row.text ≠ [] := by
    rw [← List.length_pos_iff, List.length_map, h.length_rows]
    exact Valuation.number_pos _
  have hrows : ∀ l ∈ t.rows.map Row.text, l ≠ "" ∧ '\n' ∉ l.toList := by
    intro l hl
    obtain ⟨r, -, rfl⟩ := List.mem_map.mp hl
    exact ⟨r.text_ne_empty, h.lineFeed_not_mem hl⟩
  rw [TruthTable.describe_eq_heading]
  exact (Text.endsOnce_join hne hrows).append_left _

/-- The judgement on a table ends with the line feed behind its words, or with that of the last
counterexample. -/
theorem TruthTable.IsTableOf.endsOnce_judge (h : t.IsTableOf e) : Text.EndsOnce t.judge := by
  by_cases hvalid : t.isValid = true
  · have hwords : Text.EndsOnce (" rows" ++ "\n") :=
      Text.endsOnce_append_feed (by decide) (by decide)
    rw [TruthTable.judge_of_isValid hvalid]
    exact hwords.append_left _
  · have hne : t.counterexamples.map (fun r => "  " ++ r.text) ≠ [] := by
      rw [Ne, List.map_eq_nil_iff]
      exact TruthTable.counterexamples_ne_nil_iff.mpr hvalid
    have hrows : ∀ l ∈ t.counterexamples.map (fun r => "  " ++ r.text),
        l ≠ "" ∧ '\n' ∉ l.toList := by
      rw [List.forall_mem_map]
      intro r hr
      have hmem : r ∈ t.rows := (TruthTable.mem_counterexamples_iff.mp hr).1
      refine ⟨fun hempty => r.text_ne_empty (String.append_eq_empty_iff.mp hempty).2, ?_⟩
      have hindent : Text.OnlySpaces "  " := by decide
      exact (hindent.append (h.onlySpaces_text hmem)).not_mem_lineFeed
    have hlines := (Text.endsOnce_join hne hrows).append_left
      (t.expression ++ ": does not hold\n")
    rw [List.map_map] at hlines
    rw [TruthTable.judge_of_not_isValid hvalid, List.map_map]
    exact hlines

/-- **Every answer ends with exactly one line feed.** -/
theorem endsOnce_of_answer (h : (answer check raw).result = .ok text) : Text.EndsOnce text := by
  by_cases hblank : Text.Blank raw
  · rw [answer_of_blank hblank] at h
    cases h
    exact endsOnce_hint
  · rw [answer_of_not_blank hblank, Logged.result_map, map_eq_ok_iff] at h
    obtain ⟨t, htable, rfl⟩ := h
    have ht : t.IsTableOf (Text.trim raw) := tabulate_eq_ok_iff.mp htable
    cases check with
    | false => exact ht.endsOnce_describe
    | true => exact ht.endsOnce_judge

/-! ### The lines of a table -/

/-- A line feed between two texts keeps their lines apart. -/
theorem Text.lines_append_feed (s s' : String) :
    lines (s ++ "\n" ++ s').toList = lines s.toList ++ lines s'.toList := by
  rw [String.toList_append, String.toList_append, List.append_assoc]
  exact lines_append_cons s.toList s'.toList

/-- **A text has one line more than it has line feeds.** -/
theorem Text.length_lines (cs : List Char) : (lines cs).length = cs.count '\n' + 1 := by
  have hfold : (cs.foldr lineStep ([], [])).2.length = cs.count '\n' := by
    induction cs with
    | nil => rfl
    | cons c cs ih =>
      rw [List.foldr_cons, lineStep]
      by_cases hc : c = '\n'
      · rw [if_pos hc, hc, List.count_cons_self, List.length_cons]
        exact congrArg (· + 1) ih
      · rw [if_neg hc, List.count_cons_of_ne hc, ih]
  rw [lines, List.length_cons, hfold]

/-- The answer with the table is the report. -/
theorem result_answer_false (h : ¬Text.Blank raw) :
    (answer false raw).result = (showTable raw).result := by
  rw [answer_of_not_blank h, showTable_of_not_blank h]
  rfl

/-- A table may be kept for another text with the same tokens. -/
theorem TruthTable.IsTableOf.relabel {e' : String} (h : t.IsTableOf e)
    (htokens : tokensOf e' = tokensOf e) : { t with expression := e' }.IsTableOf e' where
  expression_eq := rfl
  names_eq := by
    rw [htokens]
    exact h.names_eq
  length_names_le := h.length_names_le
  length_rows := h.length_rows
  isAt := by
    rw [htokens]
    exact h.isAt

/-- The fixed line feeds of a description: behind the expression, behind the line in front of the
rows, and behind the second copy of the expression. -/
theorem TruthTable.describe_eq_feeds (t : TruthTable) :
    t.describe = "Your expression: " ++ t.expression ++ "\n" ++ ("Triuth table:" ++ "\n" ++
      (t.expression ++ "\n" ++ String.join (t.rows.map fun r => r.text ++ "\n"))) := by
  have hline : "\nTriuth table:\n" = "\n" ++ "Triuth table:" ++ "\n" :=
    String.toList_inj.mp (by simp)
  rw [describe_eq, hline]
  simp only [String.append_assoc]

/-- **The lines of a table** are those of the expression, twice, with a fixed line in between, and
one line for each row. Behind the last line feed there is nothing. -/
theorem TruthTable.IsTableOf.lines_describe (h : t.IsTableOf e) :
    Text.lines t.describe.toList =
      Text.lines ("Your expression: " ++ e).toList ++ ["Triuth table:".toList] ++
        Text.lines e.toList ++ t.rows.map (fun r => r.text.toList) ++ [[]] := by
  have hfixed : '\n' ∉ "Triuth table:".toList := by decide
  have hjoin := Text.lines_join fun l hl => h.lineFeed_not_mem hl
  rw [List.map_map, List.map_map] at hjoin
  rw [TruthTable.describe_eq_feeds, h.expression_eq, Text.lines_append_feed, Text.lines_append_feed,
    Text.lines_append_feed, Text.lines_of_not_mem hfixed]
  simp only [List.append_assoc, Function.comp_def] at hjoin ⊢
  rw [hjoin]

/-- The line feeds of a table are those of the expression, twice, three fixed ones, and one for each
row. -/
theorem TruthTable.IsTableOf.count_lineFeed_describe (h : t.IsTableOf e) :
    t.describe.toList.count '\n' = 2 * e.toList.count '\n' + 3 + t.rows.length := by
  have hlines := congrArg List.length h.lines_describe
  have hfront : "Your expression: ".toList.count '\n' = 0 := by decide
  simp only [List.length_append, Text.length_lines, List.length_map, List.length_singleton,
    String.toList_append, List.count_append, hfront] at hlines
  omega

end Answers

/-- **Answers are made of lines.** Whichever of its two modes is asked for, an answer ends with
exactly one line feed. No row of a table is written with a blank other than the space. If there is
more than blanks, then the answer with the table is the expression between the blanks, twice, with a
line in between, and then the rows, of which there is one for each valuation of the variables; and
but for the line feeds at the ends of the rows and the three that are written out here, all line
feeds stem from the two copies of the expression. -/
theorem answer_made_of_lines (raw : String) :
    (∀ check text, (answer check raw).result = .ok text →
      ∃ cs c, text.toList = cs ++ [c, '\n'] ∧ c ≠ '\n') ∧
    (∀ t, (tabulate raw).result = .ok t →
      ∀ r ∈ t.rows, ∀ c ∈ r.text.toList, Text.isBlank c = true → c = ' ') ∧
    (¬Text.Blank raw → ∀ text, (answer false raw).result = .ok text →
      ∃ t, (tabulate raw).result = .ok t ∧
        t.rows.length = 3 ^ (variablesOf (tokensOf raw)).length ∧
        text = "Your expression: " ++ Text.trim raw ++ "\n" ++ "Triuth table:" ++ "\n" ++
          Text.trim raw ++ "\n" ++ String.join (t.rows.map fun r => r.text ++ "\n") ∧
        Text.lines text.toList =
          Text.lines ("Your expression: " ++ Text.trim raw).toList ++ ["Triuth table:".toList] ++
            Text.lines (Text.trim raw).toList ++ t.rows.map (fun r => r.text.toList) ++ [[]] ∧
        text.toList.count '\n' =
          2 * (Text.trim raw).toList.count '\n' + 3 + 3 ^ (variablesOf (tokensOf raw)).length) := by
  refine ⟨fun check text h => endsOnce_of_answer h, fun t ht r hr => ?_, fun h text htext => ?_⟩
  · exact (tabulate_eq_ok_iff.mp ht).onlySpaces_text hr
  · rw [result_answer_false h, result_showTable_of_not_blank h, map_eq_ok_iff] at htext
    obtain ⟨t, ht, rfl⟩ := htext
    have htable : t.IsTableOf raw := tabulate_eq_ok_iff.mp ht
    have htrim := htable.relabel (tokensOf_trim raw)
    have hrows : t.rows.length = 3 ^ (variablesOf (tokensOf raw)).length := by
      rw [htable.length_rows, htable.names_eq, Valuation.number_eq_pow]
    refine ⟨t, ht, hrows, ?_, htrim.lines_describe, ?_⟩
    · rw [TruthTable.describe_eq_feeds]
      simp only [String.append_assoc]
    · rw [htrim.count_lineFeed_describe, hrows]

/-- An expression of two lines, whose second variable is called `\x7bA:`, has nine rows, so that its
table has `2 + 3 + 9` line feeds. The answer of the check ends with a single one, too. -/
theorem answer_made_of_lines_equal :
    ∃ text text' t, (answer false "\n== A\n\x7bA:\t").result = .ok text ∧
      (answer true "\n== A\n\x7bA:\t").result = .ok text' ∧
      (tabulate "\n== A\n\x7bA:\t").result = .ok t ∧ t.rows.length = 9 ∧
      (∃ r ∈ t.rows, ∃ c ∈ r.text.toList, Text.isBlank c = true ∧ c = ' ') ∧
      Text.trim "\n== A\n\x7bA:\t" = "== A\n\x7bA:" ∧ text.toList.count '\n' = 14 ∧
      (∃ cs c, text.toList = cs ++ [c, '\n'] ∧ c ≠ '\n') ∧
      ∃ cs c, text'.toList = cs ++ [c, '\n'] ∧ c ≠ '\n' := by
  obtain ⟨text, htext⟩ : ∃ text, (answer false "\n== A\n\x7bA:\t").result = .ok text := ⟨_, rfl⟩
  obtain ⟨text', htext'⟩ : ∃ text, (answer true "\n== A\n\x7bA:\t").result = .ok text := ⟨_, rfl⟩
  obtain ⟨hends, hrows, hlines⟩ := answer_made_of_lines "\n== A\n\x7bA:\t"
  have htrim : Text.trim "\n== A\n\x7bA:\t" = "== A\n\x7bA:" := by decide
  obtain ⟨t, ht, hlength, -, -, hcount⟩ := hlines (by decide) text htext
  rw [htrim] at hcount
  have hpos : 0 < t.rows.length := by
    rw [hlength]
    decide
  have hspace : ' ' ∈ t.rows[0].text.toList := by simp [Row.text]
  refine ⟨text, text', t, htext, htext', ht, hlength, ?_, htrim, hcount, hends _ _ htext,
    hends _ _ htext'⟩
  exact ⟨t.rows[0], List.getElem_mem hpos, ' ', hspace, rfl,
    hrows t ht _ (List.getElem_mem hpos) ' ' hspace rfl⟩

end ProcessSpaces
