import Mathlib.Logic.Relation
import ProcessSpaces.Proofs.Words
import ProcessSpaces.Run

/-!
# Running a script

A script is a text with an expression on each line, and a run answers them one after the other until
one fails. What such a run leaves behind is put together from what its lines leave behind: the
answers in front of the first failing line, nothing of that line but its error, and nothing behind
it (`runQueries_of_eq_ok`, `runQueries_of_eq_error`).

Which lines count, and what they hold, is found out by splitting the text at its line feeds and
trimming what lies between them. All there is to know about this is one equation: the expressions of
two texts with a line feed between them are those of the first and then those of the second
(`scriptExpressions_append`). So a line can be looked at by itself. It holds the same expression
with more blanks around it and with fewer, and none if it is blank or a comment, wherever it stands
(`scriptExpressions_eq_of_relaid`). A carriage return in front of a line feed is just a blank at the
end of a line, and the line feed at the end of a text has a blank line behind it.
-/

namespace ProcessSpaces

namespace Text

variable {l cs : List Char} {c : Char}

/-! ### Lines -/

/-- The lines behind a line feed are not looked at when a text is read in front of it. -/
theorem foldr_lineStep_append (cs : List Char) (ls : List (List Char)) :
    cs.foldr lineStep ([], ls) =
      ((cs.foldr lineStep ([], [])).1, (cs.foldr lineStep ([], [])).2 ++ ls) := by
  induction cs with
  | nil => rfl
  | cons c cs ih =>
    rw [List.foldr_cons, ih, List.foldr_cons, lineStep, lineStep]
    split
    · rfl
    · rfl

/-- **A line feed keeps lines apart**: the lines of a text are those in front of it and then those
behind it. -/
theorem lines_append_cons (cs ds : List Char) :
    lines (cs ++ '\n' :: ds) = lines cs ++ lines ds := by
  have hstep : ('\n' :: ds).foldr lineStep ([], []) = ([], lines ds) := rfl
  simp only [lines]
  rw [List.foldr_append, hstep, foldr_lineStep_append]
  rfl

/-- A text without line feeds is a single line. -/
theorem lines_of_not_mem (h : '\n' ∉ l) : lines l = [l] := by
  have hfold : l.foldr lineStep ([], []) = (l, []) := by
    induction l with
    | nil => rfl
    | cons c l ih =>
      rw [List.mem_cons, not_or] at h
      rw [List.foldr_cons, ih h.2, lineStep, if_neg fun e => h.1 e.symm]
  rw [lines, hfold]

/-- **Every text is its own lines**, with line feeds between them. -/
theorem exists_intercalate_eq (cs : List Char) :
    ∃ ls, cs = ['\n'].intercalate ls ∧ ls ≠ [] ∧ ∀ l ∈ ls, '\n' ∉ l := by
  induction cs with
  | nil => exact ⟨[[]], rfl, List.cons_ne_nil _ _, by simp⟩
  | cons c cs ih =>
    obtain ⟨ls, rfl, hne, hls⟩ := ih
    obtain ⟨l, ls, rfl⟩ := List.exists_cons_of_ne_nil hne
    obtain ⟨hl, hls'⟩ := List.forall_mem_cons.mp hls
    by_cases hc : c = '\n'
    · -- a line feed in front of a text puts an empty line in front of its lines
      refine ⟨[] :: l :: ls, ?_, List.cons_ne_nil _ _, List.forall_mem_cons.mpr ⟨?_, hls⟩⟩
      · rw [List.intercalate_cons_cons, hc]
        rfl
      · exact List.not_mem_nil
    · refine ⟨(c :: l) :: ls, ?_, List.cons_ne_nil _ _, List.forall_mem_cons.mpr ⟨?_, hls'⟩⟩
      · cases ls with
        | nil => rw [List.intercalate_singleton, List.intercalate_singleton]
        | cons l' ls => rw [List.intercalate_cons_cons, List.intercalate_cons_cons]; rfl
      · rw [List.mem_cons, not_or]
        exact ⟨fun e => hc e.symm, hl⟩

/-- The text without a carriage return at its end. -/
def dropReturn (l : List Char) : List Char :=
  if l.getLast? = some '\r' then l.dropLast else l

/-- The lines of a text, where a carriage return in front of a line feed belongs to the line
feed. -/
def endedLines (cs : List Char) : List (List Char) :=
  (lines cs).dropLast.map dropReturn ++ (lines cs).getLast?.toList

/-- A character with a carriage return in front of it if it is a line feed. -/
def withReturn (c : Char) : List Char := if c = '\n' then ['\r', '\n'] else [c]

/-- The text with a carriage return in front of each line feed. -/
def withReturns (s : String) : String := String.ofList (s.toList.flatMap withReturn)

theorem flatMap_withReturn_of_not_mem (h : '\n' ∉ l) : l.flatMap withReturn = l := by
  induction l with
  | nil => rfl
  | cons c l ih =>
    rw [List.mem_cons, not_or] at h
    rw [List.flatMap_cons, ih h.2, withReturn, if_neg fun e => h.1 e.symm]
    rfl

theorem flatMap_withReturn_append_cons (h : '\n' ∉ l) (cs : List Char) :
    (l ++ '\n' :: cs).flatMap withReturn = (l ++ ['\r']) ++ '\n' :: cs.flatMap withReturn := by
  rw [List.flatMap_append, flatMap_withReturn_of_not_mem h, List.flatMap_cons, withReturn,
    if_pos rfl, List.append_assoc]
  rfl

/-! ### Trimmed lines -/

/-- A carriage return at the end of a line does not count when it is trimmed. -/
theorem trimChars_append_return (l : List Char) : trimChars (l ++ ['\r']) = trimChars l := by
  have hreturn : ∀ c ∈ ['\r'], isBlank c = true := List.forall_mem_singleton.mpr rfl
  have htrim := trimChars_append_append (List.forall_mem_nil _) hreturn l
  rwa [List.nil_append] at htrim

/-- A carriage return in front of a line feed does not count when lines are trimmed. -/
theorem trimChars_dropReturn (l : List Char) : trimChars (dropReturn l) = trimChars l := by
  rw [dropReturn]
  split
  · next h =>
    obtain ⟨l', rfl⟩ := List.getLast?_eq_some_iff.mp h
    rw [List.dropLast_concat, trimChars_append_return]
  · rfl

/-- Carriage returns in front of line feeds do not count when the lines of a text are trimmed. -/
theorem map_trimChars_endedLines (cs : List Char) :
    (endedLines cs).map trimChars = (lines cs).map trimChars := by
  rw [endedLines]
  rcases (lines cs).eq_nil_or_concat with hnil | ⟨ls, l, hls⟩
  · rw [hnil]
    rfl
  · rw [hls, List.concat_eq_append, List.dropLast_concat, List.getLast?_concat, List.map_append,
      List.map_append, List.map_map]
    exact congrArg (· ++ _) (List.map_congr_left fun l _ => trimChars_dropReturn l)

/-- Trimming leaves a character in place that is not a blank. -/
theorem head?_trimChars_cons (h : isBlank c = false) (cs : List Char) :
    (trimChars (c :: cs)).head? = some c := by
  obtain ⟨g, g', hcs, hg, hg'⟩ := exists_eq_append_trimChars_append (c :: cs)
  have hne : isBlank c ≠ true := by rw [h]; exact Bool.false_ne_true
  rcases g with _ | ⟨d, g⟩
  · rcases hm : trimChars (c :: cs) with _ | ⟨d, m⟩
    · rw [hm, List.append_nil, List.nil_append] at hcs
      exact absurd (hg' c (hcs ▸ List.mem_cons_self)) hne
    · rw [hm] at hcs
      rw [(List.cons.inj hcs).1]
      rfl
  · rw [(List.cons.inj hcs).1] at hne
    exact absurd (hg d List.mem_cons_self) hne

end Text

/-! ### The expressions of a script -/

section Expressions

variable {line : String}

/-- Whether a line holds an expression depends on what trimming leaves of it. -/
theorem isExpressionLine_iff {l : List Char} :
    isExpressionLine l = true ↔ String.ofList l ≠ "" ∧ l.head? ≠ some '#' := by
  cases l with
  | nil => simp [isExpressionLine]
  | cons c l => simp [isExpressionLine]

/-- **The expressions of a script are its trimmed lines** but for those of which nothing is left and
those that begin with `#`. -/
theorem scriptExpressions_eq_filter (content : String) :
    scriptExpressions content =
      ((Text.endedLines content.toList).map fun l => Text.trim (String.ofList l)).filter
        fun e => e ≠ "" ∧ e.toList.head? ≠ some '#' := by
  have htrim : ((Text.endedLines content.toList).map fun l => Text.trim (String.ofList l)) =
      ((Text.endedLines content.toList).map Text.trimChars).map String.ofList := by
    rw [List.map_map]
    refine List.map_congr_left fun l _ => ?_
    rw [Text.trim, String.toList_ofList, Function.comp_apply]
  rw [htrim, Text.map_trimChars_endedLines, List.filter_map, scriptExpressions]
  refine congrArg _ (List.filter_congr fun l _ => ?_)
  rw [Bool.eq_iff_iff, isExpressionLine_iff, Function.comp_apply, decide_eq_true_iff,
    String.toList_ofList]

/-- **A line feed keeps expressions apart**: those of a script are the ones in front of it and then
the ones behind it. -/
theorem scriptExpressions_ofList_append_cons (cs ds : List Char) :
    scriptExpressions (String.ofList (cs ++ '\n' :: ds)) =
      scriptExpressions (String.ofList cs) ++ scriptExpressions (String.ofList ds) := by
  simp only [scriptExpressions, String.toList_ofList, Text.lines_append_cons, List.map_append,
    List.filter_append]

theorem scriptExpressions_append (a b : String) :
    scriptExpressions (a ++ "\n" ++ b) = scriptExpressions a ++ scriptExpressions b := by
  have happend : a ++ "\n" ++ b = String.ofList (a.toList ++ '\n' :: b.toList) := by
    simp [← String.toList_inj]
  rw [happend, scriptExpressions_ofList_append_cons, String.ofList_toList, String.ofList_toList]

/-- The expressions of a script are found line by line. -/
theorem scriptExpressions_intercalate (ls : List String) :
    scriptExpressions ("\n".intercalate ls) = ls.flatMap scriptExpressions := by
  induction ls with
  | nil => rfl
  | cons l ls ih =>
    cases ls with
    | nil => rw [String.intercalate_singleton, List.flatMap_singleton]
    | cons l' ls =>
      rw [String.intercalate_cons_cons, scriptExpressions_append, ih]
      rfl

/-- A single line holds what trimming leaves of it, or nothing. -/
theorem scriptExpressions_of_not_mem (h : '\n' ∉ line.toList) :
    scriptExpressions line =
      if isExpressionLine (Text.trimChars line.toList) then [Text.trim line] else [] := by
  rw [scriptExpressions, Text.lines_of_not_mem h, List.map_singleton, List.filter_cons]
  split
  · rfl
  · rfl

/-- The line holds no expression: it is blank, or a comment, which may be indented. -/
inductive PassedOver (line : String) : Prop
  /-- A blank line. -/
  | blank (h : Text.Blank line)
  /-- A comment. -/
  | comment {front rest : String} (h : Text.Blank front) (hline : line = front ++ "#" ++ rest)

theorem isExpressionLine_of_passedOver (h : PassedOver line) :
    isExpressionLine (Text.trimChars line.toList) = false := by
  rcases h with hblank | ⟨hfront, rfl⟩
  · rw [Text.trimChars_eq_nil_iff.mpr hblank]
    rfl
  · rename_i front rest
    have hhead : (Text.trimChars (front ++ "#" ++ rest).toList).head? = some '#' := by
      have htrim := Text.trimChars_append_append hfront (List.forall_mem_nil _) ('#' :: rest.toList)
      rw [String.toList_append, String.toList_append, List.append_assoc]
      rw [List.append_nil] at htrim
      exact htrim ▸ Text.head?_trimChars_cons (by decide) rest.toList
    rw [← Bool.not_eq_true, isExpressionLine_iff]
    exact fun h => h.2 hhead

/-- **Two layouts of one script.** The second script is the first one with a line inserted that is
passed over, with blanks around one of its lines, with a carriage return in front of each line feed,
or with a line feed at its end. -/
inductive Relaid : String → String → Prop
  /-- A line is inserted between others, or in front of all, or behind all. -/
  | insert {front back : List String} {line : String} (hline : '\n' ∉ line.toList)
      (h : PassedOver line) :
      Relaid ("\n".intercalate (front ++ back)) ("\n".intercalate (front ++ line :: back))
  /-- Blanks that are not line feeds are put around a line. -/
  | widen {front back : List String} {left line right : String}
      (hline : '\n' ∉ (left ++ line ++ right).toList) (hleft : Text.Blank left)
      (hright : Text.Blank right) :
      Relaid ("\n".intercalate (front ++ line :: back))
        ("\n".intercalate (front ++ (left ++ line ++ right) :: back))
  /-- A carriage return is put in front of each line feed. -/
  | returns (content : String) : Relaid content (Text.withReturns content)
  /-- A line feed is put at the end. -/
  | lineFeed (content : String) : Relaid content (content ++ "\n")

/-- Blanks around a line do not count. -/
theorem scriptExpressions_widen {left right : String}
    (hline : '\n' ∉ (left ++ line ++ right).toList) (hleft : Text.Blank left)
    (hright : Text.Blank right) :
    scriptExpressions (left ++ line ++ right) = scriptExpressions line := by
  have hline' : '\n' ∉ line.toList := fun h => hline (by simp [h])
  have htrim : Text.trimChars (left ++ line ++ right).toList = Text.trimChars line.toList := by
    rw [String.toList_append, String.toList_append, Text.trimChars_append_append hleft hright]
  rw [scriptExpressions_of_not_mem hline, scriptExpressions_of_not_mem hline', Text.trim,
    Text.trim, htrim]

/-- A carriage return at the end of a line does not count. -/
theorem scriptExpressions_append_return {l : List Char} (h : '\n' ∉ l) :
    scriptExpressions (String.ofList (l ++ ['\r'])) = scriptExpressions (String.ofList l) := by
  have hl : '\n' ∉ (String.ofList l).toList := by rwa [String.toList_ofList]
  have hreturn : '\n' ∉ (String.ofList (l ++ ['\r'])).toList := by
    rw [String.toList_ofList, List.mem_append, not_or]
    exact ⟨h, by decide⟩
  rw [scriptExpressions_of_not_mem hl, scriptExpressions_of_not_mem hreturn, Text.trim, Text.trim,
    String.toList_ofList, String.toList_ofList, Text.trimChars_append_return]

/-- Carriage returns in front of the line feeds do not count. -/
theorem scriptExpressions_withReturns (content : String) :
    scriptExpressions (Text.withReturns content) = scriptExpressions content := by
  obtain ⟨ls, hcontent, -, hls⟩ := Text.exists_intercalate_eq content.toList
  rw [← String.ofList_toList (s := content), Text.withReturns, String.toList_ofList, hcontent]
  clear hcontent
  induction ls with
  | nil => rfl
  | cons l ls ih =>
    obtain ⟨hl, hls⟩ := List.forall_mem_cons.mp hls
    cases ls with
    | nil => rw [List.intercalate_singleton, Text.flatMap_withReturn_of_not_mem hl]
    | cons l' ls =>
      rw [List.intercalate_cons_cons, List.append_assoc, List.singleton_append,
        Text.flatMap_withReturn_append_cons hl, scriptExpressions_ofList_append_cons,
        scriptExpressions_ofList_append_cons, scriptExpressions_append_return hl, ih hls]

/-- **The layout of a script makes no difference to its expressions.** -/
theorem scriptExpressions_eq_of_relaid {content content' : String} (h : Relaid content content') :
    scriptExpressions content' = scriptExpressions content := by
  rcases h with ⟨hline, h⟩ | ⟨hline, hleft, hright⟩ | _ | _
  · rw [scriptExpressions_intercalate, scriptExpressions_intercalate, List.flatMap_append,
      List.flatMap_append, List.flatMap_cons, scriptExpressions_of_not_mem hline,
      isExpressionLine_of_passedOver h]
    rfl
  · rw [scriptExpressions_intercalate, scriptExpressions_intercalate, List.flatMap_append,
      List.flatMap_append, List.flatMap_cons, List.flatMap_cons,
      scriptExpressions_widen hline hleft hright]
  · exact scriptExpressions_withReturns content
  · have happend := scriptExpressions_append content ""
    rw [String.append_empty] at happend
    rw [happend]
    exact List.append_nil _

end Expressions

/-! ### Answering expressions in turn -/

section Run

variable {check : Bool} {verbosity : Nat} {es : List String} {texts : List String}

/-- The entries of the log about the expressions that are shown. -/
def logOf (check : Bool) (verbosity : Nat) (es : List String) : List LogEntry :=
  es.flatMap fun e => LogEntry.shown verbosity (answer check e).log

/-- The results of answering each of the expressions. -/
def resultsOf (check : Bool) (es : List String) : List (Except EvalError String) :=
  es.map fun e => (answer check e).result

@[simp] theorem resultsOf_nil (check : Bool) : resultsOf check [] = [] := rfl

theorem resultsOf_cons (check : Bool) (e : String) (es : List String) :
    resultsOf check (e :: es) = (answer check e).result :: resultsOf check es := rfl

/-- **If all expressions have answers, these are what is printed.** -/
theorem runQueries_of_eq_ok (h : resultsOf check es = texts.map .ok) :
    runQueries check verbosity (es.map fun e => ⟨none, e⟩) =
      { code := 0, stdout := String.join texts, log := logOf check verbosity es } := by
  induction es generalizing texts with
  | nil =>
    obtain rfl : texts = [] := List.map_eq_nil_iff.mp h.symm
    rfl
  | cons e es ih =>
    rw [resultsOf_cons] at h
    cases texts with
    | nil => exact absurd h (List.cons_ne_nil _ _)
    | cons text texts =>
      obtain ⟨htext, hrest⟩ := List.cons.inj h
      simp only [List.map_cons, runQueries, htext, ih hrest, logOf, List.flatMap_cons,
        String.join_cons, Query.heading, Query.notice, List.nil_append, String.empty_append]

/-- **If an expression fails, what is printed are the answers to those in front of it**, and its
error is what is reported. -/
theorem runQueries_of_eq_error {e : String} {err : EvalError} (back : List String)
    (h : resultsOf check es = texts.map .ok) (he : (answer check e).result = .error err) :
    runQueries check verbosity ((es ++ e :: back).map fun e => ⟨none, e⟩) =
      { code := 1, stdout := String.join texts, log := logOf check verbosity (es ++ [e]),
        message := err.message ++ "\n" } := by
  have hfront : runQueries check verbosity (es.map fun e => ⟨none, e⟩) = _ := runQueries_of_eq_ok h
  rw [List.map_append, List.map_cons, runQueries_append (by rw [hfront]), hfront]
  simp only [runQueries, he, logOf, Query.heading, Query.notice, List.nil_append,
    String.append_empty, List.flatMap_append, List.flatMap_singleton]

/-- Either all expressions have answers, or there is a first one that fails. -/
theorem exists_first_error (check : Bool) (es : List String) :
    (∃ texts : List String, resultsOf check es = texts.map .ok) ∨
      ∃ front e back err, ∃ texts : List String, es = front ++ e :: back ∧
        resultsOf check front = texts.map .ok ∧ (answer check e).result = .error err := by
  induction es with
  | nil => exact Or.inl ⟨[], by rw [resultsOf_nil, List.map_nil]⟩
  | cons e es ih =>
    cases he : (answer check e).result with
    | error err =>
      exact Or.inr ⟨[], e, es, err, [], rfl, by rw [resultsOf_nil, List.map_nil], he⟩
    | ok text =>
      rcases ih with ⟨texts, htexts⟩ | ⟨front, e', back, err, texts, rfl, hfront, herr⟩
      · refine Or.inl ⟨text :: texts, ?_⟩
        rw [resultsOf_cons, he, htexts, List.map_cons]
      · refine Or.inr ⟨e :: front, e', back, err, text :: texts, rfl, ?_, herr⟩
        rw [resultsOf_cons, he, hfront, List.map_cons]

/-- Nothing coarser than the beginning of a table is logged about it. -/
theorem two_le_verbosity_of_mem_log_tabulate {entry : LogEntry} {e : String}
    (h : entry ∈ (tabulate e).log) : 2 ≤ entry.level.verbosity := by
  simp only [tabulate] at h
  split at h
  · cases h
  · rcases List.mem_cons.mp h with rfl | hrow
    · exact Nat.le_refl 2
    · obtain ⟨r, -, rfl⟩ := List.mem_map.mp hrow
      exact Nat.le_succ 2

/-- Unless it is asked for twice, nothing is logged about an expression. -/
theorem shown_answer_of_lt (h : verbosity < 2) (check : Bool) (raw : String) :
    LogEntry.shown verbosity (answer check raw).log = [] := by
  have hlog : ∀ entry ∈ (answer check raw).log, 2 ≤ entry.level.verbosity := by
    intro entry hentry
    simp only [answer] at hentry
    split at hentry
    · cases hentry
    · rw [Logged.log_map] at hentry
      exact two_le_verbosity_of_mem_log_tabulate hentry
  refine List.filter_eq_nil_iff.mpr fun entry hentry hle => ?_
  have hge := hlog entry hentry
  have hle' := of_decide_eq_true hle
  omega

/-- Unless it is asked for twice, nothing is logged about expressions. -/
theorem logOf_of_lt (h : verbosity < 2) (check : Bool) (es : List String) :
    logOf check verbosity es = [] := by
  rw [logOf, List.flatMap_eq_nil_iff]
  intro e _
  exact shown_answer_of_lt h check e

/-! ### The run for a script -/

variable {s : Settings}

/-- The run for a script answers its expressions. -/
theorem run_script_eq (hfile : s.file = true) (hcatalog : s.catalog? = none) (content : String) :
    s.run (some content) =
      runQueries s.check s.verbosity ((scriptExpressions content).map fun e => ⟨none, e⟩) := by
  simp only [Settings.run, Settings.queries, hcatalog, hfile, if_true]

end Run

/-- **A script is run line by line.** Suppose that a run is to read a file, and not the catalog. The
expressions in the text of the file are its trimmed lines, but for those of which nothing is left
and those that begin with `#`. If they all have answers, the run prints these one after the other,
reports nothing and succeeds. Otherwise it prints the answers in front of the first expression that
has none, and nothing else, reports the error of this expression, and fails; what is logged, if it
was asked for, is logged about the same expressions. It makes no difference to the run whether there
are more lines that are blank or comments, blanks around lines, carriage returns in front of the
line feeds, or a line feed at the end. And a script behind one that succeeds, with a line feed
between them, is run as if it stood alone. -/
theorem script_runs_line_by_line {s : Settings} (hfile : s.file = true)
    (hcatalog : s.catalog? = none) :
    (∀ content, scriptExpressions content =
      ((Text.endedLines content.toList).map fun l => Text.trim (String.ofList l)).filter
        fun e => e ≠ "" ∧ e.toList.head? ≠ some '#') ∧
    (∀ content, ∀ texts : List String,
      resultsOf s.check (scriptExpressions content) = texts.map .ok →
        s.run (some content) =
          { code := 0, stdout := String.join texts,
            log := logOf s.check s.verbosity (scriptExpressions content), message := "" }) ∧
    (∀ content front e back err, ∀ texts : List String,
      scriptExpressions content = front ++ e :: back → resultsOf s.check front = texts.map .ok →
      (answer s.check e).result = .error err →
        s.run (some content) =
          { code := 1, stdout := String.join texts,
            log := logOf s.check s.verbosity (front ++ [e]), message := err.message ++ "\n" }) ∧
    (∀ content, (∃ texts : List String,
        resultsOf s.check (scriptExpressions content) = texts.map .ok) ∨
      ∃ front e back err, ∃ texts : List String,
        scriptExpressions content = front ++ e :: back ∧
          resultsOf s.check front = texts.map .ok ∧ (answer s.check e).result = .error err) ∧
    (s.verbosity < 2 → ∀ es, logOf s.check s.verbosity es = []) ∧
    (∀ content content', Relation.EqvGen Relaid content content' →
      s.run (some content) = s.run (some content')) ∧
    ∀ f f', (s.run (some f)).code = 0 →
      s.run (some (f ++ "\n" ++ f')) =
        { code := (s.run (some f')).code
          stdout := (s.run (some f)).stdout ++ (s.run (some f')).stdout
          log := (s.run (some f)).log ++ (s.run (some f')).log
          message := (s.run (some f')).message } := by
  have hrun := run_script_eq hfile hcatalog
  refine ⟨scriptExpressions_eq_filter, fun content texts h => ?_,
    fun content front e back err texts hsplit hfront herr => ?_,
    fun content => exists_first_error s.check _, fun h => logOf_of_lt h s.check,
    fun content content' h => ?_, fun f f' hf => ?_⟩
  · rw [hrun, runQueries_of_eq_ok h]
  · rw [hrun, hsplit, runQueries_of_eq_error back hfront herr]
  · have hexpressions : scriptExpressions content = scriptExpressions content' := by
      induction h with
      | rel content content' h => exact (scriptExpressions_eq_of_relaid h).symm
      | refl content => rfl
      | symm content content' _ ih => exact ih.symm
      | trans content content' content'' _ _ ih ih' => exact ih.trans ih'
    rw [hrun, hrun, hexpressions]
  · rw [hrun] at hf
    rw [hrun, hrun, hrun, scriptExpressions_append, List.map_append, runQueries_append hf]

/-- In a script with a comment and an indented line, the second of three expressions fails. What the
first one is answered stays printed, the third is not looked at, and with carriage returns all this
is the same. -/
theorem script_runs_line_by_line_robust :
    ∃ (s : Settings) (text : String) (err : EvalError) (content : String),
      s = { file := true, check := true, text? := some "in.txt" } ∧
      content = "# laws\n\u2003== A A\n\nrobust\nrobust A" ∧
      (answer true "== A A").result = .ok text ∧ (answer true "robust").result = .error err ∧
      s.run (some content) =
        { code := 1, stdout := String.join [text], message := err.message ++ "\n" } ∧
      s.run (some content) = s.run (some (Text.withReturns content)) := by
  let s : Settings := { file := true, check := true, text? := some "in.txt" }
  obtain ⟨text, htext⟩ : ∃ text, (answer true "== A A").result = .ok text := ⟨_, rfl⟩
  obtain ⟨err, herr⟩ : ∃ err, (answer true "robust").result = .error err := ⟨_, rfl⟩
  obtain ⟨-, -, hfails, -, hquiet, hrelaid, -⟩ :=
    script_runs_line_by_line (s := s) rfl rfl
  have hexpressions : scriptExpressions "# laws\n\u2003== A A\n\nrobust\nrobust A" =
      ["== A A"] ++ "robust" :: ["robust A"] := by decide
  have hfront : resultsOf s.check ["== A A"] = [text].map .ok := by
    rw [resultsOf_cons, htext, resultsOf_nil]
    rfl
  have hrun := hfails _ _ _ _ err _ hexpressions hfront herr
  rw [hquiet (by decide)] at hrun
  exact ⟨s, text, err, _, rfl, rfl, htext, herr, hrun, hrelaid _ _ (.rel _ _ (.returns _))⟩

end ProcessSpaces
