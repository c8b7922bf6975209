import ProcessSpaces.Catalog
import ProcessSpaces.Report

/-!
# A run of the program

A run answers expressions one after the other: those of the catalog, those on the lines of a
file (`scriptExpressions`), or a single one. Each of them is a `Query`, and `runQueries` answers
queries until one fails; what was printed before that stays printed, and nothing of the failing
query is printed but its heading.

What is to be done is said by `Settings`, and `Settings.run` is the whole run as a function of
these and of the text of the file that they may name. What it leaves behind is its `Outcome`: what
was printed, which entries of the log were shown, what was reported in the end, and the exit code.
How the settings are asked for, and what an entry of the log looks like when it is shown, is no
matter of the run.
-/

namespace ProcessSpaces

/-- What a run leaves behind. -/
structure Outcome where
  /-- The exit code. -/
  code : Nat := 0
  /-- What is printed. -/
  stdout : String := ""
  /-- The entries of the log that are shown, in the order in which they were made. -/
  log : List LogEntry := []
  /-- What is reported to the user behind all that is logged: the error that ended the run, if
  there is one. -/
  message : String := ""
deriving DecidableEq

/-- An expression to be answered, with the entry of the catalog it comes from. -/
structure Query where
  /-- The entry of the catalog. -/
  entry? : Option CatalogEntry := none
  /-- The expression. -/
  expression : String
deriving DecidableEq, Repr

namespace Query

/-- The line that introduces an entry of the catalog. -/
def heading (q : Query) : String :=
  match q.entry? with
  | some e => "# " ++ e.name ++ ": " ++ e.description ++ "\n"
  | none => ""

/-- What the log says about an entry of the catalog. -/
def notice (q : Query) : List LogEntry :=
  match q.entry? with
  | some e => [.catalogEntry e.name]
  | none => []

end Query

/-- Answers queries one after the other, until one fails. -/
def runQueries (check : Bool) (verbosity : Nat) : List Query → Outcome
  | [] => {}
  | q :: qs =>
    let o := answer check q.expression
    let log := LogEntry.shown verbosity (q.notice ++ o.log)
    match o.result with
    | .ok text =>
      let later := runQueries check verbosity qs
      { later with
        stdout := q.heading ++ text ++ later.stdout
        log := log ++ later.log }
    | .error e => { code := 1, stdout := q.heading, log, message := e.message ++ "\n" }

/-- Queries behind queries that all have answers are answered as if they stood alone. -/
theorem runQueries_append {check : Bool} {verbosity : Nat} {l : List Query}
    (h : (runQueries check verbosity l).code = 0) (l' : List Query) :
    runQueries check verbosity (l ++ l') =
      { runQueries check verbosity l' with
        stdout := (runQueries check verbosity l).stdout ++ (runQueries check verbosity l').stdout
        log := (runQueries check verbosity l).log ++ (runQueries check verbosity l').log } := by
  induction l with
  | nil => simp [runQueries]
  | cons q l ih =>
    simp only [runQueries, List.cons_append] at h ⊢
    split at h
    · simp only [ih h, String.append_assoc, List.append_assoc]
    · cases h

/-- Whether a line without blanks at its ends holds an expression: it is neither empty nor a
comment. -/
def isExpressionLine : List Char → Bool
  | [] => false
  | c :: _ => c != '#'

/-- The expressions in a file: its lines without the blanks at their ends, other than empty
lines and those that begin with `#`. -/
def scriptExpressions (content : String) : List String :=
  let lines := (Text.lines content.toList).map Text.trimChars
  (lines.filter isExpressionLine).map String.ofList

/-- Why there is nothing to answer. -/
inductive QueryError where
  /-- No entry of the catalog has the name. -/
  | unknownEntry (name : String)
  /-- The file cannot be read, or what it holds is no text. -/
  | unreadableFile (path : String)
deriving DecidableEq, Repr

/-- The message shown for an error. -/
def QueryError.message : QueryError → String
  | unknownEntry name =>
    s!"Unknown catalog entry '{name}'. Run --catalog without a name to list them all."
  | unreadableFile path =>
    s!"Failed to read the input file '{path}'. Perhaps this file does not exist?"

/-- What a run is to do. -/
structure Settings where
  /-- Whether the plain text names a file. -/
  file : Bool := false
  /-- Whether expressions are only checked. -/
  check : Bool := false
  /-- How often more of the log was asked for. -/
  verbosity : Nat := 0
  /-- The catalog if it was asked for, or only the entry of a name. -/
  catalog? : Option (Option String) := none
  /-- The plain text. -/
  text? : Option String := none
deriving DecidableEq, Repr

namespace Settings

/-- The queries that the settings ask for, given the text of the file that they may name. The
catalog comes first. -/
def queries (s : Settings) (content? : Option String) : Except QueryError (List Query) :=
  match s.catalog? with
  | some none => .ok (catalog.map fun e => ⟨some e, e.expression⟩)
  | some (some name) =>
    match CatalogEntry.find? name with
    | some e => .ok [⟨some e, e.expression⟩]
    | none => .error (.unknownEntry name)
  | none =>
    let text := s.text?.getD ""
    if s.file then
      match content? with
      | some content => .ok ((scriptExpressions content).map fun e => ⟨none, e⟩)
      | none => .error (.unreadableFile text)
    else
      .ok [⟨none, text⟩]

/-- The file that the settings ask for. -/
def path? (s : Settings) : Option String :=
  if s.file && s.catalog?.isNone then s.text? else none

/-- The run that the settings ask for, given the text of the file that they name, if there is
one and its text can be read. -/
def run (s : Settings) (content? : Option String) : Outcome :=
  match s.queries content? with
  | .ok qs => runQueries s.check s.verbosity qs
  | .error e => { code := 1, message := e.message ++ "\n" }

end Settings

end ProcessSpaces
