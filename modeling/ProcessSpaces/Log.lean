import ProcessSpaces.EvalError
import ProcessSpaces.Row
import ProcessSpaces.Text.Quoted

/-!
# The log

What the program does is recorded as a list of entries, each at one of three levels of detail.
A computation that keeps a log is a value of `Logged`: its entries, and its result or the
error that ended it. The log is part of the answer, so that a caller can show as much of it as
was asked for (`LogEntry.shown`), and in a form of its own choice.
-/

namespace ProcessSpaces

/-- The levels of detail of log entries, from the coarsest to the finest. -/
inductive Level where
  /-- What is worked on. -/
  | info
  /-- What is begun. -/
  | debug
  /-- Each step. -/
  | trace
deriving DecidableEq, Repr

/-- The name of a level. -/
def Level.text : Level → String
  | info => "INFO"
  | debug => "DEBUG"
  | trace => "TRACE"

/-- How often more detail has to be asked for until entries of the level are shown. -/
def Level.verbosity : Level → Nat
  | info => 1
  | debug => 2
  | trace => 3

/-- An entry of the log. -/
inductive LogEntry where
  /-- The catalog entry of this name is worked on. -/
  | catalogEntry (name : String)
  /-- A table with `count` rows over the given variables is begun. -/
  | enumerating (count : Nat) (names : List String) (expression : String)
  /-- A row of a table is done. -/
  | row (r : Row)
deriving DecidableEq

namespace LogEntry

/-- The level of detail of an entry. -/
def level : LogEntry → Level
  | catalogEntry _ => .info
  | enumerating _ _ _ => .debug
  | row _ => .trace

/-- The message of an entry. -/
def message : LogEntry → String
  | catalogEntry name => s!"catalog entry '{name}'"
  | enumerating count names expression =>
    s!"enumerating {count} assignments of {Text.quoteList names} for '{expression}'"
  | row r => s!"{r.valuation.text} -> {r.value.text}"

/-- The entries that are shown, if more detail has been asked for `verbosity` times. -/
def shown (verbosity : Nat) (log : List LogEntry) : List LogEntry :=
  log.filter fun e => e.level.verbosity ≤ verbosity

end LogEntry

/-- The outcome of a computation that keeps a log. -/
structure Logged (α : Type) where
  /-- The entries in the order in which they were made. -/
  log : List LogEntry
  /-- The result, or the error that ended the computation. -/
  result : Except EvalError α

/-- The outcome with a function applied to its result. -/
def Logged.map {α β : Type} (f : α → β) (o : Logged α) : Logged β :=
  ⟨o.log, o.result.map f⟩

@[simp] theorem Logged.result_map {α β : Type} (f : α → β) (o : Logged α) :
    (o.map f).result = o.result.map f := rfl

@[simp] theorem Logged.log_map {α β : Type} (f : α → β) (o : Logged α) :
    (o.map f).log = o.log := rfl

end ProcessSpaces
