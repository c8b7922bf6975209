import ProcessSpaces.Arguments

/-!
# A session at the command line

What surrounds a run of the program: the arguments are read, the run that they ask for is made, and
what it leaves behind is put on two streams, what was printed on the one, and what was logged and
reported on the other. Nothing else in the library depends on this.
-/

namespace ProcessSpaces

/-- What a session leaves behind. -/
structure Transcript where
  /-- The exit code. -/
  code : Nat
  /-- What is printed. -/
  stdout : String := ""
  /-- What is logged and reported. -/
  stderr : String := ""
deriving DecidableEq, Repr

/-- The line that shows an entry of the log, without the time of day. Details below the coarsest
level name the part of the program they come from. -/
def LogEntry.line (e : LogEntry) : String :=
  match e.level with
  | .info => s!"[{e.level.text}] {e.message}\n"
  | l => s!"[{l.text}] (1) triuth::interpreter::table: {e.message}\n"

/-- What a run puts on the two streams. -/
def Outcome.transcript (o : Outcome) : Transcript where
  code := o.code
  stdout := o.stdout
  stderr := String.join (o.log.map LogEntry.line) ++ o.message

namespace Stop

/-- How the program is called. -/
def usageLine : String := "Usage: triuth [OPTIONS] [CONTENTS]\n"

/-- What is shown to those who ask for help. -/
def helpText : String :=
  "Truth tables for process spaces expressions in prefix notation\n\n" ++ usageLine ++
  "\nArguments:\n" ++
  "  [CONTENTS]  The expression to tabulate, or a file path with `--file`. " ++
    "May start with `-`, e.g. `\"- A\"`\n" ++
  "\nOptions:\n" ++
  "  -f, --file              Treat `contents` as a file with one expression per line. " ++
    "Blank lines and lines starting with `#` are skipped\n" ++
  "  -c, --check             Report whether each expression holds in every row " ++
    "instead of printing the table\n" ++
  "      --catalog [<NAME>]  Run the built-in catalog: every entry, or only the one named\n" ++
  "  -v, --verbose...        Increase logging verbosity (-v info, -vv debug, -vvv trace)\n" ++
  "  -h, --help              Print help\n" ++
  "  -V, --version           Print version\n"

/-- What is left behind where no run is made. -/
def transcript : Stop → Transcript
  | usage => { code := 2, stderr := usageLine }
  | help => { code := 0, stdout := helpText }
  | version => { code := 0, stdout := "triuth 0.1.0\n" }

end Stop

/-- The session for a list of arguments, where `readFile?` finds the text of a file. -/
def runArgs (readFile? : String → Option String) (args : List String) : Transcript :=
  match Settings.ofArgs args with
  | .ok s => (s.run (s.path?.bind readFile?)).transcript
  | .error stop => stop.transcript

end ProcessSpaces
