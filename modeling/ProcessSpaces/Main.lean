import ProcessSpaces.Session

/-!
# The command line

Finds out which file the arguments ask for, reads it, and prints the outcome of the run.
-/

namespace ProcessSpaces

/-- The text of a file, if the file can be read and holds text. -/
def readFile? (path : String) : IO (Option String) := do
  try
    return some (← IO.FS.readFile path)
  catch _ =>
    return none

/-- The text of the file that the arguments name, if they name one. -/
def namedFile? (args : List String) : IO (Option String) :=
  match Settings.ofArgs args with
  | .ok s =>
    match s.path? with
    | some path => readFile? path
    | none => return none
  | .error _ => return none

end ProcessSpaces

/-- Runs the program. -/
def main (args : List String) : IO UInt32 := do
  let content? ← ProcessSpaces.namedFile? args
  let o := ProcessSpaces.runArgs (fun _ => content?) args
  IO.print o.stdout
  IO.eprint o.stderr
  return o.code.toUInt32
