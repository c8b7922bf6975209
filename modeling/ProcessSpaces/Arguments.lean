import ProcessSpaces.Run

/-!
# The arguments of the command line

The arguments are read from left to right. Each is a separator, one or more flags, the option
that asks for the catalog, or plain text (`Argument.read`), and the one thing that this depends
on is whether the plain text, of which there is at most one, is still to come. While it is, a
word that begins with a dash but is no known flag is plain text too, since expressions may well
begin with a dash; afterwards it is refused.

`Settings.ofArgs` collects what the arguments ask for. The reading stops at the first argument
that makes no sense, and at a flag that asks for the help or for the version, whichever comes
first.
-/

namespace ProcessSpaces

/-- The options that are either given or not. -/
inductive Flag where
  /-- The plain text names a file with an expression on each line. -/
  | file
  /-- Expressions are only checked. -/
  | check
  /-- More of the log is shown; may be repeated. -/
  | verbose
  /-- The help is shown, and nothing else is done. -/
  | help
  /-- The version is shown, and nothing else is done. -/
  | version
deriving DecidableEq, Repr

namespace Flag

/-- The flag with a given letter. -/
def ofLetter? : Char → Option Flag
  | 'f' => some file
  | 'c' => some check
  | 'v' => some verbose
  | 'h' => some help
  | 'V' => some version
  | _ => none

/-- The flag with a given long name. -/
def ofName? : String → Option Flag
  | "file" => some file
  | "check" => some check
  | "verbose" => some verbose
  | "help" => some help
  | "version" => some version
  | _ => none

end Flag

/-- What an argument is. -/
inductive Argument where
  /-- The separator, behind which all arguments are plain text. -/
  | separator
  /-- Flags, with `none` for what should be one and is not. -/
  | flags (l : List (Option Flag))
  /-- The option for the catalog, with the name of an entry if it is attached. -/
  | catalog (name? : Option String)
  /-- Plain text. -/
  | plain (text : String)
deriving DecidableEq, Repr

namespace Argument

/-- Reads an argument; `awaited` says whether plain text is still to come. -/
def read (awaited : Bool) (arg : String) : Argument :=
  match arg.toList with
  | ['-', '-'] => separator
  | '-' :: '-' :: cs =>
    let name := String.ofList (cs.takeWhile (· != '='))
    let attached? := (cs.dropWhile (· != '=')).tail?.map String.ofList
    if name = "catalog" then
      catalog attached?
    else
      match Flag.ofName? name with
      | some flag => if attached?.isNone then flags [some flag] else flags [none]
      | none => if awaited then plain arg else flags [none]
  | '-' :: c :: cs =>
    let letters := (c :: cs).map Flag.ofLetter?
    if awaited && letters.any Option.isNone then plain arg else flags letters
  | _ => plain arg

end Argument

/-- Why the reading of the arguments stops early. -/
inductive Stop where
  /-- An argument makes no sense, or one is missing. -/
  | usage
  /-- The help is asked for. -/
  | help
  /-- The version is asked for. -/
  | version
deriving DecidableEq, Repr

namespace Settings

/-- Heeds a flag. All but `verbose` may be given once. -/
def heed (s : Settings) : Option Flag → Except Stop Settings
  | some .file => if s.file then .error .usage else .ok { s with file := true }
  | some .check => if s.check then .error .usage else .ok { s with check := true }
  | some .verbose => .ok { s with verbosity := s.verbosity + 1 }
  | some .help => .error .help
  | some .version => .error .version
  | none => .error .usage

/-- Notes that the catalog, or the entry of a name, is asked for. -/
def heedCatalog (s : Settings) (name? : Option String) : Except Stop Settings :=
  if s.catalog?.isSome then .error .usage else .ok { s with catalog? := some name? }

/-- Notes the plain text. -/
def heedText (s : Settings) (text : String) : Except Stop Settings :=
  if s.text?.isSome then .error .usage else .ok { s with text? := some text }

/-- Heeds the arguments one after the other. Where the option for the catalog has no name
attached, the argument behind it is the name if it reads as plain text. -/
def heedAll (s : Settings) : List String → Except Stop Settings
  | [] => .ok s
  | arg :: args => do
    match Argument.read s.text?.isNone arg, args with
    | .separator, args => args.foldlM heedText s
    | .flags l, args => heedAll (← l.foldlM heed s) args
    | .plain text, args => heedAll (← s.heedText text) args
    | .catalog (some name), args => heedAll (← s.heedCatalog (some name)) args
    | .catalog none, [] => s.heedCatalog none
    | .catalog none, next :: args =>
      -- whatever is not plain text is left for its own turn
      match Argument.read s.text?.isNone next with
      | .plain name => heedAll (← s.heedCatalog (some name)) args
      | _ => heedAll (← s.heedCatalog none) (next :: args)

/-- What a list of arguments asks for. Either plain text or the catalog must be among it. -/
def ofArgs (args : List String) : Except Stop Settings := do
  let s ← heedAll {} args
  if s.text?.isNone && s.catalog?.isNone then .error .usage else return s

end Settings

end ProcessSpaces
