import Solfege.CommandLine.Options

/-!
Contract: the arguments that ask for options.

Owns:
- what each argument changes, alone or with the one behind it;
- the rule that exactly one argument names the score.

Does not own: what options are, or the help and the version of the program. No statement about
a run depends on how its options were asked for.
-/

namespace Solfege.CommandLine.Options

def usage : String :=
  "usage: solfa [--emit tokens|ast|resolved] [--format yaml|json] [-o FILE] " ++
    "[--config FILE] [--no-instrument-check] [-v] INPUT"

/-- What one argument says. -/
inductive Argument where
  | source (name : String)
  | change (apply : Options → Options)

/-- An option with a value. -/
def valued? (option value : String) : Option Argument :=
  match option with
  | "--emit" =>
      (Stage.ofWord? value).map fun stage =>
        .change fun options => { options with stage := stage }
  | "--format" =>
      (Format.ofWord? value).map fun format =>
        .change fun options => { options with format := format }
  | "--output" => some (.change fun options => { options with output := some value })
  | "--config" => some (.change fun options => { options with settings := some value })
  | _ => none

/-- How often an argument asks for more to be logged. -/
def verbosityOf (argument : String) : Nat :=
  match argument.toList with
  | '-' :: 'v' :: rest => if rest.all fun letter => letter = 'v' then rest.length + 1 else 0
  | _ => if argument = "--verbose" then 1 else 0

/-- An argument that is complete by itself. -/
def argument? (argument : String) : Option Argument :=
  let characters := argument.toList
  let name := characters.takeWhile fun character => character ≠ '='
  if argument = "--no-instrument-check" then
    some (.change fun options => { options with isUnchecked := true })
  else if verbosityOf argument ≠ 0 then
    some (.change fun options =>
      { options with verbosity := options.verbosity + verbosityOf argument })
  else if name.length < characters.length && characters.head? = some '-' then
    valued? (String.ofList name) (String.ofList (characters.drop (name.length + 1)))
  else if characters.head? = some '-' then
    none
  else
    some (.source argument)

/-- Whether an argument is an option whose value is the next one. -/
def takesNext (argument : String) : Bool :=
  ["--emit", "--format", "--output", "--config"].contains argument

/-- Arguments in which each option is complete: its value stands behind an equals sign. -/
def completed : List String → List String
  | option :: value :: rest =>
      if takesNext option then
        (option ++ "=" ++ value) :: completed rest
      else if option = "-o" then
        ("--output=" ++ value) :: completed rest
      else
        option :: completed (value :: rest)
  | arguments => arguments

/-- What arguments ask for: exactly one of them names the score. -/
def ofArguments? (arguments : List String) : Option Options := do
  let parsed ← (completed arguments).mapM argument?
  let sources := parsed.filterMap fun
    | .source name => some name
    | .change _ => none
  let changes := parsed.filterMap fun
    | .source _ => none
    | .change apply => some apply
  match sources with
  | [source] => some (changes.foldl (fun options apply => apply options) (ofSource source))
  | _ => none

end Solfege.CommandLine.Options
