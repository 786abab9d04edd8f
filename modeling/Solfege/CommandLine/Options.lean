/-!
Contract: what the command line can be asked for.

Owns:
- the stages whose result can be printed, the formats, and the other options, with the value
  of each that is not asked for.

Does not own: the arguments that ask for them, or what is done for them.
-/

namespace Solfege.CommandLine

/-- The stage whose result is printed. -/
inductive Stage where
  | tokens
  | read
  | expanded
deriving DecidableEq, Repr

def Stage.ofWord? : String → Option Stage
  | "tokens" => some tokens
  | "ast" => some read
  | "resolved" => some expanded
  | _ => none

inductive Format where
  | yaml
  | json
deriving DecidableEq, Repr

def Format.ofWord? : String → Option Format
  | "yaml" => some yaml
  | "json" => some json
  | _ => none

/-- What is asked for. -/
structure Options where
  /-- The name of the file that holds the score. -/
  source : String
  stage : Stage
  format : Format
  /-- The name of the file that is written in place of printing. -/
  output : Option String
  /-- The name of the file of settings, in place of the one in the home directory. -/
  settings : Option String
  /-- Whether instruments and pitches are left unchecked. -/
  isUnchecked : Bool
  /-- How often more was asked to be logged. -/
  verbosity : Nat
deriving DecidableEq, Repr

namespace Options

/-- What is asked for where only a score is named. -/
def ofSource (source : String) : Options :=
  ⟨source, .expanded, .yaml, none, none, false, 0⟩

end Options

end Solfege.CommandLine
