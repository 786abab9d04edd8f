import Solfege.CommandLine.Arguments
import Solfege.CommandLine.Serialization

/-!
Contract: the program.

Owns:
- reading the files that a run needs, and putting its output where it goes.

Does not own: what a run does.
-/

namespace Solfege.Main

open CommandLine

def faultOf : IO.Error → FileFault
  | .noFileOrDirectory .. => .missing
  | error => .other (toString error)

def contentsOf (name : String) : IO Contents := do
  try
    match String.fromUTF8? (← IO.FS.readBinFile name) with
    | some text => pure (.ok text)
    | none => pure (.error .notText)
  catch error => pure (.error (faultOf error))

/-- Reads the file of settings in the home directory. -/
def homeContents : IO Contents := do
  match ← IO.getEnv "HOME" with
  | some home => contentsOf (home ++ "/.solfa/config.yaml")
  | none => pure (.error .missing)

def filesOf (options : Options) : IO Files := do
  let settings ←
    match options.settings with
    | some name => some <$> contentsOf name
    | none => pure none
  pure ⟨← contentsOf options.source, settings, ← homeContents⟩

/-- How much standard output took before it failed cannot be seen, and is not asked for. -/
def printFaultOf (error : IO.Error) : PrintFault := ⟨0, toString error⟩

/-- Puts the text of a run where it goes, and answers what kept it from there. -/
def deliver (options : Options) (text : String) : IO Faults := do
  match options.output with
  | some name =>
      try
        IO.FS.writeFile name text
        pure .absent
      catch error => pure ⟨some (faultOf error), none⟩
  | none =>
      try
        (← IO.getStdout).putStr text
        (← IO.getStdout).flush
        pure .absent
      catch error => pure ⟨none, some (printFaultOf error)⟩

def runArguments (arguments : List String) : IO UInt32 := do
  match Options.ofArguments? arguments with
  | none => do
      (← IO.getStderr).putStrLn Options.usage
      pure 2
  | some options => do
      let files ← filesOf options
      let faults ←
        match result .standard options files with
        | .ok text => deliver options text
        | .error _ => pure .absent
      let outcome := run .standard options files faults
      (← IO.getStderr).putStr outcome.stderr
      pure outcome.status.toUInt32

end Solfege.Main

def main (arguments : List String) : IO UInt32 :=
  Solfege.Main.runArguments arguments
