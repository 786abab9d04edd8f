import Solfege.CommandLine.Options
import Solfege.Compiler
import Solfege.Document.Score
import Solfege.Settings.Basic

/-!
Contract: what a run of the command line does, given what its files hold, what becomes of its
output, and how settings are read and documents written.

Owns:
- the order in which a run can fail: settings, score, compilation, rendering, output;
- what is printed where, and the status that a run ends with;
- the rule that a run that fails before its output prints nothing but the reason, and writes no
  file.

Does not own: the formats of settings and documents, reading and writing files, or logging. A
write that fails leaves the file as it was, and standard error takes every line.
-/

namespace Solfege.CommandLine

/-! ### Surroundings -/

/-- How settings are read from the text of a file, and how documents are written in a format.
Either may fail, with a reason. -/
structure Serialization where
  readSettings : String → Except String Settings
  write : Format → Document → Except String String

/-- Why a file could not be read or written. -/
inductive FileFault where
  | missing
  | notText
  | other (reason : String)
deriving DecidableEq, Repr

def FileFault.message : FileFault → String
  | missing => "No such file or directory (os error 2)"
  | notText => "stream did not contain valid UTF-8"
  | other reason => reason

/-- What a file holds, if it can be read. -/
abbrev Contents := Except FileFault String

/-- What the files of a run hold. -/
structure Files where
  source : Contents
  /-- The file of settings that was asked for, if one was. -/
  settings : Option Contents
  /-- The file of settings in the home directory. -/
  homeSettings : Contents

/-- What keeps standard output from taking a text: how many characters it takes before it fails,
and why it fails. -/
structure PrintFault where
  taken : Nat
  reason : String
deriving DecidableEq, Repr

/-- What keeps the output of a run from the file or from standard output, if anything does,
whatever the text is. -/
structure Faults where
  file : Option FileFault
  stdout : Option PrintFault
deriving DecidableEq, Repr

def Faults.absent : Faults := ⟨none, none⟩

/-- Why settings could not be taken from a file. -/
inductive SettingsFault where
  | unreadable (fault : FileFault)
  | malformed (reason : String)
deriving DecidableEq, Repr

def SettingsFault.message : SettingsFault → String
  | unreadable fault => fault.message
  | malformed reason => reason

/-- The settings that a file holds. -/
def loadSettings (serialization : Serialization) : Contents → Except SettingsFault Settings
  | .error fault => .error (.unreadable fault)
  | .ok file => (serialization.readSettings file).mapError .malformed

/-! ### Failures -/

/-- Why a run fails. -/
inductive Failure where
  | settings (name : String) (fault : SettingsFault)
  | source (name : String) (fault : FileFault)
  | diagnostics (problems : List Diagnostic)
  | rendering (reason : String)
  | output (name : String) (fault : FileFault)
deriving DecidableEq, Repr

namespace Failure

/-- The status of a run that fails: 2 for files, 1 for problems of the score, and 70 for
faults of the program. -/
def status : Failure → Nat
  | settings _ _ => 2
  | source _ _ => 2
  | diagnostics problems => if problems.any Diagnostic.isInternal then 70 else 1
  | rendering _ => 70
  | output _ _ => 2

def lines : Failure → List String
  | settings name fault => [s!"error: cannot load config {name}: {fault.message}"]
  | source name fault => [s!"error: cannot read {name}: {fault.message}"]
  | diagnostics problems =>
      problems.map Diagnostic.text ++
        [s!"error: compilation failed with {problems.length} problem(s)"]
  | rendering reason => [s!"error: cannot serialize output: {reason}"]
  | output name fault => [s!"error: cannot write {name}: {fault.message}"]

end Failure

/-! ### Results -/

/-- The settings of a run. Those in the home directory count only if they can be taken
from their file. -/
def settingsOf (serialization : Serialization) (options : Options) (files : Files) :
    Except Failure Settings :=
  let loaded :=
    match options.settings, files.settings with
    | some name, some contents =>
        (loadSettings serialization contents).mapError (Failure.settings name)
    | some name, none => .error (.settings name (.unreadable .missing))
    | none, _ =>
        .ok ((loadSettings serialization files.homeSettings).toOption.getD Settings.standard)
  loaded.map fun settings =>
    if options.isUnchecked then { settings with checkInstruments := false } else settings

def stageResult (stage : Stage) (settings : Settings) (source : String) :
    Except (List Diagnostic) Document :=
  match stage with
  | .tokens =>
      match Token.tokenize source with
      | .error diagnostic => .error [diagnostic]
      | .ok tokens => .ok (.sequence (tokens.map Document.ofToken))
  | .read =>
      match Compiler.read settings source with
      | .error diagnostic => .error [diagnostic]
      | .ok score =>
          if score.hasErrors then .error score.diagnostics else .ok (Document.ofScore score)
  | .expanded => (Compiler.compile settings source).map Document.ofScore

/-- A text that ends in a newline: one is put behind it, if it does not. -/
def terminated (text : String) : String :=
  if text.toList.getLast? = some '\n' then text else text.push '\n'

def rendered (serialization : Serialization) (format : Format) (document : Document) :
    Except Failure String :=
  match serialization.write format document with
  | .error reason => .error (.rendering reason)
  | .ok text => .ok (terminated text)

/-- The text that a run prints or writes. -/
def result (serialization : Serialization) (options : Options) (files : Files) :
    Except Failure String :=
  match settingsOf serialization options files with
  | .error failure => .error failure
  | .ok settings =>
      match files.source with
      | .error fault => .error (.source options.source fault)
      | .ok source =>
          match stageResult options.stage settings source with
          | .error problems => .error (.diagnostics problems)
          | .ok document => rendered serialization options.format document

/-! ### Outcomes -/

/-- What a run leaves behind: its status, what it printed, and what it wrote to the file
of its output. -/
structure Outcome where
  status : Nat
  stdout : String
  stderr : String
  file : Option String
deriving DecidableEq, Repr

def failed (failure : Failure) : Outcome :=
  ⟨failure.status, "", String.join (failure.lines.map fun line => line ++ "\n"), none⟩

/-- The outcome of a run whose text standard output does not take whole: the program is
aborted. Of what it then says, only the reason is kept. -/
def aborted (fault : PrintFault) (text : String) : Outcome :=
  ⟨101, String.ofList (text.toList.take fault.taken),
    s!"failed printing to stdout: {fault.reason}\n", none⟩

/-- The outcome of a run with a result. -/
def finished (options : Options) (faults : Faults) (text : String) : Outcome :=
  match options.output with
  | none =>
      match faults.stdout with
      | none => ⟨0, text, "", none⟩
      | some fault => aborted fault text
  | some name =>
      match faults.file with
      | none => ⟨0, "", "", some text⟩
      | some fault => failed (.output name fault)

def run (serialization : Serialization) (options : Options) (files : Files) (faults : Faults) :
    Outcome :=
  match result serialization options files with
  | .error failure => failed failure
  | .ok text => finished options faults text

end Solfege.CommandLine
