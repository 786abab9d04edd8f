import Solfege.Document.Basic
import Solfege.Settings.Basic
import Solfege.Yaml.Node.Reading
import Solfege.Yaml.Printer

/-!
Contract: settings as they are kept in a file.

Owns:
- the keys of the settings, and what may stand behind each;
- the defaults for keys that a file leaves out;
- the file that settings are saved as.

Does not own: the syntax of such a file. A key that is not known counts for nothing, and a
known key must not stand twice.
-/

namespace Solfege.Settings

open Yaml (Node Scalar)

/-! ### Values -/

/-- A text: any scalar, as it is written. -/
def text? : Node → Option String
  | .scalar _ value => some value.text
  | _ => none

/-- The bytes of the tags of booleans and of integers. -/
def standardTag (name : String) : Yaml.TagBytes :=
  Yaml.Handles.standardStart ++ Yaml.Handles.bytes name

/-- The text of a value that is no text itself: a plain scalar, or a literal one with the
tag of the value's type. -/
def unquoted? (tag : Yaml.TagBytes) : Node → Option String
  | .scalar _ value =>
      if value.form = .plain || (value.form = .literal && value.tag = some tag) then
        some value.text
      else
        none
  | _ => none

def boolean? (node : Node) : Option Bool :=
  (unquoted? (standardTag "bool") node).bind Scalar.boolean?

/-- Sizes have at most 64 bits. -/
def sizeBound : Nat := 18446744073709551616

/-- A size: an integer below the bound, without a minus sign, which not even zero may
have. -/
def size? (node : Node) : Option Nat :=
  (unquoted? (standardTag "int") node).bind fun written =>
    (Scalar.natural? written.toList).filter fun value => value < sizeBound

/-! ### Keys -/

/-- The settings by their keys. -/
inductive Key where
  | defaultTrack
  | checkInstruments
  | maxExpansion
  | logLevel
deriving DecidableEq, Repr

namespace Key

/-- Every key, in the order in which settings are saved. -/
def all : List Key := [defaultTrack, checkInstruments, maxExpansion, logLevel]

def written : Key → String
  | defaultTrack => "default_track"
  | checkInstruments => "check_instruments"
  | maxExpansion => "max_expansion"
  | logLevel => "log_level"

def ofWritten? (text : String) : Option Key :=
  all.find? fun key => key.written = text

end Key

/-- Changes the setting of a key to what a node holds. -/
def set? (settings : Settings) (key : Key) (value : Node) : Option Settings :=
  match key with
  | .defaultTrack => (text? value).map fun name => { settings with defaultTrack := name }
  | .checkInstruments =>
      (boolean? value).map fun check => { settings with checkInstruments := check }
  | .maxExpansion => (size? value).map fun limit => { settings with maxExpansion := limit }
  | .logLevel => (text? value).map fun level => { settings with logLevel := level }

/-! ### Reading -/

/-- Changes the settings by the entries of a mapping in a file with a root. `given` holds
the keys that stood in front of them. -/
def setAll? (root : Node) (settings : Settings) (given : List Key) :
    List (Node × Node) → Option Settings
  | [] => some settings
  | (key, value) :: rest =>
      match text? (root.follow key) with
      | none => none
      | some written =>
          match Key.ofWritten? written with
          | none => setAll? root settings given rest
          | some key =>
              if given.contains key then
                none
              else
                (settings.set? key (root.follow value)).bind fun changed =>
                  setAll? root changed (key :: given) rest

/-- The settings that the root of a file stands for. -/
def ofNode? (root : Node) : Option Settings :=
  match root with
  | .mapping _ entries => setAll? root standard [] entries
  | .scalar _ value => if value.form = .plain && value.text = "" then some standard else none
  | _ => none

/-- The settings that a file holds, if it holds any. -/
def ofString? (file : String) : Option Settings :=
  (Node.ofString? file).bind ofNode?

/-! ### Writing -/

def get (settings : Settings) : Key → Document
  | .defaultTrack => .text settings.defaultTrack
  | .checkInstruments => .boolean settings.checkInstruments
  | .maxExpansion => .natural settings.maxExpansion
  | .logLevel => .text settings.logLevel

def toDocument (settings : Settings) : Document :=
  .mapping (Key.all.map fun key => (key.written, settings.get key))

def toFile (settings : Settings) : String :=
  Yaml.print settings.toDocument

end Solfege.Settings
