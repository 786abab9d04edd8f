import Solfege.CommandLine.Run
import Solfege.Json.Printer
import Solfege.Settings.File
import Solfege.Yaml.Printer

/-!
Contract: the serialization that the program runs with.

Owns:
- the reader of settings and the printers of documents that stand where a run asks for them.

Does not own: the formats. A statement about runs is one about every serialization, with what it
relies on as a hypothesis, and this one serves as its example.
-/

namespace Solfege.CommandLine

/-- Settings are read from YAML, and documents are written as YAML or JSON. -/
def Serialization.standard : Serialization where
  readSettings file :=
    match Settings.ofString? file with
    | some settings => .ok settings
    | none => .error "malformed settings"
  write format document :=
    match format with
    | .yaml => .ok (Yaml.print document)
    | .json => .ok (Json.print document)

end Solfege.CommandLine
