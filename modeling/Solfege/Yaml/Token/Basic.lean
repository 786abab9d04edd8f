/-!
Contract: the tokens of YAML files.

Owns:
- the scalars, with the form that they are written in;
- the signs of collections, and the places where indentation opens and closes them;
- anchors and the references to them, tags, directives, and the markers between documents.

Does not own: how tokens are found, or which of them make up a node.
-/

namespace Solfege.Yaml

/-- The forms that a scalar can be written in. -/
inductive Form where
  | plain
  | quoted
  | literal
  | folded
deriving DecidableEq, Repr

/-- A tag as bytes, which need not be text. -/
abbrev TagBytes := List UInt8

inductive Token where
  | versionDirective (major minor : Nat)
  | tagDirective (handle : String) (start : TagBytes)
  | documentStart
  | documentEnd
  | blockSequence
  | blockMapping
  | blockEnd
  | flowSequence
  | flowSequenceEnd
  | flowMapping
  | flowMappingEnd
  | item
  | comma
  | key
  | value
  | reference (name : String)
  | anchor (name : String)
  | tag (handle : String) (bytes : TagBytes)
  | scalar (text : String) (form : Form)
deriving DecidableEq, Repr

end Solfege.Yaml
