/-!
Contract: values to be printed, whatever the format.

Owns:
- the value tree: null, booleans, integers, texts, sequences, mappings whose fields keep
  their order, and values marked with a tag.

Does not own: the formats, or which values stand for scores.
-/

namespace Solfege

/-- A value to be printed. -/
inductive Document where
  | null
  | boolean (value : Bool)
  | integer (value : Int)
  | text (value : String)
  | sequence (items : List Document)
  | mapping (fields : List (String × Document))
  | tagged (tag : String) (value : Document)

namespace Document

instance : Inhabited Document := ⟨null⟩

/-- A value that may be missing. -/
def optional {α : Type} (encode : α → Document) : Option α → Document
  | some value => encode value
  | none => null

def natural (value : Nat) : Document :=
  integer value

end Document

end Solfege
