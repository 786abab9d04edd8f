/-!
Contract: what the reader of a score is inside of.

Owns:
- the constructs that nest, as the entries of a stack that mirrors the nesting;
- the marker that a list of expressions already holds one, which decides whether a
  postfix sign may follow.

Does not own: when an entry is pushed or popped.
-/

namespace Solfege.Reading

/-- A construct that the reader is inside of. -/
inductive Context where
  | movement
  | definition
  | group
  | arguments
  | hold
  | chord
  /-- The list being read already holds an expression. -/
  | expression
deriving DecidableEq, Repr, Inhabited

/-- The construct as internal problems name it. -/
def Context.name : Context → String
  | movement => "movement"
  | definition => "macro"
  | group => "group"
  | arguments => "arguments"
  | hold => "hold"
  | chord => "chord"
  | expression => "expression"

end Solfege.Reading
