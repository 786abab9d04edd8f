import Solfege.Token.Basic

/-!
Contract: tokens in which brackets nest.

Owns:
- lists of tokens in which every opening bracket has its closing one, for whatever pairs of
  brackets;
- such lists put together.

Does not own: what a reader makes of brackets.
-/

namespace Solfege.Token

/-- Every bracket among the tokens belongs to one of the pairs, and what stands between an
opening bracket and its closing one is of this kind again. -/
inductive Nested (pairs : List (Kind × Kind)) : List Token → Prop where
  | nil : Nested pairs []
  | plain {token : Token} {rest : List Token}
      (neither : ∀ pair ∈ pairs, token.kind ≠ pair.1 ∧ token.kind ≠ pair.2)
      (behind : Nested pairs rest) : Nested pairs (token :: rest)
  | enclosed {opening closing : Token} {inside rest : List Token}
      (pair : (opening.kind, closing.kind) ∈ pairs) (within : Nested pairs inside)
      (behind : Nested pairs rest) : Nested pairs (opening :: (inside ++ closing :: rest))

/-- The pair of square brackets. -/
def squareBrackets : List (Kind × Kind) := [(.leftBracket, .rightBracket)]

/-- The pairs of round and of square brackets. -/
def allBrackets : List (Kind × Kind) := [(.leftParen, .rightParen), (.leftBracket, .rightBracket)]

end Solfege.Token
