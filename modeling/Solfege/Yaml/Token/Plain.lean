import Solfege.Yaml.Token.Basic
import Solfege.Yaml.Token.Folding

/-!
Contract: plain scalars, which stand without quotes.

Owns:
- the signs that may not begin a plain scalar, and those that end one;
- the rule that its later lines are indented, except in flow collections.

Does not own: what a plain scalar stands for.
-/

namespace Solfege.Yaml.Token

/-- Signs that never begin a plain scalar. -/
def isReserved (character : Char) : Bool :=
  isFlowSign character ||
    ['#', '&', '*', '!', '|', '>', '\'', '"', '%', '@', '\x60'].contains character

/-- Whether a plain scalar may begin a text. -/
def beginsPlain (inFlow : Bool) : List Char → Bool
  | [] => false
  | first :: rest =>
      if first = '-' then
        !rest.head?.any isBlank
      else if first = '?' || first = ':' then
        !inFlow && !separatorNext rest
      else
        !(isSeparator first || isReserved first)

/-- Reads a word of a plain scalar: its characters, latest first. A colon ends it in front
of a separator; in a flow collection so do the signs of collections, and a colon must not
stand in front of them. -/
def plainWord (inFlow : Bool) : List Char → List Char → Option (List Char)
  | found, [] => some found
  | found, first :: rest =>
      if isSeparator first then
        some found
      else if inFlow && first = ':' &&
          (rest.head?.any isFlowSign || rest.head? = some '?') then
        none
      else if (first = ':' && separatorNext rest) || (inFlow && isFlowSign first) then
        some found
      else
        plainWord inFlow (first :: found) rest

/-- Goes on with a plain scalar behind a gap: its characters, latest first, whether a line
has ended behind the last of them, and the place where it was found to end. -/
def plainFrom (inFlow : Bool) (indent : Nat) :
    Nat → List Char → Gap → Cursor → Option (List Char × Bool × Cursor)
  | 0, _, _, _ => none
  | bound + 1, found, gap, cursor =>
      if cursor.isMarker || cursor.rest.head? = some '#' then
        some (found, gap.isBroken, cursor)
      else do
        let word ← plainWord inFlow [] cursor.rest
        let behind := cursor.skip word.length
        if word.isEmpty then
          some (found, gap.isBroken, cursor)
        else
          let found := word ++ (gap.reversedText ++ found)
          if behind.rest.head?.any isSeparator then
            let (gap, next) ← Gap.empty.read indent behind
            if !inFlow && next.column < indent then
              some (found, gap.isBroken, next)
            else
              plainFrom inFlow indent bound found gap next
          else
            some (found, false, behind)

/-- Reads a plain scalar, and tells whether a line has ended behind it. Outside of flow
collections its later lines begin in the column `indent` or behind it. -/
def plain (inFlow : Bool) (indent : Nat) (cursor : Cursor) : Option (Token × Bool × Cursor) := do
  let (found, isBroken, behind) ←
    plainFrom inFlow indent (cursor.rest.length + 1) [] Gap.empty cursor
  some (scalar (String.ofList found.reverse) .plain, isBroken, behind)

end Solfege.Yaml.Token
