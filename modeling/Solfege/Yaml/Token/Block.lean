import Solfege.Yaml.Token.Basic
import Solfege.Yaml.Cursor
import Solfege.Yaml.Scalar

/-!
Contract: block scalars, whose lines are indented below their sign.

Owns:
- the head behind the sign, which may settle the indentation and the end of the text;
- the indentation of a text that settles none itself;
- literal and folded lines, and the line breaks at the end of a text.

Does not own: what a block scalar is used for.
-/

namespace Solfege.Yaml.Token

/-! ### Heads -/

/-- What happens to the line breaks at the end of a text: none is left, the one behind its
last line is, or all are. -/
inductive Chomping where
  | strip
  | clip
  | keep
deriving DecidableEq, Repr

/-- What the head of a block scalar settles. -/
structure BlockHead where
  chomping : Chomping
  /-- By how much the text is indented, where the head tells. -/
  indent : Option Nat

/-- Reads a sign for the end of a text, which may be missing. -/
def takeChomping (cursor : Cursor) : Chomping × Cursor :=
  match cursor.rest with
  | '+' :: _ => (.keep, cursor.skip 1)
  | '-' :: _ => (.strip, cursor.skip 1)
  | _ => (.clip, cursor)

/-- Reads a digit for the indentation, which may be missing but not be zero. -/
def takeIndent? (cursor : Cursor) : Option (Option Nat × Cursor) :=
  match cursor.rest with
  | first :: _ =>
      if first = '0' then
        none
      else if first.isDigit then
        some (some (Scalar.digitValue first), cursor.skip 1)
      else
        some (none, cursor)
  | [] => some (none, cursor)

/-- Reads the head of a block scalar behind its sign, with the two marks in any order. -/
def blockHead? (cursor : Cursor) : Option (BlockHead × Cursor) :=
  match takeChomping cursor with
  | (.clip, _) => do
      let (indent, behind) ← takeIndent? cursor
      let (chomping, final) := if indent.isSome then takeChomping behind else (.clip, behind)
      some (⟨chomping, indent⟩, final)
  | (chomping, behind) => do
      let (indent, final) ← takeIndent? behind
      some (⟨chomping, indent⟩, final)

/-! ### Lines -/

/-- Skips empty lines and the blanks that indent the next one, which are as many as
`indent` where that is known. Gives the line breaks, latest first, the farthest column
that was reached, and the place. A tab must not stand where a blank indents. -/
def emptyLines (indent : Option Nat) :
    Nat → List Char → Nat → Cursor → Option (List Char × Nat × Cursor)
  | 0, _, _, _ => none
  | bound + 1, breaks, farthest, cursor =>
      let blanks := (cursor.rest.takeWhile fun character => character = ' ').length
      let next := cursor.skip (indent.elim blanks fun width => min blanks (width - cursor.column))
      let farthest := max farthest next.column
      if next.rest.head? = some '\t' && indent.all fun width => next.column < width then
        none
      else if next.rest.head?.any isBreak then
        let (text, behind) := next.takeBreak
        emptyLines indent bound (text.reverse ++ breaks) farthest behind
      else
        some (breaks, farthest, next)

/-- A text on its way, latest first: what is settled, the line break behind its last line,
those of the empty lines behind that, and whether its last line begins with a blank. -/
structure BlockText where
  found : List Char
  lastBreak : List Char
  emptyBreaks : List Char
  isIndented : Bool

/-- What joins the next line to a text, latest first. Folded lines are joined by a blank
instead of a newline, or by the empty lines between them, unless one of the two begins
with a blank. -/
def BlockText.joint (text : BlockText) (isFolded nextIsIndented : Bool) : List Char :=
  if isFolded && text.lastBreak = ['\n'] && !text.isIndented && !nextIsIndented then
    if text.emptyBreaks.isEmpty then [' '] else text.emptyBreaks
  else
    text.emptyBreaks ++ text.lastBreak.reverse

/-- Reads the lines of a text from the first character of one on. -/
def blockLines (isFolded : Bool) (indent : Nat) :
    Nat → BlockText → Cursor → Option (BlockText × Cursor)
  | 0, _, _ => none
  | bound + 1, text, cursor =>
      if cursor.column ≠ indent || cursor.isEnd then
        some (text, cursor)
      else do
        let isIndented := cursor.rest.head?.any isBlank
        let (line, behind) := cursor.takeWhile fun character => !isBreak character
        let found := line.reverse ++ (text.joint isFolded isIndented ++ text.found)
        let (lastBreak, next) := behind.takeBreak
        let (emptyBreaks, _, next) ←
          emptyLines (some indent) (next.rest.length + 1) [] 0 next
        blockLines isFolded indent bound ⟨found, lastBreak, emptyBreaks, isIndented⟩ next

/-- The text with the line breaks at its end chomped. -/
def BlockText.chomped (text : BlockText) (chomping : Chomping) : List Char :=
  match chomping with
  | .strip => text.found.reverse
  | .clip => (text.lastBreak.reverse ++ text.found).reverse
  | .keep => (text.emptyBreaks ++ (text.lastBreak.reverse ++ text.found)).reverse

/-! ### Scalars -/

/-- Reads a block scalar from its sign on. `parent` is the column of the block that it
stands in. Where the head does not tell, the text is indented as its first line is, but
at least more than that block. -/
def blockScalar (isFolded : Bool) (parent : Int) (cursor : Cursor) :
    Option (Token × Cursor) := do
  let (head, behind) ← blockHead? (cursor.skip 1)
  let start ← behind.finishLine?
  let given := head.indent.map fun width => (max 0 parent).toNat + width
  let (breaks, farthest, first) ← emptyLines given (start.rest.length + 1) [] 0 start
  let indent := given.getD (max farthest (max 1 (parent + 1).toNat))
  let (text, final) ←
    blockLines isFolded indent (first.rest.length + 1) ⟨[], [], breaks, false⟩ first
  some (scalar (String.ofList (text.chomped head.chomping))
    (if isFolded then .folded else .literal), final)

end Solfege.Yaml.Token
