import Solfege.Yaml.Cursor

/-!
Contract: what separates the words of a scalar that may go on over several lines.

Owns:
- gaps, of blanks on one line or of the ends of lines with the blanks around them;
- the text that a gap stands for: of one end of a line a blank, of more all but the
  first;
- the rule that no tab stands in front of the column of a block.

Does not own: which words a scalar has.
-/

namespace Solfege.Yaml

/-- What separates two words: blanks of one line, or the ends of lines. -/
structure Gap where
  /-- The blanks in front of the end of a line, latest first. -/
  blanks : List Char
  /-- Whether a line ends in the gap. -/
  isBroken : Bool
  /-- What the first end of a line stands for. -/
  firstBreak : List Char
  /-- What the other ends of lines stand for, latest first. -/
  otherBreaks : List Char

namespace Gap

/-- Nothing between two words. -/
def empty : Gap := ⟨[], false, [], []⟩

/-- The end of a line that stands for nothing. -/
def escapedBreak : Gap := ⟨[], true, [], []⟩

/-- The gap with one more blank, which counts only where no line has ended. -/
def addBlank (gap : Gap) (blank : Char) : Gap :=
  if gap.isBroken then gap else { gap with blanks := blank :: gap.blanks }

/-- The gap with one more end of a line. -/
def addBreak (gap : Gap) (text : List Char) : Gap :=
  if gap.isBroken then
    { gap with otherBreaks := text.reverse ++ gap.otherBreaks }
  else
    ⟨[], true, text, []⟩

/-- The text that a gap stands for, latest first. -/
def reversedText (gap : Gap) : List Char :=
  if !gap.isBroken then
    gap.blanks
  else if gap.firstBreak = ['\n'] then
    if gap.otherBreaks.isEmpty then [' '] else gap.otherBreaks
  else
    gap.otherBreaks ++ gap.firstBreak.reverse

/-- Goes on with a gap from a place on, up to the next word. A tab behind the end of a
line must not stand in front of the column `indent`. -/
def readFrom (indent : Nat) (gap : Gap) (line column offset : Nat) :
    List Char → Option (Gap × Cursor)
  | [] => some (gap, ⟨[], line, column, offset⟩)
  | '\r' :: '\n' :: rest => readFrom indent (gap.addBreak ['\n']) (line + 1) 0 0 rest
  | first :: rest =>
      if isBreak first then
        readFrom indent (gap.addBreak (breakText first)) (line + 1) 0 0 rest
      else if isBlank first then
        if gap.isBroken && column < indent && first = '\t' then
          none
        else
          readFrom indent (gap.addBlank first) line (column + 1) (offset + 1) rest
      else
        some (gap, ⟨first :: rest, line, column, offset⟩)

/-- Goes on with a gap from a place on, up to the next word. -/
def read (indent : Nat) (gap : Gap) (cursor : Cursor) : Option (Gap × Cursor) :=
  readFrom indent gap cursor.line cursor.column cursor.offset cursor.rest

end Gap

end Solfege.Yaml
