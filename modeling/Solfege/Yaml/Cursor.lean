import Solfege.Yaml.Character

/-!
Contract: places in a YAML file, with the text that is left from there on.

Owns:
- the line and the column of a place, both counted from zero;
- its offset in bytes from the beginning of its line;
- the steps to later places: over characters of a line, and over the end of a line;
- the markers between documents.

Does not own: what the text means.
-/

namespace Solfege.Yaml

/-- A place in a file: the text from there on, its line and column, and its offset from
the beginning of the line in bytes. -/
structure Cursor where
  rest : List Char
  line : Nat
  column : Nat
  offset : Nat

namespace Cursor

def ofString (file : String) : Cursor := ⟨file.toList, 0, 0, 0⟩

def isEnd (cursor : Cursor) : Bool := cursor.rest.isEmpty

/-- The bytes that a run of characters takes. -/
def byteSize : List Char → Nat
  | [] => 0
  | char :: rest => char.utf8Size + byteSize rest

/-- The place behind a number of characters of the same line. -/
def skip (cursor : Cursor) (count : Nat) : Cursor :=
  let run := cursor.rest.take count
  ⟨cursor.rest.drop count, cursor.line, cursor.column + run.length,
    cursor.offset + byteSize run⟩

/-- The characters of a class that come next on the line, and the place behind them. -/
def takeWhile (cursor : Cursor) (isMember : Char → Bool) : List Char × Cursor :=
  let run := cursor.rest.takeWhile isMember
  (run, cursor.skip run.length)

/-- The place behind the characters of a class that come next on the line. -/
def skipWhile (cursor : Cursor) (isMember : Char → Bool) : Cursor :=
  (cursor.takeWhile isMember).2

/-- Steps over the end of a line, if one comes next, and tells what it stands for. A
return and a newline end one line together. -/
def takeBreak (cursor : Cursor) : List Char × Cursor :=
  match cursor.rest with
  | '\r' :: '\n' :: rest => (['\n'], ⟨rest, cursor.line + 1, 0, 0⟩)
  | first :: rest =>
      if isBreak first then (breakText first, ⟨rest, cursor.line + 1, 0, 0⟩) else ([], cursor)
  | [] => ([], cursor)

/-- The place behind a comment, if one comes next. -/
def skipComment (cursor : Cursor) : Cursor :=
  if cursor.rest.head? = some '#' then
    cursor.skipWhile fun character => !isBreak character
  else
    cursor

/-- The place at the beginning of the next line, if there is nothing left of this one but
blanks and a comment. -/
def finishLine? (cursor : Cursor) : Option Cursor :=
  let behind := (cursor.skipWhile isBlank).skipComment
  if behind.isEnd then
    some behind
  else if behind.rest.head?.any isBreak then
    some behind.takeBreak.2
  else
    none

/-- Whether a marker between documents comes next, of three equal signs. It stands at the
beginning of a line, in front of a separator. -/
def isMarkerOf (cursor : Cursor) (sign : Char) : Bool :=
  cursor.column = 0 && cursor.rest.take 3 = [sign, sign, sign] &&
    separatorNext (cursor.rest.drop 3)

/-- Whether a document begins or ends at a place. -/
def isMarker (cursor : Cursor) : Bool :=
  cursor.isMarkerOf '-' || cursor.isMarkerOf '.'

end Cursor

end Solfege.Yaml
