/-!
Contract: classes of characters in YAML files.

Owns:
- the ends of lines, and what each of them stands for;
- blanks, and the signs of flow collections;
- the characters of names, and those that a file may hold at all.

Does not own: where a character ends a scalar.
-/

namespace Solfege.Yaml

/-- Characters that end a line. -/
def isBreak (character : Char) : Bool :=
  character = '\n' || character = '\r' || character = '\x85' ||
    character = '\u2028' || character = '\u2029'

/-- What the end of a line stands for inside a scalar: a newline, but for the two
separators that stand for themselves. -/
def breakText (character : Char) : List Char :=
  if character = '\u2028' || character = '\u2029' then [character] else ['\n']

/-- Characters that separate words of a line. -/
def isBlank (character : Char) : Bool :=
  character = ' ' || character = '\t'

/-- Characters that separate: blanks, tabs and the ends of lines. -/
def isSeparator (character : Char) : Bool :=
  isBlank character || isBreak character

/-- Whether a separator or nothing comes next. -/
def separatorNext : List Char → Bool
  | [] => true
  | next :: _ => isSeparator next

/-- The signs that open, close and divide flow collections. -/
def isFlowSign (character : Char) : Bool :=
  [',', '[', ']', '\x7b', '\x7d'].contains character

/-- The characters of the names of anchors, handles and directives. -/
def isNameCharacter (character : Char) : Bool :=
  character.isAlphanum || character = '_' || character = '-'

/-- Whether a file may hold a character. -/
def isAllowed (character : Char) : Bool :=
  let code := character.toNat
  code = 0x09 || code = 0x0A || code = 0x0D || (0x20 ≤ code && code ≤ 0x7E) ||
    code = 0x85 || (0xA0 ≤ code && code ≤ 0xD7FF) || (0xE000 ≤ code && code ≤ 0xFFFD) ||
    0x10000 ≤ code

end Solfege.Yaml
