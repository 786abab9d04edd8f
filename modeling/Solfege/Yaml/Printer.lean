import Solfege.Document.Basic
import Solfege.Yaml.Character
import Solfege.Yaml.Scalar

/-!
Contract: documents as YAML in block form.

Owns:
- the choice between plain, quoted and literal texts;
- the layout: two blanks to a level, sequences at the level of the key that they belong
  to, empty sequences and mappings on one line, and no folding of long lines;
- keys that are too long or span lines, which are written behind a question mark.

Does not own: what a plain text would be read as.
-/

namespace Solfege.Yaml

/-! ### Classes of characters -/

/-- Characters that are written as themselves. -/
def isPrintable (character : Char) : Bool :=
  let code := character.toNat
  code = 0x0A || (0x20 ≤ code && code ≤ 0x7E) || (0xA0 ≤ code && code ≤ 0xD7FF) ||
    (0xE000 ≤ code && code ≤ 0xFFFD && code ≠ 0xFEFF) || 0x10000 ≤ code

/-- Characters that mean something else at the beginning of a plain text. -/
def isIndicator (character : Char) : Bool :=
  ['#', ',', '[', ']', '\x7b', '\x7d', '&', '*', '!', '|', '>', '\'', '"', '%', '@',
    '\x60'].contains character

/-- Characters that mean something else at the beginning of a plain text where a
separator or nothing follows them. -/
def isLooseIndicator (character : Char) : Bool :=
  character = '?' || character = ':' || character = '-'

/-! ### Styles -/

/-- The ways to write a text. -/
inductive Style where
  | plain
  | singleQuoted
  | doubleQuoted
  | literal
deriving DecidableEq, Repr

/-- Whether a sign inside a plain text ends it: a colon before a separator, or a number
sign behind one. -/
def endsInside : List Char → Bool
  | [] => false
  | ':' :: rest => separatorNext rest || endsInside rest
  | first :: '#' :: rest => isSeparator first || endsInside ('#' :: rest)
  | _ :: rest => endsInside rest

/-- Whether a text means something else when it is written plainly. -/
def hasIndicators (characters : List Char) : Bool :=
  match characters with
  | [] => false
  | first :: rest =>
      isIndicator first || (isLooseIndicator first && separatorNext rest) ||
        characters.take 3 = ['-', '-', '-'] || characters.take 3 = ['.', '.', '.'] ||
        endsInside rest || (isSeparator first && rest.head? = some '#')

/-- Whether a character of one class is followed by one of another. -/
def hasPair (left right : Char → Bool) : List Char → Bool
  | first :: second :: rest => (left first && right second) || hasPair left right (second :: rest)
  | _ => false

def isSpace (character : Char) : Bool :=
  character = ' '

/-- Whether a blank in front of the end of a line, or a character that cannot be written
as itself, leaves no style but the one with escapes. -/
def needsEscapes (characters : List Char) : Bool :=
  hasPair isSpace isBreak characters || !characters.all isPrintable

def allowsPlain (characters : List Char) : Bool :=
  !(needsEscapes characters || characters.any isBreak || hasIndicators characters ||
    characters.head?.any isSpace || characters.getLast?.any isSpace)

def allowsSingleQuotes (characters : List Char) : Bool :=
  !(needsEscapes characters || hasPair isBreak isSpace characters)

def allowsLiteral (characters : List Char) : Bool :=
  !(needsEscapes characters || characters.isEmpty || characters.getLast?.any isSpace)

/-- Whether a text would be read as something else when it is written plainly. -/
def needsQuotes (written : String) : Bool :=
  Scalar.resolve written ≠ .text || Scalar.isPaddedText written

/-- The style of a text. Texts of several lines are literal blocks; of the others, those
that would be read as something else are quoted. A style that a text does not allow gives
way to the next one. -/
def styleOf (written : String) : Style :=
  let characters := written.toList
  if characters.contains '\n' then
    if allowsLiteral characters then .literal else .doubleQuoted
  else if !needsQuotes written && allowsPlain characters then
    .plain
  else if allowsSingleQuotes characters then
    .singleQuoted
  else
    .doubleQuoted

/-! ### Texts -/

/-- As many blanks as a level is wide. -/
def blanks (width : Nat) : List Char :=
  List.replicate width ' '

private def upperHexDigit (value : Nat) : Char :=
  if value < 10 then Char.ofNat ('0'.toNat + value) else Char.ofNat ('A'.toNat + value - 10)

/-- The last digits of a number in base sixteen, as many as asked for. -/
def hexDigits : Nat → Nat → List Char
  | 0, _ => []
  | count + 1, value => hexDigits count (value / 16) ++ [upperHexDigit (value % 16)]

/-- A character as it is written in double quotes. Those that need their code point
written have four digits at most. -/
def escape (character : Char) : List Char :=
  match character with
  | '"' => ['\\', '"']
  | '\\' => ['\\', '\\']
  | '\x00' => ['\\', '0']
  | '\x07' => ['\\', 'a']
  | '\x08' => ['\\', 'b']
  | '\t' => ['\\', 't']
  | '\n' => ['\\', 'n']
  | '\x0b' => ['\\', 'v']
  | '\x0c' => ['\\', 'f']
  | '\r' => ['\\', 'r']
  | '\x1b' => ['\\', 'e']
  | '\x85' => ['\\', 'N']
  | '\u2028' => ['\\', 'L']
  | '\u2029' => ['\\', 'P']
  | _ =>
      let code := character.toNat
      if isPrintable character then
        [character]
      else if code ≤ 0xFF then
        '\\' :: 'x' :: hexDigits 2 code
      else
        '\\' :: 'u' :: hexDigits 4 code

/-- The lines of a text, each indented but the empty ones. `atStart` tells whether the
next character begins a line that is to be indented. -/
def indented (width : Nat) (atStart : Bool) : List Char → List Char
  | [] => []
  | character :: rest =>
      if isBreak character then
        character :: indented width true rest
      else if atStart then
        blanks width ++ character :: indented width false rest
      else
        character :: indented width false rest

/-- A quote inside single quotes is written twice. -/
def doubled (character : Char) : List Char :=
  if character = '\'' then ['\'', '\''] else [character]

/-- What the head of a literal block says about its end: that no newline ends the text,
that more than one does, or nothing where it is one. -/
def chomping (characters : List Char) : List Char :=
  match characters.reverse with
  | [] => ['-']
  | last :: earlier =>
      if !isBreak last then
        ['-']
      else
        match earlier with
        | [] => ['+']
        | previous :: _ => if isBreak previous then ['+'] else []

/-- What the head of a literal block says about its indentation, which cannot be seen
where the text begins with a blank or a newline. -/
def indentation (characters : List Char) : List Char :=
  match characters with
  | [] => []
  | first :: _ => if first = ' ' || isBreak first then ['2'] else []

/-- A text in its style. `width` is the indentation of the lines that it may need. -/
def scalar (width : Nat) (written : String) : String :=
  let characters := written.toList
  match styleOf written with
  | .plain => written
  | .singleQuoted =>
      let lines := (indented width false characters).flatMap doubled
      let closing := if characters.getLast?.any isBreak then blanks width else []
      String.ofList ('\'' :: lines ++ closing ++ ['\''])
  | .doubleQuoted => String.ofList ('"' :: characters.flatMap escape ++ ['"'])
  | .literal =>
      String.ofList ('|' :: indentation characters ++ chomping characters ++ '\n' ::
        indented width true characters)

/-! ### Layout -/

/-- The longest key, in bytes, that stands on the line of its value. -/
def longestKey : Nat := 128

/-- Whether a key stands on the line of its value. -/
def isSimpleKey (key : String) : Bool :=
  !key.toList.any isBreak && key.utf8ByteSize ≤ longestKey

/-- A text that ends at the beginning of a line. -/
def freshLine (written : String) : String :=
  if written.isEmpty || isBreak written.back then written else written.push '\n'

/-- A text that ends at a level of a line of its own. -/
def newLine (width : Nat) (written : String) : String :=
  freshLine written ++ String.ofList (blanks width)

/-- Where a value stands: as the root, behind the key of a mapping, or behind a sign
that opens an element, where collections begin on the same line. -/
inductive Place where
  | root
  | behindKey (width : Nat)
  | behindSign (width : Nat)

namespace Place

/-- The level of the fields of a mapping. -/
def fieldWidth : Place → Nat
  | root => 0
  | behindKey width => width + 2
  | behindSign width => width + 2

/-- The level of the elements of a sequence. -/
def itemWidth : Place → Nat
  | root => 0
  | behindKey width => width
  | behindSign width => width + 2

/-- The level of the lines of a text. -/
def textWidth : Place → Nat
  | root => 2
  | behindKey width => width + 2
  | behindSign width => width + 2

/-- A text as far as a value on the same line. -/
def onLine (written : String) : Place → String
  | root => written
  | _ => written.push ' '

/-- A text as far as the first element of a collection. -/
def opened (written : String) (width : Nat) : Place → String
  | root => written
  | behindKey _ => newLine width written
  | behindSign _ => written.push ' '

/-- Where the value behind a tag stands: collections begin on a line of their own. -/
def behindTag : Place → Place
  | root => behindKey 0
  | behindKey width => behindKey width
  | behindSign width => behindKey width

end Place

def writeKey (width : Nat) (written key : String) : String :=
  if isSimpleKey key then
    written ++ scalar (width + 2) key ++ ":"
  else
    newLine width (written ++ "? " ++ scalar (width + 2) key) ++ ":"

/-- Where the value of a key stands. -/
def valuePlace (width : Nat) (key : String) : Place :=
  if isSimpleKey key then .behindKey width else .behindSign width

mutual

/-- Writes a document at a place behind a text. -/
def write (place : Place) (written : String) : Document → String
  | .null => place.onLine written ++ "null"
  | .boolean true => place.onLine written ++ "true"
  | .boolean false => place.onLine written ++ "false"
  | .integer value => place.onLine written ++ toString value
  | .text value => place.onLine written ++ scalar place.textWidth value
  | .sequence [] => place.onLine written ++ "[]"
  | .sequence (item :: rest) =>
      let width := place.itemWidth
      writeItems width
        (write (.behindSign width) ((place.opened written width).push '-') item) rest
  | .mapping [] => place.onLine written ++ "\x7b\x7d"
  | .mapping ((key, value) :: rest) =>
      let width := place.fieldWidth
      writeFields width
        (write (valuePlace width key) (writeKey width (place.opened written width) key) value)
        rest
  | .tagged tag value => write place.behindTag (place.onLine written ++ "!" ++ tag) value

def writeItems (width : Nat) (written : String) : List Document → String
  | [] => written
  | item :: rest =>
      writeItems width (write (.behindSign width) ((newLine width written).push '-') item) rest

def writeFields (width : Nat) (written : String) : List (String × Document) → String
  | [] => written
  | (key, value) :: rest =>
      writeFields width
        (write (valuePlace width key) (writeKey width (newLine width written) key) value) rest

end

/-- A document as YAML, with a newline at its end. -/
def print (document : Document) : String :=
  freshLine (write .root "" document)

end Solfege.Yaml
