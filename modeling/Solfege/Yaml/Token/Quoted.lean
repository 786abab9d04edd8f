import Solfege.Yaml.Token.Basic
import Solfege.Yaml.Token.Folding
import Solfege.Yaml.Scalar

/-!
Contract: quoted scalars.

Owns:
- the doubled quote in single quotes;
- the escapes in double quotes, by sign and by code point, and the escaped end of a line;
- the rule that no marker between documents stands inside a quoted scalar.

Does not own: what a quoted scalar is used for.
-/

namespace Solfege.Yaml.Token

/-! ### Escapes -/

/-- The character that an escape of one sign stands for. -/
def escaped? : Char → Option Char
  | '0' => some '\x00'
  | 'a' => some '\x07'
  | 'b' => some '\x08'
  | 't' => some '\t'
  | '\t' => some '\t'
  | 'n' => some '\n'
  | 'v' => some '\x0b'
  | 'f' => some '\x0c'
  | 'r' => some '\r'
  | 'e' => some '\x1b'
  | ' ' => some ' '
  | '"' => some '"'
  | '/' => some '/'
  | '\\' => some '\\'
  | 'N' => some '\x85'
  | '_' => some '\xa0'
  | 'L' => some '\u2028'
  | 'P' => some '\u2029'
  | _ => none

/-- The number of digits of an escape by code point. -/
def escapeLength? : Char → Option Nat
  | 'x' => some 2
  | 'u' => some 4
  | 'U' => some 8
  | _ => none

def character? (code : Nat) : Option Char :=
  if code.isValidChar then some (Char.ofNat code) else none

/-- The character that an escape stands for, by the text behind the backslash, and the
length of the escape without the backslash. -/
def escape? : List Char → Option (Char × Nat)
  | [] => none
  | mark :: rest =>
      match escapeLength? mark with
      | none => (escaped? mark).map fun character => (character, 1)
      | some count => do
          let digits := rest.take count
          if digits.length = count then
            let code ← Scalar.digits? 16 digits
            let character ← character? code
            some (character, count + 1)
          else
            none

/-! ### Words -/

/-- Reads the rest of a word of a quoted scalar: the characters so far and these, latest
first, what separates it from the next word as far as an escaped end of a line does, and
the place behind it. -/
def quotedWord (quote : Char) : Nat → List Char → Cursor → Option (List Char × Gap × Cursor)
  | 0, _, _ => none
  | bound + 1, found, cursor =>
      match cursor.rest with
      | [] => some (found, Gap.empty, cursor)
      | first :: rest =>
          if isSeparator first then
            some (found, Gap.empty, cursor)
          else if quote = '\'' && first = '\'' && rest.head? = some '\'' then
            quotedWord quote bound ('\'' :: found) (cursor.skip 2)
          else if first = quote then
            some (found, Gap.empty, cursor)
          else if quote = '"' && first = '\\' then
            if rest.head?.any isBreak then
              some (found, Gap.escapedBreak, (cursor.skip 1).takeBreak.2)
            else
              match escape? rest with
              | none => none
              | some (character, length) =>
                  quotedWord quote bound (character :: found) (cursor.skip (length + 1))
          else
            quotedWord quote bound (first :: found) (cursor.skip 1)

/-! ### Scalars -/

/-- Reads a quoted scalar behind its opening quote, up to the place behind the closing
one. `found` holds the characters in front, latest first. -/
def quotedFrom (quote : Char) : Nat → List Char → Cursor → Option (List Char × Cursor)
  | 0, _, _ => none
  | bound + 1, found, cursor =>
      if cursor.isMarker || cursor.isEnd then
        none
      else do
        let (found, gap, cursor) ← quotedWord quote (cursor.rest.length + 1) found cursor
        if cursor.rest.head? = some quote then
          some (found, cursor.skip 1)
        else
          let (gap, cursor) ← gap.read 0 cursor
          quotedFrom quote bound (gap.reversedText ++ found) cursor

/-- Reads a quoted scalar from its opening quote on. -/
def quoted (quote : Char) (cursor : Cursor) : Option (Token × Cursor) := do
  let (found, behind) ← quotedFrom quote (cursor.rest.length + 1) [] (cursor.skip 1)
  some (scalar (String.ofList found.reverse) .quoted, behind)

end Solfege.Yaml.Token
