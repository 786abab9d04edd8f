import Solfege.Yaml.Token.Basic
import Solfege.Yaml.Cursor
import Solfege.Yaml.Scalar

/-!
Contract: anchors, the references to them, tags and directives.

Owns:
- the names of anchors, and what may stand behind one;
- tags by handle and tags in angle brackets, with their escaped bytes, of which a zero
  ends the tag;
- the directives for the version and for handles.

Does not own: what a tag or a reference stands for.
-/

namespace Solfege.Yaml.Token

/-! ### Anchors and references -/

/-- Whether the name of an anchor may end in front of a text. -/
def endsName : List Char → Bool
  | [] => true
  | next :: _ =>
      isSeparator next || ['?', ':', ',', ']', '\x7d', '%', '@', '\x60'].contains next

/-- Reads the name of an anchor behind its sign, or behind that of a reference to it. -/
def anchorName (cursor : Cursor) : Option (String × Cursor) :=
  let (name, behind) := (cursor.skip 1).takeWhile isNameCharacter
  if name.isEmpty || !endsName behind.rest then
    none
  else
    some (String.ofList name, behind)

/-! ### Tags -/

/-- The characters of a tag that stand for themselves. -/
def isTagCharacter (character : Char) : Bool :=
  isNameCharacter character ||
    [';', '/', '?', ':', '@', '&', '=', '+', '$', '.', '!', '~', '*', '\'', '(', ')'].contains
      character

def byteOf (character : Char) : UInt8 := character.toNat.toUInt8

/-- The number of bytes of an escaped character, by the first of them. -/
def sequenceLength? (byte : Nat) : Option Nat :=
  if byte < 0x80 then
    some 1
  else if 0xC0 ≤ byte && byte < 0xE0 then
    some 2
  else if 0xE0 ≤ byte && byte < 0xF0 then
    some 3
  else if 0xF0 ≤ byte && byte < 0xF8 then
    some 4
  else
    none

/-- The byte of an escape: a percent sign and two digits in base sixteen. -/
def escapedByte? : List Char → Option Nat
  | '%' :: left :: right :: _ => Scalar.digits? 16 [left, right]
  | _ => none

/-- Reads the later bytes of an escaped character, as many as are asked for. Bytes are
latest first. -/
def laterBytes : Nat → TagBytes → Cursor → Option (TagBytes × Cursor)
  | 0, found, cursor => some (found, cursor)
  | count + 1, found, cursor => do
      let byte ← escapedByte? cursor.rest
      if 0x80 ≤ byte && byte < 0xC0 then
        laterBytes count (byte.toUInt8 :: found) (cursor.skip 3)
      else
        none

/-- Reads the bytes of an escaped character. -/
def escapedBytes (found : TagBytes) (cursor : Cursor) : Option (TagBytes × Cursor) := do
  let byte ← escapedByte? cursor.rest
  let length ← sequenceLength? byte
  laterBytes (length - 1) (byte.toUInt8 :: found) (cursor.skip 3)

/-- Reads the bytes of a tag, latest first. Only where a tag is not given by its handle
may it hold the signs of sequences. -/
def tagBytesFrom (isVerbatim : Bool) : Nat → TagBytes → Cursor → Option (TagBytes × Cursor)
  | 0, _, _ => none
  | bound + 1, found, cursor =>
      match cursor.rest with
      | [] => some (found, cursor)
      | first :: _ =>
          if first = '%' then do
            let (found, behind) ← escapedBytes found cursor
            tagBytesFrom isVerbatim bound found behind
          else if isTagCharacter first || (isVerbatim && [',', '[', ']'].contains first) then
            tagBytesFrom isVerbatim bound (byteOf first :: found) (cursor.skip 1)
          else
            some (found, cursor)

def tagBytes (isVerbatim : Bool) (cursor : Cursor) : Option (TagBytes × Cursor) :=
  (tagBytesFrom isVerbatim (cursor.rest.length + 1) [] cursor).map fun (found, behind) =>
    (found.reverse, behind)

/-- The bytes of a tag that count: a zero byte, which can only be written by an escape,
ends it, and those behind are read but stand for nothing. -/
def untilZero (bytes : TagBytes) : TagBytes :=
  bytes.takeWhile fun byte => byte ≠ 0

/-- Reads the bytes of a tag, of which there must be one. It may be one that does not
count. -/
def someTagBytes (isVerbatim : Bool) (cursor : Cursor) : Option (TagBytes × Cursor) :=
  ((tagBytes isVerbatim cursor).filter fun (bytes, _) => !bytes.isEmpty).map
    fun (bytes, behind) => (untilZero bytes, behind)

/-- Reads an exclamation mark and the name behind it, with a second mark if one follows. -/
def tagHandle (cursor : Cursor) : Option (List Char × Cursor) :=
  if cursor.rest.head? = some '!' then
    let (name, behind) := (cursor.skip 1).takeWhile isNameCharacter
    if behind.rest.head? = some '!' then
      some ('!' :: name ++ ['!'], behind.skip 1)
    else
      some ('!' :: name, behind)
  else
    none

/-- Whether a text is a handle of its own: it begins and ends with different marks. -/
def isHandle (written : List Char) : Bool :=
  2 ≤ written.length && written.getLast? = some '!'

/-- Reads a tag in angle brackets. It has no handle. -/
def verbatimTag (cursor : Cursor) : Option (Token × Cursor) := do
  let (bytes, behind) ← someTagBytes true (cursor.skip 2)
  if behind.rest.head? = some '>' then
    some (tag "" bytes, behind.skip 1)
  else
    none

/-- Reads a tag by its handle, which is a single mark where no other is written. A single
mark on its own is a tag without a handle. -/
def shortTag (cursor : Cursor) : Option (Token × Cursor) := do
  let (written, behind) ← tagHandle cursor
  if isHandle written then
    let (bytes, final) ← someTagBytes false behind
    some (tag (String.ofList written) bytes, final)
  else
    let (later, final) ← tagBytes false behind
    let bytes := (written.drop 1).map byteOf ++ untilZero later
    some (if bytes.isEmpty then tag "" [byteOf '!'] else tag "!" bytes, final)

/-- Reads a tag. It ends in front of a separator, or in flow collections of a comma. -/
def tagToken (inFlow : Bool) (cursor : Cursor) : Option (Token × Cursor) := do
  let (token, behind) ←
    if (cursor.rest.drop 1).head? = some '<' then verbatimTag cursor else shortTag cursor
  if separatorNext behind.rest || (inFlow && behind.rest.head? = some ',') then
    some (token, behind)
  else
    none

/-! ### Directives -/

/-- The most digits of a number in a version. -/
def longestNumber : Nat := 9

def versionNumber (cursor : Cursor) : Option (Nat × Cursor) :=
  let (digits, behind) := cursor.takeWhile Char.isDigit
  if digits.length ≤ longestNumber then
    (Scalar.digits? 10 digits).map fun value => (value, behind)
  else
    none

def versionValue (cursor : Cursor) : Option (Token × Cursor) := do
  let (major, point) ← versionNumber (cursor.skipWhile isBlank)
  if point.rest.head? = some '.' then
    let (minor, behind) ← versionNumber (point.skip 1)
    some (versionDirective major minor, behind)
  else
    none

/-- Reads the handle behind its directive's name, and the bytes that it stands for. -/
def handleValue (cursor : Cursor) : Option (Token × Cursor) := do
  let (written, behind) ← tagHandle (cursor.skipWhile isBlank)
  if (isHandle written || written = ['!']) && behind.rest.head?.any isBlank then
    let (start, final) ← someTagBytes true (behind.skipWhile isBlank)
    if separatorNext final.rest then
      some (tagDirective (String.ofList written) start, final)
    else
      none
  else
    none

/-- Reads a directive from its percent sign on, with the line that it stands on. -/
def directive (cursor : Cursor) : Option (Token × Cursor) := do
  let (name, behind) := (cursor.skip 1).takeWhile isNameCharacter
  if separatorNext behind.rest then
    let (token, final) ←
      match String.ofList name with
      | "YAML" => versionValue behind
      | "TAG" => handleValue behind
      | _ => none
    let next ← final.finishLine?
    some (token, next)
  else
    none

end Solfege.Yaml.Token
