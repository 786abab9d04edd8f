import Solfege.Document.Basic

/-!
Contract: documents as indented JSON.

Owns:
- the escapes of texts;
- the layout: one element to a line, two blanks to a level, and empty sequences and
  mappings on one line.

Does not own: the documents themselves. A tagged value is a mapping from its tag.
-/

namespace Solfege.Json

/-! ### Texts -/

private def hexDigit (value : Nat) : Char :=
  if value < 10 then Char.ofNat ('0'.toNat + value) else Char.ofNat ('a'.toNat + value - 10)

/-- A character as it is written inside quotes. Control characters are escaped, and all
others but the quote and the backslash stand for themselves. -/
def escape (character : Char) : List Char :=
  match character with
  | '"' => ['\\', '"']
  | '\\' => ['\\', '\\']
  | '\x08' => ['\\', 'b']
  | '\x0c' => ['\\', 'f']
  | '\n' => ['\\', 'n']
  | '\r' => ['\\', 'r']
  | '\t' => ['\\', 't']
  | _ =>
      if character.toNat < 32 then
        ['\\', 'u', '0', '0', hexDigit (character.toNat / 16), hexDigit (character.toNat % 16)]
      else
        [character]

def quoted (written : String) : String :=
  String.ofList ('"' :: written.toList.flatMap escape ++ ['"'])

/-! ### Layout -/

/-- The beginning of a line at a level. -/
def lineAt (level : Nat) : String :=
  String.ofList ('\n' :: List.replicate (2 * level) ' ')

/-- What stands in front of an element: a comma behind another one, and a new line. -/
def separator (level : Nat) (isFirst : Bool) : String :=
  (if isFirst then "" else ",") ++ lineAt level

mutual

/-- Writes a document at a level behind a text. -/
def write (level : Nat) (written : String) : Document → String
  | .null => written ++ "null"
  | .boolean true => written ++ "true"
  | .boolean false => written ++ "false"
  | .integer value => written ++ toString value
  | .text value => written ++ quoted value
  | .sequence [] => written ++ "[]"
  | .sequence (item :: rest) =>
      writeItems (level + 1) (write (level + 1) (written ++ "[" ++ separator (level + 1) true) item)
        rest ++ lineAt level ++ "]"
  | .mapping [] => written ++ "\x7b\x7d"
  | .mapping ((key, value) :: rest) =>
      writeFields (level + 1)
        (write (level + 1)
          (written ++ "\x7b" ++ separator (level + 1) true ++ quoted key ++ ": ") value)
        rest ++ lineAt level ++ "\x7d"
  | .tagged tag value =>
      write (level + 1)
        (written ++ "\x7b" ++ separator (level + 1) true ++ quoted tag ++ ": ") value ++
        lineAt level ++ "\x7d"

def writeItems (level : Nat) (written : String) : List Document → String
  | [] => written
  | item :: rest =>
      writeItems level (write level (written ++ separator level false) item) rest

def writeFields (level : Nat) (written : String) : List (String × Document) → String
  | [] => written
  | (key, value) :: rest =>
      writeFields level
        (write level (written ++ separator level false ++ quoted key ++ ": ") value) rest

end

/-- A document as JSON, without a newline at its end. -/
def print (document : Document) : String :=
  write 0 "" document

end Solfege.Json
