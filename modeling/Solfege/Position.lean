/-!
Contract: places in a source text.

Owns:
- the line and column of a place, both counted from one;
- how reading a character, or a run of them, moves the place.

Does not own: which characters make up a token.
-/

namespace Solfege

/-- A place in a source text. Lines and columns count characters from one. -/
structure Position where
  line : Nat
  column : Nat
deriving DecidableEq, Repr, Inhabited

namespace Position

/-- The place of the first character of a text. -/
def start : Position := ⟨1, 1⟩

/-- The place just behind a character that stands at `position`: a newline opens
the next line, every other character takes one column. -/
def after (position : Position) (character : Char) : Position :=
  if character = '\n' then
    ⟨position.line + 1, 1⟩
  else
    ⟨position.line, position.column + 1⟩

/-- The place just behind a run of characters that begins at `position`. -/
def afterAll (position : Position) (characters : List Char) : Position :=
  characters.foldl after position

@[simp] theorem afterAll_nil (position : Position) : position.afterAll [] = position :=
  rfl

@[simp] theorem afterAll_cons (position : Position) (character : Char)
    (characters : List Char) :
    position.afterAll (character :: characters) =
      (position.after character).afterAll characters :=
  rfl

/-- Two runs read one after the other move the place as their concatenation does. -/
theorem afterAll_append (position : Position) (left right : List Char) :
    position.afterAll (left ++ right) = (position.afterAll left).afterAll right := by
  simp [afterAll]

/-- A place as it is written in answers, `line:column`. -/
def text (position : Position) : String :=
  toString position.line ++ ":" ++ toString position.column

end Position

end Solfege
