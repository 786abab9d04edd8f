import Solfege.Diagnostic

/-!
Contract: a source text as a sequence of lexemes, and the tokens it yields.

Owns:
- the lexemes, each a comment or the text of one token, and how the next one is cut off;
- the longest run of lexemes that a text begins with;
- the placing of tokens, and the end of file token that closes every stream.

Does not own: what tokens mean to a score. A string that is never closed is a lexeme to
the end of the text; reading it as a statement is what fails.
-/

namespace Solfege

/-- A piece of source text: a comment, or the text of a token of some kind. -/
inductive Lexeme where
  | comment (text : List Char)
  | token (kind : Token.Kind) (text : List Char)
deriving DecidableEq, Repr

namespace Lexeme

def text : Lexeme → List Char
  | comment characters => characters
  | token _ characters => characters

/-! ### Classes of characters -/

/-- Blanks separate tokens within a line. -/
def isBlank (character : Char) : Bool :=
  character = ' ' || character = '\t' || character = '\r'

/-- Words begin with a Latin letter or an underscore. -/
def beginsWord (character : Char) : Bool :=
  character.isAlpha || character = '_'

/-- Words go on with Latin letters, digits and underscores. -/
def continuesWord (character : Char) : Bool :=
  character.isAlphanum || character = '_'

/-- Everything but a newline belongs to a comment. -/
def continuesComment (character : Char) : Bool :=
  character ≠ '\n'

/-! ### One lexeme -/

/-- Cuts a string off behind its opening quote: up to the first quote that no backslash
escapes, or to the end of the text. -/
def cutString : List Char → List Char × List Char
  | [] => ([], [])
  | '"' :: rest => (['"'], rest)
  | '\\' :: escaped :: rest =>
      let (inside, behind) := cutString rest
      ('\\' :: escaped :: inside, behind)
  | character :: rest =>
      let (inside, behind) := cutString rest
      (character :: inside, behind)

/-- The unit that may follow the digits of a number. -/
def cutUnit : List Char → List Char × List Char
  | 'm' :: 's' :: rest => (['m', 's'], rest)
  | rest => ([], rest)

/-- The kind of a word: its own if it is reserved. -/
def wordKind (characters : List Char) : Token.Kind :=
  (Token.Kind.keyword? (String.ofList characters)).getD .word

/-- Cuts the next lexeme off a text that begins with `first`; none begins with a
character that is not part of the language. -/
def cut? (first : Char) (rest : List Char) : Option (Lexeme × List Char) :=
  if first = '#' then
    some (comment (first :: rest.takeWhile continuesComment), rest.dropWhile continuesComment)
  else if isBlank first then
    some (token .space (first :: rest.takeWhile isBlank), rest.dropWhile isBlank)
  else if first = '\n' then
    some (token .newline [first], rest)
  else if first = '"' then
    let (inside, behind) := cutString rest
    some (token .string (first :: inside), behind)
  else if first.isDigit then
    let (unit, behind) := cutUnit (rest.dropWhile Char.isDigit)
    some (token .number (first :: rest.takeWhile Char.isDigit ++ unit), behind)
  else if beginsWord first then
    let characters := first :: rest.takeWhile continuesWord
    some (token (wordKind characters) characters, rest.dropWhile continuesWord)
  else
    (Token.Kind.delimiter? first).map fun kind => (token kind [first], rest)

/-! ### Nothing is lost -/

/-- Cutting a string loses nothing. -/
theorem cutString_append (characters : List Char) :
    (cutString characters).1 ++ (cutString characters).2 = characters := by
  fun_induction cutString characters with
  | case1 => rfl
  | case2 => rfl
  | case3 escaped rest inside behind cut inductionHypothesis =>
      simpa [cut] using inductionHypothesis
  | case4 character rest _ _ inside behind cut inductionHypothesis =>
      simpa [cut] using inductionHypothesis

theorem cutUnit_append (characters : List Char) :
    (cutUnit characters).1 ++ (cutUnit characters).2 = characters := by
  unfold cutUnit
  split <;> rfl

/-- A lexeme and the text behind it make up the text that it was cut from. -/
theorem text_append_of_cut? {first : Char} {rest behind : List Char} {lexeme : Lexeme}
    (cut : cut? first rest = some (lexeme, behind)) :
    lexeme.text ++ behind = first :: rest := by
  unfold cut? at cut
  split at cut
  · simp only [Option.some.injEq, Prod.mk.injEq] at cut
    obtain ⟨rfl, rfl⟩ := cut
    simp [text]
  split at cut
  · simp only [Option.some.injEq, Prod.mk.injEq] at cut
    obtain ⟨rfl, rfl⟩ := cut
    simp [text]
  split at cut
  · simp only [Option.some.injEq, Prod.mk.injEq] at cut
    obtain ⟨rfl, rfl⟩ := cut
    simp [text]
  split at cut
  · simp only [Option.some.injEq, Prod.mk.injEq] at cut
    obtain ⟨rfl, rfl⟩ := cut
    simp [text, cutString_append]
  split at cut
  · simp only [Option.some.injEq, Prod.mk.injEq] at cut
    obtain ⟨rfl, rfl⟩ := cut
    simp [text, cutUnit_append]
  split at cut
  · simp only [Option.some.injEq, Prod.mk.injEq] at cut
    obtain ⟨rfl, rfl⟩ := cut
    simp [text]
  · simp only [Option.map_eq_some_iff, Prod.mk.injEq] at cut
    obtain ⟨kind, _, rfl, rfl⟩ := cut
    simp [text]

theorem text_ne_nil_of_cut? {first : Char} {rest behind : List Char} {lexeme : Lexeme}
    (cut : cut? first rest = some (lexeme, behind)) :
    lexeme.text ≠ [] := by
  unfold cut? at cut
  repeat' split at cut
  all_goals
    simp only [Option.map_eq_some_iff, Option.some.injEq, Prod.mk.injEq] at cut
    first
      | obtain ⟨rfl, _⟩ := cut
        simp [text]
      | obtain ⟨_, _, rfl, _⟩ := cut
        simp [text]

/-- What stands behind a lexeme is shorter than the text it was cut from. -/
theorem length_lt_of_cut? {first : Char} {rest behind : List Char} {lexeme : Lexeme}
    (cut : cut? first rest = some (lexeme, behind)) :
    behind.length < (first :: rest).length := by
  have whole := congrArg List.length (text_append_of_cut? cut)
  have nonempty := List.length_pos_iff.mpr (text_ne_nil_of_cut? cut)
  rw [List.length_append] at whole
  omega

/-! ### All lexemes -/

/-- Cuts lexemes off a text while it begins with one. `found` holds those in front of
the text, the nearest first. -/
def cutAllOnto (found : List Lexeme) (characters : List Char) : List Lexeme × List Char :=
  match characters with
  | [] => (found.reverse, [])
  | first :: rest =>
      match _cut : cut? first rest with
      | none => (found.reverse, first :: rest)
      | some (lexeme, behind) => cutAllOnto (lexeme :: found) behind
termination_by characters.length
decreasing_by exact length_lt_of_cut? (by assumption)

/-- The lexemes that a text begins with, and the text from the first character that
begins none. -/
def cutAll (characters : List Char) : List Lexeme × List Char :=
  cutAllOnto [] characters

def textOf (lexemes : List Lexeme) : List Char :=
  lexemes.flatMap text

/-! ### Tokens -/

/-- The tokens among a run of lexemes that begins at `position`, each at its place. -/
def placedOnto (placed : List Token) (position : Position) : List Lexeme → List Token
  | [] => placed.reverse
  | comment characters :: rest => placedOnto placed (position.afterAll characters) rest
  | token kind characters :: rest =>
      placedOnto (⟨String.ofList characters, kind, position⟩ :: placed)
        (position.afterAll characters) rest

/-- The tokens among the lexemes of a text, each at its place. -/
def tokens (lexemes : List Lexeme) : List Token :=
  placedOnto [] .start lexemes

end Lexeme

namespace Token

/-- Cuts a source text into tokens, of which an end of file token is the last. Comments
are dropped. The first character that begins no lexeme is an error. -/
def tokenize (source : String) : Except Diagnostic (List Token) :=
  let (lexemes, rest) := Lexeme.cutAll source.toList
  let position := Position.start.afterAll (Lexeme.textOf lexemes)
  match rest with
  | [] => .ok (Lexeme.tokens lexemes ++ [endOfFileAt position])
  | character :: _ => .error ⟨.unrecognizedCharacter character, position⟩

end Token

end Solfege
