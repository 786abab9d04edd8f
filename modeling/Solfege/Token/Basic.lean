import Solfege.Position
import Solfege.Token.Kind

/-!
Contract: tokens, and what their texts mean.

Owns:
- the token with its exact source text and place;
- the value of a number token, the contents of a string token, and whether a string
  token reached its closing quote;
- the spelling of a token in diagnostics.

Does not own: how a source text is cut into tokens. A token may hold a text that no
source text yields, so every reading here is total.
-/

namespace Solfege

/-- A piece of source text. A string keeps its quotes. -/
structure Token where
  text : String
  kind : Token.Kind
  position : Position
deriving DecidableEq, Repr, Inhabited

namespace Token

/-- The token that closes a stream at a place. -/
def endOfFileAt (position : Position) : Token :=
  ⟨"", .endOfFile, position⟩

/-! ### Numbers -/

/-- Drops every `ms` that a reversed text begins with. -/
private def dropReversedUnits : List Char → List Char
  | 's' :: 'm' :: rest => dropReversedUnits rest
  | characters => characters

/-- A text without the `ms` units at its end. -/
def withoutUnits (characters : List Char) : List Char :=
  (dropReversedUnits characters.reverse).reverse

/-- The value of a run of decimal digits, read from left to right. -/
def decimalValue (digits : List Char) : Nat :=
  digits.foldl (fun value digit => 10 * value + (digit.toNat - '0'.toNat)) 0

/-- Numbers have at most 32 bits. -/
def numberBound : Nat := 4294967296

/-- Reads a nonempty run of digits, which one plus sign may precede, as a number below
the bound. -/
def readNumber? (characters : List Char) : Option Nat :=
  let digits :=
    match characters with
    | '+' :: rest => rest
    | _ => characters
  if digits.isEmpty || !digits.all Char.isDigit then
    none
  else
    let value := decimalValue digits
    if value < numberBound then some value else none

/-- The value of a number token. Units at its end do not count. -/
def number? (token : Token) : Option Nat :=
  if token.kind = .number then
    readNumber? (withoutUnits token.text.toList)
  else
    none

theorem withoutUnits_of_digits {characters : List Char}
    (digits : ∀ character ∈ characters, character.isDigit = true) :
    withoutUnits characters = characters := by
  have kept : dropReversedUnits characters.reverse = characters.reverse := by
    unfold dropReversedUnits
    split
    · rename_i rest reversed
      have member : 's' ∈ characters := by
        rw [← List.mem_reverse, reversed]
        exact List.mem_cons_self
      have isDigit := digits 's' member
      contradiction
    · rfl
  unfold withoutUnits
  rw [kept, List.reverse_reverse]

/-- One unit at the end of a text is dropped with those in front of it. -/
theorem withoutUnits_append_unit (characters : List Char) :
    withoutUnits (characters ++ ['m', 's']) = withoutUnits characters := by
  unfold withoutUnits
  rw [List.reverse_append]
  rfl

/-- Digits are read as their value, unless it is too large. -/
theorem readNumber?_of_digits {characters : List Char} (nonempty : characters ≠ [])
    (digits : ∀ character ∈ characters, character.isDigit = true) :
    readNumber? characters =
      if decimalValue characters < numberBound then
        some (decimalValue characters)
      else
        none := by
  obtain ⟨first, rest, rfl⟩ := List.exists_cons_of_ne_nil nonempty
  have unsigned : first ≠ '+' := by
    intro plus
    have isDigit := digits first List.mem_cons_self
    rw [plus] at isDigit
    contradiction
  have all : (first :: rest).all Char.isDigit = true := List.all_eq_true.mpr digits
  unfold readNumber?
  split
  · rename_i same
    exact absurd (List.cons.inj same).1 unsigned
  · dsimp only
    rw [all, if_neg (by simp)]

/-! ### Strings -/

/-- A text without one quote in front of it. -/
private def dropOpeningQuote : List Char → List Char
  | '"' :: rest => rest
  | characters => characters

/-- The text of a string without the quotes around it. Escapes stay as written. -/
def unquoted (token : Token) : String :=
  let inner := dropOpeningQuote token.text.toList
  String.ofList (dropOpeningQuote inner.reverse).reverse

theorem unquoted_of_quotes {token : Token} {inside : List Char}
    (quoted : token.text.toList = '"' :: (inside ++ ['"'])) :
    token.unquoted = String.ofList inside := by
  unfold unquoted
  rw [quoted]
  simp [dropOpeningQuote]

/-- Whether a quote that no backslash escapes occurs in a text. -/
def holdsClosingQuote : List Char → Bool
  | [] => false
  | '"' :: _ => true
  | '\\' :: [] => false
  | '\\' :: _ :: rest => holdsClosingQuote rest
  | _ :: rest => holdsClosingQuote rest

/-- Whether a string token reached its closing quote. -/
def isTerminated (token : Token) : Bool :=
  token.kind = .string && holdsClosingQuote (token.text.toList.drop 1)

/-! ### Spelling -/

/-- The token as diagnostics name it. -/
def spelling (token : Token) : String :=
  match token.kind with
  | .endOfFile => "end of file"
  | .newline => "newline"
  | .space => "space"
  | _ => "'" ++ token.text ++ "'"

end Token

end Solfege
