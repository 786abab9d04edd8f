import Solfege.Proofs.Tokens.Basic
import Mathlib.Data.Nat.Digits.Defs

/-!
Contract: numbers are digits with a unit at most, and their value is that of their digits.

Owns:
- the texts that a number can have, and their value as a number in base ten;
- the proof that every number token of a source has such a text, and that its digits end where
  those of the source do;
- the proof that the value is told exactly below the bound, and not at all from there on.

Does not own: what reading does with a number.
-/

namespace Solfege

open Lexeme (Cuts cutUnit)

/-- Digits, at least one, and perhaps a unit behind them. -/
structure Numeral where
  digits : List Char
  unit : List Char
  nonempty : digits ≠ []
  areDigits : ∀ character ∈ digits, character.isDigit = true
  oneUnit : unit = [] ∨ unit = ['m', 's']

namespace Numeral

def text (numeral : Numeral) : List Char :=
  numeral.digits ++ numeral.unit

/-- The value of the digits in base ten, of which the last one counts for itself. -/
def value (numeral : Numeral) : Nat :=
  Nat.ofDigits 10 (numeral.digits.reverse.map fun digit => digit.toNat - '0'.toNat)

theorem decimalValue_digits (numeral : Numeral) :
    Token.decimalValue numeral.digits = numeral.value := by
  unfold value Token.decimalValue
  rw [Nat.ofDigits_eq_foldr, List.foldr_map, List.foldr_reverse]
  congr 1
  funext value digit
  exact Nat.add_comm _ _

theorem withoutUnits_text (numeral : Numeral) :
    Token.withoutUnits numeral.text = numeral.digits := by
  unfold text
  rcases numeral.oneUnit with none | one
  · rw [none, List.append_nil]
    exact Token.withoutUnits_of_digits numeral.areDigits
  · rw [one, Token.withoutUnits_append_unit]
    exact Token.withoutUnits_of_digits numeral.areDigits

/-- The value of a number token is that of its digits, if it is below the bound. -/
theorem number?_eq (numeral : Numeral) {token : Token} (isNumber : token.kind = .number)
    (spells : token.text.toList = numeral.text) :
    token.number? =
      if numeral.value < Token.numberBound then some numeral.value else none := by
  unfold Token.number?
  rw [if_pos isNumber, spells, withoutUnits_text,
    Token.readNumber?_of_digits numeral.nonempty numeral.areDigits, decimalValue_digits]

/-- What may stand behind a numeral that was cut off: if it has no unit, neither another digit
nor a unit. -/
def EndsBefore (numeral : Numeral) (rest : List Char) : Prop :=
  numeral.unit = [] →
    (∀ next ∈ rest.head?, next.isDigit = false) ∧ ¬['m', 's'] <+: rest

end Numeral

namespace Lexeme

/-- A unit is cut off, or there is none. -/
theorem cutUnit_cases (characters : List Char) :
    (cutUnit characters).1 = ['m', 's'] ∨
      cutUnit characters = ([], characters) ∧ ¬['m', 's'] <+: characters := by
  unfold cutUnit
  split
  · exact .inl rfl
  · rename_i noUnit
    refine .inr ⟨rfl, ?_⟩
    rintro ⟨rest, rfl⟩
    exact noUnit rest rfl

/-- What is cut off as a number is a numeral. -/
theorem exists_numeral_of_cut? {first : Char} {rest text behind : List Char}
    (cut : cut? first rest = some (.token .number text, behind)) :
    ∃ numeral : Numeral, text = numeral.text ∧ numeral.EndsBefore behind := by
  obtain ⟨digit, rfl, rfl⟩ := (literal_of_cut? cut).2 rfl
  have digits : ∀ character ∈ first :: rest.takeWhile Char.isDigit,
      character.isDigit = true :=
    List.forall_mem_cons.mpr ⟨digit, fun _ => List.mem_takeWhile_imp⟩
  rcases cutUnit_cases (rest.dropWhile Char.isDigit) with one | ⟨none, noUnit⟩
  · exact ⟨⟨_, _, List.cons_ne_nil _ _, digits, .inr one⟩, rfl,
      fun missing => absurd (one.symm.trans missing) (List.cons_ne_nil _ _)⟩
  · refine ⟨⟨_, _, List.cons_ne_nil _ _, digits, .inl (congrArg Prod.fst none)⟩, rfl,
      fun _ => ?_⟩
    rw [none]
    refine ⟨fun next there => ?_, noUnit⟩
    have stopped := List.head?_dropWhile_not Char.isDigit rest
    rw [Option.mem_def.mp there] at stopped
    exact stopped

end Lexeme

/-- A number token in the tokens of a source is a numeral of it, at the place of the token, and
its digits go no further there. -/
theorem Token.exists_numeral {source : String} {tokens before behind : List Token}
    {token : Token} (tokenized : tokenize source = .ok tokens)
    (split : tokens = before ++ token :: behind) (isNumber : token.kind = .number) :
    ∃ (numeral : Numeral) (front rest : List Char),
      source.toList = front ++ numeral.text ++ rest ∧ token.text.toList = numeral.text ∧
        token.position = .behind front ∧ numeral.EndsBefore rest := by
  obtain ⟨lexemes, run, rfl⟩ := tokenize_eq_ok_iff.mp tokenized
  obtain ⟨front, first, inside, text, rest, whole, cut, spelled, place, _⟩ :=
    exists_cut_of_stream run split (by rw [isNumber]; decide)
  rw [isNumber] at cut
  obtain ⟨numeral, rfl, ends⟩ := Lexeme.exists_numeral_of_cut? cut
  refine ⟨numeral, front, rest, ?_, ?_, place.trans (Position.afterAll_behind [] front), ends⟩
  · rw [whole, List.append_assoc]
    exact congrArg (front ++ ·) (Lexeme.text_append_of_cut? cut).symm
  · rw [spelled, String.toList_ofList]

end Solfege
