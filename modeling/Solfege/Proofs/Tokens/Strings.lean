import Solfege.Proofs.Conservation.Kinds
import Solfege.Proofs.Spelling.Step
import Solfege.Proofs.Tokens.Basic

/-!
Contract: strings are closed as they are cut off, and one that is not closed is reported.

Owns:
- the two ways in which cutting a string can end;
- the proof that a string token is closed just if its text is one that can be quoted, in its
  quotes, and that a string that is not closed takes in all the text behind it;
- the proof that a text in quotes is cut off whole, whatever follows it;
- the proof that a score with a string that is not closed has a problem.

Does not own: where the problem is reported.
-/

namespace Solfege

open Lexeme (IsForeign cut? cutString)

namespace Lexeme

/-! ### How a string ends -/

theorem cutAllOnto_cons {first : Char} {rest behind : List Char} {lexeme : Lexeme}
    (cut : cut? first rest = some (lexeme, behind)) (found : List Lexeme) :
    cutAllOnto found (first :: rest) = cutAllOnto (lexeme :: found) behind := by
  rw [cutAllOnto]
  split
  · rename_i refused
    rw [cut] at refused
    contradiction
  · rename_i other left same
    rw [cut] at same
    obtain ⟨rfl, rfl⟩ := Prod.mk.inj (Option.some.inj same)
    rfl

end Lexeme

namespace Token

variable {token : Token} {inside : List Char}

/-! ### Closed strings -/

theorem isTerminated_of_quotable (isString : token.kind = .string)
    (quotable : Lexeme.IsQuotable inside)
    (quoted : token.text.toList = '"' :: (inside ++ ['"'])) : token.isTerminated = true := by
  unfold isTerminated
  rw [isString, quoted]
  exact holdsClosingQuote_of_quotable quotable

/-- A string token is closed with a text that can be quoted in its quotes, or it is not closed
and takes in all that follows. -/
theorem string_cases {characters left : List Char} {lexemes : List Lexeme}
    (run : Lexeme.Cuts characters lexemes left) {position : Position}
    {before behind : List Token}
    (split : Lexeme.stream position lexemes = before ++ token :: behind)
    (isString : token.kind = .string) :
    (∃ inside, Lexeme.IsQuotable inside ∧ token.text.toList = '"' :: (inside ++ ['"'])) ∨
      token.isTerminated = false ∧ (∃ final, behind = [endOfFileAt final]) ∧
        ∃ front, characters = front ++ token.text.toList ∧
          token.position = position.afterAll front := by
  obtain ⟨front, first, inside, text, rest, whole, cut, spelled, place, last⟩ :=
    exists_cut_of_stream run split (by rw [isString]; decide)
  rw [isString] at cut
  obtain ⟨rfl, rfl⟩ := (Lexeme.literal_of_cut? cut).1 rfl
  rw [spelled, String.toList_ofList]
  refine (Lexeme.cutString_cases inside).imp (fun closed => ?_) (fun unclosed => ?_)
  · obtain ⟨text, quotable, same⟩ := closed
    exact ⟨text, quotable, congrArg _ same⟩
  · refine ⟨?_, last unclosed.1, front, ?_, place⟩
    · unfold isTerminated
      rw [spelled, String.toList_ofList, isString]
      exact unclosed.2
    · have text := Lexeme.text_append_of_cut? cut
      rw [unclosed.1, List.append_nil] at text
      rw [whole, ← text]
      rfl

/-! ### Texts in quotes -/

/-- A text in quotes is cut off whole. The text behind it is cut on, up to its first foreign
character. -/
theorem tokenize_quoted (quotable : Lexeme.IsQuotable inside) (rest : List Char) :
    (∃ others, tokenize (String.ofList ('"' :: (inside ++ '"' :: rest))) =
        .ok (⟨String.ofList ('"' :: (inside ++ ['"'])), .string, .start⟩ :: others)) ∨
      ∃ front character back, rest = front ++ character :: back ∧ IsForeign character ∧
        tokenize (String.ofList ('"' :: (inside ++ '"' :: rest))) =
          .error ⟨.unrecognizedCharacter character,
            .behind ('"' :: (inside ++ '"' :: front))⟩ := by
  have cut : cut? '"' (inside ++ '"' :: rest) =
      some (.token .string ('"' :: (inside ++ ['"'])), rest) := by
    unfold cut?
    rw [if_neg (by decide), if_neg (by decide), if_neg (by decide), if_pos rfl,
      Lexeme.cutString_of_quotable quotable]
  obtain ⟨lexemes, left, same, run, foreign⟩ :=
    Lexeme.exists_cuts_cutAllOnto [.token .string ('"' :: (inside ++ ['"']))] rest
  have all : Lexeme.cutAll (String.ofList ('"' :: (inside ++ '"' :: rest))).toList =
      (.token .string ('"' :: (inside ++ ['"'])) :: lexemes, left) := by
    rw [String.toList_ofList, Lexeme.cutAll, Lexeme.cutAllOnto_cons cut, same]
    rfl
  cases left with
  | nil => exact .inl ⟨_, tokenize_of_cutAll all⟩
  | cons character back =>
      refine .inr ⟨Lexeme.textOf lexemes, character, back, run.textOf_append.symm,
        foreign character rfl, ?_⟩
      have text : Lexeme.textOf (.token .string ('"' :: (inside ++ ['"'])) :: lexemes) =
          '"' :: (inside ++ '"' :: Lexeme.textOf lexemes) := by
        simp [Lexeme.textOf, Lexeme.text]
      have place := Position.afterAll_behind []
        (Lexeme.textOf (.token .string ('"' :: (inside ++ ['"'])) :: lexemes))
      rw [List.nil_append, text] at place
      unfold tokenize
      rw [all, ← place, ← text]
      rfl

end Token

/-! ### Strings in a score -/

/-- A score that is read without problems has closed strings only. -/
theorem Score.isTerminated_of_silent {tokens : List Token} {trackName : String} {score : Score}
    (ends : ∀ token ∈ tokens.dropLast, token.kind ≠ .endOfFile)
    (read : ofTokens tokens trackName = .ok score) (silent : score.diagnostics = [])
    {token : Token} (member : token ∈ tokens) (isString : token.kind = .string) :
    token.isTerminated = true := by
  have quotes := (perm_sorted ends read silent).filterMap Ingredient.quoted?
  rw [Token.quotes_ingredients, Ingredient.quotes_sorted] at quotes
  have among : (token.unquoted, token.isTerminated) ∈
      (tokens.filter (·.kind = .string)).map fun token =>
        (token.unquoted, token.isTerminated) :=
    List.mem_map_of_mem (List.mem_filter.mpr ⟨member, decide_eq_true isString⟩)
  obtain ⟨text, _, same⟩ := List.mem_map.mp (quotes.mem_iff.mp among)
  exact (congrArg Prod.snd same).symm

/-- **Strings are closed as they are cut off.** In the tokens of a source, a string is closed
just if its text is one that can be quoted, in its quotes, and that text is its contents. A
string that is not closed stands in front of the end of the file only and takes in the source
from its place on. Then the score that the tokens spell has a problem. Conversely, a text in
quotes is the first token of any source that begins with it, unless the text behind it has a
foreign character. -/
theorem Token.strings_closed (source : String) :
    (∀ tokens, tokenize source = .ok tokens →
      (∀ before token behind, tokens = before ++ token :: behind → token.kind = .string →
        (token.isTerminated = true ↔
          ∃ inside, Lexeme.IsQuotable inside ∧ token.text.toList = '"' :: (inside ++ ['"'])) ∧
        (∀ inside, token.text.toList = '"' :: (inside ++ ['"']) →
          token.unquoted = String.ofList inside) ∧
        (token.isTerminated = false →
          (∃ final, behind = [endOfFileAt final]) ∧
            ∃ front, source.toList = front ++ token.text.toList ∧
              token.position = .behind front)) ∧
      ∀ token ∈ tokens, token.kind = .string → token.isTerminated = false →
        ∀ trackName, ∃ score, Score.ofTokens tokens trackName = .ok score ∧
          score.diagnostics ≠ []) ∧
    ∀ inside rest, Lexeme.IsQuotable inside →
      (∃ others, tokenize (String.ofList ('"' :: (inside ++ '"' :: rest))) =
        .ok (⟨String.ofList ('"' :: (inside ++ ['"'])), .string, .start⟩ :: others)) ∨
      ∃ front character back, rest = front ++ character :: back ∧ IsForeign character ∧
        tokenize (String.ofList ('"' :: (inside ++ '"' :: rest))) =
          .error ⟨.unrecognizedCharacter character,
            .behind ('"' :: (inside ++ '"' :: front))⟩ := by
  refine ⟨fun tokens tokenized => ?_, fun inside rest quotable => tokenize_quoted quotable rest⟩
  obtain ⟨lexemes, run, rfl⟩ := tokenize_eq_ok_iff.mp tokenized
  constructor
  · intro before token behind split isString
    refine ⟨⟨fun terminated => ?_, ?_⟩, fun inside => unquoted_of_quotes, fun unclosed => ?_⟩
    · rcases string_cases run split isString with closed | ⟨unclosed, _⟩
      · exact closed
      · rw [terminated] at unclosed
        contradiction
    · rintro ⟨inside, quotable, quoted⟩
      exact isTerminated_of_quotable isString quotable quoted
    · rcases string_cases run split isString with ⟨inside, quotable, quoted⟩ | ⟨_, last, more⟩
      · rw [isTerminated_of_quotable isString quotable quoted] at unclosed
        contradiction
      · obtain ⟨front, whole, place⟩ := more
        exact ⟨last, front, whole, place.trans (Position.afterAll_behind [] front)⟩
  · intro token member isString unclosed trackName
    obtain ⟨_, _, read, _⟩ := Score.exists_ofTokens_eq_ok (Lexeme.stream .start lexemes) trackName
    refine ⟨_, read, fun silent => ?_⟩
    have terminated := Score.isTerminated_of_silent (kind_ne_of_mem_dropLast run _) read silent
      member isString
    rw [unclosed] at terminated
    contradiction

/-- A tag with an escaped quote, a string whose last character is a backslash, and a text in
quotes in front of a foreign character. -/
theorem Token.strings_closed_backslash :
    ∃ tokens closed unclosed, tokenize "piano \"a\\\"b\" \"c\\" = .ok tokens ∧
      closed ∈ tokens ∧ closed.isTerminated = true ∧ closed.unquoted = "a\\\"b" ∧
      unclosed ∈ tokens ∧ unclosed.isTerminated = false ∧
      unclosed.position = .behind "piano \"a\\\"b\" ".toList ∧
      (∃ score, Score.ofTokens tokens "global" = .ok score ∧ score.diagnostics ≠ []) ∧
      tokenize "\"\\\"\"?" = .error ⟨.unrecognizedCharacter '?', ⟨1, 5⟩⟩ := by
  obtain ⟨accepted, quoted⟩ := strings_closed "piano \"a\\\"b\" \"c\\"
  let closed : Token := ⟨"\"a\\\"b\"", .string, ⟨1, 7⟩⟩
  let unclosed : Token := ⟨"\"c\\", .string, ⟨1, 14⟩⟩
  let front : List Token := [⟨"piano", .word, ⟨1, 1⟩⟩, ⟨" ", .space, ⟨1, 6⟩⟩]
  let tokens := front ++ [closed, ⟨" ", .space, ⟨1, 13⟩⟩, unclosed, endOfFileAt ⟨1, 17⟩]
  obtain ⟨each, reported⟩ := accepted tokens (by decide +kernel)
  obtain ⟨terminated, contents, _⟩ := each front closed _ rfl rfl
  obtain ⟨_, _, unfinished⟩ :=
    each (front ++ [closed, ⟨" ", .space, ⟨1, 13⟩⟩]) unclosed [endOfFileAt ⟨1, 17⟩] rfl rfl
  obtain ⟨_, before, whole, place⟩ := unfinished (by decide +kernel)
  have same : before = "piano \"a\\\"b\" ".toList :=
    List.append_cancel_right (whole.symm.trans (by decide +kernel))
  refine ⟨tokens, closed, unclosed, by decide +kernel, by decide +kernel, ?_, ?_,
    by decide +kernel, by decide +kernel, same ▸ place,
    reported unclosed (by decide +kernel) rfl (by decide +kernel) "global", ?_⟩
  · exact terminated.mpr ⟨['a', '\\', '"', 'b'], by decide, by decide +kernel⟩
  · exact contents ['a', '\\', '"', 'b'] (by decide +kernel)
  · rcases quoted ['\\', '"'] ['?'] (by decide) with ⟨others, fine⟩ | ⟨_, _, _, rest, _, failed⟩
    · have refused : (tokenize "\"\\\"\"?").toOption = none := by decide +kernel
      rw [show "\"\\\"\"?" = String.ofList ('"' :: (['\\', '"'] ++ '"' :: ['?'])) from rfl,
        fine] at refused
      contradiction
    · rcases List.cons_eq_append_iff.mp rest with ⟨rfl, here⟩ | ⟨_, rfl, none⟩
      · obtain ⟨rfl, _⟩ := List.cons.inj here
        exact failed
      · simp at none

end Solfege
