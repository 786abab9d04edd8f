import Solfege.Proofs.Reading.Conduct
import Solfege.Proofs.Spelling.Basic

/-!
Contract: steps that read what was spelled.

Owns:
- tokens that begin as a list of lexemes spells them;
- steps that read up to a place and leave the rest of the reader as it was;
- how such steps are put together from the steps that reading consists of.

Does not own: the grammar.
-/

namespace Solfege

/-! ### Spelled tokens -/

/-- The tokens begin with those of the lexemes, and behind them come others. -/
def Spells (lexemes : List Lexeme) (tokens behind : List Token) : Prop :=
  ∃ written, tokens = written ++ behind ∧ written.map Token.lexeme = lexemes

theorem wordKind_of_isName {text : String} (isName : IsName text) :
    Lexeme.wordKind text.toList = .word := by
  unfold Lexeme.wordKind
  rw [String.ofList_toList, isName.2]
  rfl

theorem number?_of_isSmall {value : Nat} (small : IsSmall value) (position : Position) :
    Token.number? ⟨String.ofList (Nat.toDigits 10 value), .number, position⟩ = some value := by
  have digits : ∀ character ∈ Nat.toDigits 10 value, character.isDigit = true :=
    fun character => Nat.isDigit_of_mem_toDigits (by decide) (by decide)
  have same : Token.decimalValue (Nat.toDigits 10 value) = value :=
    Nat.ofDigitChars_toDigits (by decide) (by decide)
  have fits : Token.decimalValue (Nat.toDigits 10 value) < Token.numberBound := by
    rw [same]
    exact small
  unfold Token.number?
  rw [if_pos rfl, String.toList_ofList, Token.withoutUnits_of_digits digits,
    Token.readNumber?_of_digits Nat.toDigits_ne_nil digits, if_pos fits, same]

theorem holdsClosingQuote_of_quotable {inside : List Char} (quotable : Lexeme.IsQuotable inside) :
    Token.holdsClosingQuote (inside ++ ['"']) = true := by
  induction quotable with
  | nil => rfl
  | pair escaped _ inductionHypothesis => exact inductionHypothesis
  | plain noQuote noBackslash _ inductionHypothesis =>
      rw [List.cons_append, Lexeme.holdsClosingQuote_plain noQuote noBackslash]
      exact inductionHypothesis

namespace Spells

variable {lexemes front back : List Lexeme} {tokens behind : List Token}

theorem eq_of_nil (spells : Spells [] tokens behind) : tokens = behind := by
  obtain ⟨written, rfl, same⟩ := spells
  rw [List.map_eq_nil_iff.mp same, List.nil_append]

theorem cons {kind : Token.Kind} {text : List Char}
    (spells : Spells (.token kind text :: lexemes) tokens behind) :
    ∃ position left, tokens = ⟨String.ofList text, kind, position⟩ :: left ∧
      Spells lexemes left behind := by
  obtain ⟨written, rfl, same⟩ := spells
  obtain ⟨⟨spelling, sort, position⟩, others, rfl, first, rest⟩ := List.map_eq_cons_iff.mp same
  obtain ⟨rfl, rfl⟩ := Lexeme.token.inj first
  refine ⟨position, others ++ behind, ?_, others, rfl, rest⟩
  rw [String.ofList_toList]
  rfl

theorem append (spells : Spells (front ++ back) tokens behind) :
    ∃ middle, Spells front tokens middle ∧ Spells back middle behind := by
  obtain ⟨written, rfl, same⟩ := spells
  obtain ⟨first, second, rfl, sameFront, sameBack⟩ := List.map_eq_append_iff.mp same
  refine ⟨second ++ behind, ⟨first, ?_, sameFront⟩, second, rfl, sameBack⟩
  rw [List.append_assoc]

theorem length_eq (spells : Spells lexemes tokens behind) :
    tokens.length = lexemes.length + behind.length := by
  obtain ⟨written, rfl, rfl⟩ := spells
  rw [List.length_append, List.length_map]

theorem length_le (spells : Spells lexemes tokens behind) : behind.length ≤ tokens.length := by
  have whole := spells.length_eq
  omega

/-- One more lexeme is spelled by one more token. -/
theorem in_front (spells : Spells lexemes tokens behind) (kind : Token.Kind) (text : List Char)
    (position : Position) :
    Spells (.token kind text :: lexemes) (⟨String.ofList text, kind, position⟩ :: tokens)
      behind := by
  obtain ⟨written, rfl, same⟩ := spells
  refine ⟨⟨String.ofList text, kind, position⟩ :: written, rfl, ?_⟩
  rw [List.map_cons, same, Token.lexeme, String.toList_ofList]

theorem word {text : String} {kind : Token.Kind} (isKind : Lexeme.wordKind text.toList = kind)
    (spells : Spells (.word text :: lexemes) tokens behind) :
    ∃ position left, tokens = ⟨text, kind, position⟩ :: left ∧ Spells lexemes left behind := by
  obtain ⟨position, left, same, rest⟩ := spells.cons
  rw [isKind, String.ofList_toList] at same
  exact ⟨position, left, same, rest⟩

theorem name {text : String} (isName : IsName text)
    (spells : Spells (.word text :: lexemes) tokens behind) :
    ∃ position left, tokens = ⟨text, .word, position⟩ :: left ∧ Spells lexemes left behind :=
  spells.word (wordKind_of_isName isName)

theorem syllable {name : Syllable} (spells : Spells (.word name.written :: lexemes) tokens behind) :
    ∃ position left, tokens = ⟨name.written, .note name, position⟩ :: left ∧
      Spells lexemes left behind :=
  spells.word (by cases name <;> rfl)

theorem number {value : Nat} (small : IsSmall value)
    (spells : Spells (.number value :: lexemes) tokens behind) :
    ∃ token left, tokens = token :: left ∧ token.kind = .number ∧ token.number? = some value ∧
      Spells lexemes left behind := by
  obtain ⟨position, left, same, rest⟩ := spells.cons
  exact ⟨_, left, same, rfl, number?_of_isSmall small position, rest⟩

/-- A sign and a number are two tokens. -/
theorem signed {character : Char} {value : Nat} (small : IsSmall value)
    (spells : Spells [.sign character, .number value] tokens behind) :
    ∃ position token, tokens = ⟨String.ofList [character],
        (Token.Kind.delimiter? character).getD .word, position⟩ :: token :: behind ∧
      token.kind = .number ∧ token.number? = some value := by
  obtain ⟨position, left, rfl, rest⟩ := spells.cons
  obtain ⟨token, final, rfl, here, number, nothing⟩ := rest.number small
  obtain rfl := nothing.eq_of_nil
  exact ⟨position, token, rfl, here, number⟩

theorem quoted {text : String} (quotable : IsQuotable text)
    (spells : Spells (.quoted text :: lexemes) tokens behind) :
    ∃ token left, tokens = token :: left ∧ token.kind = .string ∧
      token.isTerminated = true ∧ token.unquoted = text ∧ Spells lexemes left behind := by
  obtain ⟨position, left, same, rest⟩ := spells.cons
  have spelled : (Token.mk (String.ofList ('"' :: (text.toList ++ ['"']))) .string
      position).text.toList = '"' :: (text.toList ++ ['"']) :=
    String.toList_ofList
  refine ⟨_, left, same, rfl, ?_, ?_, rest⟩
  · unfold Token.isTerminated
    rw [spelled]
    exact holdsClosingQuote_of_quotable quotable
  · exact (Token.unquoted_of_quotes spelled).trans String.ofList_toList

end Spells

namespace Reading

/-! ### Steps that read up to a place -/

/-- The reader with these tokens to come. -/
def facing (reading : Reading) (tokens : List Token) : Reading :=
  { reading with rest := tokens }

/-- The kind of the token at which the reader stands then. -/
def front (reading : Reading) (tokens : List Token) : Token.Kind :=
  (reading.facing tokens).current.kind

/-- The step reads the tokens up to those behind. What it makes is as stated, and nothing
else of the reader changes. -/
def Takes {α : Type} (step : Step α) (reading : Reading) (tokens behind : List Token)
    (made : α → Prop) : Prop :=
  ∃ value, step (reading.facing tokens) = .ok value (reading.facing behind) ∧ made value

section Building

variable {α β : Type} {reading : Reading} {token : Token} {tokens middle behind : List Token}
variable {step other : Step α} {made : α → Prop} {final : β → Prop}

theorem Takes.mono {weaker : α → Prop} (takes : Takes step reading tokens behind made)
    (implies : ∀ value, made value → weaker value) : Takes step reading tokens behind weaker := by
  obtain ⟨value, result, here⟩ := takes
  exact ⟨value, result, implies value here⟩

theorem Takes.bind {next : α → Step β} (first : Takes step reading tokens middle made)
    (onward : ∀ value, made value → Takes (next value) reading middle behind final) :
    Takes (step >>= next) reading tokens behind final := by
  obtain ⟨value, result, here⟩ := first
  obtain ⟨last, rest, there⟩ := onward value here
  exact ⟨last, (bind_of_ok result).trans rest, there⟩

theorem takes_pure {value : α} (here : made value) :
    Takes (pure value) reading tokens tokens made :=
  ⟨value, rfl, here⟩

theorem peek_takes {next : Token → Step β}
    (onward : Takes (next (reading.facing tokens).current) reading tokens behind final) :
    Takes (peek >>= next) reading tokens behind final :=
  onward

theorem takes_advance : Takes advance reading (token :: behind) behind fun value => value = token :=
  ⟨token, rfl, rfl⟩

theorem advance_takes {next : Token → Step β}
    (onward : Takes (next token) reading tokens behind final) :
    Takes (advance >>= next) reading (token :: tokens) behind final :=
  onward

theorem check_takes {kind : Token.Kind} (here : reading.front tokens = kind)
    (onward : Takes step reading tokens behind made) :
    Takes (do if ← check kind then step else other) reading tokens behind made := by
  obtain ⟨value, result, made⟩ := onward
  refine ⟨value, ?_, made⟩
  rw [← result]
  change (if decide (reading.front tokens = kind) = true then step else other) _ = _
  rw [if_pos (decide_eq_true here)]

theorem check_not_takes {kind : Token.Kind} (elsewhere : reading.front tokens ≠ kind)
    (onward : Takes other reading tokens behind made) :
    Takes (do if ← check kind then step else other) reading tokens behind made := by
  obtain ⟨value, result, made⟩ := onward
  refine ⟨value, ?_, made⟩
  rw [← result]
  change (if decide (reading.front tokens = kind) = true then step else other) _ = _
  rw [if_neg (by simpa using elsewhere)]

theorem followsExpression_takes (marked : reading.contexts.head? = some .expression)
    (onward : Takes step reading tokens behind made) :
    Takes (do if ← followsExpression then step else other) reading tokens behind made := by
  obtain ⟨value, result, made⟩ := onward
  refine ⟨value, ?_, made⟩
  rw [← result]
  change (if decide (reading.contexts.head? = some .expression) = true then step else other) _ = _
  rw [if_pos (decide_eq_true marked)]

theorem ite_takes {condition : Prop} [Decidable condition] (fails : ¬condition)
    (onward : Takes other reading tokens behind made) :
    Takes (if condition then step else other) reading tokens behind made := by
  rw [if_neg fails]
  exact onward

/-! ### Blanks -/

theorem skip_facing {test : Token.Kind → Bool} (stands : test (reading.front tokens) = false) :
    (reading.facing tokens).skip test = reading.facing tokens :=
  skip_of_current stands

/-- What is skipped makes no difference to what is read behind it. -/
theorem skipping_congr {test : Token.Kind → Bool} {next : Unit → Step β} {before after : Reading}
    (same : before.skip test = after.skip test) :
    (skipping test >>= next) before = (skipping test >>= next) after :=
  congrArg (next ()) same

theorem skipping_takes {test : Token.Kind → Bool} {next : Unit → Step β}
    (stands : test (reading.front tokens) = false)
    (onward : Takes (next ()) reading tokens behind final) :
    Takes (skipping test >>= next) reading tokens behind final := by
  obtain ⟨value, result, made⟩ := onward
  refine ⟨value, ?_, made⟩
  rw [← result]
  change next () ((reading.facing tokens).skip test) = _
  rw [skip_facing stands]

theorem skip_cons {test : Token.Kind → Bool} (skipped : test token.kind = true) :
    (reading.facing (token :: tokens)).skip test = (reading.facing tokens).skip test := by
  have shorter : (token :: tokens).dropWhile (fun other => test other.kind) =
      tokens.dropWhile fun other => test other.kind :=
    List.dropWhile_cons_of_pos skipped
  unfold skip facing
  dsimp only
  rw [shorter]

theorem skipping_cons_takes {test : Token.Kind → Bool} {next : Unit → Step β}
    (skipped : test token.kind = true)
    (onward : Takes (skipping test >>= next) reading tokens behind final) :
    Takes (skipping test >>= next) reading (token :: tokens) behind final := by
  obtain ⟨value, result, made⟩ := onward
  exact ⟨value, (skipping_congr (skip_cons skipped)).trans result, made⟩

/-! ### Expected tokens -/

theorem takes_expect {kind : Token.Kind} (expected : Expectation) (here : token.kind = kind) :
    Takes (expect kind expected) reading (token :: behind) behind fun value => value = token :=
  check_takes here takes_advance

theorem expect_takes {kind : Token.Kind} {expected : Expectation} {next : Token → Step β}
    (here : token.kind = kind) (onward : Takes (next token) reading tokens behind final) :
    Takes (expect kind expected >>= next) reading (token :: tokens) behind final := by
  refine (takes_expect expected here).bind ?_
  rintro _ rfl
  exact onward

theorem takes_numberValue {value : Nat} (number : token.number? = some value) :
    Takes (numberValue token) reading behind behind fun read => read = value := by
  unfold numberValue
  rw [number]
  exact takes_pure rfl

theorem takes_expectNumber (expected : Expectation) {value : Nat} (here : token.kind = .number)
    (number : token.number? = some value) :
    Takes (expectNumber expected) reading (token :: behind) behind fun read => read = value := by
  refine (takes_expect expected here).bind ?_
  rintro _ rfl
  exact takes_numberValue number

theorem takes_stringValue {text : String} (terminated : token.isTerminated = true)
    (unquoted : token.unquoted = text) :
    Takes (stringValue token) reading behind behind fun read => read = text := by
  unfold stringValue
  rw [if_pos terminated]
  exact takes_pure unquoted

/-! ### Nesting -/

theorem takes_attempt (takes : Takes step reading tokens behind made) :
    Takes (attempt step) reading tokens behind fun
      | .ok value => made value
      | .error _ => False := by
  obtain ⟨value, result, here⟩ := takes
  exact ⟨.ok value, attempt_eq_ok result, here⟩

theorem takes_within {context : Context}
    (takes : Takes step (reading.inside context) tokens behind made) :
    Takes (within context step) reading tokens behind made := by
  obtain ⟨value, result, here⟩ := takes
  have entered : step ((reading.facing tokens).inside context) = _ := result
  exact ⟨value, (within_of_ok entered).trans (bind_of_ok (leave_of_contexts rfl)), here⟩

end Building

end Reading

end Solfege
