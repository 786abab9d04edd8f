import Solfege.Proofs.Partition

/-!
Contract: lexemes that are written one behind the other are cut off as they were written.

Owns:
- the lexemes that scores are written with, and when each of them is cut off as a whole;
- the words, and the texts that can be quoted, both of them decidable;
- lexemes that stand apart, that is, none of which runs on into what is behind it;
- the tokens of such lexemes.

Does not own: which lexemes an expression is written with.
-/

namespace Solfege

/-- What was cut off to become the token. -/
def Token.lexeme (token : Token) : Lexeme :=
  .token token.kind token.text.toList

namespace Lexeme

/-! ### Lexemes of a score -/

def sign (character : Char) : Lexeme :=
  .token ((Token.Kind.delimiter? character).getD .word) [character]

def blank : Lexeme := .token .space [' ']

def lineEnd : Lexeme := .token .newline ['\n']

def word (text : String) : Lexeme := .token (wordKind text.toList) text.toList

def number (value : Nat) : Lexeme := .token .number (Nat.toDigits 10 value)

def quoted (text : String) : Lexeme := .token .string ('"' :: (text.toList ++ ['"']))

/-! ### Words and texts that can be quoted are decidable -/

def isWord : List Char → Bool
  | [] => false
  | first :: rest => beginsWord first && rest.all continuesWord

theorem isWord_eq_true_iff {characters : List Char} :
    isWord characters = true ↔ IsWord characters := by
  cases characters with
  | nil => simp [isWord, IsWord]
  | cons first rest =>
      rw [isWord, Bool.and_eq_true, List.all_eq_true]
      constructor
      · exact fun passes => ⟨first, rest, rfl, passes⟩
      · rintro ⟨_, _, same, passes⟩
        obtain ⟨rfl, rfl⟩ := List.cons.inj same
        exact passes

instance (characters : List Char) : Decidable (IsWord characters) :=
  decidable_of_iff (isWord characters = true) isWord_eq_true_iff

def isQuotable : List Char → Bool
  | [] => true
  | ['\\'] => false
  | '\\' :: _ :: rest => isQuotable rest
  | character :: rest => character ≠ '"' && isQuotable rest

theorem isQuotable_eq_true_iff {characters : List Char} :
    isQuotable characters = true ↔ IsQuotable characters := by
  fun_induction isQuotable characters with
  | case1 => exact iff_of_true rfl .nil
  | case2 =>
      refine iff_of_false Bool.noConfusion fun quotable => ?_
      cases quotable with
      | plain _ noBackslash _ => exact noBackslash rfl
  | case3 escaped rest inductionHypothesis =>
      rw [inductionHypothesis]
      refine ⟨.pair escaped, fun quotable => ?_⟩
      cases quotable with
      | pair _ quotable => exact quotable
      | plain _ noBackslash _ => exact absurd rfl noBackslash
  | case4 character rest alone pair inductionHypothesis =>
      have noBackslash : character ≠ '\\' := by
        rintro rfl
        cases rest with
        | nil => exact alone rfl rfl
        | cons escaped others => exact pair escaped others rfl rfl
      rw [Bool.and_eq_true, decide_eq_true_eq, inductionHypothesis]
      constructor
      · exact fun passes => .plain passes.1 noBackslash passes.2
      · intro quotable
        cases quotable with
        | pair => contradiction
        | plain noQuote _ quotable => exact ⟨noQuote, quotable⟩

instance (characters : List Char) : Decidable (IsQuotable characters) :=
  decidable_of_iff (isQuotable characters = true) isQuotable_eq_true_iff

/-! ### Cutting one off -/

/-- In front of a text, the lexeme is one of a token and is cut off as a whole. -/
def IsCut (lexeme : Lexeme) (behind : List Char) : Prop :=
  ∃ kind first rest, lexeme = .token kind (first :: rest) ∧
    cut? first (rest ++ behind) = some (lexeme, behind)

/-- The list does not begin with an element that passes the test. -/
def Stops {α : Type} (test : α → Bool) (behind : List α) : Prop :=
  ∀ first ∈ behind.head?, test first = false

section Stops

variable {α : Type} {test : α → Bool} {inside behind : List α}

theorem takeWhile_of_stops (passes : ∀ element ∈ inside, test element = true)
    (stops : Stops test behind) : (inside ++ behind).takeWhile test = inside := by
  rw [List.takeWhile_append_of_pos passes]
  cases behind with
  | nil => simp
  | cons first rest =>
      have refused : test first = false := stops first rfl
      rw [List.takeWhile_cons_of_neg (by simp [refused]), List.append_nil]

theorem dropWhile_of_stops (passes : ∀ element ∈ inside, test element = true)
    (stops : Stops test behind) : (inside ++ behind).dropWhile test = behind := by
  rw [List.dropWhile_append_of_pos passes]
  cases behind with
  | nil => rfl
  | cons first rest =>
      have refused : test first = false := stops first rfl
      exact List.dropWhile_cons_of_neg (by simp [refused])

/-- Of two lists that are the same, each is cut where the test is first refused. -/
theorem append_inj_of_stops {other otherBehind : List α}
    (passes : ∀ element ∈ inside, test element = true)
    (otherPasses : ∀ element ∈ other, test element = true) (stops : Stops test behind)
    (otherStops : Stops test otherBehind) (same : inside ++ behind = other ++ otherBehind) :
    inside = other ∧ behind = otherBehind := by
  constructor
  · rw [← takeWhile_of_stops passes stops, same, takeWhile_of_stops otherPasses otherStops]
  · rw [← dropWhile_of_stops passes stops, same, dropWhile_of_stops otherPasses otherStops]

end Stops

/-- A delimiter is cut off wherever it stands. -/
theorem isCut_sign {character : Char}
    (isDelimiter : (Token.Kind.delimiter? character).isSome = true) (behind : List Char) :
    IsCut (sign character) behind := by
  refine ⟨_, character, [], rfl, ?_⟩
  unfold Token.Kind.delimiter? at isDelimiter
  split at isDelimiter
  all_goals first
    | rfl
    | contradiction

theorem isCut_blank {behind : List Char} (stops : Stops isBlank behind) :
    IsCut blank behind := by
  have taken := takeWhile_of_stops (List.forall_mem_nil _) stops
  have dropped := dropWhile_of_stops (List.forall_mem_nil _) stops
  refine ⟨.space, ' ', [], rfl, ?_⟩
  unfold cut?
  rw [if_neg (by decide), if_pos (by decide), taken, dropped]
  rfl

theorem isCut_lineEnd (behind : List Char) : IsCut lineEnd behind :=
  ⟨.newline, '\n', [], rfl, rfl⟩

/-- A character that passes a test is no blank if none of them passes it. -/
theorem not_isBlank_of_test {test : Char → Bool} {first : Char} (passes : test first = true)
    (others : [' ', '\t', '\r'].all (fun other => !test other) = true) :
    isBlank first = false := by
  have differs : ∀ other ∈ [' ', '\t', '\r'], first ≠ other := by
    intro other member same
    have fails := List.all_eq_true.mp others other member
    rw [← same, passes] at fails
    contradiction
  simp only [List.forall_mem_cons] at differs
  obtain ⟨noSpace, noTab, noReturn, _⟩ := differs
  simp [isBlank, noSpace, noTab, noReturn]

/-- What begins neither a comment nor a blank, a line or a string begins a number, a word or
a delimiter. -/
theorem cut?_of_not_isBlank {first : Char} (noBlank : isBlank first = false)
    (noComment : first ≠ '#') (noLine : first ≠ '\n') (noQuote : first ≠ '"')
    (rest : List Char) :
    cut? first rest =
      if first.isDigit then
        some (token .number (first :: rest.takeWhile Char.isDigit ++
          (cutUnit (rest.dropWhile Char.isDigit)).1), (cutUnit (rest.dropWhile Char.isDigit)).2)
      else if beginsWord first then
        some (token (wordKind (first :: rest.takeWhile continuesWord))
          (first :: rest.takeWhile continuesWord), rest.dropWhile continuesWord)
      else
        (Token.Kind.delimiter? first).map fun kind => (token kind [first], rest) := by
  unfold cut?
  rw [if_neg noComment, if_neg (by simp [noBlank]), if_neg noLine, if_neg noQuote]

theorem isDigit_of_beginsWord {first : Char} (begins : beginsWord first = true) :
    first.isDigit = false := by
  unfold beginsWord at begins
  rw [Bool.or_eq_true, decide_eq_true_eq] at begins
  rcases begins with letter | rfl
  · change (decide ('A'.val ≤ first.val ∧ first.val ≤ 'Z'.val) ||
      (decide ('a'.val ≤ first.val) && decide (first.val ≤ 'z'.val))) = true at letter
    change (decide ('0'.val ≤ first.val) && decide (first.val ≤ '9'.val)) = false
    grind
  · rfl

theorem isCut_word {text : String} (isWord : IsWord text.toList) {behind : List Char}
    (stops : Stops continuesWord behind) : IsCut (word text) behind := by
  obtain ⟨first, rest, same, begins, continues⟩ := isWord
  unfold word
  rw [same]
  refine ⟨_, first, rest, rfl, ?_⟩
  have noBlank := not_isBlank_of_test begins (by decide)
  rw [cut?_of_not_isBlank noBlank (by rintro rfl; contradiction) (by rintro rfl; contradiction)
    (by rintro rfl; contradiction), if_neg (by simp [isDigit_of_beginsWord begins]),
    if_pos begins, takeWhile_of_stops continues stops, dropWhile_of_stops continues stops]

theorem isCut_number (value : Nat) {behind : List Char} (stops : Stops continuesWord behind) :
    IsCut (number value) behind := by
  have digits : ∀ character ∈ Nat.toDigits 10 value, character.isDigit = true :=
    fun character => Nat.isDigit_of_mem_toDigits (by decide) (by decide)
  obtain ⟨first, rest, same⟩ :=
    List.exists_cons_of_ne_nil (Nat.toDigits_ne_nil (n := value) (b := 10))
  rw [same] at digits
  obtain ⟨isDigit, restDigits⟩ := List.forall_mem_cons.mp digits
  have noDigit : Stops Char.isDigit behind := by
    intro character member
    have refused := stops character member
    simp [continuesWord, Char.isAlphanum] at refused
    exact refused.1.2
  have noUnit : cutUnit behind = ([], behind) := by
    unfold cutUnit
    split
    · have refused := stops 'm' rfl
      contradiction
    · rfl
  unfold number
  rw [same]
  refine ⟨_, first, rest, rfl, ?_⟩
  have noBlank := not_isBlank_of_test isDigit (by decide)
  rw [cut?_of_not_isBlank noBlank (by rintro rfl; contradiction) (by rintro rfl; contradiction)
    (by rintro rfl; contradiction), if_pos isDigit, takeWhile_of_stops restDigits noDigit,
    dropWhile_of_stops restDigits noDigit, noUnit, List.append_nil]

theorem cutString_of_quotable {inside : List Char} (quotable : IsQuotable inside)
    (behind : List Char) :
    cutString (inside ++ '"' :: behind) = (inside ++ ['"'], behind) := by
  induction quotable with
  | nil => rfl
  | pair escaped _ inductionHypothesis =>
      rw [List.cons_append, List.cons_append, cutString, inductionHypothesis]
      rfl
  | plain noQuote noBackslash _ inductionHypothesis =>
      rw [List.cons_append, cutString_plain noQuote noBackslash, inductionHypothesis]
      rfl

theorem isCut_quoted {text : String} (quotable : IsQuotable text.toList)
    (behind : List Char) : IsCut (quoted text) behind := by
  refine ⟨.string, '"', text.toList ++ ['"'], rfl, ?_⟩
  unfold cut?
  rw [if_neg (by decide), if_neg (by decide), if_neg (by decide), if_pos rfl,
    List.append_assoc, List.singleton_append, cutString_of_quotable quotable]
  rfl

/-! ### Cutting all off -/

/-- The lexemes stand apart in front of a text: each is cut off as it is written. -/
def Apart : List Lexeme → List Char → Prop
  | [], _ => True
  | lexeme :: others, behind => IsCut lexeme (textOf others ++ behind) ∧ Apart others behind

theorem textOf_append (front back : List Lexeme) :
    textOf (front ++ back) = textOf front ++ textOf back :=
  List.flatMap_append

theorem apart_append {front back : List Lexeme} {behind : List Char} :
    Apart (front ++ back) behind ↔ Apart front (textOf back ++ behind) ∧ Apart back behind := by
  induction front with
  | nil => simp [Apart]
  | cons lexeme others inductionHypothesis =>
      rw [List.cons_append, Apart, Apart, inductionHypothesis, textOf_append,
        List.append_assoc, and_assoc]

/-- Lexemes that stand apart are cut off one after the other. -/
theorem cuts_of_apart {lexemes : List Lexeme} (apart : Apart lexemes []) :
    Cuts (textOf lexemes) lexemes [] := by
  induction lexemes with
  | nil => exact .nil []
  | cons lexeme others inductionHypothesis =>
      obtain ⟨⟨kind, first, rest, rfl, cut⟩, othersApart⟩ := apart
      rw [List.append_nil] at cut
      exact .cons cut (inductionHypothesis othersApart)

/-! ### Tokens -/

theorem map_lexeme_placedOnto (placed : List Token) (position : Position)
    {lexemes : List Lexeme} {behind : List Char} (apart : Apart lexemes behind) :
    (placedOnto placed position lexemes).map Token.lexeme =
      placed.reverse.map Token.lexeme ++ lexemes := by
  induction lexemes generalizing placed position with
  | nil => exact (List.append_nil _).symm
  | cons lexeme others inductionHypothesis =>
      obtain ⟨⟨kind, first, rest, rfl, _⟩, othersApart⟩ := apart
      rw [placedOnto, inductionHypothesis _ _ othersApart, List.reverse_cons, List.map_append,
        List.append_assoc]
      simp [Token.lexeme]

end Lexeme

/-- A text of lexemes that stand apart is cut into their tokens. -/
theorem Token.exists_tokenize_eq_ok {lexemes : List Lexeme} (apart : Lexeme.Apart lexemes []) :
    ∃ tokens position,
      tokenize (String.ofList (Lexeme.textOf lexemes)) =
        .ok (tokens ++ [endOfFileAt position]) ∧
      tokens.map Token.lexeme = lexemes := by
  have cut : Lexeme.cutAll (Lexeme.textOf lexemes) = (lexemes, []) :=
    (Lexeme.cuts_of_apart apart).cutAllOnto_eq []
  refine ⟨Lexeme.tokens lexemes, Position.start.afterAll (Lexeme.textOf lexemes), ?_,
    Lexeme.map_lexeme_placedOnto [] .start apart⟩
  unfold tokenize
  rw [String.toList_ofList, cut]

end Solfege
