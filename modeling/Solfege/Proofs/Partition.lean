import Solfege.Token.Lexeme
import Mathlib.Data.List.TakeWhile

/-!
Contract: tokens and comments as a partition of their source text, exact to the place.

Owns:
- the place behind a text in closed form;
- how the text of a token of each kind is written, and the partition of a text into tokens and
  comments, neither of which mentions how they are cut;
- the characters that begin no lexeme;
- the induction in which a string is cut off;
- runs of lexemes cut one after the other, and the proof that what stands behind a run does
  not matter to it;
- the proof that tokens partition the text, or that it has a foreign character behind a text
  of which they do.

Does not own: the reserved words and the delimiters.
-/

namespace Solfege

/-! ### Places -/

/-- The place behind a text with which a source begins. Its line is counted by the newlines
in it, its column by the characters behind the last of them. -/
def Position.behind (text : List Char) : Position :=
  ⟨1 + text.count '\n', 1 + (text.reverse.takeWhile (· ≠ '\n')).length⟩

theorem Position.behind_concat (text : List Char) (character : Char) :
    behind (text ++ [character]) = (behind text).after character := by
  unfold behind after
  by_cases newline : character = '\n'
  · simp [newline, Nat.add_assoc]
  · simp [newline, Nat.add_comm]

theorem Position.afterAll_behind (text more : List Char) :
    (behind text).afterAll more = behind (text ++ more) := by
  induction more generalizing text with
  | nil => rw [afterAll_nil, List.append_nil]
  | cons character rest inductionHypothesis =>
      rw [afterAll_cons, ← behind_concat, inductionHypothesis, List.append_assoc,
        List.singleton_append]

/-! ### Partitions -/

namespace Lexeme

/-- A character that is not part of the language. -/
def IsForeign (character : Char) : Prop :=
  character ∉ [' ', '\t', '\r', '\n', '#', '"', '_'] ∧ character.isAlpha = false ∧
    character.isDigit = false ∧ Token.Kind.delimiter? character = none

/-- A word that may be a name begins as words do and goes on as they do. -/
def IsWord (characters : List Char) : Prop :=
  ∃ first rest, characters = first :: rest ∧ beginsWord first = true ∧
    ∀ character ∈ rest, continuesWord character = true

/-- In a text that can be quoted every quote and every backslash belongs to a pair that a
backslash begins. -/
inductive IsQuotable : List Char → Prop where
  | nil : IsQuotable []
  | pair (escaped : Char) {rest : List Char} (quotable : IsQuotable rest) :
      IsQuotable ('\\' :: escaped :: rest)
  | plain {character : Char} {rest : List Char} (noQuote : character ≠ '"')
      (noBackslash : character ≠ '\\') (quotable : IsQuotable rest) :
      IsQuotable (character :: rest)

/-- How a token of a kind is written in front of the text behind it: what its text consists of,
and that it ends where it has to. -/
inductive IsSpelled : Token.Kind → List Char → List Char → Prop where
  | space {text behind : List Char} (nonempty : text ≠ [])
      (blank : ∀ character ∈ text, isBlank character = true)
      (ends : ∀ next ∈ behind.head?, isBlank next = false) : IsSpelled .space text behind
  | newline (behind : List Char) : IsSpelled .newline ['\n'] behind
  | closed {inside : List Char} (quotable : IsQuotable inside) (behind : List Char) :
      IsSpelled .string ('"' :: (inside ++ ['"'])) behind
  /-- A string without its closing quote takes in everything. -/
  | unclosed {inside : List Char} (lacks : Token.holdsClosingQuote inside = false) :
      IsSpelled .string ('"' :: inside) []
  | digits {text behind : List Char} (nonempty : text ≠ [])
      (digits : ∀ character ∈ text, character.isDigit = true)
      (ends : ∀ next ∈ behind.head?, next.isDigit = false)
      (noUnit : ∀ further, behind ≠ 'm' :: 's' :: further) : IsSpelled .number text behind
  | digitsAndUnit {text : List Char} (nonempty : text ≠ [])
      (digits : ∀ character ∈ text, character.isDigit = true) (behind : List Char) :
      IsSpelled .number (text ++ ['m', 's']) behind
  | word {text behind : List Char} (isWord : IsWord text)
      (ends : ∀ next ∈ behind.head?, continuesWord next = false) :
      IsSpelled (wordKind text) text behind
  | delimiter {character : Char} {kind : Token.Kind}
      (isDelimiter : Token.Kind.delimiter? character = some kind) (behind : List Char) :
      IsSpelled kind [character] behind

/-- A comment, or a string without its closing quote, which takes in whatever follows. -/
def isOpen : Lexeme → Bool
  | comment _ => true
  | token kind text => kind = .string && !Token.holdsClosingQuote (text.drop 1)

end Lexeme

/-- Behind a text, the pieces are the tokens, each of them at its place and with a text that
tokens of its kind are written with, and comments from a number sign to the end of the line. At
the end stands the token of the end. -/
inductive Token.Partition : List Char → List Lexeme → List Token → Prop where
  | done (before : List Char) : Partition before [] [endOfFileAt (.behind before)]
  | comment {before text : List Char} {pieces : List Lexeme} {tokens : List Token}
      (oneLine : ∀ character ∈ text, character ≠ '\n')
      (ends : ∀ next ∈ (Lexeme.textOf pieces).head?, next = '\n')
      (others : Partition (before ++ '#' :: text) pieces tokens) :
      Partition before (.comment ('#' :: text) :: pieces) tokens
  | token {before text : List Char} {kind : Kind} {pieces : List Lexeme} {tokens : List Token}
      (nonempty : text ≠ []) (goesOn : kind ≠ .endOfFile)
      (spelled : Lexeme.IsSpelled kind text (Lexeme.textOf pieces))
      (others : Partition (before ++ text) pieces tokens) :
      Partition before (.token kind text :: pieces)
        (⟨String.ofList text, kind, .behind before⟩ :: tokens)

namespace Lexeme

/-! ### One lexeme -/

/-- Only foreign characters begin no lexeme. -/
theorem cut?_eq_none_iff {first : Char} {rest : List Char} :
    cut? first rest = none ↔ IsForeign first := by
  unfold cut? IsForeign isBlank beginsWord
  simp only [List.mem_cons, List.not_mem_nil, not_or]
  repeat' split
  all_goals grind [Option.map_eq_none_iff]

theorem wordKind_ne (characters : List Char) :
    wordKind characters ≠ .string ∧ wordKind characters ≠ .number ∧
      wordKind characters ≠ .endOfFile := by
  unfold wordKind Token.Kind.keyword?
  split
  all_goals try decide
  cases Syllable.ofWritten? (String.ofList characters) with
  | none => decide
  | some name =>
      exact ⟨Token.Kind.noConfusion, Token.Kind.noConfusion, Token.Kind.noConfusion⟩

theorem delimiter?_ne {character : Char} {kind : Token.Kind}
    (isDelimiter : Token.Kind.delimiter? character = some kind) :
    kind ≠ .string ∧ kind ≠ .number ∧ kind ≠ .endOfFile := by
  unfold Token.Kind.delimiter? at isDelimiter
  split at isDelimiter
  all_goals first
    | contradiction
    | obtain rfl := Option.some.inj isDelimiter
      decide

/-! ### Inside of a string -/

section Strings

variable {character : Char} (noQuote : character ≠ '"') (noBackslash : character ≠ '\\')

include noQuote noBackslash

theorem cutString_plain (rest : List Char) :
    cutString (character :: rest) = (character :: (cutString rest).1, (cutString rest).2) :=
  cutString.eq_4 character rest noQuote fun _ _ same _ => noBackslash same

theorem holdsClosingQuote_plain (rest : List Char) :
    Token.holdsClosingQuote (character :: rest) = Token.holdsClosingQuote rest :=
  Token.holdsClosingQuote.eq_5 character rest noQuote (fun same _ => noBackslash same)
    fun _ _ same _ => noBackslash same

end Strings

theorem cutString_pair (escaped : Char) (rest : List Char) :
    cutString ('\\' :: escaped :: rest) =
      ('\\' :: escaped :: (cutString rest).1, (cutString rest).2) :=
  rfl

/-- Induction over the text behind an opening quote, in the steps in which a string is cut off. A
backslash with nothing behind it escapes nothing. -/
theorem stringInduction {motive : List Char → Prop} (nil : motive [])
    (quote : ∀ rest, motive ('"' :: rest)) (backslash : motive ['\\'])
    (pair : ∀ escaped rest, motive rest → motive ('\\' :: escaped :: rest))
    (plain : ∀ character rest, character ≠ '"' → character ≠ '\\' → motive rest →
      motive (character :: rest)) (characters : List Char) : motive characters := by
  fun_induction cutString characters with
  | case1 => exact nil
  | case2 rest => exact quote rest
  | case3 escaped rest _ _ _ inductionHypothesis => exact pair escaped rest inductionHypothesis
  | case4 character rest noQuote noPair _ _ _ inductionHypothesis =>
      by_cases isBackslash : character = '\\'
      · subst isBackslash
        cases rest with
        | nil => exact backslash
        | cons escaped others => exact absurd rfl (noPair escaped others rfl)
      · exact plain character rest noQuote isBackslash inductionHypothesis

/-- A string that leaves something behind it is closed. -/
theorem holdsClosingQuote_cutString {characters : List Char}
    (more : (cutString characters).2 ≠ []) :
    Token.holdsClosingQuote (cutString characters).1 = true := by
  induction characters using stringInduction with
  | nil => contradiction
  | quote rest => rfl
  | backslash => contradiction
  | pair escaped rest inductionHypothesis => exact inductionHypothesis more
  | plain character rest noQuote noBackslash inductionHypothesis =>
      rw [cutString_plain noQuote noBackslash] at more ⊢
      rw [holdsClosingQuote_plain noQuote noBackslash]
      exact inductionHypothesis more

/-- A string is cut off behind a text that can be quoted and its closing quote, or else it takes
in everything and holds no closing quote. -/
theorem cutString_cases (characters : List Char) :
    (∃ inside, IsQuotable inside ∧ (cutString characters).1 = inside ++ ['"']) ∨
      (cutString characters).2 = [] ∧
        Token.holdsClosingQuote (cutString characters).1 = false := by
  induction characters using stringInduction with
  | nil => exact .inr ⟨rfl, rfl⟩
  | quote rest => exact .inl ⟨[], .nil, rfl⟩
  | backslash => exact .inr ⟨rfl, rfl⟩
  | pair escaped rest inductionHypothesis =>
      refine inductionHypothesis.imp (fun closed => ?_) id
      obtain ⟨text, quotable, same⟩ := closed
      exact ⟨'\\' :: escaped :: text, .pair escaped quotable,
        congrArg ('\\' :: escaped :: ·) same⟩
  | plain character rest noQuote noBackslash inductionHypothesis =>
      rw [cutString_plain noQuote noBackslash, holdsClosingQuote_plain noQuote noBackslash]
      refine inductionHypothesis.imp_left fun closed => ?_
      obtain ⟨text, quotable, same⟩ := closed
      exact ⟨character :: text, .plain noQuote noBackslash quotable,
        congrArg (character :: ·) same⟩

/-! ### What one lexeme is -/

/-- What a lexeme is in front of the text behind it. -/
def IsWhole : Lexeme → List Char → Prop
  | comment text, behind =>
      ∃ inside, text = '#' :: inside ∧ (∀ character ∈ inside, character ≠ '\n') ∧
        ∀ next ∈ behind.head?, next = '\n'
  | token kind text, behind =>
      text ≠ [] ∧ kind ≠ .endOfFile ∧
        (kind = .string → behind ≠ [] → Token.holdsClosingQuote (text.drop 1) = true)

theorem isWhole_of_cut? {first : Char} {rest behind : List Char} {lexeme : Lexeme}
    (cut : cut? first rest = some (lexeme, behind)) : lexeme.IsWhole behind := by
  unfold cut? at cut
  split at cut
  · rename_i sign
    obtain ⟨rfl, rfl⟩ := Prod.mk.inj (Option.some.inj cut)
    refine ⟨_, by rw [sign], fun character member => ?_, fun next there => ?_⟩
    · have continues := List.mem_takeWhile_imp member
      simpa [continuesComment] using continues
    · have stopped := List.head?_dropWhile_not continuesComment rest
      rw [Option.mem_def.mp there] at stopped
      simpa [continuesComment] using stopped
  split at cut
  · obtain ⟨rfl, rfl⟩ := Prod.mk.inj (Option.some.inj cut)
    exact ⟨List.cons_ne_nil _ _, by decide, fun isString => by contradiction⟩
  split at cut
  · obtain ⟨rfl, rfl⟩ := Prod.mk.inj (Option.some.inj cut)
    exact ⟨List.cons_ne_nil _ _, by decide, fun isString => by contradiction⟩
  split at cut
  · obtain ⟨rfl, rfl⟩ := Prod.mk.inj (Option.some.inj cut)
    exact ⟨List.cons_ne_nil _ _, by decide, fun _ => holdsClosingQuote_cutString⟩
  split at cut
  · obtain ⟨rfl, rfl⟩ := Prod.mk.inj (Option.some.inj cut)
    exact ⟨List.cons_ne_nil _ _, by decide, fun isString => by contradiction⟩
  split at cut
  · obtain ⟨rfl, rfl⟩ := Prod.mk.inj (Option.some.inj cut)
    have other := wordKind_ne (first :: rest.takeWhile continuesWord)
    exact ⟨List.cons_ne_nil _ _, other.2.2, fun isString => absurd isString other.1⟩
  · obtain ⟨kind, isDelimiter, same⟩ := Option.map_eq_some_iff.mp cut
    obtain ⟨rfl, rfl⟩ := Prod.mk.inj same
    have other := delimiter?_ne isDelimiter
    exact ⟨List.cons_ne_nil _ _, other.2.2, fun isString => absurd isString other.1⟩

theorem head?_dropWhile_eq_false {test : Char → Bool} {characters : List Char} :
    ∀ next ∈ (characters.dropWhile test).head?, test next = false := by
  intro next there
  have stopped := List.head?_dropWhile_not test characters
  rw [Option.mem_def.mp there] at stopped
  simpa using stopped

theorem isSpelled_number {first : Char} (digit : first.isDigit = true) (rest : List Char) :
    IsSpelled .number
      (first :: rest.takeWhile Char.isDigit ++ (cutUnit (rest.dropWhile Char.isDigit)).1)
      (cutUnit (rest.dropWhile Char.isDigit)).2 := by
  have nonempty : first :: rest.takeWhile Char.isDigit ≠ [] := List.cons_ne_nil _ _
  have digits : ∀ character ∈ first :: rest.takeWhile Char.isDigit,
      character.isDigit = true :=
    List.forall_mem_cons.mpr ⟨digit, fun _ member => List.mem_takeWhile_imp member⟩
  have ends : ∀ next ∈ (rest.dropWhile Char.isDigit).head?, next.isDigit = false :=
    head?_dropWhile_eq_false
  generalize rest.dropWhile Char.isDigit = behind at ends ⊢
  unfold cutUnit
  split
  · exact .digitsAndUnit nonempty digits _
  · rename_i noUnit
    rw [List.append_nil]
    exact .digits nonempty digits ends noUnit

theorem isSpelled_string (rest : List Char) :
    IsSpelled .string ('"' :: (cutString rest).1) (cutString rest).2 := by
  rcases cutString_cases rest with ⟨inside, quotable, same⟩ | ⟨nothing, lacks⟩
  · rw [same]
    exact .closed quotable _
  · rw [nothing]
    exact .unclosed lacks

/-- A token is cut off as tokens of its kind are written. -/
theorem isSpelled_of_cut? {first : Char} {rest text behind : List Char} {kind : Token.Kind}
    (cut : cut? first rest = some (.token kind text, behind)) : IsSpelled kind text behind := by
  unfold cut? at cut
  split at cut
  · cases cut
  split at cut
  · rename_i blank
    cases cut
    refine .space (List.cons_ne_nil _ _) ?_ head?_dropWhile_eq_false
    exact List.forall_mem_cons.mpr ⟨blank, fun _ member => List.mem_takeWhile_imp member⟩
  split at cut
  · rename_i line
    subst line
    cases cut
    exact .newline _
  split at cut
  · rename_i quote
    subst quote
    cases cut
    exact isSpelled_string rest
  split at cut
  · rename_i digit
    cases cut
    exact isSpelled_number digit rest
  split at cut
  · rename_i begins
    cases cut
    refine .word ⟨_, _, rfl, begins, ?_⟩ head?_dropWhile_eq_false
    exact fun _ member => List.mem_takeWhile_imp member
  · obtain ⟨found, isDelimiter, same⟩ := Option.map_eq_some_iff.mp cut
    cases same
    exact .delimiter isDelimiter _

/-! ### What stands behind does not matter -/

theorem eq_nil_of_append_suffix {taken behind suffix : List Char}
    (whole : taken ++ (behind ++ suffix) = suffix) : taken = [] ∧ behind = [] := by
  have lengths := congrArg List.length whole
  simp only [List.length_append] at lengths
  exact ⟨List.eq_nil_of_length_eq_zero (by omega), List.eq_nil_of_length_eq_zero (by omega)⟩

/-- A run that ends in front of a suffix ends there without it, too. -/
theorem takeWhile_of_dropWhile_append {test : Char → Bool} {inside behind suffix : List Char}
    (cut : (inside ++ suffix).dropWhile test = behind ++ suffix) :
    inside.takeWhile test = (inside ++ suffix).takeWhile test ∧
      inside.dropWhile test = behind := by
  induction inside with
  | nil =>
      have whole := suffix.takeWhile_append_dropWhile (p := test)
      rw [List.nil_append] at cut ⊢
      rw [cut] at whole
      obtain ⟨taken, rfl⟩ := eq_nil_of_append_suffix whole
      exact ⟨taken.symm, rfl⟩
  | cons first rest inductionHypothesis =>
      cases passes : test first with
      | false =>
          simp only [List.cons_append, List.dropWhile_cons, List.takeWhile_cons, passes] at cut ⊢
          exact ⟨rfl, List.append_cancel_right cut⟩
      | true =>
          simp only [List.cons_append, List.dropWhile_cons, List.takeWhile_cons, passes] at cut ⊢
          obtain ⟨taken, dropped⟩ := inductionHypothesis cut
          exact ⟨congrArg (first :: ·) taken, dropped⟩

theorem cutString_of_append {inside behind suffix : List Char}
    (cut : (cutString (inside ++ suffix)).2 = behind ++ suffix) :
    cutString inside = ((cutString (inside ++ suffix)).1, behind) := by
  induction inside using stringInduction with
  | nil =>
      have whole := cutString_append suffix
      rw [List.nil_append] at cut ⊢
      rw [cut] at whole
      obtain ⟨taken, rfl⟩ := eq_nil_of_append_suffix whole
      rw [taken]
      rfl
  | quote rest =>
      rw [← List.append_cancel_right cut]
      rfl
  | backslash =>
      cases suffix with
      | nil =>
          rw [List.append_nil, List.append_nil] at cut
          rw [← cut]
          rfl
      | cons escaped others =>
          have whole := congrArg List.length (cutString_append others)
          have left := congrArg List.length cut
          simp [cutString] at whole left
          omega
  | pair escaped rest inductionHypothesis =>
      rw [List.cons_append, List.cons_append, cutString_pair] at cut ⊢
      rw [cutString_pair, inductionHypothesis cut]
  | plain character rest noQuote noBackslash inductionHypothesis =>
      rw [List.cons_append, cutString_plain noQuote noBackslash] at cut ⊢
      rw [cutString_plain noQuote noBackslash, inductionHypothesis cut]

theorem cutUnit_of_append {unit behind suffix : List Char}
    (cut : cutUnit (unit ++ behind ++ suffix) = (unit, behind ++ suffix)) :
    cutUnit (unit ++ behind) = (unit, behind) := by
  unfold cutUnit at cut
  split at cut
  · obtain ⟨rfl, _⟩ := Prod.mk.inj cut
    rfl
  · rename_i noUnit
    obtain ⟨rfl, _⟩ := Prod.mk.inj cut
    unfold cutUnit
    split
    · rename_i same
      rw [same] at noUnit
      exact (noUnit _ rfl).elim
    · rfl

/-- The unit behind digits, in the same way. -/
theorem cutUnit_dropWhile_of_append {inside behind suffix : List Char}
    (cut : (cutUnit ((inside ++ suffix).dropWhile Char.isDigit)).2 = behind ++ suffix) :
    inside.takeWhile Char.isDigit = (inside ++ suffix).takeWhile Char.isDigit ∧
      cutUnit (inside.dropWhile Char.isDigit) =
        ((cutUnit ((inside ++ suffix).dropWhile Char.isDigit)).1, behind) := by
  have whole := cutUnit_append ((inside ++ suffix).dropWhile Char.isDigit)
  rw [cut, ← List.append_assoc] at whole
  obtain ⟨taken, dropped⟩ := takeWhile_of_dropWhile_append whole.symm
  refine ⟨taken, ?_⟩
  rw [dropped]
  have unit : cutUnit ((cutUnit ((inside ++ suffix).dropWhile Char.isDigit)).1 ++ behind ++
      suffix) = ((cutUnit ((inside ++ suffix).dropWhile Char.isDigit)).1, behind ++ suffix) := by
    rw [whole, ← cut]
  exact cutUnit_of_append unit

/-- What is cut off in front of a suffix is cut off without it, too. -/
theorem cut?_of_append {first : Char} {inside behind suffix : List Char} {lexeme : Lexeme}
    (cut : cut? first (inside ++ suffix) = some (lexeme, behind ++ suffix)) :
    cut? first inside = some (lexeme, behind) := by
  unfold cut? at cut ⊢
  split at cut
  · rename_i comment
    obtain ⟨rfl, dropped⟩ := Prod.mk.inj (Option.some.inj cut)
    obtain ⟨taken, left⟩ := takeWhile_of_dropWhile_append dropped
    rw [if_pos comment, taken, left]
  rename_i noComment
  rw [if_neg noComment]
  split at cut
  · rename_i blank
    obtain ⟨rfl, dropped⟩ := Prod.mk.inj (Option.some.inj cut)
    obtain ⟨taken, left⟩ := takeWhile_of_dropWhile_append dropped
    rw [if_pos blank, taken, left]
  rename_i noBlank
  rw [if_neg noBlank]
  split at cut
  · rename_i line
    obtain ⟨rfl, left⟩ := Prod.mk.inj (Option.some.inj cut)
    rw [if_pos line, List.append_cancel_right left]
  rename_i noLine
  rw [if_neg noLine]
  split at cut
  · rename_i quote
    obtain ⟨rfl, left⟩ := Prod.mk.inj (Option.some.inj cut)
    rw [if_pos quote, cutString_of_append left]
  rename_i noQuote
  rw [if_neg noQuote]
  split at cut
  · rename_i digit
    obtain ⟨rfl, left⟩ := Prod.mk.inj (Option.some.inj cut)
    obtain ⟨taken, dropped⟩ := cutUnit_dropWhile_of_append left
    rw [if_pos digit, taken, dropped]
    rfl
  rename_i noDigit
  rw [if_neg noDigit]
  split at cut
  · rename_i word
    obtain ⟨rfl, dropped⟩ := Prod.mk.inj (Option.some.inj cut)
    obtain ⟨taken, left⟩ := takeWhile_of_dropWhile_append dropped
    rw [if_pos word, taken, left]
  · rename_i noWord
    obtain ⟨kind, isDelimiter, same⟩ := Option.map_eq_some_iff.mp cut
    obtain ⟨rfl, left⟩ := Prod.mk.inj same
    rw [if_neg noWord, isDelimiter, List.append_cancel_right left]
    rfl

/-- In front of a foreign character a lexeme is complete. -/
theorem isOpen_eq_false {lexeme : Lexeme} {character : Char} {behind : List Char}
    (whole : lexeme.IsWhole (character :: behind)) (isForeign : IsForeign character) :
    lexeme.isOpen = false := by
  cases lexeme with
  | comment text =>
      obtain ⟨_, _, _, ends⟩ := whole
      obtain rfl := ends character rfl
      exact absurd isForeign.1 (by decide)
  | token kind text =>
      by_cases isString : kind = .string
      · rw [isOpen, whole.2.2 isString (List.cons_ne_nil _ _), Bool.not_true, Bool.and_false]
      · simp [isOpen, isString]

/-! ### Runs of lexemes -/

/-- From the first text the lexemes are cut off one after the other, until the second one is
left. -/
inductive Cuts : List Char → List Lexeme → List Char → Prop where
  | nil (rest : List Char) : Cuts rest [] rest
  | cons {first : Char} {more behind rest : List Char} {lexeme : Lexeme}
      {others : List Lexeme} (cut : cut? first more = some (lexeme, behind))
      (run : Cuts behind others rest) : Cuts (first :: more) (lexeme :: others) rest

namespace Cuts

variable {characters rest : List Char} {lexemes : List Lexeme}

/-- A run of lexemes and the text behind it make up the text that they were cut from. -/
theorem textOf_append (run : Cuts characters lexemes rest) :
    textOf lexemes ++ rest = characters := by
  induction run with
  | nil rest => rfl
  | cons cut run inductionHypothesis =>
      rw [← text_append_of_cut? cut, ← inductionHypothesis, ← List.append_assoc]
      rfl

/-- The text of a run is cut into the same lexemes without what stands behind it. -/
theorem alone (run : Cuts characters lexemes rest) : Cuts (textOf lexemes) lexemes [] := by
  induction run with
  | nil rest => exact .nil []
  | @cons first more behind rest lexeme others cut run inductionHypothesis =>
      have whole := text_append_of_cut? cut
      obtain ⟨head, inside, text⟩ := List.exists_cons_of_ne_nil (text_ne_nil_of_cut? cut)
      rw [← run.textOf_append, text, List.cons_append] at whole
      obtain ⟨rfl, rfl⟩ := List.cons.inj whole
      change Cuts (lexeme.text ++ textOf others) (lexeme :: others) []
      rw [text]
      rw [← run.textOf_append, ← List.append_assoc] at cut
      exact .cons (cut?_of_append cut) inductionHypothesis

/-- The last lexeme of a run is whole in front of what is left. -/
theorem isWhole_last (run : Cuts characters lexemes rest) :
    ∀ lexeme ∈ lexemes.getLast?, lexeme.IsWhole rest := by
  induction run with
  | nil rest => simp
  | @cons first more behind rest lexeme others cut run inductionHypothesis =>
      cases run with
      | nil =>
          rintro last there
          obtain rfl := Option.some.inj there
          exact isWhole_of_cut? cut
      | cons next further => exact inductionHypothesis

theorem cutAllOnto_eq (run : Cuts characters lexemes []) (found : List Lexeme) :
    cutAllOnto found characters = (found.reverse ++ lexemes, []) := by
  generalize whole : ([] : List Char) = rest at run
  induction run generalizing found with
  | nil rest =>
      subst whole
      rw [List.append_nil]
      exact cutAllOnto.eq_1 found
  | @cons first more behind rest lexeme others cut run inductionHypothesis =>
      rw [cutAllOnto]
      split
      · rename_i refused
        rw [cut] at refused
        contradiction
      · rename_i other left same
        rw [cut] at same
        obtain ⟨rfl, rfl⟩ := Prod.mk.inj (Option.some.inj same)
        rw [inductionHypothesis _ whole, List.reverse_cons, List.append_assoc]
        rfl

end Cuts

/-- A text is cut into lexemes as far as it begins with some. -/
theorem exists_cuts_cutAllOnto (found : List Lexeme) (characters : List Char) :
    ∃ lexemes rest, cutAllOnto found characters = (found.reverse ++ lexemes, rest) ∧
      Cuts characters lexemes rest ∧ ∀ character ∈ rest.head?, IsForeign character := by
  fun_induction cutAllOnto found characters with
  | case1 found => exact ⟨[], [], by simp, .nil [], by simp⟩
  | case2 found first rest refused =>
      refine ⟨[], first :: rest, by simp, .nil _, ?_⟩
      rintro _ ⟨⟩
      exact cut?_eq_none_iff.mp refused
  | case3 found first rest lexeme behind cut inductionHypothesis =>
      obtain ⟨others, final, same, run, foreign⟩ := inductionHypothesis
      exact ⟨lexeme :: others, final, by simp [same], .cons cut run, foreign⟩

end Lexeme

/-! ### Tokens -/

namespace Token

theorem placedOnto_eq (placed : List Token) (position : Position) (lexemes : List Lexeme) :
    Lexeme.placedOnto placed position lexemes =
      placed.reverse ++ Lexeme.placedOnto [] position lexemes := by
  induction lexemes generalizing placed position with
  | nil => simp [Lexeme.placedOnto]
  | cons lexeme others inductionHypothesis =>
      cases lexeme with
      | comment text => exact inductionHypothesis placed _
      | token kind text =>
          rw [Lexeme.placedOnto, Lexeme.placedOnto, inductionHypothesis,
            inductionHypothesis [_], List.reverse_cons, List.append_assoc]
          rfl

/-- The tokens of a text that is cut to its end, at whatever place it begins. -/
theorem partition_of_cuts {characters : List Char} {lexemes : List Lexeme}
    (run : Lexeme.Cuts characters lexemes []) (before : List Char) :
    Partition before lexemes (Lexeme.placedOnto [] (.behind before) lexemes ++
      [endOfFileAt ((Position.behind before).afterAll (Lexeme.textOf lexemes))]) := by
  generalize whole : ([] : List Char) = rest at run
  induction run generalizing before with
  | nil rest => exact .done before
  | @cons first more behind rest lexeme others cut run inductionHypothesis =>
      subst whole
      have isWhole := Lexeme.isWhole_of_cut? cut
      have remains := run.textOf_append
      rw [List.append_nil] at remains
      rw [← remains] at isWhole
      have further := inductionHypothesis (before ++ lexeme.text) rfl
      rw [← Position.afterAll_behind] at further
      have place : (Position.behind before).afterAll (Lexeme.textOf (lexeme :: others)) =
          ((Position.behind before).afterAll lexeme.text).afterAll (Lexeme.textOf others) :=
        Position.afterAll_append _ _ _
      rw [place]
      cases lexeme with
      | comment text =>
          obtain ⟨inside, rfl, oneLine, ends⟩ := isWhole
          exact .comment oneLine ends further
      | token kind text =>
          rw [Lexeme.placedOnto, placedOnto_eq]
          rw [← remains] at cut
          exact .token isWhole.1 isWhole.2.1 (Lexeme.isSpelled_of_cut? cut) further

theorem tokenize_of_cuts {source : String} {lexemes : List Lexeme}
    (run : Lexeme.Cuts source.toList lexemes []) :
    ∃ tokens, tokenize source = .ok tokens ∧ Partition [] lexemes tokens := by
  have cut : Lexeme.cutAll source.toList = (lexemes, []) := run.cutAllOnto_eq []
  refine ⟨_, ?_, partition_of_cuts run []⟩
  unfold tokenize
  rw [cut]
  rfl

/-- **Tokens are a partition of the source, exact to the place.** A source that is accepted
consists of the texts of its tokens and of comments, with each token at its place and written
as its kind is. One that is refused has a foreign character at the place of the problem; the text before it is
accepted and does not end within a comment or a string. -/
theorem tokenize_partitions (source : String) :
    match tokenize source with
    | .ok tokens =>
        ∃ pieces, Lexeme.textOf pieces = source.toList ∧ Partition [] pieces tokens
    | .error diagnostic =>
        ∃ before character behind, source.toList = before ++ character :: behind ∧
          diagnostic = ⟨.unrecognizedCharacter character, .behind before⟩ ∧
          Lexeme.IsForeign character ∧
          ∃ pieces tokens, tokenize (String.ofList before) = .ok tokens ∧
            Lexeme.textOf pieces = before ∧ Partition [] pieces tokens ∧
            ∀ piece ∈ pieces.getLast?, piece.isOpen = false := by
  obtain ⟨lexemes, rest, cut, run, foreign⟩ := Lexeme.exists_cuts_cutAllOnto [] source.toList
  have whole := run.textOf_append
  cases rest with
  | nil =>
      obtain ⟨tokens, same, partition⟩ := tokenize_of_cuts run
      rw [same]
      rw [List.append_nil] at whole
      exact ⟨lexemes, whole, partition⟩
  | cons character behind =>
      have stranger := foreign character rfl
      have refused : tokenize source = .error ⟨.unrecognizedCharacter character,
          Position.start.afterAll (Lexeme.textOf lexemes)⟩ := by
        have cutWhole : Lexeme.cutAll source.toList = (lexemes, character :: behind) := cut
        unfold tokenize
        rw [cutWhole]
      have alone : Lexeme.Cuts (String.ofList (Lexeme.textOf lexemes)).toList lexemes [] := by
        rw [String.toList_ofList]
        exact run.alone
      obtain ⟨tokens, accepted, partition⟩ := tokenize_of_cuts alone
      rw [refused]
      refine ⟨Lexeme.textOf lexemes, character, behind, whole.symm, ?_, stranger, lexemes,
        tokens, accepted, rfl, partition, fun piece last => ?_⟩
      · exact congrArg (Diagnostic.mk _) (Position.afterAll_behind [] _)
      · exact Lexeme.isOpen_eq_false (run.isWhole_last piece last) stranger

end Token

end Solfege
