import Solfege.Proofs.Columns.Score
import Solfege.Proofs.Names.Source
import Solfege.Proofs.Tokens.Basic

/-!
Contract: a source without its comments is cut into the same tokens, and they spell the same score.

Owns:
- texts that stand at the end of a line, and lexemes that are cut off in front of them as well;
- the lexemes that are no comments, and the proof that their text is cut into them;
- the column of each place once the comments are taken out.

Does not own: what is read from tokens in other columns.

A comment runs to the end of its line. So where one is taken out, what stood in front of it stands
at the end of a line, and no lexeme runs on over that but a string that is not closed, behind which
nothing stands at all.
-/

namespace Solfege

open Lexeme (Cuts textOf cut?)

/-- A text without newlines leads to no other line. -/
theorem Position.line_afterAll (position : Position) {text : List Char}
    (oneLine : ∀ character ∈ text, character ≠ '\n') :
    (position.afterAll text).line = position.line := by
  induction text generalizing position with
  | nil => rfl
  | cons character rest inductionHypothesis =>
      obtain ⟨noNewline, others⟩ := List.forall_mem_cons.mp oneLine
      rw [afterAll_cons, inductionHypothesis _ others, after, if_neg noNewline]

namespace Lexeme

/-! ### The end of a line -/

/-- Nothing stands in the text, or a newline is the first that does. -/
def AtLineEnd (text : List Char) : Prop := ∀ next ∈ text.head?, next = '\n'

section LineEnd

variable {inside behind more : List Char}

/-- A run that a newline ends ends where it ended if more is put behind it there. -/
theorem takeWhile_append_of_atLineEnd (test : Char → Bool) (refused : test '\n' = false)
    (atLineEnd : AtLineEnd more) :
    (inside ++ more).takeWhile test = inside.takeWhile test ∧
      (inside ++ more).dropWhile test = inside.dropWhile test ++ more := by
  have passes : ∀ character ∈ inside.takeWhile test, test character = true :=
    fun character => List.mem_takeWhile_imp
  have stops : Stops test (inside.dropWhile test ++ more) := by
    have stopped := List.head?_dropWhile_not test inside
    intro first member
    cases left : inside.dropWhile test with
    | nil =>
        rw [left] at member
        rw [atLineEnd first member]
        exact refused
    | cons other rest =>
        rw [left] at stopped member
        rw [← Option.some.inj member]
        simpa using stopped
  have whole : inside.takeWhile test ++ (inside.dropWhile test ++ more) = inside ++ more := by
    rw [← List.append_assoc, List.takeWhile_append_dropWhile]
  have taken := takeWhile_of_stops passes stops
  have dropped := dropWhile_of_stops passes stops
  rw [whole] at taken dropped
  exact ⟨taken, dropped⟩

/-- A closed string ends at its quote, whatever is put behind the text. -/
theorem cutString_append_of_closed
    (closed : more ≠ [] → Token.holdsClosingQuote (cutString inside).1 = true) :
    cutString (inside ++ more) = ((cutString inside).1, (cutString inside).2 ++ more) := by
  by_cases last : more = []
  · rw [last, List.append_nil, List.append_nil]
  replace closed := closed last
  induction inside using stringInduction with
  | nil => contradiction
  | quote rest => rfl
  | backslash => contradiction
  | pair escaped rest inductionHypothesis =>
      rw [List.cons_append, List.cons_append, cutString_pair, cutString_pair,
        inductionHypothesis closed]
  | plain character rest noQuote noBackslash inductionHypothesis =>
      rw [cutString_plain noQuote noBackslash,
        holdsClosingQuote_plain noQuote noBackslash] at closed
      rw [List.cons_append, cutString_plain noQuote noBackslash,
        cutString_plain noQuote noBackslash, inductionHypothesis closed]

/-- At the end of a line no unit begins that did not stand there. -/
theorem cutUnit_append_of_atLineEnd (atLineEnd : AtLineEnd more) :
    cutUnit (inside ++ more) = ((cutUnit inside).1, (cutUnit inside).2 ++ more) := by
  by_cases unit : ∃ rest, inside = 'm' :: 's' :: rest
  · obtain ⟨rest, rfl⟩ := unit
    rfl
  · have noUnit : ∀ rest, inside ≠ 'm' :: 's' :: rest := fun rest same => unit ⟨rest, same⟩
    have noneThere : ∀ rest, inside ++ more ≠ 'm' :: 's' :: rest := by
      intro rest same
      rcases List.append_eq_cons_iff.mp same with ⟨_, begins⟩ | ⟨others, rfl, left⟩
      · exact absurd (atLineEnd 'm' (by rw [begins]; rfl)) (by decide)
      · rcases List.append_eq_cons_iff.mp left.symm with ⟨_, begins⟩ | ⟨_, rfl, _⟩
        · exact absurd (atLineEnd 's' (by rw [begins]; rfl)) (by decide)
        · exact noUnit _ rfl
    rw [cutUnit.eq_2 _ noneThere, cutUnit.eq_2 _ noUnit]

/-- What is cut off a text is cut off as well if more is put behind it at the end of a line. -/
theorem cut?_append_of_atLineEnd {first : Char} {lexeme : Lexeme}
    (cut : cut? first inside = some (lexeme, behind)) (whole : lexeme.IsWhole more)
    (atLineEnd : AtLineEnd more) : cut? first (inside ++ more) = some (lexeme, behind ++ more) := by
  unfold cut? at cut ⊢
  split at cut
  · rename_i comment
    obtain ⟨rfl, rfl⟩ := Prod.mk.inj (Option.some.inj cut)
    obtain ⟨taken, left⟩ := takeWhile_append_of_atLineEnd continuesComment rfl atLineEnd
    rw [if_pos comment, taken, left]
  rename_i noComment
  rw [if_neg noComment]
  split at cut
  · rename_i blank
    obtain ⟨rfl, rfl⟩ := Prod.mk.inj (Option.some.inj cut)
    obtain ⟨taken, left⟩ := takeWhile_append_of_atLineEnd isBlank rfl atLineEnd
    rw [if_pos blank, taken, left]
  rename_i noBlank
  rw [if_neg noBlank]
  split at cut
  · rename_i line
    obtain ⟨rfl, rfl⟩ := Prod.mk.inj (Option.some.inj cut)
    rw [if_pos line]
  rename_i noLine
  rw [if_neg noLine]
  split at cut
  · rename_i quote
    obtain ⟨rfl, rfl⟩ := Prod.mk.inj (Option.some.inj cut)
    rw [if_pos quote, cutString_append_of_closed (whole.2.2 rfl)]
  rename_i noQuote
  rw [if_neg noQuote]
  split at cut
  · rename_i digit
    obtain ⟨rfl, rfl⟩ := Prod.mk.inj (Option.some.inj cut)
    obtain ⟨taken, left⟩ := takeWhile_append_of_atLineEnd Char.isDigit rfl atLineEnd
    rw [if_pos digit, taken, left, cutUnit_append_of_atLineEnd atLineEnd]
    rfl
  rename_i noDigit
  rw [if_neg noDigit]
  split at cut
  · rename_i word
    obtain ⟨rfl, rfl⟩ := Prod.mk.inj (Option.some.inj cut)
    obtain ⟨taken, left⟩ := takeWhile_append_of_atLineEnd continuesWord rfl atLineEnd
    rw [if_pos word, taken, left]
  · rename_i noWord
    obtain ⟨kind, isDelimiter, same⟩ := Option.map_eq_some_iff.mp cut
    obtain ⟨rfl, rfl⟩ := Prod.mk.inj same
    rw [if_neg noWord, isDelimiter]
    rfl

/-- A token is cut off in the same way if the text behind it changes from the end of a line on. -/
theorem cut?_token_of_shared {first : Char} {shared suffix text : List Char} {kind : Token.Kind}
    (cut : cut? first (inside ++ (shared ++ suffix)) = some (.token kind text, shared ++ suffix))
    (atLineEnd : AtLineEnd more) (ends : more ≠ [] → suffix ≠ []) :
    cut? first (inside ++ (shared ++ more)) = some (.token kind text, shared ++ more) := by
  obtain ⟨nonempty, goesOn, closed⟩ := isWhole_of_cut? cut
  have whole : (Lexeme.token kind text).IsWhole more :=
    ⟨nonempty, goesOn, fun isString continues => closed isString fun nothing =>
      ends continues (List.append_eq_nil_iff.mp nothing).2⟩
  rw [← List.append_assoc] at cut ⊢
  exact cut?_append_of_atLineEnd (cut?_of_append cut) whole atLineEnd

end LineEnd

/-! ### Lexemes that are no comments -/

def isToken : Lexeme → Bool
  | comment _ => false
  | token _ _ => true

/-- The source without its comments goes on as it does with them up to the first comment. There it
stands at the end of a line. -/
theorem Cuts.exists_shared {characters left : List Char} {lexemes : List Lexeme}
    (run : Cuts characters lexemes left) :
    ∃ shared suffix more, textOf lexemes = shared ++ suffix ∧
      textOf (lexemes.filter isToken) = shared ++ more ∧ AtLineEnd more ∧
      (more ≠ [] → suffix ≠ []) := by
  induction run with
  | nil rest => exact ⟨[], [], [], rfl, rfl, fun _ => nofun, id⟩
  | @cons first inside behind rest lexeme others cut onward inductionHypothesis =>
      obtain ⟨shared, suffix, more, whole, kept, atLineEnd, ends⟩ := inductionHypothesis
      cases lexeme with
      | token kind text =>
          refine ⟨text ++ shared, suffix, more, ?_, ?_, atLineEnd, ends⟩
          · rw [List.append_assoc, ← whole]
            rfl
          · rw [List.append_assoc, ← kept]
            rfl
      | comment text =>
          obtain ⟨sign, rfl, _, newline⟩ := isWhole_of_cut? cut
          refine ⟨[], textOf (.comment ('#' :: sign) :: others), _, rfl, rfl, ?_,
            fun _ => List.cons_ne_nil _ _⟩
          show AtLineEnd (textOf (others.filter isToken))
          rw [kept]
          cases shared with
          | nil => exact atLineEnd
          | cons next more =>
              rintro _ ⟨⟩
              refine newline next ?_
              rw [← onward.textOf_append, whole]
              rfl

/-- The text of the lexemes that are no comments is cut into these. -/
theorem Cuts.filter_isToken {characters left : List Char} {lexemes : List Lexeme}
    (run : Cuts characters lexemes left) :
    Cuts (textOf (lexemes.filter isToken)) (lexemes.filter isToken) [] := by
  induction run with
  | nil rest => exact .nil []
  | @cons first inside behind rest lexeme others cut onward inductionHypothesis =>
      cases lexeme with
      | comment text => exact inductionHypothesis
      | token kind text =>
          obtain ⟨shared, suffix, more, whole, kept, atLineEnd, ends⟩ := onward.exists_shared
          obtain rfl : shared ++ (suffix ++ rest) = behind := by
            rw [← onward.textOf_append, whole, List.append_assoc]
          obtain ⟨head, tail, split⟩ := List.exists_cons_of_ne_nil (text_ne_nil_of_cut? cut)
          obtain rfl : text = head :: tail := split
          obtain ⟨rfl, rfl⟩ := List.cons.inj (text_append_of_cut? cut)
          have further := cut?_token_of_shared cut atLineEnd fun nonempty nothing =>
            ends nonempty (List.append_eq_nil_iff.mp nothing).1
          rw [← kept] at further
          exact .cons further inductionHypothesis

/-! ### Columns without comments -/

/-- The column of a place if the comments among the lexemes, which stand at `position`, are taken
out. Where a comment ends, that is the column in which it begins. -/
def columnWithout (position : Position) : List Lexeme → Position → Nat
  | [], place => place.column
  | comment text :: others, place =>
      if place = position.afterAll text then
        position.column
      else
        columnWithout (position.afterAll text) others place
  | token _ text :: others, place => columnWithout (position.afterAll text) others place

/-- A comment among the lexemes, which stand at `position`, ends at the place. -/
def CommentEnds (position : Position) (lexemes : List Lexeme) (place : Position) : Prop :=
  ∃ front text others, lexemes = front ++ comment text :: others ∧
    place = position.afterAll (textOf front ++ text)

theorem CommentEnds.cons {position place : Position} {lexeme : Lexeme} {others : List Lexeme}
    (ends : CommentEnds (position.afterAll lexeme.text) others place) :
    CommentEnds position (lexeme :: others) place := by
  obtain ⟨front, text, rest, rfl, rfl⟩ := ends
  refine ⟨lexeme :: front, text, rest, rfl, ?_⟩
  rw [← Position.afterAll_append, ← List.append_assoc]
  rfl

/-- At the end of a line a newline is cut off, or nothing. -/
theorem Cuts.eq_nil_or_newline {characters left : List Char} {lexemes : List Lexeme}
    (run : Cuts characters lexemes left) (atLineEnd : AtLineEnd characters) :
    lexemes = [] ∨ ∃ others, lexemes = .token .newline ['\n'] :: others := by
  cases run with
  | nil => exact .inl rfl
  | @cons first inside behind _ lexeme others cut onward =>
      obtain rfl := atLineEnd first rfl
      obtain ⟨rfl, _⟩ := Prod.mk.inj (Option.some.inj cut)
      exact .inr ⟨others, rfl⟩

/-- No place of a token is in front of the place where the lexemes stand. -/
theorem Cuts.not_before_of_mem_stream {characters left : List Char} {lexemes : List Lexeme}
    (run : Cuts characters lexemes left) (position : Position) :
    ∀ token ∈ stream position lexemes, ¬ token.position.Before position := by
  induction run generalizing position with
  | nil rest =>
      intro token member
      rw [List.mem_singleton.mp member]
      exact Position.Before.irrefl position
  | @cons first inside behind rest lexeme others cut onward inductionHypothesis =>
      have onwards := Position.before_afterAll position (text_ne_nil_of_cut? cut)
      have further : ∀ token ∈ stream (position.afterAll lexeme.text) others,
          ¬ token.position.Before position :=
        fun token member early => inductionHypothesis _ token member (early.trans onwards)
      cases lexeme with
      | comment text => exact further
      | token kind text =>
          exact List.forall_mem_cons.mpr ⟨Position.Before.irrefl position, further⟩

/-- The columns of places that are not behind the place where the lexemes stand are kept. -/
theorem Cuts.columnWithout_eq {characters left : List Char} {lexemes : List Lexeme}
    (run : Cuts characters lexemes left) {position place : Position}
    (early : ¬ position.Before place) : columnWithout position lexemes place = place.column := by
  induction run generalizing position with
  | nil rest => rfl
  | @cons first inside behind rest lexeme others cut onward inductionHypothesis =>
      have onwards := Position.before_afterAll position (text_ne_nil_of_cut? cut)
      have further := inductionHypothesis fun late => early (onwards.trans late)
      cases lexeme with
      | comment text =>
          rw [columnWithout, if_neg]
          · exact further
          · rintro rfl
            exact early onwards
      | token kind text => exact further

/-- A place keeps its column, or a comment ends there with the line or the file. -/
theorem Cuts.columnWithout_cases {characters left : List Char} {lexemes : List Lexeme}
    (run : Cuts characters lexemes left) (position place : Position) :
    columnWithout position lexemes place = place.column ∨
      ∃ token ∈ stream position lexemes, token.position = place ∧
        (token.kind = .newline ∨ token.kind = .endOfFile) ∧
        CommentEnds position lexemes place := by
  induction run generalizing position with
  | nil rest => exact .inl rfl
  | @cons first inside behind rest lexeme others cut onward inductionHypothesis =>
      rcases inductionHypothesis (position.afterAll lexeme.text) with
        keeps | ⟨token, member, there, ends, isEnd⟩
      · cases lexeme with
        | token kind text => exact .inl keeps
        | comment text =>
            by_cases here : place = position.afterAll text
            · obtain ⟨_, _, _, newline⟩ := isWhole_of_cut? cut
              have isEnd : CommentEnds position (.comment text :: others) place :=
                ⟨[], text, others, rfl, here⟩
              rcases onward.eq_nil_or_newline newline with rfl | ⟨more, rfl⟩
              · exact .inr ⟨_, List.mem_cons_self, here.symm, .inr rfl, isEnd⟩
              · exact .inr ⟨_, List.mem_cons_self, here.symm, .inl rfl, isEnd⟩
            · rw [columnWithout, if_neg here]
              exact .inl keeps
      · refine .inr ⟨token, ?_, there, ends, isEnd.cons⟩
        cases lexeme with
        | comment text => exact member
        | token kind text => exact List.mem_cons_of_mem _ member

/-- Behind a comment, the newline or the end of the file is drawn back to where it begins. What
stands behind the newline is on lines of its own. -/
theorem Cuts.stream_behind_comment {characters left text : List Char} {others : List Lexeme}
    (run : Cuts characters others left) (newline : AtLineEnd characters) {position : Position}
    (sameLine : (position.afterAll text).line = position.line)
    (further : stream (position.afterAll text) (others.filter isToken) =
      (stream (position.afterAll text) others).map
        (Token.moved (columnWithout (position.afterAll text) others))) :
    stream position (others.filter isToken) =
      (stream (position.afterAll text) others).map
        (Token.moved (columnWithout position (.comment text :: others))) := by
  have drawnBack : (position.afterAll text).moved
      (columnWithout position (.comment text :: others)) = position := by
    rw [Position.moved, columnWithout, if_pos rfl, sameLine]
  rcases run.eq_nil_or_newline newline with rfl | ⟨more, rfl⟩
  · show [Token.endOfFileAt position] = [Token.endOfFileAt ((position.afterAll text).moved _)]
    rw [drawnBack]
  · have onNext : position.afterAll ['\n'] = (position.afterAll text).afterAll ['\n'] :=
      congrArg (fun line => Position.mk (line + 1) 1) sameLine.symm
    show ⟨_, _, position⟩ :: stream (position.afterAll ['\n']) _ =
      ⟨_, _, (position.afterAll text).moved _⟩ :: _
    rw [drawnBack, onNext, (List.cons.inj further).2]
    refine congrArg _ (List.map_congr_left fun token member => ?_)
    have apart : token.position ≠ position.afterAll text := by
      intro same
      cases run with
      | cons _ onward =>
          refine onward.not_before_of_mem_stream _ token member ?_
          rw [same]
          exact Position.before_afterAll _ (List.cons_ne_nil _ _)
    rw [Token.moved, Token.moved, Position.moved, Position.moved,
      columnWithout.eq_2, if_neg apart]

/-- The tokens of the source without its comments are those of the source in other columns. -/
theorem Cuts.stream_filter {characters left : List Char} {lexemes : List Lexeme}
    (run : Cuts characters lexemes left) (position : Position) :
    stream position (lexemes.filter isToken) =
      (stream position lexemes).map (Token.moved (columnWithout position lexemes)) := by
  induction run generalizing position with
  | nil rest => rfl
  | @cons first inside behind rest lexeme others cut onward inductionHypothesis =>
      cases lexeme with
      | token kind text =>
          have keeps := (Cuts.cons cut onward).columnWithout_eq (Position.Before.irrefl position)
          have here : Token.moved (columnWithout position (.token kind text :: others))
              ⟨String.ofList text, kind, position⟩ = ⟨String.ofList text, kind, position⟩ :=
            Token.moved_eq_self keeps
          rw [stream, List.map_cons, here]
          exact congrArg _ (inductionHypothesis _)
      | comment text =>
          obtain ⟨sign, rfl, oneLine, newline⟩ := isWhole_of_cut? cut
          have sameLine := Position.line_afterAll position
            (List.forall_mem_cons.mpr ⟨show '#' ≠ '\n' by decide, oneLine⟩)
          exact onward.stream_behind_comment newline sameLine (inductionHypothesis _)

theorem toList_join_stream (position : Position) (lexemes : List Lexeme) :
    (String.join ((stream position lexemes).map Token.text)).toList =
      textOf (lexemes.filter isToken) := by
  induction lexemes generalizing position with
  | nil => rfl
  | cons lexeme others inductionHypothesis =>
      cases lexeme with
      | comment text => exact inductionHypothesis _
      | token kind text =>
          have further := inductionHypothesis (position.afterAll text)
          rw [String.toList_join] at further ⊢
          rw [stream, List.map_cons, List.flatMap_cons, further, String.toList_ofList]
          rfl

end Lexeme

namespace Token

/-- The token is the newline or the end of the file directly behind one of the comments. -/
def EndsComment (pieces : List Lexeme) (token : Token) : Prop :=
  (token.kind = .newline ∨ token.kind = .endOfFile) ∧
    ∃ front comment others, pieces = front ++ .comment comment :: others ∧
      token.position = .behind (textOf front ++ comment)

/-- **Comments do not matter.** Without its comments a source that is accepted has the same tokens,
of the same kinds and texts and on the same lines. They stand in the same columns but for a newline
or the end of the file directly behind a comment. The tokens of both spell the same score but for
the columns of these. -/
theorem tokenize_without_comments {source : String} {tokens : List Token}
    (tokenized : tokenize source = .ok tokens) :
    ∃ pieces columns, textOf pieces = source.toList ∧ Partition [] pieces tokens ∧
      tokenize (String.join (tokens.map text)) = .ok (tokens.map (Token.moved columns)) ∧
      (String.join (tokens.map text)).toList = textOf (pieces.filter Lexeme.isToken) ∧
      (∀ token ∈ tokens, token.moved columns = token ∨ token.EndsComment pieces) ∧
      (∀ place, columns place = place.column ∨
        ∃ token ∈ tokens, token.position = place ∧ token.EndsComment pieces) ∧
      ∀ trackName, ∃ score, Score.ofTokens tokens trackName = .ok score ∧
        Score.ofTokens (tokens.map (Token.moved columns)) trackName =
          .ok (score.moved columns) := by
  obtain ⟨pieces, run, rfl⟩ := tokenize_eq_ok_iff.mp tokenized
  have whole := run.textOf_append
  rw [List.append_nil] at whole
  have partition := partition_stream run
  have drawnBack : ∀ place, Lexeme.columnWithout .start pieces place = place.column ∨
      ∃ token ∈ Lexeme.stream .start pieces, token.position = place ∧
        token.EndsComment pieces := by
    intro place
    refine (run.columnWithout_cases .start place).imp_right ?_
    rintro ⟨token, member, rfl, ends, front, comment, others, split, there⟩
    exact ⟨token, member, rfl, ends, front, comment, others, split,
      there.trans (Position.afterAll_behind [] _)⟩
  have joined := Lexeme.toList_join_stream .start pieces
  refine ⟨pieces, Lexeme.columnWithout .start pieces, whole, partition, ?_, joined,
    fun token member => ?_, drawnBack, fun trackName => ?_⟩
  · rw [← run.stream_filter, tokenize_eq_ok_iff, joined]
    exact ⟨_, run.filter_isToken, rfl⟩
  · refine (drawnBack token.position).imp Token.moved_eq_self ?_
    rintro ⟨other, otherMember, same, ends⟩
    rwa [← Position.eq_of_pairwise partition.pairwise.1 otherMember member same]
  · obtain ⟨_, _, read, _⟩ := Score.exists_ofTokens_eq_ok (Lexeme.stream .start pieces) trackName
    obtain ⟨final, last, ends⟩ := partition.getLast?
    exact ⟨_, read, Score.ofTokens_moved last ends read⟩

/-- A comment directly behind a number, one on a line of its own and one at the end of the file. The
number sign in quotes begins none. -/
theorem tokenize_without_comments_three :
    ∃ tokens columns score,
      tokenize "piano: 12# beats\n# none\npiano \"#\": do# do" = .ok tokens ∧
      tokenize "piano: 12\n\npiano \"#\": do" = .ok (tokens.map (Token.moved columns)) ∧
      columns ⟨1, 17⟩ = 10 ∧ columns ⟨2, 7⟩ = 1 ∧ columns ⟨3, 18⟩ = 14 ∧
      Score.ofTokens tokens "global" = .ok score ∧
      Score.ofTokens (tokens.map (Token.moved columns)) "global" = .ok (score.moved columns) := by
  let front : List Token := [⟨"piano", .word, ⟨1, 1⟩⟩, ⟨":", .colon, ⟨1, 6⟩⟩,
    ⟨" ", .space, ⟨1, 7⟩⟩, ⟨"12", .number, ⟨1, 8⟩⟩]
  let back : List Token := [⟨"piano", .word, ⟨3, 1⟩⟩, ⟨" ", .space, ⟨3, 6⟩⟩,
    ⟨"\"#\"", .string, ⟨3, 7⟩⟩, ⟨":", .colon, ⟨3, 10⟩⟩, ⟨" ", .space, ⟨3, 11⟩⟩,
    ⟨"do", .note .ut, ⟨3, 12⟩⟩]
  let lines (first second last : Nat) : List Token := front ++
    ⟨"\n", .newline, ⟨1, first⟩⟩ :: ⟨"\n", .newline, ⟨2, second⟩⟩ :: back ++
      [endOfFileAt ⟨3, last⟩]
  have tokenized : tokenize "piano: 12# beats\n# none\npiano \"#\": do# do" =
      .ok (lines 17 7 18) := by decide +kernel
  obtain ⟨_, columns, _, _, again, _, _, _, spelled⟩ := tokenize_without_comments tokenized
  obtain ⟨score, read, readAgain⟩ := spelled "global"
  have joined : String.join ((lines 17 7 18).map text) = "piano: 12\n\npiano \"#\": do" := by
    decide +kernel
  rw [joined] at again
  have without : tokenize "piano: 12\n\npiano \"#\": do" = .ok (lines 10 1 14) := by
    decide +kernel
  have moved := Except.ok.inj (again.symm.trans without)
  have column (index : Nat) := congrArg (fun tokens : List Token =>
    tokens[index]?.map fun token => token.position.column) moved
  exact ⟨_, columns, score, tokenized, again, Option.some.inj (column 4),
    Option.some.inj (column 5), Option.some.inj (column 12), read, readAgain⟩

end Token

end Solfege
