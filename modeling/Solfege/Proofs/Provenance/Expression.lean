import Solfege.Proofs.Provenance.Basic
import Solfege.Proofs.Provenance.Step
import Solfege.Proofs.Reading.List
import Solfege.Proofs.Reading.Phrases

/-!
Contract: the expressions that are read lie where their tokens were read.

Owns:
- for each step of the grammar of expressions, that it is located, and that what it makes
  lies between the place where it begins and the place that it reaches;
- the same of the loops over arguments and over lists, behind a problem too.

Does not own: statements.

Nothing is asked of the bounds of the loops: where one is used up, the reader is at fault,
and nothing is made.
-/

namespace Solfege.Reading

open Expression (LiesBetween LieBetween MembersLie)

/-- From a place on, the step reads an expression that lies behind the start. -/
abbrev ReadsFrom (tokens : List Token) (origin start place : Nat) (step : Step Expression) :
    Prop :=
  Located tokens origin place step fun expression reached =>
    LiesBetween tokens start reached expression

/-- From any place on, the step reads an expression that lies where it was read. -/
abbrev ReadsThere (tokens : List Token) (origin : Nat) (step : Step Expression) : Prop :=
  ∀ place, ReadsFrom tokens origin place place step

section Leaves

variable {tokens : List Token} {origin place : Nat} {token : Token}

/-- An expression of one token has it from the place where its reading begins. -/
theorem located_single {start : Nat} {made : Expression} (alone : made.isSingle = true)
    (here : tokens[start]? = some made.token) (onward : start < place) :
    ReadsFrom tokens origin start place (pure made) :=
  located_pure (.single alone here onward)

/-! ### Phrases -/

/-- A phrase blames its anchor or a token that it has come to. -/
theorem located_phrase {α : Type} {anchor : Token} (phrase : Phrase α)
    (known : anchor ∈ tokens) :
    Located tokens origin place (phrase.run anchor) fun _ _ => True := by
  induction phrase generalizing place anchor with
  | done value => exact located_pure trivial
  | anchored next inductionHypothesis =>
      apply (located_numberValue known).bind
      exact fun value _ _ _ => inductionHypothesis value known
  | number expected next inductionHypothesis =>
      apply (located_expectNumber _).bind
      exact fun value _ _ _ => inductionHypothesis value known
  | nonzero expected problem next inductionHypothesis =>
      apply peek_located
      intro written there
      apply (located_expectNumber _).bind
      intro value _ _ _
      apply Located.ite
      · exact fun _ => located_refuse _ (List.mem_of_getElem? there)
      · exact fun _ => inductionHypothesis value known
  | sign written expected next inductionHypothesis =>
      apply (located_expect _ (by cases written <;> decide)).bind
      exact fun _ _ _ _ => inductionHypothesis known
  | pitch expected next inductionHypothesis =>
      rw [Phrase.run]
      apply peek_located
      intro found there
      split
      · exact located_unexpected _
      · rename_i name _ isNote
        apply advance_located there (by simp [isNote])
        exact inductionHypothesis name known
      · exact located_unexpected _
  | choice written behind other behindHypothesis otherHypothesis =>
      apply check_located
      · intro sign there same
        apply advance_located there (by rw [same]; cases written <;> decide)
        exact behindHypothesis (List.mem_of_getElem? there)
      · exact otherHypothesis known
  | amount next other nextHypothesis otherHypothesis =>
      apply check_located
      · intro number there isNumber
        apply advance_located there (by simp [isNumber])
        apply (located_numberValue (List.mem_of_getElem? there)).bind
        exact fun value _ _ _ => nextHypothesis value known
      · exact otherHypothesis known
  | following problem next inductionHypothesis =>
      apply followsExpression_located
      · exact inductionHypothesis known
      · exact located_refuse _ known

/-- An expression of one token stands where its token does. -/
theorem located_leafFrom (phrase : Phrase Leaf) (here : tokens[place]? = some token)
    (more : token.kind ≠ .endOfFile) :
    ReadsFrom tokens origin place place (leafFrom phrase) := by
  apply advance_located here more
  apply (located_phrase phrase (List.mem_of_getElem? here)).bind
  intro leaf _ onward _
  cases leaf <;> exact located_single rfl here onward

/-! ### Parts of notes -/

theorem located_accidentals : Located tokens origin place accidentals fun _ _ => True :=
  .of_reading_on (fun _ => rfl) (fun _ => List.dropWhile_suffix _) (fun _ => rfl) fun _ => rfl

theorem located_octaveSuffix : Located tokens origin place octaveSuffix fun _ _ => True := by
  intro before stands
  rw [octaveSuffix_eq before.current]
  exact located_phrase _ (List.mem_of_getElem? stands.current) before stands

theorem located_durationSuffix : Located tokens origin place durationSuffix fun _ _ => True := by
  intro before stands
  rw [durationSuffix_eq before.current]
  exact located_phrase _ (List.mem_of_getElem? stands.current) before stands

end Leaves

/-! ### Expressions with expressions inside -/

section Parts

variable {tokens : List Token} {origin place : Nat} {token : Token} {inner : Step Expression}
variable (reads : ReadsThere tokens origin inner)

include reads

/-- A chord lies where its first member does, and the other members lie behind the slash. -/
theorem located_chordFrom {start : Nat} {first : ChordMember} {slash : Token}
    (there : tokens[start]? = some first.token) (onward : start < place)
    (here : tokens[place]? = some slash) (more : slash.kind ≠ .endOfFile) :
    ReadsFrom tokens origin start place (chordFrom inner first first.token) := by
  apply advance_located here more
  apply (located_within (reads _)).bind
  intro rest behind later lies
  have liesBehind : LiesBetween tokens (start + 1) behind rest :=
    lies.mono (by omega) (Nat.le_refl _)
  cases rest with
  | note written =>
      have members := liesBehind.membersLie (.note written) rfl rfl
      exact located_pure (members.chord there (by omega))
  | reference name written =>
      have members := liesBehind.membersLie (.reference name written) rfl rfl
      exact located_pure (members.chord there (by omega))
  | chord members written =>
      exact located_pure (liesBehind.membersLie_chord.chord there (by omega))
  | _ => exact located_refuse _ lies.token_mem

theorem located_noteFrom (name : Syllable) (here : tokens[place]? = some token)
    (more : token.kind ≠ .endOfFile) :
    ReadsFrom tokens origin place place (noteFrom inner name) := by
  apply advance_located here more
  apply located_accidentals.bind
  intro semitones altered behindToken _
  apply located_octaveSuffix.bind
  intro octave behind behindSigns _
  apply check_located
  · intro slash there isSlash
    exact located_chordFrom reads here (by omega) there (by simp [isSlash])
  · apply located_durationSuffix.bind
    intro duration _ onward _
    exact located_single rfl here (by omega)

/-! ### Calls and names -/

theorem located_argumentsFrom {start : Nat} (steps : Nat) {found : List Expression}
    (lie : LieBetween tokens start place found.reverse) (onward : start ≤ place) :
    Located tokens origin place (argumentsFrom inner steps found) fun arguments reached =>
      LieBetween tokens start reached arguments := by
  induction steps generalizing place found with
  | zero => exact located_abort _
  | succ steps inductionHypothesis =>
      apply (located_skipping isWhitespace).bind
      intro _ begins behindBlanks _
      apply check_located
      · intro final there isFinal
        apply peek_located
        exact fun final there => located_refuse _ (List.mem_of_getElem? there)
      · apply (reads begins).bind
        intro argument ends behindArgument lies
        have joined : LieBetween tokens start ends (argument :: found).reverse := by
          rw [List.reverse_cons]
          exact (lie.mono (Nat.le_refl _) behindBlanks).concat lies (by omega) behindArgument
        apply (located_skipping isWhitespace).bind
        intro _ sign behindMore _
        apply peek_located
        intro behind there
        split
        · rename_i isParen
          apply advance_located there (by simp [isParen])
          exact located_pure (joined.mono (Nat.le_refl _) (by omega))
        · rename_i isComma
          apply advance_located there (by simp [isComma])
          apply (located_skipping isWhitespace).bind
          intro _ next behindComma _
          apply check_located
          · intro closing atClosing isClosing
            apply peek_located
            exact fun closing there => located_refuse _ (List.mem_of_getElem? there)
          · exact inductionHypothesis (joined.mono (Nat.le_refl _) (by omega)) (by omega)
        · exact located_unexpected _

theorem located_argumentList :
    Located tokens origin place (argumentList inner) fun arguments reached =>
      LieBetween tokens place reached arguments := by
  apply (located_skipping isWhitespace).bind
  intro _ begins behindBlanks _
  apply check_located
  · intro paren there isParen
    apply advance_located there (by simp [isParen])
    exact located_pure .nil
  · intro before stands
    exact located_argumentsFrom reads (before.rest.length + 1) .nil behindBlanks before stands

/-- Behind a problem a placeholder stands for all arguments, at the name of the call. -/
theorem located_recoveredArguments {start : Nat} {name : Token}
    (there : tokens[start]? = some name) (onward : start < place) :
    Located tokens origin place (recoveredArguments inner name) fun arguments reached =>
      LieBetween tokens start reached arguments := by
  have replaced {reached : Nat} (behind : place ≤ reached) :
      LieBetween tokens start reached [.placeholder name] :=
    .singleton (.single rfl there (by omega))
  apply attempt_located (located_argumentList reads)
  · intro arguments reached behind lie
    exact located_pure (lie.mono (by omega) (Nat.le_refl _))
  · intro diagnostic reached behind blames
    apply (located_report (blames.marks _ _)).bind
    intro _ reported behindReport _
    apply (located_resumeAt isRightParen).bind
    intro _ resumed behindRest _
    apply check_located
    · intro paren here isParen
      have discarded : (discard advance >>= fun _ => pure [.placeholder name] :
          Step (List Expression)) = advance >>= fun _ => pure [.placeholder name] := rfl
      rw [discarded]
      apply advance_located here (by simp [isParen])
      exact located_pure (replaced (by omega))
    · exact located_pure (replaced (by omega))

theorem located_callFrom {start : Nat} {name opening : Token}
    (there : tokens[start]? = some name) (onward : start < place)
    (here : tokens[place]? = some opening) (more : opening.kind ≠ .endOfFile) :
    ReadsFrom tokens origin start place (callFrom inner name) := by
  apply advance_located here more
  apply (located_within (located_recoveredArguments reads there (by omega))).bind
  intro arguments reached behind lie
  exact located_pure (lie.call there (by omega))

theorem located_nameFrom (here : tokens[place]? = some token) (more : token.kind ≠ .endOfFile) :
    ReadsFrom tokens origin place place (nameFrom inner) := by
  apply advance_located here more
  apply peek_located
  intro behind there
  split
  · rename_i isSlash
    exact located_chordFrom reads here (by omega) there (by simp [isSlash])
  · rename_i isParen
    exact located_callFrom reads here (by omega) there (by simp [isParen])
  · exact located_single rfl here (by omega)

/-! ### Holds -/

theorem located_holdFrom (here : tokens[place]? = some token) (more : token.kind ≠ .endOfFile) :
    ReadsFrom tokens origin place place (holdFrom inner) := by
  have held : ReadsFrom tokens origin place (place + 1) (do skipSpace; inner) := by
    apply (located_skipping isSpace).bind
    intro _ begins behindBlanks _
    apply (reads begins).mono
    exact fun _ _ _ lies => lies.mono (by omega) (Nat.le_refl _)
  apply advance_located here more
  apply (located_within held).bind
  intro expression reached behind lies
  apply Located.ite
  · exact fun _ => located_pure (lies.hold here behind)
  · exact fun _ => located_refuse _ lies.token_mem

/-! ### Lists of expressions -/

/-- An element, or the placeholder that stands for it behind a problem, lies behind those that
were found before. -/
theorem located_elementsFrom {layout : Layout} (lawful : layout.Lawful) {start : Nat}
    (steps : Nat) (marked : Bool) {found : List Expression}
    (lie : LieBetween tokens start place found.reverse) (onward : start ≤ place) :
    Located tokens origin place (elementsFrom layout inner steps marked found)
      fun items reached => LieBetween tokens start reached items := by
  induction steps generalizing place found marked with
  | zero => exact located_abort _
  | succ steps inductionHypothesis =>
      apply (located_skipping layout.separates).bind
      intro _ begins behindBlanks _
      have earlier := lie.mono (Nat.le_refl start) behindBlanks
      apply peek_located
      intro first here
      apply Located.ite
      · intro _
        show Located tokens origin begins (if marked = true then
          leave .expression >>= fun _ => pure found.reverse else pure found.reverse) _
        apply Located.ite
        · intro _
          apply (located_leave .expression).bind
          rintro _ _ _ rfl
          exact located_pure earlier
        · exact fun _ => located_pure earlier
      · intro goesOn
        apply attempt_located (reads begins)
        · intro element reached behind lies
          have joined : LieBetween tokens start reached (element :: found).reverse := by
            rw [List.reverse_cons]
            exact earlier.concat lies (by omega) behind
          have others := inductionHypothesis true joined (by omega)
          show Located tokens origin reached (if (!marked) = true then
            enter .expression >>= fun _ => elementsFrom layout inner steps true (element :: found)
            else elementsFrom layout inner steps true (element :: found)) _
          apply Located.ite
          · intro _
            apply (located_enter .expression).bind
            rintro _ _ _ rfl
            exact others
          · exact fun _ => others
        · intro diagnostic reached behind blames
          have more : first.kind ≠ .endOfFile := by
            intro atEnd
            rw [atEnd, lawful.ends_endOfFile] at goesOn
            contradiction
          have refused : layout.resumes first.kind = false := by
            rw [Bool.eq_false_iff]
            exact fun resumes => goesOn (lawful.ends_of_resumes _ resumes)
          apply (located_report (blames.marks _ _)).bind
          intro _ reported behindReport _
          apply (located_resumeAt_behind here (by omega) more refused).bind
          intro _ resumed behindRest passed
          have joined : LieBetween tokens start resumed (.placeholder first :: found).reverse := by
            rw [List.reverse_cons]
            exact earlier.concat (.single rfl here passed) (by omega) (by omega)
          exact inductionHypothesis marked joined (by omega)

theorem located_elements {layout : Layout} (lawful : layout.Lawful) :
    Located tokens origin place (elements layout inner) fun items reached =>
      LieBetween tokens place reached items := by
  intro before stands
  exact located_elementsFrom reads lawful (before.rest.length + 1) false .nil (Nat.le_refl _)
    before stands

theorem located_groupItems {opening : Token} (member : opening ∈ tokens) :
    Located tokens origin place (groupItems inner opening) fun items reached =>
      LieBetween tokens place reached items := by
  apply (located_elements reads Layout.lawful_group).bind
  intro items reached _ lie
  apply check_located
  · intro closing here isClosing
    apply advance_located here (by simp [isClosing])
    exact located_pure (lie.mono (Nat.le_refl _) (by omega))
  · exact located_refuse _ member

theorem located_groupFrom (here : tokens[place]? = some token) (more : token.kind ≠ .endOfFile) :
    ReadsFrom tokens origin place place (groupFrom inner) := by
  apply advance_located here more
  apply (located_within (located_groupItems reads (List.mem_of_getElem? here))).bind
  intro items reached behind lie
  exact located_pure ((lie.mono (by omega) (Nat.le_refl _)).group here behind)

/-! ### Expressions -/

theorem located_expressionFrom : ReadsFrom tokens origin place place (expressionFrom inner) := by
  rw [expressionFrom_eq]
  apply peek_located
  intro first here
  by_cases more : first.kind = .endOfFile
  · rw [more]
    exact located_unexpected _
  apply expressionAt_cases (motive := fun _ step => ReadsFrom tokens origin place place step)
  · exact fun _ phrase _ => located_leafFrom phrase here more
  · exact located_holdFrom reads here more
  · exact located_groupFrom reads here more
  · exact located_nameFrom reads here more
  · exact fun name => located_noteFrom reads name here more
  · exact fun _ => located_unexpected _

end Parts

theorem readsThere_expression (tokens : List Token) (origin bound : Nat) :
    ReadsThere tokens origin (expression bound) := by
  induction bound with
  | zero => exact fun _ => located_abort _
  | succ bound inductionHypothesis => exact fun _ => located_expressionFrom inductionHypothesis

/-- The expressions of a body lie apart, where they were read. -/
theorem located_body {tokens : List Token} {origin place : Nat} :
    Located tokens origin place body fun items reached =>
      LieBetween tokens place reached items := by
  intro before stands
  exact located_elements (readsThere_expression tokens origin (before.rest.length + 1))
    Layout.lawful_body before stands

end Solfege.Reading
