import Solfege.Proofs.Columns.Step
import Solfege.Proofs.Reading.Phrases

/-!
Contract: expressions are read in the same way in whatever columns the tokens stand.

Owns:
- the proof, for each step of the grammar of expressions, that it makes of moved tokens what it
  makes of them where they were, moved.

Does not own: statements.
-/

namespace Solfege.Reading

variable {columns : Position → Nat}

/-! ### Phrases -/

/-- What is asked for at a moved anchor is what is asked for at the anchor, moved. -/
abbrev Moves (columns : Position → Nat) (expected : Token → Expectation) : Prop :=
  ∀ anchor : Token, expected (anchor.moved columns) = (expected anchor).moved columns

/-- In all that the phrase asks for and refuses, no token is named but its anchor. -/
def Phrase.Movable {α : Type} (columns : Position → Nat) : Phrase α → Prop
  | .done _ => True
  | .anchored next => ∀ value, (next value).Movable columns
  | .number expected next => Moves columns expected ∧ ∀ value, (next value).Movable columns
  | .nonzero expected problem next =>
      Moves columns expected ∧ problem.moved columns = problem ∧
        ∀ value, (next value).Movable columns
  | .sign _ expected next => Moves columns expected ∧ next.Movable columns
  | .pitch expected next => Moves columns expected ∧ ∀ name, (next name).Movable columns
  | .choice _ behind other => behind.Movable columns ∧ other.Movable columns
  | .amount next other => (∀ value, (next value).Movable columns) ∧ other.Movable columns
  | .following problem next => problem.moved columns = problem ∧ next.Movable columns

theorem movable_durationPhrase {α : Type} (make : Duration → α) :
    (durationPhrase make).Movable columns :=
  ⟨⟨fun _ => rfl, rfl, fun _ => trivial⟩, fun _ => rfl, fun _ =>
    ⟨⟨fun _ => rfl, rfl, fun _ => trivial⟩, trivial⟩⟩

theorem movable_of_leafPhrase? {kind : Token.Kind} {phrase : Phrase Leaf}
    (begins : leafPhrase? kind = some phrase) : phrase.Movable columns := by
  cases kind with
  | volume => cases begins; exact ⟨fun _ => rfl, fun _ => rfl, fun _ => trivial⟩
  | plus => cases begins; exact ⟨fun _ => rfl, fun _ => trivial⟩
  | dash => cases begins; exact ⟨fun _ => rfl, fun _ => trivial⟩
  | greater => cases begins; exact ⟨fun _ => trivial, trivial⟩
  | less => cases begins; exact ⟨fun _ => trivial, trivial⟩
  | colon => cases begins; exact movable_durationPhrase _
  | bang =>
      cases begins
      exact ⟨fun _ => rfl, fun _ => ⟨fun _ => rfl, fun _ => rfl, rfl, fun _ => trivial⟩⟩
  | caret => cases begins; exact ⟨fun _ => rfl, fun _ => trivial⟩
  | pipe => cases begins; trivial
  | number => cases begins; exact fun _ => trivial
  | asterisk => cases begins; exact ⟨rfl, fun _ => rfl, fun _ => trivial⟩
  | rightParen => cases begins; exact ⟨rfl, trivial⟩
  | _ => contradiction

/-- A problem that names no token stands at the moved token. -/
theorem equivariant_refuse_same {α : Type} {action : α → α} {problem : SyntaxProblem}
    (token : Token) (same : problem.moved columns = problem) :
    Equivariant columns action (refuse (Diagnostic.syntaxAt token problem))
      (refuse (Diagnostic.syntaxAt (token.moved columns) problem)) := by
  have refused : Equivariant columns action _ _ := equivariant_refuse_grammar token problem
  rwa [same] at refused

theorem equivariant_phrase {α : Type} {phrase : Phrase α} (movable : phrase.Movable columns)
    (anchor : Token) :
    Equivariant columns id (phrase.run anchor) (phrase.run (anchor.moved columns)) := by
  induction phrase generalizing anchor with
  | done value => exact equivariant_pure rfl
  | anchored next inductionHypothesis =>
      exact (equivariant_numberValue anchor).bind_same fun value =>
        inductionHypothesis value (movable value) anchor
  | number expected next inductionHypothesis =>
      rw [Phrase.run, Phrase.run, movable.1 anchor]
      exact (equivariant_expectNumber _).bind_same fun value =>
        inductionHypothesis value (movable.2 value) anchor
  | nonzero expected problem next inductionHypothesis =>
      obtain ⟨moves, same, rest⟩ := movable
      rw [Phrase.run, Phrase.run, moves anchor]
      refine equivariant_peek.bind fun written => (equivariant_expectNumber _).bind_same
        fun value => .ite ?_ (inductionHypothesis value (rest value) anchor)
      exact equivariant_refuse_same written same
  | sign written expected next inductionHypothesis =>
      rw [Phrase.run, Phrase.run, movable.1 anchor]
      exact (equivariant_expect _ _).bind fun _ => inductionHypothesis movable.2 anchor
  | pitch expected next inductionHypothesis =>
      rw [Phrase.run, Phrase.run, movable.1 anchor]
      refine equivariant_peek.bind fun found => ?_
      rw [Token.kind_moved]
      split
      · exact equivariant_unexpected _
      · exact equivariant_advance.bind fun _ => inductionHypothesis _ (movable.2 _) anchor
      · exact equivariant_unexpected _
  | choice written behind other behindHypothesis otherHypothesis =>
      exact (equivariant_check _).bind_same fun _ =>
        .ite (equivariant_advance.bind fun sign => behindHypothesis movable.1 sign)
          (otherHypothesis movable.2 anchor)
  | amount next other nextHypothesis otherHypothesis =>
      exact (equivariant_check .number).bind_same fun _ =>
        .ite (equivariant_advance.bind fun number =>
            (equivariant_numberValue number).bind_same fun value =>
              nextHypothesis value (movable.1 value) anchor)
          (otherHypothesis movable.2 anchor)
  | following problem next inductionHypothesis =>
      exact equivariant_followsExpression.bind_same fun _ =>
        .ite (inductionHypothesis movable.2 anchor) (equivariant_refuse_same anchor movable.1)

theorem equivariant_leafFrom {phrase : Phrase Leaf} (movable : phrase.Movable columns) :
    Equivariant columns (Expression.moved columns) (leafFrom phrase) (leafFrom phrase) := by
  refine equivariant_advance.bind fun token =>
    (equivariant_phrase movable token).bind_same fun leaf => ?_
  cases leaf <;> exact equivariant_pure rfl

theorem equivariant_octaveSuffix : Equivariant columns id octaveSuffix octaveSuffix := by
  have movable : octaveSuffixPhrase.Movable columns := ⟨⟨fun _ => rfl, fun _ => trivial⟩, trivial⟩
  have read := equivariant_phrase movable default
  rwa [← octaveSuffix_eq, ← octaveSuffix_eq] at read

theorem equivariant_durationSuffix : Equivariant columns id durationSuffix durationSuffix := by
  have movable : durationSuffixPhrase.Movable columns := ⟨movable_durationPhrase some, trivial⟩
  have read := equivariant_phrase movable default
  rwa [← durationSuffix_eq, ← durationSuffix_eq] at read

/-! ### Notes, names and holds -/

section Parts

variable {inner : Step Expression}
variable (inside : Equivariant columns (Expression.moved columns) inner inner)

include inside

theorem equivariant_chordFrom (first : ChordMember) (token : Token) :
    Equivariant columns (Expression.moved columns) (chordFrom inner first token)
      (chordFrom inner (first.moved columns) (token.moved columns)) := by
  refine equivariant_advance.bind fun _ => (equivariant_within .chord inside).bind fun rest => ?_
  cases rest with
  | note written => exact equivariant_pure rfl
  | reference name written => exact equivariant_pure rfl
  | chord members written => exact equivariant_pure rfl
  | _ => exact equivariant_refuse_grammar _ .unchordable

theorem equivariant_noteFrom (name : Syllable) :
    Equivariant columns (Expression.moved columns) (noteFrom inner name) (noteFrom inner name) :=
  equivariant_advance.bind fun token => equivariant_accidentals.bind_same fun semitones =>
    equivariant_octaveSuffix.bind_same fun octave => (equivariant_check .slash).bind_same fun _ =>
      .ite (equivariant_chordFrom inside (.note ⟨name, semitones, octave, none, token⟩) token)
        (equivariant_durationSuffix.bind_same fun _ => equivariant_pure rfl)

theorem equivariant_argumentsFrom (bound : Nat) (found : List Expression) :
    Equivariant columns (List.map (Expression.moved columns)) (argumentsFrom inner bound found)
      (argumentsFrom inner bound (found.map (Expression.moved columns))) := by
  induction bound generalizing found with
  | zero => exact equivariant_abort _
  | succ bound inductionHypothesis =>
      refine (equivariant_skipping _).bind_same fun _ =>
        (equivariant_check _).bind_same fun _ => .ite ?_ ?_
      · exact equivariant_peek.bind fun final =>
          equivariant_refuse_grammar final .unterminatedArguments
      · refine inside.bind fun argument => (equivariant_skipping _).bind_same fun _ =>
          equivariant_peek.bind fun behind => ?_
        rw [Token.kind_moved]
        split
        · exact equivariant_advance.bind fun _ => equivariant_pure List.map_reverse
        · exact equivariant_advance.bind fun _ => (equivariant_skipping _).bind_same fun _ =>
            (equivariant_check _).bind_same fun _ =>
              .ite (equivariant_peek.bind fun closing =>
                  equivariant_refuse_grammar closing (.trailingComma .arguments))
                (inductionHypothesis (argument :: found))
        · exact equivariant_unexpected .endOfArgument

theorem equivariant_argumentList :
    Equivariant columns (List.map (Expression.moved columns)) (argumentList inner)
      (argumentList inner) :=
  (equivariant_skipping _).bind_same fun _ => (equivariant_check _).bind_same fun _ =>
    .ite (equivariant_advance.bind fun _ => equivariant_pure rfl)
      (.at_length fun bound => equivariant_argumentsFrom inside bound [])

theorem equivariant_recoveredArguments (name : Token) :
    Equivariant columns (List.map (Expression.moved columns)) (recoveredArguments inner name)
      (recoveredArguments inner (name.moved columns)) := by
  apply attempt_equivariant (equivariant_argumentList inside)
  · exact fun _ => equivariant_pure rfl
  · have closing : Equivariant columns id (advance >>= fun _ => pure ())
        (advance >>= fun _ => pure ()) := equivariant_advance.bind fun _ => equivariant_pure rfl
    exact fun diagnostic => (equivariant_report diagnostic).bind_same fun _ =>
      (equivariant_resumeAt _).bind_same fun _ => (equivariant_check _).bind_same fun _ =>
        .ite (closing.bind_same fun _ => equivariant_pure rfl) (equivariant_pure rfl)

theorem equivariant_callFrom (name : Token) :
    Equivariant columns (Expression.moved columns) (callFrom inner name)
      (callFrom inner (name.moved columns)) :=
  equivariant_advance.bind fun _ =>
    (equivariant_within _ (equivariant_recoveredArguments inside name)).bind fun arguments =>
      equivariant_pure (Expression.moved_call name.text arguments name)

theorem equivariant_nameFrom :
    Equivariant columns (Expression.moved columns) (nameFrom inner) (nameFrom inner) := by
  refine equivariant_advance.bind fun name => equivariant_peek.bind fun behind => ?_
  rw [Token.kind_moved]
  split
  · exact equivariant_chordFrom inside (.reference name.text name) name
  · exact equivariant_callFrom inside name
  · exact equivariant_pure rfl

theorem equivariant_holdFrom :
    Equivariant columns (Expression.moved columns) (holdFrom inner) (holdFrom inner) := by
  refine equivariant_advance.bind fun opening =>
    (equivariant_within .hold ((equivariant_skipping isSpace).bind_same fun _ => inside)).bind
      fun held => ?_
  rw [canBeHeld_moved, Expression.token_moved]
  exact .ite (equivariant_pure rfl) (equivariant_refuse_grammar held.token .unholdable)

/-! ### Lists and groups -/

theorem equivariant_elementsFrom (layout : Layout) (bound : Nat) (marked : Bool)
    (found : List Expression) :
    Equivariant columns (List.map (Expression.moved columns))
      (elementsFrom layout inner bound marked found)
      (elementsFrom layout inner bound marked (found.map (Expression.moved columns))) := by
  induction bound generalizing marked found with
  | zero => exact equivariant_abort _
  | succ bound inductionHypothesis =>
      have made : Equivariant columns (List.map (Expression.moved columns))
          (pure found.reverse) (pure (found.map (Expression.moved columns)).reverse) :=
        equivariant_pure List.map_reverse
      refine (equivariant_skipping _).bind_same fun _ => equivariant_peek.bind fun first =>
        .ite ?_ ?_
      · exact .ite ((equivariant_leave _).bind_same fun _ => made) made
      · apply attempt_equivariant inside
        · intro element
          have rest := inductionHypothesis true (element :: found)
          exact .ite ((equivariant_enter _).bind_same fun _ => rest) rest
        · intro diagnostic
          exact (equivariant_report diagnostic).bind_same fun _ =>
            (equivariant_resumeAt _).bind_same fun _ =>
              inductionHypothesis marked (.placeholder first :: found)

theorem equivariant_elements (layout : Layout) :
    Equivariant columns (List.map (Expression.moved columns)) (elements layout inner)
      (elements layout inner) :=
  .at_length fun bound => equivariant_elementsFrom inside layout bound false []

theorem equivariant_groupItems (opening : Token) :
    Equivariant columns (List.map (Expression.moved columns)) (groupItems inner opening)
      (groupItems inner (opening.moved columns)) :=
  (equivariant_elements inside .group).bind fun _ => (equivariant_check _).bind_same fun _ =>
    .ite (equivariant_advance.bind fun _ => equivariant_pure rfl)
      (equivariant_refuse_grammar opening .unterminatedGroup)

theorem equivariant_groupFrom :
    Equivariant columns (Expression.moved columns) (groupFrom inner) (groupFrom inner) :=
  equivariant_advance.bind fun opening =>
    (equivariant_within _ (equivariant_groupItems inside opening)).bind fun items =>
      equivariant_pure (Expression.moved_group items opening)

/-! ### Expressions -/

theorem equivariant_expressionFrom :
    Equivariant columns (Expression.moved columns) (expressionFrom inner)
      (expressionFrom inner) := by
  rw [expressionFrom_eq]
  refine equivariant_peek.bind fun first => ?_
  rw [Token.kind_moved]
  apply expressionAt_cases
    (motive := fun _ step => Equivariant columns (Expression.moved columns) step step)
  · exact fun _ _ begins => equivariant_leafFrom (movable_of_leafPhrase? begins)
  · exact equivariant_holdFrom inside
  · exact equivariant_groupFrom inside
  · exact equivariant_nameFrom inside
  · exact equivariant_noteFrom inside
  · exact fun _ => equivariant_unexpected .expression

end Parts

theorem equivariant_expression (bound : Nat) :
    Equivariant columns (Expression.moved columns) (expression bound) (expression bound) := by
  induction bound with
  | zero => exact equivariant_abort _
  | succ bound inductionHypothesis => exact equivariant_expressionFrom inductionHypothesis

theorem equivariant_body :
    Equivariant columns (List.map (Expression.moved columns)) body body :=
  .at_length fun bound => equivariant_elements (equivariant_expression bound) .body

end Solfege.Reading
