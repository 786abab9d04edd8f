import Solfege.Proofs.Containment.Frame
import Solfege.Proofs.Reading.Phrases

/-!
Contract: expressions are read in the same way whatever surrounds them.

Owns:
- for each step of the grammar of expressions, that it is carried by a frame;
- the same of the loops over arguments and over lists, whose bounds are larger in a frame;
- that nothing behind a statement break is needed to read the body that it ends.

Does not own: statements.

Arguments and groups go on behind the end of a line. They are carried only by a frame with
nothing behind it; in any other one no construct is opened.
-/

namespace Solfege.Reading.Frame

section Leaves

variable {frame : Frame} {before : Reading}

/-! ### Phrases -/

theorem carries_phrase {α : Type} (phrase : Phrase α) (anchor : Token) (fits : frame.Fits before) :
    frame.Carries (phrase.run anchor) (phrase.run anchor) before := by
  induction phrase generalizing before anchor with
  | done value => exact carries_pure _ fits
  | anchored next inductionHypothesis =>
      apply (carries_numberValue _ fits).bind
      exact fun value _ => inductionHypothesis value anchor
  | number expected next inductionHypothesis =>
      apply (carries_expectNumber _ fits).bind
      exact fun value _ => inductionHypothesis value anchor
  | nonzero expected problem next inductionHypothesis =>
      apply peek_carries fits
      apply (carries_expectNumber _ fits).bind
      intro value _ fits
      exact .ite (fun _ => carries_refuse _ fits) fun _ => inductionHypothesis value anchor fits
  | sign written expected next inductionHypothesis =>
      apply (carries_expect _ (by cases written <;> rfl) fits).bind
      exact fun _ _ => inductionHypothesis anchor
  | pitch expected next inductionHypothesis =>
      rw [Phrase.run]
      apply peek_carries fits
      split
      · exact carries_unexpected _ fits
      · rename_i name _ isNote
        apply advance_carries fits (by simp [isNote, isStatementBreak])
        exact inductionHypothesis name anchor
      · exact carries_unexpected _ fits
  | choice written behind other behindHypothesis otherHypothesis =>
      apply check_carries _ fits
      · intro here
        apply advance_carries fits (by rw [here]; cases written <;> rfl)
        exact behindHypothesis _
      · exact fun _ => otherHypothesis anchor fits
  | amount next other nextHypothesis otherHypothesis =>
      apply check_carries .number fits
      · intro isNumber
        apply advance_carries fits (by simp [isNumber, isStatementBreak])
        intro fits
        apply (carries_numberValue _ fits).bind
        exact fun value _ => nextHypothesis value anchor
      · exact fun _ => otherHypothesis anchor fits
  | following problem next inductionHypothesis =>
      exact followsExpression_carries (inductionHypothesis anchor fits) (carries_refuse _ fits)

theorem carries_leafFrom (phrase : Phrase Leaf) (fits : frame.Fits before)
    (stands : isStatementBreak before.current.kind = false) :
    frame.Carries (leafFrom phrase) (leafFrom phrase) before := by
  apply advance_carries fits stands
  intro fits
  apply (carries_phrase phrase _ fits).bind
  exact fun leaf _ fits => carries_pure _ fits

/-! ### Parts of notes -/

variable (fits : frame.Fits before)

include fits

theorem carries_accidentals : frame.Carries accidentals accidentals before := by
  have bars := frame.bars_isAccidental
  rcases fits.skip bars with ⟨fitsOn, same⟩
  refine ⟨fitsOn, ?_⟩
  unfold accidentals
  rw [fits.takeWhile bars, same]

theorem carries_octaveSuffix : frame.Carries octaveSuffix octaveSuffix before :=
  octaveSuffix_eq default ▸ carries_phrase _ _ fits

theorem carries_durationSuffix : frame.Carries durationSuffix durationSuffix before :=
  durationSuffix_eq default ▸ carries_phrase _ _ fits

end Leaves

/-! ### Expressions with expressions inside -/

section Parts

variable {frame : Frame} {inner twin : Step Expression} {before : Reading}
variable (reads : ∀ reading, frame.Fits reading → frame.Carries inner twin reading)

include reads

section Signs

variable (fits : frame.Fits before) (stands : isStatementBreak before.current.kind = false)

include fits stands

theorem carries_chordFrom (first : ChordMember) (token : Token) :
    frame.Carries (chordFrom inner first token) (chordFrom twin first token) before := by
  apply advance_carries fits stands
  intro fits
  apply (carries_within (reads _ (fits.congr rfl))).bind
  intro rest _ fits
  cases rest with
  | note written => exact carries_pure _ fits
  | reference name written => exact carries_pure _ fits
  | chord members written => exact carries_pure _ fits
  | _ => exact carries_refuse _ fits

theorem carries_noteFrom (name : Syllable) :
    frame.Carries (noteFrom inner name) (noteFrom twin name) before := by
  apply advance_carries fits stands
  intro fits
  apply (carries_accidentals fits).bind
  intro semitones _ fits
  apply (carries_octaveSuffix fits).bind
  intro octave _ fits
  apply check_carries .slash fits
  · intro isSlash
    exact carries_chordFrom reads fits (by simp [isSlash, isStatementBreak]) _ _
  · intro _
    apply (carries_durationSuffix fits).bind
    exact fun duration _ fits => carries_pure _ fits

theorem carries_holdFrom : frame.Carries (holdFrom inner) (holdFrom twin) before := by
  apply advance_carries fits stands
  intro fits
  have fitsInside : frame.Fits (before.advanced.inside .hold) := fits.congr rfl
  have held : frame.Carries (do skipSpace; inner) (do skipSpace; twin)
      (before.advanced.inside .hold) :=
    (carries_skipping frame.bars_isSpace fitsInside).bind fun _ => reads
  apply (carries_within held).bind
  intro expression _ fits
  exact .ite (fun _ => carries_pure _ fits) fun _ => carries_refuse _ fits

end Signs

/-! ### Lists of expressions -/

/-- A list is read up to the same token as long as no statement break separates its elements and
it goes on at every one of them. -/
theorem carries_elementsFrom {layout : Layout} (bars : frame.Bars layout.separates)
    (rests : frame.Rests layout.resumes) (steps : Nat) (marked : Bool)
    (found : List Expression) (fits : frame.Fits before) :
    frame.Carries (elementsFrom layout inner steps marked found)
      (elementsFrom layout twin (steps + frame.extent) marked found) before := by
  induction steps generalizing marked found before with
  | zero => exact carries_abort _
  | succ steps inductionHypothesis =>
      rw [Nat.succ_add]
      apply (carries_skipping bars fits).bind
      intro _ _ fits
      apply peek_carries fits
      apply Carries.ite
      · intro _
        cases marked with
        | true => exact (carries_leave _ fits).bind fun _ _ fits => carries_pure _ fits
        | false => exact carries_pure _ fits
      · intro _
        apply (carries_attempt (reads _ fits)).bind
        intro result _ fits
        cases result with
        | ok element =>
            cases marked with
            | true => exact inductionHypothesis true _ fits
            | false =>
                apply (carries_enter _ fits).bind
                exact fun _ _ fits => inductionHypothesis true _ fits
        | error diagnostic =>
            apply (carries_report diagnostic fits).bind
            intro _ _ fits
            apply (carries_resumeAt rests fits).bind
            exact fun _ _ fits => inductionHypothesis marked _ fits

theorem carries_elements {layout : Layout} (bars : frame.Bars layout.separates)
    (rests : frame.Rests layout.resumes) (fits : frame.Fits before) :
    frame.Carries (elements layout inner) (elements layout twin) before := by
  apply (carries_elementsFrom reads bars rests (before.rest.length + 1) false [] fits).of_same rfl
  show elementsFrom layout twin ((frame.around before).rest.length + 1) _ _ _ = _
  rw [bound_around]

section Whole

variable (isWhole : frame.isWhole = true)

include isWhole

/-! ### Calls -/

theorem carries_argumentsFrom (steps : Nat) (found : List Expression) (fits : frame.Fits before) :
    frame.Carries (argumentsFrom inner steps found)
      (argumentsFrom twin (steps + frame.extent) found) before := by
  induction steps generalizing found before with
  | zero => exact carries_abort _
  | succ steps inductionHypothesis =>
      rw [Nat.succ_add]
      apply (carries_skipping (.inl isWhole) fits).bind
      intro _ _ fits
      apply check_carries .endOfFile fits
      · intro _
        exact peek_carries fits (carries_refuse _ fits)
      · intro _
        apply (reads _ fits).bind
        intro argument _ fits
        apply (carries_skipping (.inl isWhole) fits).bind
        intro _ _ fits
        apply peek_carries fits
        split
        · rename_i isParen
          apply advance_carries fits (by simp [isParen, isStatementBreak])
          exact carries_pure _
        · rename_i isComma
          apply advance_carries fits (by simp [isComma, isStatementBreak])
          intro fits
          apply (carries_skipping (.inl isWhole) fits).bind
          intro _ _ fits
          apply check_carries .rightParen fits
          · intro _
            exact peek_carries fits (carries_refuse _ fits)
          · exact fun _ => inductionHypothesis _ fits
        · exact carries_unexpected _ fits

theorem carries_argumentList (fits : frame.Fits before) :
    frame.Carries (argumentList inner) (argumentList twin) before := by
  apply (carries_skipping (.inl isWhole) fits).bind
  intro _ after fits
  apply check_carries .rightParen fits
  · intro isParen
    exact advance_carries fits (by simp [isParen, isStatementBreak]) (carries_pure _)
  · intro _
    apply (carries_argumentsFrom reads isWhole (after.rest.length + 1) [] fits).of_same rfl
    show argumentsFrom twin ((frame.around after).rest.length + 1) _ _ = _
    rw [bound_around]

theorem carries_recoveredArguments (name : Token) (fits : frame.Fits before) :
    frame.Carries (recoveredArguments inner name) (recoveredArguments twin name) before := by
  apply (carries_attempt (carries_argumentList reads isWhole fits)).bind
  intro result _ fits
  cases result with
  | ok arguments => exact carries_pure _ fits
  | error diagnostic =>
      apply (carries_report diagnostic fits).bind
      intro _ _ fits
      apply (carries_resumeAt (.inl isWhole) fits).bind
      intro _ resumed fits
      apply check_carries .rightParen fits
      · intro isParen
        have stands : isStatementBreak resumed.current.kind = false := by
          simp [isParen, isStatementBreak]
        have advances : frame.Carries (advance >>= fun _ => pure [Expression.placeholder name])
            (advance >>= fun _ => pure [Expression.placeholder name]) resumed :=
          advance_carries fits stands (carries_pure _)
        exact advances.of_same rfl rfl
      · exact fun _ => carries_pure _ fits

theorem carries_callFrom (name : Token) (fits : frame.Fits before)
    (stands : isStatementBreak before.current.kind = false) :
    frame.Carries (callFrom inner name) (callFrom twin name) before := by
  apply advance_carries fits stands
  intro fits
  apply (carries_within (carries_recoveredArguments reads isWhole name (fits.congr rfl))).bind
  exact fun arguments _ fits => carries_pure _ fits

/-! ### Groups -/

theorem carries_groupItems (opening : Token) (fits : frame.Fits before) :
    frame.Carries (groupItems inner opening) (groupItems twin opening) before := by
  apply (carries_elements reads (.inl isWhole) (.inl isWhole) fits).bind
  intro items _ fits
  apply check_carries .rightBracket fits
  · intro isBracket
    exact advance_carries fits (by simp [isBracket, isStatementBreak]) (carries_pure _)
  · exact fun _ => carries_refuse _ fits

theorem carries_groupFrom (fits : frame.Fits before)
    (stands : isStatementBreak before.current.kind = false) :
    frame.Carries (groupFrom inner) (groupFrom twin) before := by
  apply advance_carries fits stands
  intro fits
  apply (carries_within (carries_groupItems reads isWhole _ (fits.congr rfl))).bind
  exact fun items _ fits => carries_pure _ fits

end Whole

/-! ### Expressions -/

theorem carries_nameFrom (fits : frame.Fits before)
    (stands : isStatementBreak before.current.kind = false) :
    frame.Carries (nameFrom inner) (nameFrom twin) before := by
  apply advance_carries fits stands
  intro fits
  apply peek_carries fits
  split
  · rename_i isSlash
    exact carries_chordFrom reads fits (by simp [isSlash, isStatementBreak]) _ _
  · rename_i isParen
    have standsOn : isStatementBreak before.advanced.current.kind = false := by
      simp [isParen, isStatementBreak]
    have isWhole := fits.isWhole (by simp [isParen, isPlain]) standsOn
    exact carries_callFrom reads isWhole _ fits standsOn
  · exact carries_pure _ fits

theorem carries_expressionFrom (fits : frame.Fits before) :
    frame.Carries (expressionFrom inner) (expressionFrom twin) before := by
  rw [expressionFrom_eq, expressionFrom_eq]
  apply peek_carries fits
  by_cases stands : isStatementBreak before.current.kind = false
  · unfold expressionAt
    split
    · exact carries_leafFrom _ fits stands
    · split
      · exact carries_holdFrom reads fits stands
      · rename_i isBracket
        exact carries_groupFrom reads (fits.isWhole (by simp [isBracket, isPlain]) stands) fits
          stands
      · exact carries_nameFrom reads fits stands
      · exact carries_noteFrom reads fits stands _
      · exact carries_unexpected _ fits
  · cases kind : before.current.kind with
    | newline => exact carries_unexpected _ fits
    | semicolon => exact carries_unexpected _ fits
    | _ => simp [kind, isStatementBreak] at stands

end Parts

/-- The nesting that a bound allows is larger in the frame. -/
theorem carries_expression (frame : Frame) (bound : Nat) {before : Reading}
    (fits : frame.Fits before) :
    frame.Carries (expression bound) (expression (bound + frame.extent)) before := by
  induction bound generalizing before with
  | zero => exact carries_abort _
  | succ bound inductionHypothesis =>
      rw [Nat.succ_add]
      exact carries_expressionFrom (fun _ fits => inductionHypothesis fits) fits

theorem rests_body (frame : Frame) : frame.Rests Layout.body.resumes := by
  apply Or.inr
  intro kind breaks
  cases kind <;> first | rfl | contradiction

/-- A body is read up to the statement break that ends it. -/
theorem carries_body {frame : Frame} {before : Reading} (fits : frame.Fits before) :
    frame.Carries body body before := by
  have read : frame.Carries (elements .body (expression (before.rest.length + 1)))
      (elements .body (expression (before.rest.length + 1 + frame.extent))) before :=
    carries_elements (fun _ => carries_expression frame _) frame.bars_isSpace (rests_body frame)
      fits
  have sameTwin : body (frame.around before) = elements .body
      (expression (before.rest.length + 1 + frame.extent)) (frame.around before) := by
    unfold body
    rw [bound_around]
  exact read.of_same rfl sameTwin

end Solfege.Reading.Frame
