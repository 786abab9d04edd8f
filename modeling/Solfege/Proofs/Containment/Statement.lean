import Solfege.Proofs.Containment.Expression
import Solfege.Proofs.Provenance.Statement

/-!
Contract: statements are read in the same way whatever surrounds them.

Owns:
- for each step of the grammar of statements, that it is carried by a frame;
- that a statement which is skipped is skipped to the statement break behind it, and no
  further.

Does not own: sequences of statements, which go on behind a statement break.
-/

namespace Solfege.Reading.Frame

variable {frame : Frame} {before : Reading}

/-! ### Metadata and tracks -/

theorem carries_optionalString (fits : frame.Fits before) :
    frame.Carries optionalString optionalString before := by
  apply check_carries .string fits
  · intro isString
    apply advance_carries fits (by simp [isString, isStatementBreak])
    intro fits
    apply (carries_stringValue _ fits).bind
    intro text _ fits
    apply (carries_skipping frame.bars_isSpace fits).bind
    exact fun _ _ fits => carries_pure _ fits
  · exact fun _ => carries_pure _ fits

section Signs

variable (fits : frame.Fits before) (stands : isStatementBreak before.current.kind = false)

include fits stands

theorem carries_metadataStatement (entry : String → Metadata) :
    frame.Carries (metadataStatement entry) (metadataStatement entry) before := by
  apply advance_carries fits stands
  intro fits
  apply (carries_skipping frame.bars_isSpace fits).bind
  intro _ _ fits
  apply (carries_expect _ rfl fits).bind
  intro _ _ fits
  apply (carries_skipping frame.bars_isSpace fits).bind
  intro _ _ fits
  apply (carries_expect _ rfl fits).bind
  intro quoted _ fits
  apply (carries_stringValue _ fits).bind
  exact fun text _ fits => carries_pure _ fits

theorem carries_trackStatement : frame.Carries trackStatement trackStatement before := by
  apply advance_carries fits stands
  intro fits
  apply (carries_skipping frame.bars_isSpace fits).bind
  intro _ _ fits
  apply (carries_optionalString fits).bind
  intro name _ fits
  apply (carries_expect _ rfl fits).bind
  exact fun _ _ fits => carries_pure _ fits

end Signs

/-! ### Macros -/

theorem carries_behindParameters {further twin : List String → Step (List String)}
    (carries : ∀ parameters behind, frame.Fits behind →
      frame.Carries (further parameters) (twin parameters) behind)
    (parameters : List String) (fits : frame.Fits before) :
    frame.Carries (behindParameters further parameters) (behindParameters twin parameters)
      before := by
  apply (carries_skipping frame.bars_isSpace fits).bind
  intro _ _ fits
  apply check_carries .comma fits
  · intro isComma
    apply advance_carries fits (by simp [isComma, isStatementBreak])
    intro fits
    apply (carries_skipping frame.bars_isSpace fits).bind
    intro _ _ fits
    apply check_carries .rightParen fits
    · intro _
      exact peek_carries fits (carries_refuse _ fits)
    · exact fun _ => carries parameters _ fits
  · intro _
    apply (carries_expect _ rfl fits).bind
    exact fun _ _ fits => carries_pure _ fits

theorem carries_parametersFrom (steps : Nat) (found : List String) (fits : frame.Fits before) :
    frame.Carries (parametersFrom steps found) (parametersFrom (steps + frame.extent) found)
      before := by
  induction steps generalizing found before with
  | zero => exact carries_abort _
  | succ steps inductionHypothesis =>
      rw [Nat.succ_add, parametersFrom_eq, parametersFrom_eq]
      apply (carries_skipping frame.bars_isSpace fits).bind
      intro _ _ fits
      apply (carries_expect _ rfl fits).bind
      intro written _ fits
      apply Carries.ite
      · intro _
        apply (carries_report _ fits).bind
        exact fun _ _ fits =>
          carries_behindParameters (fun _ _ => inductionHypothesis _) _ fits
      · exact fun _ => carries_behindParameters (fun _ _ => inductionHypothesis _) _ fits

theorem carries_parameterList (fits : frame.Fits before)
    (stands : isStatementBreak before.current.kind = false) :
    frame.Carries parameterList parameterList before := by
  apply advance_carries fits stands
  intro fits
  apply (carries_skipping frame.bars_isSpace fits).bind
  intro _ after fits
  apply check_carries .rightParen fits
  · intro isParen
    exact advance_carries fits (by simp [isParen, isStatementBreak]) (carries_pure _)
  · intro _
    apply (carries_parametersFrom (after.rest.length + 1) [] fits).of_same rfl
    show parametersFrom ((frame.around after).rest.length + 1) _ _ = _
    rw [bound_around]

theorem carries_behindHead (name : Token) (parameters : List String) (fits : frame.Fits before) :
    frame.Carries (behindHead name parameters) (behindHead name parameters) before := by
  apply (carries_skipping frame.bars_isSpace fits).bind
  intro _ _ fits
  apply (carries_expect _ rfl fits).bind
  intro _ _ fits
  apply (carries_body fits).bind
  exact fun body _ fits => carries_pure _ fits

theorem carries_macroFrom (name : Token) (fits : frame.Fits before) :
    frame.Carries (macroFrom name) (macroFrom name) before := by
  rw [macroFrom_eq]
  apply check_carries .leftParen fits
  · intro isParen
    apply (carries_parameterList fits (by simp [isParen, isStatementBreak])).bind
    exact fun parameters _ fits => carries_behindHead name parameters fits
  · exact fun _ => carries_behindHead name [] fits

/-! ### Movements -/

theorem carries_movementFrom (instrument : Token) (fits : frame.Fits before) :
    frame.Carries (movementFrom instrument) (movementFrom instrument) before := by
  apply (carries_optionalString fits).bind
  intro tag _ fits
  apply (carries_expect _ rfl fits).bind
  intro _ _ fits
  apply (carries_body fits).bind
  exact fun expressions _ fits => carries_pure _ fits

theorem carries_definitionStatement (fits : frame.Fits before)
    (stands : isStatementBreak before.current.kind = false) :
    frame.Carries definitionStatement definitionStatement before := by
  rw [definitionStatement_eq]
  apply advance_carries fits stands
  intro fits
  apply (carries_skipping frame.bars_isSpace fits).bind
  intro _ behind fits
  have fitsInside (context : Context) : frame.Fits (behind.inside context) := fits.congr rfl
  apply peek_carries fits
  apply Carries.ite
  · intro _
    apply (carries_within (carries_macroFrom before.current (fitsInside .definition))).bind
    exact fun definition _ fits => carries_pure _ fits
  intro _
  apply Carries.ite
  · intro _
    apply (carries_within (carries_movementFrom before.current (fitsInside .movement))).bind
    exact fun movement _ fits => carries_pure _ fits
  · exact fun _ => carries_unexpected _ fits

/-! ### Statements -/

theorem carries_statement (fits : frame.Fits before)
    (stands : isStatementBreak before.current.kind = false) :
    frame.Carries statement statement before := by
  apply peek_carries fits
  split
  · exact carries_metadataStatement fits stands .title
  · exact carries_metadataStatement fits stands .copyRight
  · exact carries_trackStatement fits stands
  · exact carries_definitionStatement fits stands
  · exact carries_unexpected _ fits

theorem carries_statementEnd (read : Statement) (fits : frame.Fits before) :
    frame.Carries (statementEnd read) (statementEnd read) before := by
  cases read with
  | metadata entry keyword =>
      apply (carries_skipping frame.bars_isSpace fits).bind
      intro _ _ fits
      apply peek_carries fits
      exact .ite (fun _ => carries_pure _ fits) fun _ => carries_unexpected _ fits
  | _ => exact carries_pure _ fits

theorem carries_addStatement (score : Score) (read : Statement) (fits : frame.Fits before) :
    frame.Carries (addStatement score read) (addStatement score read) before := by
  have added : (frame.around before).added score read = frame.around (before.added score read) :=
    around_diagnostics frame before _
  unfold Carries
  rw [addStatement_apply, addStatement_apply, added]
  exact ⟨fits.congr rfl, rfl⟩

theorem carries_skipStatement (diagnostic : Diagnostic) (fits : frame.Fits before) :
    frame.Carries (skipStatement diagnostic) (skipStatement diagnostic) before := by
  apply (carries_report diagnostic fits).bind
  exact fun _ _ fits => carries_resumeAt frame.rests_isStatementBreak fits

theorem carries_readStatement (score : Score) (fits : frame.Fits before)
    (stands : isStatementBreak before.current.kind = false) :
    frame.Carries (readStatement score) (readStatement score) before := by
  have skipping (made : Score) (diagnostic : Diagnostic) {behind : Reading}
      (fits : frame.Fits behind) :
      frame.Carries (skipStatement diagnostic >>= fun _ => pure made)
        (skipStatement diagnostic >>= fun _ => pure made) behind :=
    (carries_skipStatement diagnostic fits).bind fun _ _ fits => carries_pure made fits
  apply (carries_attempt (carries_statement fits stands)).bind
  intro result _ fits
  cases result with
  | error diagnostic => exact skipping score diagnostic fits
  | ok read =>
      apply (carries_addStatement score read fits).bind
      intro extended _ fits
      apply (carries_attempt (carries_statementEnd read fits)).bind
      intro ended _ fits
      cases ended with
      | error diagnostic => exact skipping extended diagnostic fits
      | ok nothing => exact carries_pure extended fits

end Solfege.Reading.Frame
