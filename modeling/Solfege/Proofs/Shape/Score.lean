import Solfege.Proofs.Placeholder.Reading
import Solfege.Proofs.Reading.Statement

/-!
Contract: the shape of a score that was read.

Owns:
- the proof that every statement keeps the shape of the score it is added to;
- the main result: whatever the tokens, the score that is read has this shape, and it has
  no more placeholders than problems.

Does not own: what the shape is.
-/

namespace Solfege

open Expression (FormedList)

namespace Score

/-- A statement whose lists have the shape of lists keeps the shape of a score. -/
theorem Formed.extended {score : Score} {statement : Reading.Statement} (formed : score.Formed)
    (statementFormed : statement.Formed) : (score.extended statement).Formed := by
  obtain ⟨macros, movements⟩ := formed
  cases statement with
  | metadata entry keyword => exact ⟨macros, movements⟩
  | track name =>
      refine ⟨macros, fun movement member => movements movement ?_⟩
      simpa [Score.extended, addTrack, Score.movements] using member
  | definition added =>
      constructor
      · intro definition member
        change definition ∈ (score.addMacro added).1.macros at member
        rw [macros_addMacro] at member
        rcases List.mem_append.mp member with earlier | latest
        · exact macros definition earlier
        · rw [List.mem_singleton.mp latest]
          exact statementFormed
      · intro movement member
        change movement ∈ (score.addMacro added).1.tracks.flatMap Track.movements at member
        rw [tracks_addMacro] at member
        exact movements movement member
  | movement added =>
      constructor
      · intro definition member
        change definition ∈ (score.addMovement added).1.macros at member
        rw [macros_addMovement] at member
        exact macros definition member
      · intro movement member
        rcases mem_movements_addMovement member with earlier | rfl
        · exact movements movement earlier
        · exact statementFormed

theorem Formed.foldl {score : Score} {statements : List Reading.Statement}
    (formed : score.Formed) (statementsFormed : ∀ statement ∈ statements, statement.Formed) :
    (statements.foldl Score.extended score).Formed := by
  induction statements generalizing score with
  | nil => exact formed
  | cons statement others inductionHypothesis =>
      obtain ⟨here, rest⟩ := List.forall_mem_cons.mp statementsFormed
      exact inductionHypothesis (formed.extended here) rest

theorem formed_opened (tokens : List Token) (trackName : String) :
    (opened tokens trackName).Formed := by
  unfold opened
  split
  · exact ⟨List.forall_mem_nil _, List.forall_mem_nil _⟩
  · exact ⟨List.forall_mem_nil _, List.forall_mem_nil _⟩

/-- **The shape of what is read.** Every list of tokens is read to a score in which postfix
signs and placeholders stand where they may, what is held can be held, chords have several
members of which only the last is timed, and no number is zero that must not be. Each
placeholder comes with a problem. -/
theorem ofTokens_formed (tokens : List Token) (trackName : String) :
    ∃ score, ofTokens tokens trackName = .ok score ∧ score.Formed ∧
      score.placeholders ≤ score.diagnostics.length ∧
      (score.diagnostics = [] → score.placeholders = 0) := by
  obtain ⟨statements, diagnostics, read, _, formed⟩ := exists_ofTokens_eq_ok tokens trackName
  have few := placeholders_le_diagnostics read
  refine ⟨_, read, (formed_opened tokens trackName).foldl formed, few, fun clean => ?_⟩
  rw [clean] at few
  exact Nat.le_zero.mp few

end Score

end Solfege
