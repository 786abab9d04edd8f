import Solfege.Proofs.Provenance.Score

/-!
Contract: reading finds problems of the text, and no others.

Owns:
- the problems that a text can have: those of its syntax and those of the names in it;
- the proof that every problem of a score that was read is one of the text.

Does not own: which text has which problem.

A step of reading reports only what marks a token. So it remains to look at what the score
itself has against a statement.
-/

namespace Solfege

namespace Diagnostic

/-- The problem is one of the text: of its syntax, or of the names that it defines. -/
def IsTextual (diagnostic : Diagnostic) : Prop :=
  diagnostic.kind = .syntactic ∨ diagnostic.kind = .naming

theorem isTextual_syntaxAt (token : Token) (problem : SyntaxProblem) :
    (syntaxAt token problem).IsTextual :=
  .inl rfl

theorem isTextual_namingAt (token : Token) (problem : NameProblem) :
    (namingAt token problem).IsTextual :=
  .inr rfl

theorem Marks.isTextual {tokens : List Token} {first behind : Nat} {diagnostic : Diagnostic}
    (marks : diagnostic.Marks tokens first behind) : diagnostic.IsTextual := by
  cases marks with
  | syntactic problem member => exact isTextual_syntaxAt _ _
  | naming problem here onward before => exact isTextual_namingAt _ _

end Diagnostic

namespace Score

open Diagnostic (isTextual_syntaxAt isTextual_namingAt)

/-! ### What a score has against a statement -/

theorem isTextual_addMacro {score : Score} {added : Macro} {diagnostic : Diagnostic}
    (found : (score.addMacro added).2 = some diagnostic) : diagnostic.IsTextual := by
  unfold addMacro at found
  dsimp only at found
  split at found
  · contradiction
  · rw [← Option.some.inj found]
    exact isTextual_namingAt _ _

theorem isTextual_nameMovement {score : Score} {track : Track} {added : Movement}
    {diagnostic : Diagnostic} (found : (score.nameMovement track added).2 = some diagnostic) :
    diagnostic.IsTextual := by
  unfold nameMovement at found
  split at found
  · rw [← Option.some.inj found]
    exact isTextual_namingAt _ _
  · dsimp only at found
    split at found
    · contradiction
    · contradiction
    · rw [← Option.some.inj found]
      exact isTextual_namingAt _ _

theorem isTextual_addMovement {score : Score} {added : Movement}
    {diagnostic : Diagnostic} (found : (score.addMovement added).2 = some diagnostic) :
    diagnostic.IsTextual := by
  unfold addMovement at found
  split at found
  · rw [← Option.some.inj found]
    exact isTextual_syntaxAt _ _
  · exact isTextual_nameMovement found

theorem isTextual_problem? {score : Score} {statement : Reading.Statement}
    {diagnostic : Diagnostic} (found : score.problem? statement = some diagnostic) :
    diagnostic.IsTextual := by
  cases statement with
  | metadata entry keyword => contradiction
  | track name => contradiction
  | definition added => exact isTextual_addMacro found
  | movement added => exact isTextual_addMovement found

/-! ### Scores that were read -/

theorem isTextual_of_trace {tokens : List Token} {opened score : Score}
    {stretches : List Reading.Stretch} {place : Nat} {reported : List Diagnostic}
    (trace : Reading.Trace tokens opened stretches place score reported) :
    ∀ diagnostic ∈ reported, diagnostic.IsTextual := by
  induction trace with
  | start => exact List.forall_mem_nil _
  | separated _ _ _ inductionHypothesis => exact inductionHypothesis
  | refused _ _ _ marks inductionHypothesis =>
      refine List.forall_mem_append.mpr ⟨inductionHypothesis, fun diagnostic member => ?_⟩
      exact (marks diagnostic member).isTextual
  | added _ _ _ marks inductionHypothesis =>
      obtain ⟨found, ended⟩ := List.forall_mem_append.mp marks
      refine List.forall_mem_append.mpr ⟨inductionHypothesis, ?_⟩
      refine List.forall_mem_append.mpr ⟨List.forall_mem_append.mpr ⟨?_, ?_⟩, ?_⟩
      · exact fun diagnostic member => (found diagnostic member).isTextual
      · exact fun diagnostic member => isTextual_problem? (Option.mem_toList.mp member)
      · exact fun diagnostic member => (ended diagnostic member).isTextual

/-- Every problem of a score that was read is one of the text. -/
theorem isTextual_of_read {tokens : List Token} {trackName : String} {score : Score}
    (wasRead : ofTokens tokens trackName = .ok score) :
    ∀ diagnostic ∈ score.diagnostics, diagnostic.IsTextual := by
  obtain ⟨filled, reported, _, _, read, trace, _⟩ := exists_trace tokens trackName
  obtain rfl := Except.ok.inj (read.symm.trans wasRead)
  exact isTextual_of_trace trace

end Score

end Solfege
