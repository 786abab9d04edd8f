import Solfege.Proofs.Placeholder.Basic
import Solfege.Proofs.Reading.Accounting
import Solfege.Proofs.Reading.Statement

/-!
Contract: every placeholder in a score that was read comes with a problem.

Owns:
- the proof, for each step of the grammar, that it accounts for the placeholders it makes;
- the bound on the placeholders of a score by its problems.

Does not own: where in an expression a placeholder can stand.
-/

namespace Solfege

open Expression (placeholders placeholdersOfAll)

namespace Reading

/-- The step reads an expression and accounts for the placeholders in it. -/
abbrev Pays (step : Step Expression) : Prop := Accounts 0 step placeholders

/-- The step reads a list of expressions and accounts for the placeholders in it. -/
abbrev PaysForAll (step : Step (List Expression)) : Prop := Accounts 0 step placeholdersOfAll

/-! ### Phrases -/

theorem steady_phrase {α : Type} (phrase : Phrase α) (anchor : Token) :
    Steady (phrase.run anchor) := by
  induction phrase generalizing anchor with
  | done value => exact accounts_pure (Nat.le_refl 0)
  | anchored next inductionHypothesis =>
      exact (steady_numberValue _).bind fun value => inductionHypothesis value anchor
  | number expected next inductionHypothesis =>
      exact (steady_expectNumber _).bind fun value => inductionHypothesis value anchor
  | nonzero expected problem next inductionHypothesis =>
      exact steady_peek.bind fun _ => (steady_expectNumber _).bind fun value =>
        .ite (accounts_refuse _) (inductionHypothesis value anchor)
  | sign written expected next inductionHypothesis =>
      exact (steady_expect _ _).bind fun _ => inductionHypothesis anchor
  | pitch expected next inductionHypothesis =>
      rw [Phrase.run]
      refine steady_peek.bind fun _ => ?_
      split
      · exact accounts_unexpected _
      · exact steady_advance.bind fun _ => inductionHypothesis _ anchor
      · exact accounts_unexpected _
  | choice written behind other behindHypothesis otherHypothesis =>
      exact (steady_check _).bind fun _ =>
        .ite (steady_advance.bind fun _ => behindHypothesis _) (otherHypothesis anchor)
  | amount next other nextHypothesis otherHypothesis =>
      exact (steady_check _).bind fun _ =>
        .ite (steady_advance.bind fun _ => (steady_numberValue _).bind fun value =>
          nextHypothesis value anchor) (otherHypothesis anchor)
  | following problem next inductionHypothesis =>
      exact steady_followsExpression.bind fun _ =>
        .ite (inductionHypothesis anchor) (accounts_refuse _)

theorem pays_leafFrom (phrase : Phrase Leaf) : Pays (leafFrom phrase) := by
  refine steady_advance.bind fun _ => (steady_phrase phrase _).bind fun leaf => ?_
  cases leaf <;> exact accounts_pure (Nat.le_refl 0)

/-! ### Notes, names and holds -/

theorem steady_accidentals : Steady accidentals := steady_of_kept fun _ => rfl

theorem steady_octaveSuffix : Steady octaveSuffix :=
  octaveSuffix_eq default ▸ steady_phrase _ _

theorem steady_durationSuffix : Steady durationSuffix :=
  durationSuffix_eq default ▸ steady_phrase _ _

section Parts

variable {inner : Step Expression} (pays : Pays inner)

include pays

theorem pays_chordFrom (first : ChordMember) (token : Token) :
    Pays (chordFrom inner first token) := by
  refine steady_advance.bind fun _ => (accounts_within _ pays).bind fun rest => ?_
  split
  · exact accounts_pure (Nat.zero_le _)
  · exact accounts_pure (Nat.zero_le _)
  · exact accounts_pure (Nat.zero_le _)
  · exact accounts_refuse _

theorem pays_noteFrom (name : Syllable) : Pays (noteFrom inner name) :=
  steady_advance.bind fun _ => steady_accidentals.bind fun _ => steady_octaveSuffix.bind fun _ =>
    (steady_check _).bind fun _ => .ite (pays_chordFrom pays _ _)
      (steady_durationSuffix.bind fun _ => accounts_pure (Nat.le_refl 0))

theorem accounts_argumentsFrom (bound : Nat) (found : List Expression) :
    Accounts (placeholdersOfAll found) (argumentsFrom inner bound found)
      placeholdersOfAll := by
  induction bound generalizing found with
  | zero => exact accounts_abort _
  | succ bound inductionHypothesis =>
      refine (steady_skipping _).bind fun _ => (steady_check _).bind fun _ => .ite ?_ ?_
      · exact steady_peek.bind fun _ => accounts_refuse _
      · refine (pays.keeping _).bind fun argument => (steady_skipping _).bind fun _ =>
          steady_peek.bind fun _ => ?_
        split
        · refine steady_advance.bind fun _ => accounts_pure ?_
          rw [Expression.placeholdersOfAll_reverse]
          exact Nat.le_refl _
        · exact steady_advance.bind fun _ => (steady_skipping _).bind fun _ =>
            (steady_check _).bind fun _ => .ite (steady_peek.bind fun _ => accounts_refuse _)
              (inductionHypothesis (argument :: found))
        · exact accounts_unexpected _

theorem pays_argumentList : PaysForAll (argumentList inner) :=
  (steady_skipping _).bind fun _ => (steady_check _).bind fun _ =>
    .ite (steady_advance.bind fun _ => accounts_pure (Nat.le_refl 0))
      (.at_state (fun reading => reading.rest.length + 1)
        fun bound => accounts_argumentsFrom pays bound [])

theorem pays_recoveredArguments (name : Token) :
    PaysForAll (recoveredArguments inner name) := by
  refine (accounts_attempt (pays_argumentList pays)).bind fun result => ?_
  cases result with
  | ok arguments => exact accounts_pure (Nat.le_refl _)
  | error diagnostic =>
      refine report_bind diagnostic ((steady_resumeAt _).bind fun _ =>
        (steady_check _).bind fun _ => ?_)
      exact .ite (steady_discard_advance.bind fun _ => accounts_pure (Nat.le_refl 1))
        (accounts_pure (Nat.le_refl 1))

theorem pays_callFrom (name : Token) : Pays (callFrom inner name) :=
  steady_advance.bind fun _ => (accounts_within _ (pays_recoveredArguments pays name)).bind
    fun _ => accounts_pure (Nat.le_refl _)

theorem pays_nameFrom : Pays (nameFrom inner) := by
  refine steady_advance.bind fun name => steady_peek.bind fun _ => ?_
  split
  · exact pays_chordFrom pays _ name
  · exact pays_callFrom pays name
  · exact accounts_pure (Nat.le_refl 0)

theorem pays_holdFrom : Pays (holdFrom inner) :=
  steady_advance.bind fun _ => (accounts_within _ ((steady_skipping _).bind fun _ => pays)).bind
    fun _ => .ite (accounts_pure (Nat.le_refl _)) (accounts_refuse _)

/-! ### Lists and groups -/

theorem accounts_elementsFrom (layout : Layout) (bound : Nat) (marked : Bool)
    (found : List Expression) :
    Accounts (placeholdersOfAll found) (elementsFrom layout inner bound marked found)
      placeholdersOfAll := by
  induction bound generalizing marked found with
  | zero => exact accounts_abort _
  | succ bound inductionHypothesis =>
      refine (steady_skipping _).bind fun _ => steady_peek.bind fun first => .ite ?_ ?_
      · have whole := Nat.le_of_eq (Expression.placeholdersOfAll_reverse found)
        exact .ite ((steady_leave _).bind fun _ => accounts_pure whole) (accounts_pure whole)
      · refine ((accounts_attempt pays).keeping _).bind fun result => ?_
        cases result with
        | ok element =>
            have rest := inductionHypothesis true (element :: found)
            exact .ite ((steady_enter _).bind fun _ => rest) rest
        | error diagnostic =>
            have rest := inductionHypothesis marked (.placeholder first :: found)
            refine report_bind diagnostic ((steady_resumeAt _).bind fun _ => ?_)
            rw [Expression.placeholdersOfAll_cons, Nat.add_comm] at rest
            dsimp only
            rw [Nat.zero_add]
            exact rest

theorem pays_elements (layout : Layout) : PaysForAll (elements layout inner) :=
  .at_state (fun reading => reading.rest.length + 1)
    fun bound => accounts_elementsFrom pays layout bound false []

theorem pays_groupItems (opening : Token) : PaysForAll (groupItems inner opening) :=
  (pays_elements pays .group).bind fun _ => (steady_check _).bind fun _ =>
    .ite (steady_advance.bind fun _ => accounts_pure (Nat.le_refl _)) (accounts_refuse _)

theorem pays_groupFrom : Pays (groupFrom inner) :=
  steady_advance.bind fun opening => (accounts_within _ (pays_groupItems pays opening)).bind
    fun _ => accounts_pure (Nat.le_refl _)

theorem pays_expressionFrom : Pays (expressionFrom inner) := by
  rw [expressionFrom_eq]
  refine steady_peek.bind fun first => ?_
  apply expressionAt_cases (motive := fun _ step => Pays step)
  · exact fun _ phrase _ => pays_leafFrom phrase
  · exact pays_holdFrom pays
  · exact pays_groupFrom pays
  · exact pays_nameFrom pays
  · exact pays_noteFrom pays
  · exact fun _ => accounts_unexpected _

end Parts

/-- Reading an expression accounts for the placeholders in it. -/
theorem pays_expression (bound : Nat) : Pays (expression bound) := by
  induction bound with
  | zero => exact accounts_abort _
  | succ bound inductionHypothesis => exact pays_expressionFrom inductionHypothesis

theorem pays_body : PaysForAll body :=
  .at_state (fun reading => reading.rest.length + 1)
    fun bound => pays_elements (pays_expression bound) .body

/-! ### Statements -/

theorem steady_optionalString : Steady optionalString :=
  (steady_check _).bind fun _ =>
    .ite (steady_advance.bind fun _ => (steady_stringValue _).bind fun _ =>
      (steady_skipping _).bind fun _ => accounts_pure (Nat.le_refl 0))
      (accounts_pure (Nat.le_refl 0))

theorem steady_behindParameters {further : List String → Step (List String)}
    (steady : ∀ parameters, Steady (further parameters)) (parameters : List String) :
    Steady (behindParameters further parameters) :=
  (steady_skipping _).bind fun _ => (steady_check _).bind fun _ => .ite
    (steady_advance.bind fun _ => (steady_skipping _).bind fun _ => (steady_check _).bind fun _ =>
      .ite (steady_peek.bind fun _ => accounts_refuse _) (steady parameters))
    ((steady_expect _ _).bind fun _ => accounts_pure (Nat.le_refl 0))

theorem steady_parametersFrom (bound : Nat) (found : List String) :
    Steady (parametersFrom bound found) := by
  induction bound generalizing found with
  | zero => exact accounts_abort _
  | succ bound inductionHypothesis =>
      rw [parametersFrom_eq]
      exact (steady_skipping _).bind fun _ => (steady_expect _ _).bind fun written => .ite
        ((steady_report _).bind fun _ => steady_behindParameters inductionHypothesis _)
        (steady_behindParameters inductionHypothesis _)

theorem steady_parameterList : Steady parameterList :=
  steady_advance.bind fun _ => (steady_skipping _).bind fun _ => (steady_check _).bind fun _ =>
    .ite (steady_advance.bind fun _ => accounts_pure (Nat.le_refl 0))
      (.at_state (fun reading => reading.rest.length + 1)
        fun bound => steady_parametersFrom bound [])

/-- The number of placeholders that a statement adds to a score. -/
def Statement.placeholders : Statement → Nat
  | .metadata _ _ => 0
  | .track _ => 0
  | .definition added => added.placeholders
  | .movement added => added.placeholders

theorem accounts_behindHead (name : Token) (parameters : List String) :
    Accounts 0 (behindHead name parameters) Macro.placeholders :=
  (steady_skipping _).bind fun _ => (steady_expect _ _).bind fun _ =>
    pays_body.bind fun _ => accounts_pure (Nat.le_refl _)

theorem accounts_macroFrom (name : Token) :
    Accounts 0 (macroFrom name) Macro.placeholders := by
  rw [macroFrom_eq]
  exact (steady_check _).bind fun _ => .ite (steady_parameterList.bind (accounts_behindHead name))
    (accounts_behindHead name [])

theorem accounts_movementFrom (instrument : Token) :
    Accounts 0 (movementFrom instrument) Movement.placeholders :=
  steady_optionalString.bind fun _ => (steady_expect _ _).bind fun _ =>
    pays_body.bind fun _ => accounts_pure (Nat.le_refl _)

theorem accounts_definitionStatement :
    Accounts 0 definitionStatement Statement.placeholders := by
  rw [definitionStatement_eq]
  refine steady_advance.bind fun name => (steady_skipping _).bind fun _ =>
    steady_peek.bind fun behind => .ite ?_ (.ite ?_ (accounts_unexpected _))
  · exact (accounts_within _ (accounts_macroFrom name)).bind fun _ => accounts_pure (Nat.le_refl _)
  · exact (accounts_within _ (accounts_movementFrom name)).bind fun _ =>
      accounts_pure (Nat.le_refl _)

theorem accounts_metadataStatement (entry : String → Metadata) :
    Accounts 0 (metadataStatement entry) Statement.placeholders :=
  steady_advance.bind fun _ => (steady_skipping _).bind fun _ => (steady_expect _ _).bind fun _ =>
    (steady_skipping _).bind fun _ => (steady_expect _ _).bind fun _ =>
      (steady_stringValue _).bind fun _ => accounts_pure (Nat.le_refl 0)

theorem accounts_trackStatement : Accounts 0 trackStatement Statement.placeholders :=
  steady_advance.bind fun _ => (steady_skipping _).bind fun _ => steady_optionalString.bind fun _ =>
    (steady_expect _ _).bind fun _ => accounts_pure (Nat.le_refl 0)

theorem accounts_statement : Accounts 0 statement Statement.placeholders := by
  refine steady_peek.bind fun _ => ?_
  split
  · exact accounts_metadataStatement .title
  · exact accounts_metadataStatement .copyRight
  · exact accounts_trackStatement
  · exact accounts_definitionStatement
  · exact accounts_unexpected _

theorem steady_statementEnd (statement : Statement) : Steady (statementEnd statement) := by
  unfold statementEnd
  split
  · exact (steady_skipping _).bind fun _ => steady_peek.bind fun _ =>
      .ite (accounts_pure (Nat.le_refl 0)) (accounts_unexpected _)
  · exact accounts_pure (Nat.le_refl 0)

end Reading

/-! ### Scores -/

theorem Score.placeholders_addTrack (score : Score) (name : String) :
    (score.addTrack name).placeholders = score.placeholders := by
  simp [placeholders, addTrack, movements]

theorem Score.placeholders_addMacro (score : Score) (definition : Macro) :
    (score.addMacro definition).1.placeholders =
      score.placeholders + definition.placeholders := by
  unfold addMacro
  dsimp only
  split <;> simp [placeholders, movements, Macro.placeholders] <;> omega

theorem Score.placeholders_addMovement_le (score : Score) (movement : Movement) :
    (score.addMovement movement).1.placeholders ≤
      score.placeholders + movement.placeholders := by
  unfold addMovement
  split
  · exact Nat.le_add_right _ _
  · rename_i track opened
    obtain ⟨earlier, split⟩ := List.getLast?_eq_some_iff.mp opened
    dsimp only
    unfold placeholders movements
    dsimp only
    rw [split, List.dropLast_concat]
    simp [Track.add, Movement.placeholders]
    omega

namespace Reading

theorem accounts_addStatement (score : Score) (statement : Statement) :
    Accounts (statement.placeholders + score.placeholders) (addStatement score statement)
      Score.placeholders := by
  cases statement with
  | metadata entry keyword => exact accounts_pure (Nat.le_add_left _ _)
  | track name => exact accounts_pure (by rw [Score.placeholders_addTrack]; exact Nat.le_add_left _ _)
  | definition added =>
      have enough : (score.addMacro added).1.placeholders ≤
          added.placeholders + score.placeholders :=
        Nat.le_of_eq ((score.placeholders_addMacro added).trans (Nat.add_comm _ _))
      unfold addStatement
      dsimp only
      split
      · exact (steady_report _).bind fun _ => accounts_pure enough
      · exact accounts_pure enough
  | movement added =>
      have enough : (score.addMovement added).1.placeholders ≤
          added.placeholders + score.placeholders := by
        rw [Nat.add_comm]
        exact score.placeholders_addMovement_le added
      unfold addStatement
      dsimp only
      split
      · exact (steady_report _).bind fun _ => accounts_pure enough
      · exact accounts_pure enough

theorem steady_skipStatement (diagnostic : Diagnostic) : Steady (skipStatement diagnostic) :=
  (steady_report _).bind fun _ => steady_resumeAt _

theorem accounts_readStatement (score : Score) :
    Accounts score.placeholders (readStatement score) Score.placeholders := by
  refine ((accounts_attempt accounts_statement).keeping _).bind fun result => ?_
  cases result with
  | error diagnostic =>
      exact (steady_skipStatement _).bind fun _ => accounts_pure (Nat.le_add_left _ _)
  | ok statement =>
      refine (accounts_addStatement score statement).bind fun extended => ?_
      refine (steady_attempt (steady_statementEnd statement)).bind fun result => ?_
      cases result with
      | error diagnostic =>
          exact (steady_skipStatement _).bind fun _ => accounts_pure (Nat.le_refl _)
      | ok nothing => exact accounts_pure (Nat.le_refl _)

theorem accounts_statementsFrom (bound : Nat) (score : Score) :
    Accounts score.placeholders (statementsFrom bound score) Score.placeholders := by
  induction bound generalizing score with
  | zero => exact accounts_abort _
  | succ bound inductionHypothesis =>
      exact (steady_skipping _).bind fun _ => (steady_check _).bind fun _ =>
        .ite (accounts_pure (Nat.le_refl _))
          ((accounts_readStatement score).bind inductionHypothesis)

theorem accounts_statements (score : Score) :
    Accounts score.placeholders (statements score) Score.placeholders := by
  refine Accounts.bind (.at_state (fun reading => reading.rest.length + 1)
    fun bound => accounts_statementsFrom bound score) fun filled reading => ?_
  cases reading.contexts with
  | nil => exact Nat.le_refl _
  | cons context outer => exact Nat.le_add_right _ _

end Reading

/-- A score that was read holds at most as many placeholders as problems were met. -/
theorem Score.placeholders_le_diagnostics {tokens : List Token} {trackName : String}
    {score : Score} (wasRead : ofTokens tokens trackName = .ok score) :
    score.placeholders ≤ score.diagnostics.length := by
  unfold ofTokens at wasRead
  dsimp only at wasRead
  split at wasRead
  · rename_i filled after result
    have accounts := (Reading.accounts_statements _).ok_le result
    have nothing : (if tokens.any fun token => token.kind = .track then empty
        else empty.addTrack trackName).placeholders = 0 := by
      split
      · rfl
      · rw [placeholders_addTrack]
        rfl
    rw [Reading.diagnostics_ofTokens, nothing] at accounts
    rw [← Except.ok.inj wasRead]
    change filled.placeholders ≤ after.diagnostics.length
    simpa using accounts
  · contradiction
  · contradiction

end Solfege
