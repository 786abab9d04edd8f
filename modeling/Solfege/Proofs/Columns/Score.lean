import Solfege.Proofs.Columns.Expression
import Solfege.Proofs.Reading.Statement

/-!
Contract: the columns of tokens are labels to the reader of scores.

Owns:
- the proof that a definition is added to a score in the same way when both are moved;
- the same for each step of the grammar of statements;
- the proof that moved tokens spell the score that they spelled where they were, moved.

Does not own: which tokens a source has in which columns.

Lines are no labels. The line of an earlier definition is part of the problem of one that
repeats its name.
-/

namespace Solfege

variable {columns : Position → Nat}

/-! ### Definitions -/

namespace Score

theorem macroAt?_moved (macros : List Macro) (index : Nat) :
    macroAt? (macros.map (Macro.moved columns)) index =
      (macroAt? macros index).map (Macro.moved columns) := by
  cases index with
  | zero => rfl
  | succ index => exact List.getElem?_map

/-- A definition stands on the line where it stood. -/
theorem lineOf?_moved (score : Score) (entry : NameTable.Entry) :
    (score.moved columns).lineOf? entry = score.lineOf? entry := by
  cases entry with
  | macroAt index =>
      unfold lineOf? moved
      dsimp only
      rw [macroAt?_moved, Option.map_map]
      rfl
  | movementAt track movement =>
      unfold lineOf? moved
      dsimp only
      rw [List.getElem?_map]
      cases score.tracks[track - 1]? with
      | none => rfl
      | some found =>
          show Option.bind (List.map _ found.movements)[movement - 1]? _ =
            Option.bind found.movements[movement - 1]? _
          rw [List.getElem?_map]
          cases found.movements[movement - 1]? <;> rfl

theorem moved_addTrack (score : Score) (name : String) :
    (score.addTrack name).moved columns = (score.moved columns).addTrack name := by
  unfold addTrack moved
  dsimp only
  rw [List.map_append]
  rfl

theorem addMacro_moved (score : Score) (added : Macro) :
    (score.moved columns).addMacro (added.moved columns) =
      ((score.addMacro added).1.moved columns,
        (score.addMacro added).2.map (Diagnostic.moved columns)) := by
  have length : (score.moved columns).macros.length = score.macros.length := List.length_map _
  have macros : (score.moved columns).macros ++ [added.moved columns] =
      (score.macros ++ [added]).map (Macro.moved columns) := by
    rw [List.map_append]
    rfl
  have names : (score.moved columns).names = score.names := rfl
  have name : (added.moved columns).name = added.name := rfl
  unfold addMacro
  dsimp only
  rw [length, macros, names, name]
  split
  · rfl
  · rw [lineOf?_moved]
    rfl

theorem nameMovement_moved (score : Score) (track : Track) (added : Movement) :
    (score.moved columns).nameMovement (track.moved columns) (added.moved columns) =
      ((score.nameMovement track added).1,
        (score.nameMovement track added).2.map (Diagnostic.moved columns)) := by
  have earlier : (track.moved columns).movements.find?
        (fun earlier => earlier.key = (added.moved columns).key) =
      (track.movements.find? fun earlier => earlier.key = added.key).map
        (Movement.moved columns) := List.find?_map
  have tracks : (score.moved columns).tracks.length = score.tracks.length := List.length_map _
  have movements : (track.moved columns).movements.length = track.movements.length :=
    List.length_map _
  have names : (score.moved columns).names = score.names := rfl
  have key : (added.moved columns).key = added.key := rfl
  unfold nameMovement
  rw [earlier, tracks, movements, names, key]
  cases track.movements.find? fun earlier => earlier.key = added.key with
  | some found => rfl
  | none =>
      dsimp only [Option.map_none]
      split
      · rfl
      · rfl
      · rw [lineOf?_moved]
        rfl

theorem addMovement_moved (score : Score) (added : Movement) :
    (score.moved columns).addMovement (added.moved columns) =
      ((score.addMovement added).1.moved columns,
        (score.addMovement added).2.map (Diagnostic.moved columns)) := by
  have last : (score.moved columns).tracks.getLast? =
      score.tracks.getLast?.map (Track.moved columns) := List.getLast?_map
  unfold addMovement
  rw [last]
  cases score.tracks.getLast? with
  | none => rfl
  | some track =>
      have tracks : (score.moved columns).tracks.dropLast ++
            [(track.moved columns).add (added.moved columns)] =
          (score.tracks.dropLast ++ [track.add added]).map (Track.moved columns) := by
        rw [List.map_append, List.map_dropLast]
        simp [Track.add, Track.moved, moved]
      dsimp only [Option.map_some]
      rw [nameMovement_moved, tracks]
      rfl

end Score

namespace Reading

/-! ### Statements -/

theorem equivariant_metadataStatement (entry : String → Metadata) :
    Equivariant columns (Statement.moved columns) (metadataStatement entry)
      (metadataStatement entry) :=
  equivariant_advance.bind fun keyword => (equivariant_skipping _).bind_same fun _ =>
    (equivariant_expect .colon (.colonAfter keyword)).bind fun _ =>
      (equivariant_skipping _).bind_same fun _ =>
        (equivariant_expect .string (.textAfter keyword)).bind fun written =>
          (equivariant_stringValue written).bind_same fun _ => equivariant_pure rfl

theorem equivariant_optionalString :
    Equivariant columns id optionalString optionalString :=
  (equivariant_check .string).bind_same fun _ =>
    .ite (equivariant_advance.bind fun written => (equivariant_stringValue written).bind_same
        fun _ => (equivariant_skipping _).bind_same fun _ => equivariant_pure rfl)
      (equivariant_pure rfl)

theorem equivariant_trackStatement :
    Equivariant columns (Statement.moved columns) trackStatement trackStatement :=
  equivariant_advance.bind fun _ => (equivariant_skipping _).bind_same fun _ =>
    equivariant_optionalString.bind_same fun _ =>
      (equivariant_expect .colon .colonAfterTrack).bind fun _ => equivariant_pure rfl

theorem equivariant_behindParameters {further twin : List String → Step (List String)}
    (equivariant : ∀ parameters, Equivariant columns id (further parameters) (twin parameters))
    (parameters : List String) :
    Equivariant columns id (behindParameters further parameters)
      (behindParameters twin parameters) :=
  (equivariant_skipping _).bind_same fun _ => (equivariant_check .comma).bind_same fun _ => .ite
    (equivariant_advance.bind fun _ => (equivariant_skipping _).bind_same fun _ =>
      (equivariant_check .rightParen).bind_same fun _ =>
        .ite (equivariant_peek.bind fun closing =>
            equivariant_refuse_grammar closing (.trailingComma .parameters))
          (equivariant parameters))
    ((equivariant_expect .rightParen .endOfParameter).bind fun _ => equivariant_pure rfl)

theorem equivariant_parametersFrom (bound : Nat) (found : List String) :
    Equivariant columns id (parametersFrom bound found) (parametersFrom bound found) := by
  induction bound generalizing found with
  | zero => exact equivariant_abort _
  | succ bound inductionHypothesis =>
      rw [parametersFrom_eq]
      exact (equivariant_skipping _).bind_same fun _ =>
        (equivariant_expect .word .parameter).bind fun written => .ite
          ((equivariant_report (Diagnostic.namingAt written
            (.repeatedParameter written.text))).bind_same fun _ =>
              equivariant_behindParameters inductionHypothesis _)
          (equivariant_behindParameters inductionHypothesis _)

theorem equivariant_parameterList :
    Equivariant columns id parameterList parameterList :=
  equivariant_advance.bind fun _ => (equivariant_skipping _).bind_same fun _ =>
    (equivariant_check .rightParen).bind_same fun _ =>
      .ite (equivariant_advance.bind fun _ => equivariant_pure rfl)
        (.at_length fun bound => equivariant_parametersFrom bound [])

theorem equivariant_behindHead (name : Token) (parameters : List String) :
    Equivariant columns (Macro.moved columns) (behindHead name parameters)
      (behindHead (name.moved columns) parameters) :=
  (equivariant_skipping _).bind_same fun _ =>
    (equivariant_expect .equals (.equalsAfterMacro name)).bind fun _ =>
      equivariant_body.bind fun _ => equivariant_pure rfl

theorem equivariant_macroFrom (name : Token) :
    Equivariant columns (Macro.moved columns) (macroFrom name)
      (macroFrom (name.moved columns)) := by
  rw [macroFrom_eq, macroFrom_eq]
  exact (equivariant_check .leftParen).bind_same fun _ =>
    .ite (equivariant_parameterList.bind_same (equivariant_behindHead name))
      (equivariant_behindHead name [])

theorem equivariant_movementFrom (instrument : Token) :
    Equivariant columns (Movement.moved columns) (movementFrom instrument)
      (movementFrom (instrument.moved columns)) :=
  equivariant_optionalString.bind_same fun _ =>
    (equivariant_expect .colon (.colonAfterMovement instrument)).bind fun _ =>
      equivariant_body.bind fun _ => equivariant_pure rfl

theorem equivariant_definitionStatement :
    Equivariant columns (Statement.moved columns) definitionStatement definitionStatement := by
  rw [definitionStatement_eq]
  refine equivariant_advance.bind fun name => (equivariant_skipping _).bind_same fun _ =>
    equivariant_peek.bind fun behind => ?_
  rw [Token.kind_moved]
  refine .ite ?_ (.ite ?_ (equivariant_unexpected (.definitionAfter name)))
  · exact (equivariant_within _ (equivariant_macroFrom name)).bind fun _ => equivariant_pure rfl
  · exact (equivariant_within _ (equivariant_movementFrom name)).bind fun _ => equivariant_pure rfl

theorem equivariant_statement :
    Equivariant columns (Statement.moved columns) statement statement := by
  refine equivariant_peek.bind fun first => ?_
  rw [Token.kind_moved]
  split
  · exact equivariant_metadataStatement .title
  · exact equivariant_metadataStatement .copyRight
  · exact equivariant_trackStatement
  · exact equivariant_definitionStatement
  · exact equivariant_unexpected .statement

theorem equivariant_statementEnd (statement : Statement) :
    Equivariant columns id (statementEnd statement) (statementEnd (statement.moved columns)) := by
  cases statement with
  | metadata entry keyword =>
      exact (equivariant_skipping _).bind_same fun _ => equivariant_peek.bind fun _ =>
        .ite (equivariant_pure rfl) (equivariant_unexpected (.endOfStatementAfter keyword))
  | _ => exact equivariant_pure rfl

/-! ### Sequences of statements -/

/-- A score is added to in the same way, and the problem of that is the same, moved. -/
theorem equivariant_addStatement (score : Score) (statement : Statement) :
    Equivariant columns (Score.moved columns) (addStatement score statement)
      (addStatement (score.moved columns) (statement.moved columns)) := by
  cases statement with
  | metadata entry keyword => exact equivariant_pure rfl
  | track name => exact equivariant_pure (score.moved_addTrack name)
  | definition added =>
      unfold addStatement Statement.moved
      dsimp only
      rw [Score.addMacro_moved]
      cases (score.addMacro added).2 with
      | none => exact equivariant_pure rfl
      | some diagnostic =>
          exact (equivariant_report diagnostic).bind_same fun _ => equivariant_pure rfl
  | movement added =>
      unfold addStatement Statement.moved
      dsimp only
      rw [Score.addMovement_moved]
      cases (score.addMovement added).2 with
      | none => exact equivariant_pure rfl
      | some diagnostic =>
          exact (equivariant_report diagnostic).bind_same fun _ => equivariant_pure rfl

theorem equivariant_skipStatement (diagnostic : Diagnostic) :
    Equivariant columns id (skipStatement diagnostic) (skipStatement (diagnostic.moved columns)) :=
  (equivariant_report diagnostic).bind_same fun _ => equivariant_resumeAt _

theorem equivariant_readStatement (score : Score) :
    Equivariant columns (Score.moved columns) (readStatement score)
      (readStatement (score.moved columns)) := by
  apply attempt_equivariant equivariant_statement
  · intro statement
    refine (equivariant_addStatement score statement).bind fun extended => ?_
    apply attempt_equivariant (equivariant_statementEnd statement)
    · exact fun _ => equivariant_pure rfl
    · exact fun diagnostic => (equivariant_skipStatement diagnostic).bind_same fun _ =>
        equivariant_pure rfl
  · exact fun diagnostic => (equivariant_skipStatement diagnostic).bind_same fun _ =>
      equivariant_pure rfl

theorem equivariant_statementsFrom (bound : Nat) (score : Score) :
    Equivariant columns (Score.moved columns) (statementsFrom bound score)
      (statementsFrom bound (score.moved columns)) := by
  induction bound generalizing score with
  | zero => exact equivariant_abort _
  | succ bound inductionHypothesis =>
      exact (equivariant_skipping _).bind_same fun _ => (equivariant_check _).bind_same fun _ =>
        .ite (equivariant_pure rfl) ((equivariant_readStatement score).bind inductionHypothesis)

theorem equivariant_statements (score : Score) :
    Equivariant columns (Score.moved columns) (statements score)
      (statements (score.moved columns)) := by
  refine Equivariant.bind (.at_length fun bound => equivariant_statementsFrom bound score)
    fun filled before => ?_
  have contexts : (before.moved columns).contexts = before.contexts := rfl
  rw [contexts]
  cases before.contexts with
  | nil => rfl
  | cons context outer => exact equivariant_abort (.contextLeftOpen context) before

end Reading

/-! ### Scores -/

theorem Score.opened_moved (tokens : List Token) (trackName : String) :
    opened (tokens.map (Token.moved columns)) trackName =
      (opened tokens trackName).moved columns := by
  unfold opened
  rw [List.any_map]
  show (if (tokens.any fun token => decide (token.kind = .track)) = true then _ else _) = _
  split <;> rfl

/-- Tokens that the end of the file closes spell the same score in whatever columns they stand,
with its tokens and its problems in these columns. -/
theorem Score.ofTokens_moved {tokens : List Token} {final : Token} {trackName : String}
    {score : Score} (last : tokens.getLast? = some final) (ends : final.kind = .endOfFile)
    (read : ofTokens tokens trackName = .ok score) :
    ofTokens (tokens.map (Token.moved columns)) trackName = .ok (score.moved columns) := by
  obtain ⟨standing, after, result, _⟩ := Reading.exists_statements_eq_ok
    (opened tokens trackName) (Reading.closed_ofTokens tokens) (Reading.contexts_ofTokens tokens)
  rw [ofTokens_of_ok result] at read
  obtain rfl := Except.ok.inj read
  have moved : Reading.statements ((opened tokens trackName).moved columns)
      ((Reading.ofTokens tokens).moved columns) = _ :=
    (Reading.equivariant_statements _).of_ok result
  rw [← Reading.ofTokens_moved last ends, ← opened_moved] at moved
  exact ofTokens_of_ok moved

end Solfege
