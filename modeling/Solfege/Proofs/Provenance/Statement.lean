import Solfege.Proofs.Conservation.Step
import Solfege.Proofs.Provenance.Expression
import Solfege.Proofs.Spelling.Filling

/-!
Contract: the statements that are read occupy the places where they were read.

Owns:
- the places that a statement occupies: its first token, its text, and its body;
- for each step of the grammar of statements, that it is located;
- what reading one statement into a score comes to, behind a problem too.

Does not own: sequences of statements.

While a statement is read, names are only marked behind its first token: a parameter that
is repeated is reported where it is repeated. What the score finds wrong with a name is
reported at that first token, and at no other.
-/

namespace Solfege.Reading

open Expression (LieBetween)

/-- The statement begins with the token at the first place, and what it holds was read behind
that place and in front of the last one. -/
def Statement.Occupies (tokens : List Token) (first behind : Nat) : Statement → Prop
  | .metadata entry keyword =>
      tokens[first]? = some keyword ∧ ∃ place text, first < place ∧ place < behind ∧
        tokens[place]? = some text ∧ text.kind = .string ∧
        (keyword.kind = .title ∧ entry = .title text.unquoted ∨
          keyword.kind = .copyRight ∧ entry = .copyRight text.unquoted)
  | .track _ => ∃ keyword, tokens[first]? = some keyword ∧ keyword.kind = .track
  | .definition added =>
      tokens[first]? = some added.token ∧ added.token.kind = .word ∧
        added.name = added.token.text ∧ LieBetween tokens (first + 1) behind added.body
  | .movement added =>
      tokens[first]? = some added.token ∧ added.token.kind = .word ∧
        added.instrument = added.token.text ∧
        LieBetween tokens (first + 1) behind added.expressions

theorem Statement.Occupies.mono {tokens : List Token} {first behind later : Nat}
    {statement : Statement} (occupies : statement.Occupies tokens first behind)
    (onward : behind ≤ later) : statement.Occupies tokens first later := by
  cases statement with
  | metadata entry keyword =>
      rcases occupies with ⟨here, place, text, start, before, known⟩
      exact ⟨here, place, text, start, by omega, known⟩
  | track name => exact occupies
  | definition added =>
      rcases occupies with ⟨here, isWord, name, lie⟩
      exact ⟨here, isWord, name, lie.mono (Nat.le_refl _) onward⟩
  | movement added =>
      rcases occupies with ⟨here, isWord, instrument, lie⟩
      exact ⟨here, isWord, instrument, lie.mono (Nat.le_refl _) onward⟩

section Parts

variable {tokens : List Token} {origin place : Nat} {token : Token}

/-! ### Metadata and tracks -/

theorem located_metadataStatement (entry : String → Metadata)
    (here : tokens[place]? = some token) (more : token.kind ≠ .endOfFile) :
    Located tokens origin place (metadataStatement entry) fun statement reached =>
      ∃ start text, place < start ∧ start < reached ∧ tokens[start]? = some text ∧
        text.kind = .string ∧ statement = .metadata (entry text.unquoted) token := by
  apply advance_located here more
  apply (located_skipping isSpace).bind
  intro _ colon behindBlanks _
  apply (located_expect _ (by decide)).bind
  intro _ blank behindColon _
  apply (located_skipping isSpace).bind
  intro _ start behindMore _
  apply (located_expect _ (by decide)).bind
  rintro text _ _ ⟨there, isString, rfl⟩
  apply (located_stringValue (List.mem_of_getElem? there)).bind
  rintro _ reached onward rfl
  exact located_pure ⟨start, text, by omega, by omega, there, isString, rfl⟩

theorem located_optionalString : Located tokens origin place optionalString fun _ _ => True := by
  apply check_located
  · intro text here isString
    apply advance_located here (by simp [isString])
    apply (located_stringValue (List.mem_of_getElem? here)).bind
    intro _ _ _ _
    apply (located_skipping isSpace).bind
    exact fun _ _ _ _ => located_pure trivial
  · exact located_pure trivial

theorem located_trackStatement (here : tokens[place]? = some token)
    (isTrack : token.kind = .track) :
    Located tokens origin place trackStatement fun statement reached =>
      place < reached ∧ statement.Occupies tokens place reached := by
  apply advance_located here (by simp [isTrack])
  apply (located_skipping isSpace).bind
  intro _ _ behindBlanks _
  apply located_optionalString.bind
  intro name _ behindName _
  apply (located_expect _ (by decide)).bind
  intro _ reached behindColon _
  exact located_pure ⟨by omega, token, here, isTrack⟩

/-! ### Macros -/

theorem located_behindParameters {further : List String → Step (List String)}
    (located : ∀ parameters reached, place ≤ reached →
      Located tokens origin reached (further parameters) fun _ _ => True)
    (parameters : List String) :
    Located tokens origin place (behindParameters further parameters) fun _ _ => True := by
  apply (located_skipping isSpace).bind
  intro _ sign behindName _
  apply check_located
  · intro comma there isComma
    apply advance_located there (by simp [isComma])
    apply (located_skipping isSpace).bind
    intro _ next behindComma _
    apply check_located
    · intro closing atClosing isClosing
      apply peek_located
      exact fun closing there => located_refuse _ (List.mem_of_getElem? there)
    · exact located parameters next (by omega)
  · apply (located_expect _ (by decide)).bind
    exact fun _ _ _ _ => located_pure trivial

/-- A parameter that is repeated is reported where it stands. -/
theorem located_parametersFrom (steps : Nat) (found : List String) (begun : origin ≤ place) :
    Located tokens origin place (parametersFrom steps found) fun _ _ => True := by
  induction steps generalizing place found with
  | zero => exact located_abort _
  | succ steps inductionHypothesis =>
      rw [parametersFrom_eq]
      apply (located_skipping isSpace).bind
      intro _ start behindBlanks _
      apply (located_expect _ (by decide)).bind
      rintro written _ _ ⟨here, _, rfl⟩
      have onward {middle : Nat} (le : start + 1 ≤ middle) (parameters : List String) :
          Located tokens origin middle (behindParameters (parametersFrom steps) parameters)
            fun _ _ => True :=
        located_behindParameters
          (fun parameters _ further => inductionHypothesis parameters (by omega)) parameters
      apply Located.ite
      · intro _
        have marks : (Diagnostic.namingAt written (.repeatedParameter written.text)).Marks tokens
            origin (start + 1) := .naming _ here (by omega) (by omega)
        apply (located_report marks).bind
        exact fun _ middle le _ => onward le _
      · exact fun _ => onward (Nat.le_refl _) _

theorem located_parameterList (here : tokens[place]? = some token)
    (more : token.kind ≠ .endOfFile) (begun : origin ≤ place) :
    Located tokens origin place parameterList fun _ _ => True := by
  apply advance_located here more
  apply (located_skipping isSpace).bind
  intro _ start behindBlanks _
  apply check_located
  · intro closing there isClosing
    apply advance_located there (by simp [isClosing])
    exact located_pure trivial
  · intro before stands
    exact located_parametersFrom (before.rest.length + 1) [] (by omega) before stands

theorem located_behindHead (name : Token) (parameters : List String) :
    Located tokens origin place (behindHead name parameters) fun definition reached =>
      definition.token = name ∧ definition.name = name.text ∧
        LieBetween tokens place reached definition.body := by
  apply (located_skipping isSpace).bind
  intro _ sign behindBlanks _
  apply (located_expect _ (by decide)).bind
  intro _ start behindSign _
  apply located_body.bind
  intro items reached _ lie
  exact located_pure ⟨rfl, rfl, lie.mono (by omega) (Nat.le_refl _)⟩

theorem located_macroFrom (name : Token) (begun : origin ≤ place) :
    Located tokens origin place (macroFrom name) fun definition reached =>
      definition.token = name ∧ definition.name = name.text ∧
        LieBetween tokens place reached definition.body := by
  rw [macroFrom_eq]
  apply check_located
  · intro paren here isParen
    apply (located_parameterList here (by simp [isParen]) begun).bind
    intro parameters middle le _
    apply (located_behindHead name parameters).mono
    exact fun definition reached _ made => made.imp_right (.imp_right (·.mono le (Nat.le_refl _)))
  · exact located_behindHead name []

/-! ### Movements -/

theorem located_movementFrom (instrument : Token) :
    Located tokens origin place (movementFrom instrument) fun movement reached =>
      movement.token = instrument ∧ movement.instrument = instrument.text ∧
        LieBetween tokens place reached movement.expressions := by
  apply located_optionalString.bind
  intro tag colon behindTag _
  apply (located_expect _ (by decide)).bind
  intro _ start behindColon _
  apply located_body.bind
  intro items reached _ lie
  exact located_pure ⟨rfl, rfl, lie.mono (by omega) (Nat.le_refl _)⟩

theorem located_definitionStatement (here : tokens[place]? = some token)
    (isWord : token.kind = .word) :
    Located tokens (place + 1) place definitionStatement fun statement reached =>
      place < reached ∧ statement.Occupies tokens place reached := by
  rw [definitionStatement_eq]
  apply advance_located here (by simp [isWord])
  apply (located_skipping isSpace).bind
  intro _ sign behindBlanks _
  apply peek_located
  intro behind there
  apply Located.ite
  · intro _
    apply (located_within (located_macroFrom token behindBlanks)).bind
    rintro definition reached onward ⟨rfl, name, lie⟩
    exact located_pure ⟨by omega, here, isWord, name, lie.mono behindBlanks (Nat.le_refl _)⟩
  intro _
  apply Located.ite
  · intro _
    apply (located_within (located_movementFrom token)).bind
    rintro movement reached onward ⟨rfl, instrument, lie⟩
    exact located_pure
      ⟨by omega, here, isWord, instrument, lie.mono behindBlanks (Nat.le_refl _)⟩
  · exact fun _ => located_unexpected _

/-! ### Statements -/

/-- A statement occupies the places where it was read. -/
theorem located_statement :
    Located tokens (place + 1) place statement fun statement reached =>
      place < reached ∧ statement.Occupies tokens place reached := by
  apply peek_located
  intro first here
  split
  · rename_i isTitle
    apply (located_metadataStatement .title here (by simp [isTitle])).mono
    rintro _ reached _ ⟨start, text, behind, before, there, isString, rfl⟩
    exact ⟨by omega, here, start, text, behind, before, there, isString, .inl ⟨isTitle, rfl⟩⟩
  · rename_i isCopyRight
    apply (located_metadataStatement .copyRight here (by simp [isCopyRight])).mono
    rintro _ reached _ ⟨start, text, behind, before, there, isString, rfl⟩
    exact ⟨by omega, here, start, text, behind, before, there, isString, .inr ⟨isCopyRight, rfl⟩⟩
  · exact located_trackStatement here ‹_›
  · exact located_definitionStatement here ‹_›
  · exact located_unexpected _

theorem located_statementEnd (statement : Statement) :
    Located tokens origin place (statementEnd statement) fun _ _ => True := by
  unfold statementEnd
  split
  · apply (located_skipping isSpace).bind
    intro _ _ _ _
    apply peek_located
    intro behind here
    exact .ite (fun _ => located_pure trivial) fun _ => located_unexpected _
  · exact located_pure trivial

/-- Behind a problem the first token of the statement at least is left behind. -/
theorem located_skipStatement {first : Nat} {diagnostic : Diagnostic}
    (here : tokens[first]? = some token) (le : first ≤ place) (more : token.kind ≠ .endOfFile)
    (stands : separatesStatements token.kind = false) (blames : Blames tokens diagnostic) :
    Located tokens origin place (skipStatement diagnostic) fun _ reached => first < reached := by
  apply (located_report (blames.marks _ _)).bind
  intro _ reported behind _
  exact located_resumeAt_behind here (by omega) more (isStatementBreak_of_not_separates stands)

theorem diagnostics_skipStatement {diagnostic : Diagnostic} {before after : Reading}
    (skipped : skipStatement diagnostic before = .ok () after) :
    after.diagnostics = before.diagnostics ++ [diagnostic] := by
  cases skipped
  rfl

end Parts

/-! ### Statements of a score -/

/-- What one statement makes of a score, and what is reported of it: a statement that cannot
be read leaves the score as it was, and is never passed over in silence; any other extends it,
with the problem that the score has with it. -/
inductive Outcome (tokens : List Token) (first behind : Nat) (score : Score) :
    Score → List Diagnostic → Prop where
  | refused {found : List Diagnostic} (loud : found ≠ [])
      (marks : ∀ diagnostic ∈ found, diagnostic.Marks tokens (first + 1) behind) :
      Outcome tokens first behind score score found
  | added {statement : Statement} {found ended : List Diagnostic}
      (occupies : statement.Occupies tokens first behind)
      (marks : ∀ diagnostic ∈ found ++ ended, diagnostic.Marks tokens (first + 1) behind) :
      Outcome tokens first behind score (score.extended statement)
        (found ++ (score.problem? statement).toList ++ ended)

section Scores

variable {tokens : List Token} {place : Nat} {score extended : Score}
variable {before after : Reading}

/-- The problem that a score has with a statement is at the first token of the statement. -/
theorem Statement.Occupies.exists_token_of_problem? {first behind : Nat} {statement : Statement}
    {diagnostic : Diagnostic} (occupies : statement.Occupies tokens first behind)
    (problem : score.problem? statement = some diagnostic) :
    ∃ token, tokens[first]? = some token ∧ diagnostic.position = token.position := by
  cases statement with
  | metadata entry keyword => contradiction
  | track name => contradiction
  | definition added =>
      refine ⟨added.token, occupies.1, ?_⟩
      unfold Score.problem? Score.addMacro at problem
      dsimp only at problem
      split at problem
      · contradiction
      · rw [← Option.some.inj problem]
        rfl
  | movement added =>
      refine ⟨added.token, occupies.1, ?_⟩
      unfold Score.problem? Score.addMovement Score.nameMovement at problem
      dsimp only at problem
      split at problem
      · rw [← Option.some.inj problem]
        rfl
      · split at problem
        · rw [← Option.some.inj problem]
          rfl
        · split at problem
          · contradiction
          · contradiction
          · rw [← Option.some.inj problem]
            rfl

/-- The reader when the problem of a statement, if there is one, is reported. -/
def added (score : Score) (read : Statement) (reading : Reading) : Reading :=
  { reading with diagnostics := reading.diagnostics ++ (score.problem? read).toList }

theorem addStatement_apply (score : Score) (statement : Statement) (before : Reading) :
    addStatement score statement before =
      .ok (score.extended statement) (before.added score statement) := by
  cases statement with
  | metadata entry keyword =>
      rw [Reading.added, Score.problem?, Option.toList_none, List.append_nil]
      rfl
  | track name =>
      rw [Reading.added, Score.problem?, Option.toList_none, List.append_nil]
      rfl
  | definition added =>
      unfold addStatement Reading.added Score.problem? Score.extended
      dsimp only
      cases (score.addMacro added).2 with
      | none =>
          rw [Option.toList_none, List.append_nil]
          rfl
      | some diagnostic => rfl
  | movement added =>
      unfold addStatement Reading.added Score.problem? Score.extended
      dsimp only
      cases (score.addMovement added).2 with
      | none =>
          rw [Option.toList_none, List.append_nil]
          rfl
      | some diagnostic => rfl

theorem attempt_of_problem {α : Type} {step : Step α} {diagnostic : Diagnostic}
    (result : attempt step before = .ok (.error diagnostic) after) :
    step before = .error (.recoverable diagnostic) after := by
  unfold attempt at result
  cases run : step before with
  | ok value middle =>
      rw [run] at result
      cases result
  | error halt middle =>
      rw [run] at result
      cases halt <;> cases result
      rfl

/-- What is reported of a statement: first what its reading met, then what the score has against
it, and last what stands behind it. -/
theorem exists_outcome_of_proceeds {middle : Reading} {there reached : Nat} {read : Statement}
    (start : Proceeds tokens (place + 1) place there before middle) (passed : place < there)
    (occupies : read.Occupies tokens place there)
    (onward : Proceeds tokens (place + 1) there reached (middle.added score read) after) :
    ∃ reached reported, place < reached ∧ StandsAt tokens reached after ∧
      after.diagnostics = before.diagnostics ++ reported ∧
      Outcome tokens place reached score (score.extended read) reported := by
  rcases start.marked with ⟨found, diagnostics, marks⟩
  rcases onward.marked with ⟨ended, diagnosticsOnward, marksOnward⟩
  refine ⟨reached, found ++ (score.problem? read).toList ++ ended,
    Nat.lt_of_lt_of_le passed onward.le, onward.stands, ?_, .added (occupies.mono onward.le) ?_⟩
  · rw [diagnosticsOnward, added, diagnostics]
    simp
  · intro diagnostic member
    rcases List.mem_append.mp member with early | late
    · exact (marks diagnostic early).mono onward.le
    · exact marksOnward diagnostic late

/-- One statement is read from its first token on, and at least that token is left behind. -/
theorem exists_outcome_of_readStatement (stands : StandsAt tokens place before)
    (more : before.current.kind ≠ .endOfFile)
    (apart : separatesStatements before.current.kind = false)
    (result : readStatement score before = .ok extended after) :
    ∃ reached reported, place < reached ∧ StandsAt tokens reached after ∧
      after.diagnostics = before.diagnostics ++ reported ∧
      Outcome tokens place reached score extended reported := by
  have here := stands.current
  rcases exists_of_bind_eq_ok result with ⟨ending, middle, attempted, result⟩
  cases ending with
  | error diagnostic =>
      rcases located_statement.of_recoverable stands (attempt_of_problem attempted) with
        ⟨⟨there, start⟩, blames⟩
      rcases exists_of_bind_eq_ok result with ⟨_, skipped, skipping, result⟩
      cases result
      have skips : Located tokens (place + 1) there (skipStatement diagnostic)
          fun _ reached => place < reached :=
        located_skipStatement here start.le more apart blames
      rcases skips.of_ok start.stands skipping with ⟨reached, onward, passed⟩
      rcases start.marked with ⟨found, diagnostics, marks⟩
      rcases onward.marked with ⟨ended, diagnosticsOnward, marksOnward⟩
      have loud : ended ≠ [] := by
        rintro rfl
        have more := congrArg List.length diagnosticsOnward
        rw [diagnostics_skipStatement skipping] at more
        simp at more
      refine ⟨reached, found ++ ended, passed, onward.stands, ?_,
        .refused (List.append_ne_nil_of_right_ne_nil found loud) ?_⟩
      · rw [diagnosticsOnward, diagnostics, List.append_assoc]
      · exact List.forall_mem_append.mpr
          ⟨fun problem member => (marks problem member).mono onward.le, marksOnward⟩
  | ok read =>
      rcases located_statement.of_ok stands (attempt_of_ok attempted) with
        ⟨there, start, passed, occupies⟩
      rcases exists_of_bind_eq_ok result with ⟨_, _, adding, result⟩
      rw [addStatement_apply] at adding
      cases adding
      have standsAdded : StandsAt tokens there (middle.added score read) :=
        start.stands.congr rfl rfl
      have ends : Located tokens (place + 1) there (statementEnd read) fun _ _ => True :=
        located_statementEnd read
      rcases exists_of_bind_eq_ok result with ⟨ending, behind, ended, result⟩
      cases ending with
      | ok nothing =>
          cases result
          rcases ends.of_ok standsAdded (attempt_of_ok ended) with ⟨_, onward, _⟩
          exact exists_outcome_of_proceeds start passed occupies onward
      | error diagnostic =>
          rcases ends.of_recoverable standsAdded (attempt_of_problem ended) with
            ⟨⟨_, onward⟩, blames⟩
          rcases exists_of_bind_eq_ok result with ⟨_, skipped, skipping, result⟩
          cases result
          have le := Nat.le_trans start.le onward.le
          rcases (located_skipStatement here le more apart blames).of_ok onward.stands skipping
            with ⟨_, final, _⟩
          exact exists_outcome_of_proceeds start passed occupies (onward.trans final)

end Scores

end Solfege.Reading
