import Solfege.Compiler
import Solfege.Proofs.Spelling.Apart
import Solfege.Proofs.Spelling.Filling
import Solfege.Proofs.Spelling.Statement

/-!
Contract: a score that can be written is read back from its canonical spelling.

Owns:
- statements that are read into a score one after the other, each from its line;
- the tokens of a canonical spelling, among them one that opens a track;
- the round trip from a score to its source text and back.

Does not own: other spellings of a score.
-/

namespace Solfege

namespace Reading

variable {reading : Reading} {tokens behind : List Token} {score other final : Score}

/-! ### Reading statements into a score -/

theorem takes_addStatement {added : Statement} (accepted : score.problem? added = none) :
    Takes (addStatement score added) reading behind behind
      fun extended => extended = score.extended added := by
  cases added with
  | metadata entry keyword => exact takes_pure rfl
  | track name => exact takes_pure rfl
  | definition added =>
      unfold addStatement
      dsimp only
      rw [show (score.addMacro added).2 = none from accepted]
      exact takes_pure rfl
  | movement added =>
      unfold addStatement
      dsimp only
      rw [show (score.addMovement added).2 = none from accepted]
      exact takes_pure rfl

/-- A statement is read into a score that has no problem with it. -/
theorem takes_readStatement {written : Statement} (writable : written.Writable)
    (accepted : ∀ read : Statement, read.Alike written → score.problem? read = none)
    (spells : Spells written.spelled tokens behind) (atEnd : reading.front behind = .newline) :
    Takes (readStatement score) reading tokens behind
      fun filled => ∃ read, read.Alike written ∧ filled = score.extended read := by
  refine (takes_attempt (takes_statement writable spells atEnd)).bind ?_
  rintro (_ | read) alike
  · contradiction
  · refine (takes_addStatement (accepted read alike)).bind ?_
    rintro _ rfl
    refine (takes_attempt (takes_statementEnd read atEnd)).bind ?_
    rintro (_ | _) ended
    · contradiction
    · exact takes_pure ⟨read, alike, rfl⟩

/-- A statement begins with a word. -/
theorem front_statement (reading : Reading) {written : Statement} (writable : written.Writable)
    (spells : Spells written.spelled tokens behind) :
    separatesStatements (reading.front tokens) = false ∧
      reading.front tokens ≠ .endOfFile := by
  cases written with
  | metadata entry keyword =>
      cases entry with
      | title text =>
          obtain ⟨_, left, rfl, _⟩ := spells.cons
          exact ⟨rfl, Token.Kind.noConfusion⟩
      | copyRight text =>
          obtain ⟨_, left, rfl, _⟩ := spells.cons
          exact ⟨rfl, Token.Kind.noConfusion⟩
  | track name =>
      obtain ⟨_, left, rfl, _⟩ := spells.cons
      exact ⟨rfl, Token.Kind.noConfusion⟩
  | definition added =>
      obtain ⟨_, left, rfl, _⟩ := spells.name writable.name
      exact ⟨rfl, Token.Kind.noConfusion⟩
  | movement added =>
      obtain ⟨_, left, rfl, _⟩ := spells.name writable.instrument
      exact ⟨rfl, Token.Kind.noConfusion⟩

/-- Statements that fill a score up are read one after the other, up to the end. -/
theorem takes_statementsFrom {statements : List Statement} (fills : other.Fills statements final)
    (alike : score.Alike other) {stored : List Stored} (named : score.NamedBy stored)
    (writable : ∀ statement ∈ statements, statement.Writable)
    (spells : Spells (Statement.allSpelled statements) tokens [])
    (ended : reading.last.kind = .endOfFile) {steps : Nat} (fits : statements.length < steps) :
    Takes (statementsFrom steps score) reading tokens [] fun filled => filled.Alike final := by
  induction fills generalizing score stored tokens steps with
  | nil same =>
      obtain ⟨steps, rfl⟩ : ∃ fewer, steps = fewer + 1 :=
        Nat.exists_eq_succ_of_ne_zero (by omega)
      obtain rfl := spells.eq_of_nil
      have stands : separatesStatements (reading.front []) = false := by
        rw [show reading.front [] = .endOfFile from ended]
        rfl
      exact skipping_takes stands (check_takes ended (takes_pure (alike.trans same)))
  | @cons _ _ statement others welcomes _ inductionHypothesis =>
      rw [List.length_cons] at fits
      obtain ⟨steps, rfl⟩ : ∃ fewer, steps = fewer + 2 :=
        ⟨steps - 2, by omega⟩
      obtain ⟨here, rest⟩ := List.forall_mem_cons.mp writable
      obtain ⟨middle, line, more⟩ := spells.append
      obtain ⟨_, left, rfl, further⟩ := more.cons
      have first := front_statement reading here line
      have accepted : ∀ read : Statement, read.Alike statement → score.problem? read = none :=
        fun read same => Score.problem?_eq_none named (welcomes.of_alike alike same)
      refine skipping_takes first.1 (check_not_takes first.2 ?_)
      refine (takes_readStatement here accepted line rfl).bind ?_
      rintro _ ⟨read, same, rfl⟩
      -- The end of the line is skipped in front of the next statement.
      have onward : Takes (statementsFrom (steps + 1) (score.extended read)) reading left [] _ :=
        inductionHypothesis (alike.extended same) (named.extended read) rest further (by omega)
      exact skipping_cons_takes rfl onward

theorem length_le_allSpelled (statements : List Statement) :
    statements.length ≤ (Statement.allSpelled statements).length := by
  induction statements with
  | nil => exact Nat.le_refl _
  | cons statement others inductionHypothesis =>
      simp only [Statement.allSpelled, List.length_cons, List.length_append]
      omega

/-- All statements of a spelling are read, and no problem is met. -/
theorem exists_statements_eq_ok_of_spells {statements : List Statement}
    (fills : score.Fills statements final) {stored : List Stored} (named : score.NamedBy stored)
    (writable : ∀ statement ∈ statements, statement.Writable)
    (spells : Spells (Statement.allSpelled statements) tokens [])
    {ending : Token} (isEnd : ending.kind = .endOfFile) :
    ∃ filled, Reading.statements score ⟨tokens, ending, [], []⟩ =
      .ok filled ⟨[], ending, [], []⟩ ∧ filled.Alike final := by
  have length := spells.length_eq
  have count := length_le_allSpelled statements
  have fits : statements.length < tokens.length + 1 := by omega
  have read : Takes (statementsFrom (tokens.length + 1) score) ⟨[], ending, [], []⟩ tokens []
      fun filled => filled.Alike final :=
    takes_statementsFrom fills (.refl score) named writable spells isEnd fits
  obtain ⟨filled, result, same⟩ := read
  have whole : (fun reading => statementsFrom (reading.rest.length + 1) score reading)
      (⟨tokens, ending, [], []⟩ : Reading) = .ok filled ⟨[], ending, [], []⟩ := result
  exact ⟨filled, (bind_of_ok whole).trans rfl, same⟩

theorem ofTokens_concat {ending : Token} (isEnd : ending.kind = .endOfFile) :
    ofTokens (tokens ++ [ending]) = ⟨tokens, ending, [], []⟩ := by
  unfold ofTokens
  rw [List.getLast?_concat, List.dropLast_concat]
  exact if_pos isEnd

namespace Statement

theorem subset_allSpelled {statements : List Statement} {statement : Statement}
    (member : statement ∈ statements) : statement.spelled ⊆ allSpelled statements := by
  induction statements with
  | nil => contradiction
  | cons first others inductionHypothesis =>
      rcases List.mem_cons.mp member with rfl | later
      · exact List.subset_append_left _ _
      · have behind : allSpelled others ⊆ .lineEnd :: allSpelled others := List.subset_cons_self _ _
        exact List.Subset.trans (inductionHypothesis later)
          (List.subset_append_of_subset_right _ behind)

end Statement

end Reading

/-! ### The round trip -/

namespace Score

variable {score : Score}

open Reading (Statement)

theorem Writable.statements (writable : score.Writable) :
    ∀ statement ∈ score.statements, statement.Writable := by
  intro statement member
  rcases List.mem_append.mp member with inMetadata | later
  · obtain ⟨entry, isEntry, rfl⟩ := List.mem_map.mp inMetadata
    exact writable.metadata entry isEntry
  · rcases List.mem_append.mp later with inMacros | inTracks
    · obtain ⟨definition, isMacro, rfl⟩ := List.mem_map.mp inMacros
      exact writable.macros definition isMacro
    · obtain ⟨track, isTrack, inTrack⟩ := List.mem_flatMap.mp inTracks
      rcases List.mem_cons.mp inTrack with rfl | inMovements
      · exact writable.tracks track isTrack
      · obtain ⟨movement, isMovement, rfl⟩ := List.mem_map.mp inMovements
        exact writable.movements movement (List.mem_flatMap.mpr ⟨track, isTrack, isMovement⟩)

/-- A spelling opens its tracks itself. -/
theorem Writable.opened_eq_empty (writable : score.Writable) {tokens : List Token}
    (spelled : tokens.map Token.lexeme = Statement.allSpelled score.statements) (ending : Token)
    (trackName : String) : Score.opened (tokens ++ [ending]) trackName = Score.empty := by
  obtain ⟨track, others, tracks⟩ := List.exists_cons_of_ne_nil writable.hasTrack
  have isStatement : Statement.track track.name ∈ score.statements := by
    refine List.mem_append_right _ (List.mem_append_right _ ?_)
    rw [tracks]
    exact List.mem_cons_self
  have isLexeme : Lexeme.word "track" ∈ tokens.map Token.lexeme := by
    rw [spelled]
    exact Statement.subset_allSpelled isStatement List.mem_cons_self
  obtain ⟨token, member, same⟩ := List.mem_map.mp isLexeme
  have isTrack : token.kind = .track := (Lexeme.token.inj same).1
  unfold Score.opened
  rw [if_pos]
  exact List.any_eq_true.mpr
    ⟨token, List.mem_append_left _ member, decide_eq_true isTrack⟩

/-- **A score that can be written is read back.** Its canonical spelling is read without a
problem, as a score with the same metadata, macros and tracks but for the tokens. -/
theorem read_source (settings : Settings) (writable : score.Writable) :
    ∃ read, Compiler.read settings score.source = .ok read ∧ read.diagnostics = [] ∧
      read.Alike score := by
  obtain ⟨tokens, position, tokenized, spelled⟩ :=
    Token.exists_tokenize_eq_ok (Statement.apart_allSpelled writable.statements)
  have isEnd : (Token.endOfFileAt position).kind = .endOfFile := rfl
  have named : empty.NamedBy [] := ⟨rfl, rfl, fun _ => rfl, NameTable.faithful_empty⟩
  have spells : Spells (Statement.allSpelled score.statements) tokens [] :=
    ⟨tokens, (List.append_nil _).symm, spelled⟩
  obtain ⟨filled, result, alike⟩ := Reading.exists_statements_eq_ok_of_spells writable.fills
    named writable.statements spells isEnd
  rw [← writable.opened_eq_empty spelled (Token.endOfFileAt position) settings.defaultTrack,
    ← Reading.ofTokens_concat isEnd] at result
  refine ⟨{ filled with diagnostics := [] }, ?_, rfl, alike.metadata, alike.macros, alike.tracks⟩
  unfold Compiler.read source
  rw [tokenized]
  exact ofTokens_of_ok result

end Score

/-! ### A score that is written and read back -/

/-- A macro of two parameters, with a chord of one of them and a note. -/
def Macro.turn : Macro where
  name := "turn"
  parameters := ["x", "y"]
  body := [.reference "x" default, .repetition 2 default,
    .chord [.reference "y" default, .note ⟨.sol, 1, none, some ⟨1, 2⟩, default⟩] default]
  token := default

/-- A tagged movement that holds a note over a group, in which the macro is called. -/
def Movement.leftHand : Movement where
  instrument := "piano"
  tag := some "left"
  expressions := [.directive (.tempo 90) default,
    .hold (.note ⟨.ut, 0, some 3, none, default⟩) default,
    .group [.call "turn" [.bar default, .group [] default] default] default, .release default]
  token := default

/-- A score with a title, the macro and the movement. -/
def Score.reprise : Score :=
  ⟨[.title "Air"], [.turn], [⟨"main", [.leftHand]⟩], NameTable.empty, []⟩

theorem Macro.writable_turn : turn.Writable where
  name := by decide
  parameters := List.forall_mem_cons.mpr ⟨by decide, List.forall_mem_singleton.mpr (by decide)⟩
  distinct := by decide
  body := by
    have y : ChordMember.Writable (.reference "y" default) := (by decide : IsName "y")
    have sol : ChordMember.Writable (.note ⟨.sol, 1, none, some ⟨1, 2⟩, default⟩) := by
      refine ⟨by simp, ?_⟩
      rintro duration ⟨⟩
      exact ⟨by decide, by decide, by decide⟩
    have members := List.forall_mem_cons.mpr ⟨y, List.forall_mem_singleton.mpr sol⟩
    refine ⟨?_, by simp [turn, Expression.isPostfix]⟩
    refine List.forall_mem_cons.mpr ⟨.reference _ (by decide), List.forall_mem_cons.mpr ⟨?_, ?_⟩⟩
    · exact .repetition _ (by decide)
    · exact List.forall_mem_singleton.mpr (.chord _ (by decide) members (by decide))

theorem Movement.writable_leftHand : leftHand.Writable where
  instrument := by decide
  tag := by
    rintro tag ⟨⟩
    decide
  expressions := by
    have tempo : Directive.Writable (.tempo 90) := (by decide : IsSmall 90)
    have held : Expression.Writable (.note ⟨.ut, 0, some 3, none, default⟩) := by
      refine .note ⟨?_, by simp⟩
      rintro octave ⟨⟩
      decide
    have call : Expression.Writable (.call "turn" [.bar default, .group [] default] default) := by
      refine .call _ (by decide) (List.forall_mem_cons.mpr ⟨.bar _, ?_⟩) (by decide)
      exact List.forall_mem_singleton.mpr (.group _ (List.forall_mem_nil _) (by simp))
    have group : Expression.Writable (.group [.call "turn" _ default] default) :=
      .group _ (List.forall_mem_singleton.mpr call) (by simp [Expression.isPostfix])
    refine ⟨?_, by simp [leftHand, Expression.isPostfix]⟩
    exact List.forall_mem_cons.mpr ⟨.directive _ tempo, List.forall_mem_cons.mpr
      ⟨.hold _ (.note _) held, List.forall_mem_cons.mpr
        ⟨group, List.forall_mem_singleton.mpr (.release _)⟩⟩⟩

theorem Score.writable_reprise : reprise.Writable where
  metadata := List.forall_mem_singleton.mpr (by decide : IsQuotable "Air")
  macros := List.forall_mem_singleton.mpr Macro.writable_turn
  tracks := List.forall_mem_singleton.mpr (by decide)
  movements := List.forall_mem_singleton.mpr Movement.writable_leftHand
  hasTrack := by decide
  distinctMacros := by decide
  apart := List.forall_mem_singleton.mpr fun untagged => by contradiction
  distinctMovements := List.forall_mem_singleton.mpr (by decide)

theorem Score.read_source_reprise :
    reprise.Writable ∧
      reprise.source =
        "title: \"Air\"\nturn(x, y) = x *2 y/sol+:1/2\n" ++
          "track \"main\":\npiano \"left\": ^90 (do.3 [turn(|, [])] )\n" ∧
      ∃ read, Compiler.read Settings.standard reprise.source = .ok read ∧
        read.diagnostics = [] ∧ read.Alike reprise :=
  ⟨writable_reprise, by decide +kernel, read_source Settings.standard writable_reprise⟩

end Solfege
