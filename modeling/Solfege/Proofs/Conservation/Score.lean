import Solfege.Proofs.Conservation.Statement
import Mathlib.Data.List.Perm.Basic

/-!
Contract: a score that is read without problems grows by its tokens.

Owns:
- how a score grows by tokens, with the titles of the tracks that they open;
- what is added to a score when no problem is reported;
- the growth by one statement, and by all statements of a list of tokens.

Does not own: which tokens are read without problems, or what a score consists of.
-/

namespace Solfege

open Token (titles)
open Expression (ingredientsOfAll nodesOfAll)

namespace Score

/-! ### Growth -/

/-- The score has become the final one by what the tokens consist of. The strings that title
tracks are no part of a score but by the names of its tracks. -/
structure Grows (score : Score) (tokens : List Token) (final : Score) : Prop where
  ingredients : (final.ingredients ++ (titles tokens).flatMap Ingredient.opening).Perm
    (score.ingredients ++ Token.ingredients tokens)
  names : final.tracks.map Track.name =
    score.tracks.map Track.name ++ (titles tokens).map (·.getD Reading.unnamedTrack)
  /-- No title reaches over the end of the tokens. -/
  apart : ∀ more, titles (tokens ++ more) = titles tokens ++ titles more

namespace Grows

variable {score middle final : Score} {tokens more : List Token}

/-- The titles among the tokens are known if they are known in front of other tokens. -/
theorem of_titles (opened : List (Option String))
    (ingredients : (final.ingredients ++ opened.flatMap Ingredient.opening).Perm
      (score.ingredients ++ Token.ingredients tokens))
    (names : final.tracks.map Track.name =
      score.tracks.map Track.name ++ opened.map (·.getD Reading.unnamedTrack))
    (apart : ∀ more, titles (tokens ++ more) = opened ++ titles more) :
    score.Grows tokens final := by
  have same : titles tokens = opened := by
    have alone := apart []
    rw [List.append_nil] at alone
    exact alone.trans (List.append_nil opened)
  subst same
  exact ⟨ingredients, names, apart⟩

theorem of_no_ingredients (score : Score) (nothing : Token.ingredients tokens = []) :
    score.Grows tokens score := by
  have none : ∀ token ∈ tokens, token.kind ≠ .track := by
    apply Token.ne_track_of_ingredients
    rw [nothing]
    exact List.not_mem_nil
  refine .of_titles [] ?_ (List.append_nil _).symm fun more => Token.titles_append_of_ne none more
  rw [nothing]
  exact .refl _

theorem trans (start : score.Grows tokens middle) (onward : middle.Grows more final) :
    score.Grows (tokens ++ more) final where
  ingredients := by
    have first := List.perm_iff_count.mp start.ingredients
    have second := List.perm_iff_count.mp onward.ingredients
    refine List.perm_iff_count.mpr fun ingredient => ?_
    have counted := first ingredient
    have countedOnward := second ingredient
    rw [start.apart, List.flatMap_append, Token.ingredients_append]
    simp only [List.count_append] at counted countedOnward ⊢
    omega
  names := by
    rw [onward.names, start.names, start.apart, List.map_append, List.append_assoc]
  apart := by
    intro others
    rw [List.append_assoc, start.apart, onward.apart, start.apart, List.append_assoc]

end Grows

end Score

/-! ### A statement -/

namespace Reading

variable {before after : Reading} {score final : Score}

/-- Without a problem a movement has a track to belong to. -/
def Statement.Fits (score : Score) : Statement → Prop
  | .movement _ => score.tracks ≠ []
  | _ => True

/-- The names of the tracks that a statement opens. -/
def Statement.opens : Statement → List String
  | .track name => [name]
  | _ => []

theorem Statement.ingredients_extended {read : Statement} (fits : read.Fits score) :
    (score.extended read).ingredients.Perm (score.ingredients ++ read.ingredients) := by
  refine List.perm_iff_count.mpr fun ingredient => ?_
  cases read with
  | metadata entry keyword =>
      simp only [Score.extended, Score.ingredients, Score.addMetadata, Score.movements, ingredients,
        List.map_append, List.map_singleton, List.count_append]
      omega
  | track name =>
      simp only [Score.extended, Score.ingredients, Score.addTrack, Score.movements, ingredients,
        List.flatMap_append, List.flatMap_singleton, List.append_nil]
  | definition added =>
      simp only [Score.extended, Score.ingredients, Score.movements, ingredients,
        Score.metadata_addMacro, Score.macros_addMacro, Score.tracks_addMacro,
        List.flatMap_append, List.flatMap_singleton, List.count_append]
      omega
  | movement added =>
      obtain ⟨earlier, track, opened⟩ := (List.eq_nil_or_concat score.tracks).resolve_left fits
      rw [List.concat_eq_append] at opened
      simp only [Score.extended, Score.ingredients, Score.movements, ingredients,
        Score.metadata_addMovement, Score.macros_addMovement, Score.tracks_addMovement opened,
        opened, Track.add, List.flatMap_append, List.flatMap_singleton, List.count_append]
      omega

theorem Statement.names_extended (score : Score) (read : Statement) :
    (score.extended read).tracks.map Track.name = score.tracks.map Track.name ++ read.opens := by
  cases read with
  | metadata entry keyword => exact (List.append_nil _).symm
  | track name => exact List.map_append
  | definition added =>
      rw [Score.extended, Score.tracks_addMacro]
      exact (List.append_nil _).symm
  | movement added =>
      simp only [Score.extended, opens, List.append_nil]
      rcases List.eq_nil_or_concat score.tracks with unopened | ⟨earlier, track, opened⟩
      · rw [Score.addMovement_of_tracks_nil unopened]
      · rw [List.concat_eq_append] at opened
        rw [Score.tracks_addMovement opened, opened, List.map_append, List.map_append]
        rfl

/-- A score is extended with a problem, or by a statement that fits. -/
theorem addStatement_eq (score : Score) (read : Statement) :
    (∃ diagnostic, addStatement score read =
      do report diagnostic; pure (score.extended read)) ∨
    addStatement score read = pure (score.extended read) ∧ read.Fits score := by
  cases read with
  | metadata entry keyword => exact .inr ⟨rfl, trivial⟩
  | track name => exact .inr ⟨rfl, trivial⟩
  | definition added =>
      unfold addStatement
      dsimp only
      split
      · exact .inl ⟨_, rfl⟩
      · exact .inr ⟨rfl, trivial⟩
  | movement added =>
      unfold addStatement
      dsimp only
      split
      · exact .inl ⟨_, rfl⟩
      · rename_i fine
        refine .inr ⟨rfl, fun unopened => ?_⟩
        unfold Score.addMovement at fine
        rw [unopened] at fine
        exact fine _ rfl

theorem addStatement_of_ok {read : Statement}
    (result : addStatement score read before = .ok final after)
    (silent : after.diagnostics = []) :
    final = score.extended read ∧ after = before ∧ read.Fits score := by
  rcases addStatement_eq score read with ⟨diagnostic, reports⟩ | ⟨adds, fits⟩
  · rw [reports] at result
    cases result
    simp at silent
  · rw [adds] at result
    cases result
    exact ⟨rfl, rfl, fits⟩

theorem loud_skipStatement (diagnostic : Diagnostic) (kept : Score) :
    Loud (do skipStatement diagnostic; pure kept : Step Score) := by
  have same : (do skipStatement diagnostic; pure kept : Step Score) =
      report diagnostic >>= fun _ => resumeAt isStatementBreak >>= fun _ => pure kept :=
    bind_assoc _ _ _
  rw [same]
  exact loud_report _ ((steady_resumeAt _).bind fun _ => accounts_pure (Nat.le_refl 0))

/-- Without a problem a statement was read, it was added, and nothing stands behind it. -/
theorem readStatement_of_ok (result : readStatement score before = .ok final after)
    (silent : after.diagnostics = []) :
    ∃ read behind, statement before = .ok read behind ∧ behind.diagnostics = [] ∧
      final = score.extended read ∧ read.Fits score ∧
      statementEnd read behind = .ok () after := by
  obtain ⟨outcome, behind, attempted, result⟩ := exists_of_bind_eq_ok result
  cases outcome with
  | error diagnostic =>
      exact absurd silent (not_silent_of_loud (loud_skipStatement diagnostic score) result)
  | ok read =>
      obtain ⟨extended, added, adding, result⟩ := exists_of_bind_eq_ok result
      obtain ⟨ended, last, ending, result⟩ := exists_of_bind_eq_ok result
      cases ended with
      | error diagnostic =>
          exact absurd silent (not_silent_of_loud (loud_skipStatement diagnostic extended) result)
      | ok nothing =>
          cases result
          have ends := attempt_of_ok ending
          have kept := ((idle_statementEnd read).of_ok ends).1
          have silentAdded := Conserves.silent_of_length_le kept silent
          obtain ⟨rfl, rfl, fits⟩ := addStatement_of_ok adding silentAdded
          exact ⟨read, added, attempt_of_ok attempted, silentAdded, rfl, fits, ends⟩

/-- A score grows by the tokens of a statement that fits. -/
theorem grows_statement {read : Statement} (closed : before.Closed)
    (result : statement before = .ok read after) (silent : after.diagnostics = [])
    (fits : read.Fits score) :
    after.last = before.last ∧
      ∃ taken, before.rest = taken ++ after.rest ∧ score.Grows taken (score.extended read) := by
  have extended := Statement.ingredients_extended fits
  by_cases isTrack : before.current.kind = .track
  · have same : statement before = trackStatement before := by
      have peeked : peek before = .ok before.current before := rfl
      unfold statement
      rw [bind_of_ok peeked]
      rw [isTrack]
    obtain ⟨title, taken, rfl, rest, last, made, apart⟩ :=
      trackStatement_of_ok closed isTrack (same ▸ result)
    refine ⟨last, taken, rest, .of_titles [title] ?_ (Statement.names_extended score _) apart⟩
    rw [made, List.flatMap_singleton]
    simpa [Statement.ingredients] using extended.append_right (Ingredient.opening title)
  · have passes := ((conserves_statement isTrack).of_ok result).2 silent closed
    obtain ⟨taken, rest, made⟩ := passes.taken
    have begins := ((orderly_statement closed).of_ok result).2.2.2
    have opensNone : read.opens = [] := by
      cases read with
      | track name => exact absurd begins isTrack
      | _ => rfl
    have none : ∀ token ∈ taken, token.kind ≠ .track := by
      apply Token.ne_track_of_ingredients
      rw [← List.nil_append (Token.ingredients taken), made]
      exact read.sign_track_not_mem_ingredients
    have names := Statement.names_extended score read
    rw [opensNone] at names
    refine ⟨passes.last, taken, rest, .of_titles [] ?_ names fun more =>
      Token.titles_append_of_ne none more⟩
    rw [← made] at extended
    simpa using extended

/-- A score grows by all tokens that are read for one statement. -/
theorem grows_readStatement (closed : before.Closed)
    (result : readStatement score before = .ok final after) (silent : after.diagnostics = []) :
    after.last = before.last ∧
      ∃ taken, before.rest = taken ++ after.rest ∧ score.Grows taken final := by
  obtain ⟨read, behind, reading, silentBehind, rfl, fits, ends⟩ :=
    readStatement_of_ok result silent
  obtain ⟨last, taken, rest, grows⟩ := grows_statement closed reading silentBehind fits
  have closedBehind : behind.Closed := closed.of_last last
  have passes := ((idle_statementEnd read).of_ok ends).2 silent closedBehind
  obtain ⟨more, restBehind, nothing⟩ := passes.taken
  refine ⟨passes.last.trans last, taken ++ more, ?_, grows.trans (.of_no_ingredients _ nothing)⟩
  rw [rest, restBehind, List.append_assoc]

/-! ### All statements -/

theorem isPlain_of_separatesStatements (kind : Token.Kind)
    (separates : separatesStatements kind = true) : kind.isPlain = true := by
  cases kind <;> first | rfl | contradiction

/-- Statements take back no problem. Without one, all tokens up to the end of the file make the
score grow. -/
theorem grows_statementsFrom (bound : Nat) (closed : before.Closed)
    (result : statementsFrom bound score before = .ok final after) :
    before.diagnostics.length ≤ after.diagnostics.length ∧
      (after.diagnostics = [] → after.current.kind = .endOfFile ∧
        ∃ taken, before.rest = taken ++ after.rest ∧ score.Grows taken final) := by
  induction bound generalizing before score with
  | zero => cases result
  | succ bound inductionHypothesis =>
      have unfolded : statementsFrom (bound + 1) score before =
          (if decide ((before.skip separatesStatements).current.kind = .endOfFile) = true then
            pure score
          else
            readStatement score >>= statementsFrom bound : Step Score)
            (before.skip separatesStatements) := rfl
      have idle : Idle (skipping separatesStatements) before :=
        idle_skipping _ isPlain_of_separatesStatements
      have skipped := (idle.of_ok rfl).2
      have closedHere : (before.skip separatesStatements).Closed := closed
      rw [unfolded] at result
      by_cases atEnd : (before.skip separatesStatements).current.kind = .endOfFile
      · rw [if_pos (decide_eq_true atEnd)] at result
        cases result
        refine ⟨Nat.le_refl _, fun silent => ⟨atEnd, ?_⟩⟩
        obtain ⟨blanks, rest, nothing⟩ := (skipped silent closed).taken
        exact ⟨blanks, rest, .of_no_ingredients _ nothing⟩
      · rw [if_neg (by simpa using atEnd)] at result
        obtain ⟨extended, middle, reading, onward⟩ := exists_of_bind_eq_ok result
        obtain ⟨tail, rest⟩ := exists_cons_of_current closedHere atEnd
        have follows := ((orderly_readStatement score closedHere atEnd
          (stands_of_skip rest)).of_ok reading).1
        have kept : before.diagnostics.length ≤ middle.diagnostics.length :=
          follows.diagnostics.length_le
        obtain ⟨keptOnward, grows⟩ := inductionHypothesis (follows.closed closedHere) onward
        refine ⟨kept.trans keptOnward, fun silent => ?_⟩
        have silentMiddle := Conserves.silent_of_length_le keptOnward silent
        have silentBefore := Conserves.silent_of_length_le kept silentMiddle
        obtain ⟨blanks, restBlanks, nothing⟩ := (skipped silentBefore closed).taken
        obtain ⟨_, read, restRead, growsRead⟩ :=
          grows_readStatement closedHere reading silentMiddle
        obtain ⟨ends, more, restMore, growsMore⟩ := grows silent
        refine ⟨ends, blanks ++ (read ++ more), ?_,
          (Score.Grows.of_no_ingredients _ nothing).trans (growsRead.trans growsMore)⟩
        rw [restBlanks, restRead, restMore, List.append_assoc, List.append_assoc]

/-- Behind all statements nothing else is done. -/
theorem statements_of_ok (result : statements score before = .ok final after) :
    statementsFrom (before.rest.length + 1) score before = .ok final after := by
  obtain ⟨filled, ended, run, last⟩ := exists_of_bind_eq_ok result
  cases contexts : ended.contexts with
  | nil =>
      rw [contexts] at last
      cases last
      exact run
  | cons innermost outer =>
      rw [contexts] at last
      cases last

/-- All tokens are read but one at the end of the file. -/
theorem exists_rest_ofTokens (tokens : List Token) :
    ∃ final, tokens = (ofTokens tokens).rest ++ final ∧
      (∀ token ∈ final, token.kind = .endOfFile) ∧
      ((∀ token ∈ tokens.dropLast, token.kind ≠ .endOfFile) →
        ∀ token ∈ (ofTokens tokens).rest, token.kind ≠ .endOfFile) := by
  rcases List.eq_nil_or_concat tokens with rfl | ⟨front, final, rfl⟩
  · exact ⟨[], rfl, List.forall_mem_nil _, fun _ => List.forall_mem_nil _⟩
  rw [List.concat_eq_append]
  unfold ofTokens
  rw [List.getLast?_concat, List.dropLast_concat]
  dsimp only
  by_cases closing : final.kind = .endOfFile
  · rw [if_pos closing]
    exact ⟨[final], rfl, List.forall_mem_singleton.mpr closing, id⟩
  · rw [if_neg closing]
    refine ⟨[], (List.append_nil _).symm, List.forall_mem_nil _, fun ends => ?_⟩
    exact List.forall_mem_append.mpr ⟨ends, List.forall_mem_singleton.mpr closing⟩

end Reading

/-- Where no problem is reported, all tokens of a list make the score grow. -/
theorem Score.grows_ofTokens {tokens : List Token} {trackName : String} {score : Score}
    (ends : ∀ token ∈ tokens.dropLast, token.kind ≠ .endOfFile)
    (read : ofTokens tokens trackName = .ok score) (silent : score.diagnostics = []) :
    (opened tokens trackName).Grows tokens score := by
  have closed := Reading.closed_ofTokens tokens
  obtain ⟨statements, after, result, _⟩ := Reading.exists_statements_eq_ok
    (opened tokens trackName) closed (Reading.contexts_ofTokens tokens)
  generalize statements.foldl extended (opened tokens trackName) = filled at result
  rw [ofTokens_of_ok result] at read
  obtain rfl := Except.ok.inj read
  have run := Reading.statements_of_ok result
  obtain ⟨atEnd, taken, rest, grows⟩ := (Reading.grows_statementsFrom _ closed run).2 silent
  obtain ⟨final, whole, closing, noEnd⟩ := Reading.exists_rest_ofTokens tokens
  have done : after.rest = [] := by
    cases left : after.rest with
    | nil => rfl
    | cons first tail =>
        rw [Reading.current_cons left] at atEnd
        refine absurd atEnd (noEnd ends first ?_)
        rw [rest, left]
        simp
  have nothing : Token.ingredients final = [] := Token.ingredients_of_isPlain fun token member => by
    rw [closing token member]
    rfl
  have all := grows.trans (.of_no_ingredients _ nothing)
  rw [done, List.append_nil] at rest
  rw [← rest, ← whole] at all
  exact ⟨all.ingredients, all.names, all.apart⟩

end Solfege
