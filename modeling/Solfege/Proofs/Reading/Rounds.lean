import Mathlib.Logic.Relation
import Solfege.Proofs.Conservation.Score

/-!
Contract: the rounds in which statements are read into a score.

Owns:
- one round, which leaves a token between statements behind or reads a statement;
- the run of rounds up to the end of the file, which is the only one, and which comes by every
  number of tokens that are left once at most;
- the proof that this run makes the score that a list of tokens spells.

Does not own: what one statement makes of a score.

A property that every round keeps holds of every list of tokens.
-/

namespace Solfege

open Relation (ReflTransGen)

namespace Reading

/-- One round: a token between statements is left behind, or a statement is read. -/
inductive Round : Score × Reading → Score × Reading → Prop where
  | skip {score : Score} {before : Reading}
      (separates : separatesStatements before.current.kind = true) :
      Round (score, before) (score, before.advanced)
  | read {score extended : Score} {before after : Reading}
      (stands : separatesStatements before.current.kind = false)
      (more : before.current.kind ≠ .endOfFile)
      (result : readStatement score before = .ok extended after) :
      Round (score, before) (extended, after)

/-- Any number of rounds. -/
abbrev Rounds : Score × Reading → Score × Reading → Prop := ReflTransGen Round

section Rounds

variable {start next final other : Score × Reading}

theorem Round.follows (round : Round start next) (closed : start.2.Closed) :
    Follows start.2 next.2 := by
  cases round with
  | skip separates => exact follows_advanced _
  | read stands more result =>
      exact ((orderly_readStatement _ closed more stands).of_ok result).1

theorem Rounds.follows (rounds : Rounds start final) (closed : start.2.Closed) :
    Follows start.2 final.2 := by
  induction rounds with
  | refl => exact .refl _
  | tail _ round inductionHypothesis =>
      exact inductionHypothesis.trans (round.follows (inductionHypothesis.closed closed))

/-! ### No other run -/

/-- What the reader stands at tells which round comes next. -/
theorem rightUnique_round : Relator.RightUnique Round := by
  intro start next other round another
  cases round with
  | skip separates =>
      cases another with
      | skip => rfl
      | read stands => simp [separates] at stands
  | read stands more result =>
      cases another with
      | skip separates => simp [separates] at stands
      | read _ _ again =>
          rw [result] at again
          cases again
          rfl

/-- At the end of the file no round follows. -/
theorem not_round_of_endOfFile (atEnd : start.2.current.kind = .endOfFile) :
    ¬Round start next := by
  intro round
  cases round with
  | skip separates =>
      rw [atEnd] at separates
      contradiction
  | read _ more _ => exact more atEnd

theorem Rounds.eq_of_endOfFile (rounds : Rounds start final)
    (atEnd : start.2.current.kind = .endOfFile) : final = start := by
  cases rounds.cases_head with
  | inl same => exact same.symm
  | inr more =>
      rcases more with ⟨next, round, _⟩
      exact absurd round (not_round_of_endOfFile atEnd)

/-- Two runs up to the end of the file end in the same way. -/
theorem Rounds.unique (rounds : Rounds start final) (others : Rounds start other)
    (atEnd : final.2.current.kind = .endOfFile) (atOtherEnd : other.2.current.kind = .endOfFile) :
    final = other := by
  rcases ReflTransGen.total_of_right_unique rightUnique_round rounds others with onward | onward
  · exact (Rounds.eq_of_endOfFile onward atEnd).symm
  · exact Rounds.eq_of_endOfFile onward atOtherEnd

/-! ### What is left -/

theorem Round.length_lt (round : Round start next) (closed : start.2.Closed) :
    next.2.rest.length < start.2.rest.length := by
  cases round with
  | skip separates =>
      apply length_tail_lt closed
      intro atEnd
      rw [atEnd] at separates
      contradiction
  | read stands more result =>
      have left := ((orderly_readStatement _ closed more stands).of_ok result).2.1.length_le
      exact Nat.lt_of_le_of_lt left (length_tail_lt closed more)

theorem Rounds.eq_of_length_le (rounds : Rounds start final) (closed : start.2.Closed)
    (le : start.2.rest.length ≤ final.2.rest.length) : final = start := by
  rcases rounds.cases_head with same | ⟨next, round, onward⟩
  · exact same.symm
  · have shorter := round.length_lt closed
    have onwardLe := (Rounds.follows onward ((round.follows closed).closed closed)).length_le
    omega

/-- A run is at one state only when so many tokens are left. -/
theorem Rounds.eq_of_length (rounds : Rounds start final) (others : Rounds start other)
    (closed : start.2.Closed) (same : final.2.rest.length = other.2.rest.length) :
    final = other := by
  have closedFinal := (rounds.follows closed).closed closed
  have closedOther := (others.follows closed).closed closed
  rcases ReflTransGen.total_of_right_unique rightUnique_round rounds others with onward | onward
  · exact (Rounds.eq_of_length_le onward closedFinal (by omega)).symm
  · exact Rounds.eq_of_length_le onward closedOther (by omega)

/-! ### The run that is made -/

/-- Tokens between statements are left behind one after the other. -/
theorem rounds_skip (score : Score) (before : Reading) :
    Rounds (score, before) (score, before.skip separatesStatements) := by
  obtain ⟨rest, last, contexts, diagnostics⟩ := before
  induction rest with
  | nil => exact .refl
  | cons first tail inductionHypothesis =>
      by_cases separates : separatesStatements first.kind = true
      · have skipped : skip separatesStatements ⟨first :: tail, last, contexts, diagnostics⟩ =
            skip separatesStatements ⟨tail, last, contexts, diagnostics⟩ := by
          simp [skip, separates]
        rw [skipped]
        exact .head (.skip separates) inductionHypothesis
      · have stands : separatesStatements first.kind = false := by simpa using separates
        rw [skip_of_current stands]

theorem rounds_statementsFrom {steps : Nat} {score filled : Score} {before after : Reading}
    (closed : before.Closed)
    (result : statementsFrom steps score before = .ok filled after) :
    Rounds (score, before) (filled, after) ∧ after.current.kind = .endOfFile := by
  induction steps generalizing score before with
  | zero => cases result
  | succ steps inductionHypothesis =>
      have unfolded : statementsFrom (steps + 1) score before =
          (if decide ((before.skip separatesStatements).current.kind = .endOfFile) = true then
            pure score
          else
            readStatement score >>= statementsFrom steps : Step Score)
            (before.skip separatesStatements) := rfl
      have skipped := rounds_skip score before
      have closedHere : (before.skip separatesStatements).Closed := closed
      rw [unfolded] at result
      by_cases atEnd : (before.skip separatesStatements).current.kind = .endOfFile
      · rw [if_pos (decide_eq_true atEnd)] at result
        cases result
        exact ⟨skipped, atEnd⟩
      · rw [if_neg (by simpa using atEnd)] at result
        rcases exists_of_bind_eq_ok result with ⟨extended, middle, reading, onward⟩
        rcases exists_cons_of_current closedHere atEnd with ⟨tail, rest⟩
        have round : Round (score, before.skip separatesStatements) (extended, middle) :=
          .read (stands_of_skip rest) atEnd reading
        have closedMiddle := (round.follows closedHere).closed closedHere
        rcases inductionHypothesis closedMiddle onward with ⟨rounds, ends⟩
        exact ⟨skipped.trans (.head round rounds), ends⟩

end Rounds

end Reading

/-- **Every list of tokens is read in rounds.** They lead up to the end of the file, and
the score is what they make. -/
theorem Score.exists_rounds_ofTokens (tokens : List Token) (trackName : String) :
    ∃ filled after,
      Reading.Rounds (opened tokens trackName, Reading.ofTokens tokens) (filled, after) ∧
      after.current.kind = .endOfFile ∧
      ofTokens tokens trackName = .ok { filled with diagnostics := after.diagnostics } := by
  have closed := Reading.closed_ofTokens tokens
  obtain ⟨statements, after, result, _⟩ := Reading.exists_statements_eq_ok
    (opened tokens trackName) closed (Reading.contexts_ofTokens tokens)
  have run := Reading.rounds_statementsFrom closed (Reading.statements_of_ok result)
  exact ⟨_, after, run.1, run.2, ofTokens_of_ok result⟩

/-- Whatever rounds lead up to the end of the file, they make the score. -/
theorem Score.ofTokens_of_rounds {tokens : List Token} {trackName : String} {filled : Score}
    {after : Reading}
    (rounds : Reading.Rounds (opened tokens trackName, Reading.ofTokens tokens) (filled, after))
    (atEnd : after.current.kind = .endOfFile) :
    ofTokens tokens trackName = .ok { filled with diagnostics := after.diagnostics } := by
  obtain ⟨known, behind, run, ends, read⟩ := exists_rounds_ofTokens tokens trackName
  have same : (filled, after) = (known, behind) := rounds.unique run atEnd ends
  cases same
  exact read

end Solfege
