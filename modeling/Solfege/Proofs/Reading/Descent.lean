import Solfege.Proofs.Reading.Balance
import Solfege.Proofs.Reading.Guarded
import Solfege.Proofs.Reading.Repeating

/-!
Contract: reading comes to an end, because it leaves fewer and fewer tokens.

Owns:
- the proof that no step moves the reader backwards or behind the last token;
- the proof that each loop of the grammar descends;
- the number of tokens that are left as the measure of all of this.

Does not own: what the loops collect.

The bounds in the definitions are nowhere used up. So they do not show in a loop: it is its round
and then the loop again.
-/

namespace Solfege.Reading

/-! ### Steps that take tokens -/

/-- The steps that take tokens, and those of the grammar, which are made of them. -/
inductive Move (inner : Step Expression) : {α : Type} → Step α → Prop where
  | advance : Move inner advance
  | skipping (test : Token.Kind → Bool) : Move inner (skipping test)
  | resumeAt (test : Token.Kind → Bool) : Move inner (resumeAt test)
  | expect (kind : Token.Kind) (expected : Expectation) : Move inner (expect kind expected)
  | grammar {α : Type} {step : Step α} (grammar : Grammar inner step) : Move inner step

theorem Move.movesOn {inner : Step Expression} {bound : Nat} (reads : ReadsWithin bound inner)
    {α : Type} {step : Step α} (move : Move inner step) {before : Reading}
    (closed : before.Closed) (fits : before.rest.length < bound) : MovesOn step before := by
  cases move with
  | advance => exact (follows_advanced before).onward
  | skipping test => exact (follows_skip test before).onward
  | resumeAt test => exact (orderly_resumeAt test).movesOn
  | expect kind expected => exact (orderly_expect kind expected).movesOn
  | grammar grammar =>
      obtain ⟨_, orderly⟩ := grammar.exists_orderly reads closed fits
      exact orderly.movesOn

/-! ### All loops -/

theorem descends_elements {layout : Layout} (lawful : layout.Lawful) {inner : Step Expression}
    {bound : Nat} (reads : ReadsWithin bound inner) :
    Descends bound
      (fun carried reading =>
        elementsFrom layout inner (reading.rest.length + 1) carried.1 carried.2 reading)
      (elementsRound layout inner) :=
  descends_of_family (fun steps carried => elementsFrom layout inner steps carried.1 carried.2)
    (elementsFrom_succ layout inner)
    fun carried _ closed fits => consumes_elementsRound lawful reads carried closed fits

theorem Loop.descends {inner : Step Expression} {bound : Nat} (reads : ReadsWithin bound inner)
    {σ α : Type} {loop : σ → Step α} {round : σ → Step (RoundEnd σ α)}
    (isLoop : Loop inner loop round) : Descends bound loop round := by
  cases isLoop with
  | skipping test stops =>
      exact ⟨fun nothing _ closed _ => consumes_skipRound stops nothing closed,
        fun nothing _ closed _ => skipping_repeats stops nothing closed⟩
  | resumption test =>
      exact ⟨fun depth _ closed _ => consumes_resumptionRound test depth closed,
        fun depth _ closed _ => resumption_repeats test depth closed⟩
  | accidentals =>
      exact ⟨fun semitones _ closed _ => consumes_accidentalsRound semitones closed,
        fun semitones _ closed _ => accidentals_repeats semitones closed⟩
  | arguments =>
      exact descends_of_family (argumentsFrom inner) (argumentsFrom_succ inner)
        fun found _ closed fits => consumes_argumentsRound reads found closed fits
  | parameters =>
      exact descends_of_family parametersFrom parametersFrom_succ
        fun found _ closed _ => consumes_parametersRound found closed
  | body => exact descends_elements Layout.lawful_body reads
  | group => exact descends_elements Layout.lawful_group reads
  | statements =>
      exact descends_of_family statementsFrom statementsFrom_succ
        fun score _ closed _ => consumes_statementsRound score closed

/-- **Reading comes to an end.** Every list of tokens is read. No step moves the reader backwards
or behind the last token. A loop does what its round does and then itself, and a round that does
not end the loop reads a token. The reader of expressions calls itself behind a token only:
what a construct does in front of its sign, and what an expression does at its beginning, depends
on the reader for the expressions inside only where less tokens are left. -/
theorem reading_descends :
    (∀ (tokens : List Token) (trackName : String),
      ∃ score, Score.ofTokens tokens trackName = .ok score) ∧
    (∀ (bound : Nat) {α : Type} (step : Step α), Move (expression bound) step →
      ∀ before : Reading, before.Closed → before.rest.length < bound → MovesOn step before) ∧
    (∀ (bound : Nat) {σ α : Type} (loop : σ → Step α) (round : σ → Step (RoundEnd σ α)),
      Loop (expression bound) loop round → Descends bound loop round) ∧
    (accidentals = accidentalsBehind 0 ∧ ∀ test, resumeAt test = resumeInside test 0) ∧
    (∀ before : Reading, before.Closed →
      (∀ sign construct, Construct sign construct → before.current.kind = sign →
        Guarded construct before) ∧
      Guarded expressionFrom before) ∧
    ∀ (bound : Nat) (before : Reading), before.Closed → before.rest.length < bound →
      ReadsWithin bound (expression bound) ∧
        expression bound before = expressionFrom (expression bound) before := by
  refine ⟨fun tokens trackName => ?_, ?_, ?_, ⟨rfl, fun _ => rfl⟩, ?_, ?_⟩
  · obtain ⟨_, _, read, _⟩ := Score.exists_ofTokens_eq_ok tokens trackName
    exact ⟨_, read⟩
  · intro bound α step move before closed fits
    exact move.movesOn (readsWithin_expression bound) closed fits
  · intro bound σ α loop round isLoop
    exact isLoop.descends (readsWithin_expression bound)
  · intro before closed
    exact ⟨fun sign construct holds here => holds.guarded closed here,
      guarded_expressionFrom closed⟩
  · intro bound before closed fits
    exact ⟨readsWithin_expression bound, expression_eq_expressionFrom closed fits⟩

/-- A group that nothing closes is one element of a list, and nothing that is asked about the
expressions inside is asked about the group itself. -/
theorem reading_descends_unclosedGroup :
    unclosedGroup.Closed ∧ unclosedGroup.rest.length < 4 ∧
      MovesOn (groupFrom (expression 4)) unclosedGroup ∧
      Consumes (elementsRound .group (expression 4) (false, [])) unclosedGroup ∧
      groupFrom (expression 4) unclosedGroup = groupFrom (expression 9) unclosedGroup ∧
      expression 4 unclosedGroup = expressionFrom (expression 4) unclosedGroup := by
  obtain ⟨_, moves, loops, _, guarded, reads⟩ := reading_descends
  have closed : unclosedGroup.Closed := rfl
  have fits : unclosedGroup.rest.length < 4 := by decide
  have agree : Agree 3 (expression 4) (expression 9) := fun reading closedThere shorter =>
    expression_congr closedThere (by omega) (by omega)
  refine ⟨closed, fits, moves 4 _ (.grammar .groupFrom) _ closed fits,
    (loops 4 _ _ .group).consumes _ _ closed fits, ?_, (reads 4 _ closed fits).2⟩
  exact (guarded _ closed).1 .leftBracket groupFrom .group rfl _ _
    ((reads 4 _ closed fits).1.mono (by decide)) agree

end Solfege.Reading
