import Solfege.Proofs.Numbers.Step
import Solfege.Proofs.Reading.Phrases

/-!
Contract: expressions are read in such a way that a number without a value is a fault.

Owns:
- what is asked of the reader for the expressions inside of another one;
- the proof, for each step of the grammar of expressions, that it heeds the number.

Does not own: statements.
-/

namespace Solfege.Reading

variable {number : Oversized} {before : Reading}

/-! ### Phrases -/

theorem heeds_phrase {α : Type} (phrase : Phrase α) (anchor : Token) :
    Heeds number (phrase.run anchor) before := by
  induction phrase generalizing before anchor with
  | done value => exact heeds_pure _
  | anchored next inductionHypothesis =>
      exact (heeds_numberValue _).bind fun value _ => inductionHypothesis value anchor
  | number expected next inductionHypothesis =>
      exact (heeds_expectNumber _).bind fun value _ => inductionHypothesis value anchor
  | nonzero expected problem next inductionHypothesis =>
      exact peek_expectNumber_heeds _ fun _ value _ =>
        .ite (fun _ => heeds_refuse _) fun _ => inductionHypothesis value anchor
  | sign written expected next inductionHypothesis =>
      exact (heeds_expect_other (by cases written <;> decide) _).bind fun _ _ =>
        inductionHypothesis anchor
  | pitch expected next inductionHypothesis =>
      rw [Phrase.run]
      refine peek_heeds_of_kind rfl ?_
      split
      · exact heeds_unexpected _
      · exact advance_heeds (number.ne_of_kind ‹_› Token.Kind.noConfusion)
          (inductionHypothesis _ anchor)
      · exact heeds_unexpected _
  | choice written behind other behindHypothesis otherHypothesis =>
      refine check_heeds _ (fun here => ?_) fun _ => otherHypothesis anchor
      exact advance_heeds (number.ne_of_kind here (by cases written <;> decide))
        (behindHypothesis _)
  | amount next other nextHypothesis otherHypothesis =>
      exact check_heeds .number
        (fun _ => advance_numberValue_heeds fun _ value _ => nextHypothesis value anchor)
        fun _ => otherHypothesis anchor
  | following problem next inductionHypothesis =>
      exact followsExpression_heeds (inductionHypothesis anchor) (heeds_refuse _)

/-- The number stands for an interval, which has no value. -/
theorem stopsAt_interval (here : before.current = number.token) :
    StopsAt number (leafFrom intervalPhrase) before :=
  stopsAt_advance here fun _ => StopsAt.bind (StopsAt.bind stopsAt_numberValue)

theorem heeds_leafFrom {phrase : Phrase Leaf}
    (leaf : leafPhrase? before.current.kind = some phrase) :
    Heeds number (leafFrom phrase) before := by
  by_cases here : before.current = number.token
  · rw [here, number.isNumber] at leaf
    obtain rfl := Option.some.inj leaf
    exact (stopsAt_interval here).heeds
  · exact advance_heeds here ((heeds_phrase phrase _).bind fun _ _ => heeds_pure _)

/-! ### Notes, names and holds -/

/-- What is asked of the reader for the expressions inside of another one. -/
structure Attends (number : Oversized) (inner : Step Expression) : Prop where
  heeds : ∀ before, Heeds number inner before
  stops : ∀ before, before.current = number.token → StopsAt number inner before

theorem heeds_accidentals : Heeds number accidentals before := by
  have stops : isAccidental .number = false := rfl
  refine ⟨List.Subset.refl _, fun twin beside => ?_⟩
  obtain ⟨signs, behind⟩ := beside.skip stops
  refine .inr ⟨twin.skip isAccidental, ?_, behind⟩
  rw [signs]
  rfl

/-- The layout takes a number neither for a separator nor for an end, and reading does not go on
at one behind a problem. -/
structure Layout.KeepsNumbers (layout : Layout) : Prop where
  separates : layout.separates .number = false
  ends : layout.ends .number = false
  resumes : layout.resumes .number = false

theorem Layout.keepsNumbers_body : Layout.body.KeepsNumbers := ⟨rfl, rfl, rfl⟩

theorem Layout.keepsNumbers_group : Layout.group.KeepsNumbers := ⟨rfl, rfl, rfl⟩

theorem heeds_octaveSuffix : Heeds number octaveSuffix before :=
  octaveSuffix_eq default ▸ heeds_phrase _ _

theorem heeds_durationSuffix : Heeds number durationSuffix before :=
  durationSuffix_eq default ▸ heeds_phrase _ _

section Parts

variable {inner : Step Expression} (attends : Attends number inner)

include attends

theorem heeds_chordFrom (otherwise : before.current ≠ number.token) (first : ChordMember)
    (token : Token) : Heeds number (chordFrom inner first token) before := by
  refine advance_heeds otherwise
    ((heeds_within .chord (attends.heeds _)).bind fun rest after => ?_)
  cases rest with
  | note written => exact heeds_pure _
  | reference name written => exact heeds_pure _
  | chord members written => exact heeds_pure _
  | _ => exact heeds_refuse _

theorem heeds_noteFrom (otherwise : before.current ≠ number.token) (name : Syllable) :
    Heeds number (noteFrom inner name) before := by
  refine advance_heeds otherwise (heeds_accidentals.bind fun semitones _ =>
    heeds_octaveSuffix.bind fun octave after => check_heeds .slash (fun slash => ?_) fun _ => ?_)
  · exact heeds_chordFrom attends (number.ne_of_kind slash (by decide)) _ _
  · exact heeds_durationSuffix.bind fun _ _ => heeds_pure _

theorem heeds_argumentsFrom (bound : Nat) (found : List Expression) :
    Heeds number (argumentsFrom inner bound found) before := by
  induction bound generalizing before found with
  | zero => exact heeds_abort _
  | succ bound inductionHypothesis =>
      refine (heeds_skipping rfl).bind fun _ after => check_heeds _ (fun final => ?_) fun _ => ?_
      · exact peek_heeds_other (number.ne_of_kind final (by decide)) (heeds_refuse _)
      · refine (attends.heeds after).bind fun argument _ => (heeds_skipping rfl).bind
          fun _ after => peek_heeds_of_kind rfl ?_
        split
        · exact advance_heeds (number.ne_of_kind ‹_› (by decide)) (heeds_pure _)
        · refine advance_heeds (number.ne_of_kind ‹_› (by decide))
            ((heeds_skipping rfl).bind fun _ after => check_heeds _ (fun closing => ?_) fun _ => ?_)
          · exact peek_heeds_other (number.ne_of_kind closing (by decide)) (heeds_refuse _)
          · exact inductionHypothesis (argument :: found)
        · exact heeds_unexpected _

theorem heeds_argumentList : Heeds number (argumentList inner) before := by
  refine (heeds_skipping rfl).bind fun _ after => check_heeds _ (fun closing => ?_) fun _ => ?_
  · exact advance_heeds (number.ne_of_kind closing (by decide)) (heeds_pure _)
  · exact .at_length fun bound => heeds_argumentsFrom attends bound []

theorem heeds_recoveredArguments (name : Token) :
    Heeds number (recoveredArguments inner name) before := by
  have onward (after : Reading) (reported : after.diagnostics ≠ []) : Heeds number (do
      resumeAt isRightParen
      if ← check .rightParen then discard advance
      pure [.placeholder name] : Step (List Expression)) after := by
    refine (heeds_resumeAt rfl reported).bind fun _ after =>
      check_heeds _ (fun closing => ?_) fun _ => ?_
    · have read : Heeds number (advance >>= fun _ => pure ()) after :=
        advance_heeds (number.ne_of_kind closing (by decide)) (heeds_pure _)
      exact read.bind fun _ _ => heeds_pure _
    · exact heeds_pure _
  exact attempt_heeds (heeds_argumentList attends) (fun _ _ => heeds_pure _)
    (fun diagnostic _ => report_heeds diagnostic onward)
    fun diagnostic _ fault => report_faults fault onward

theorem heeds_callFrom (otherwise : before.current ≠ number.token) (name : Token) :
    Heeds number (callFrom inner name) before :=
  advance_heeds otherwise ((heeds_within .arguments (heeds_recoveredArguments attends name)).bind
    fun _ _ => heeds_pure _)

theorem heeds_nameFrom (otherwise : before.current ≠ number.token) :
    Heeds number (nameFrom inner) before := by
  refine advance_heeds otherwise (peek_heeds_of_kind rfl ?_)
  split
  · exact heeds_chordFrom attends (number.ne_of_kind ‹_› (by decide)) _ _
  · exact heeds_callFrom attends (number.ne_of_kind ‹_› (by decide)) _
  · exact heeds_pure _

theorem heeds_holdFrom (otherwise : before.current ≠ number.token) :
    Heeds number (holdFrom inner) before := by
  refine advance_heeds otherwise ((heeds_within .hold ?_).bind fun held _ => ?_)
  · exact (heeds_skipping rfl).bind fun _ _ => attends.heeds _
  · exact .ite (fun _ => heeds_pure _) fun _ => heeds_refuse _

/-! ### Lists and groups -/

theorem heeds_elementsFrom {layout : Layout} (keeps : layout.KeepsNumbers) (bound : Nat)
    (marked : Bool) (found : List Expression) :
    Heeds number (elementsFrom layout inner bound marked found) before := by
  induction bound generalizing before marked found with
  | zero => exact heeds_abort _
  | succ bound inductionHypothesis =>
      refine (heeds_skipping keeps.separates).bind fun _ after => ?_
      have onward (first : Token) (after : Reading) (reported : after.diagnostics ≠ []) :
          Heeds number (do
            resumeAt layout.resumes
            elementsFrom layout inner bound marked (.placeholder first :: found)) after :=
        (heeds_resumeAt keeps.resumes reported).bind fun _ _ => inductionHypothesis _ _
      refine peek_heeds (fun _ => .ite (fun _ => ?_) fun _ => ?_) fun here => ?_
      · exact .ite (fun _ => (heeds_leave _).bind fun _ _ => heeds_pure _) fun _ => heeds_pure _
      · refine attempt_heeds (attends.heeds after) (fun element _ => ?_)
          (fun diagnostic _ => report_heeds diagnostic (onward _))
          fun diagnostic _ fault => report_faults fault (onward _)
        exact .ite (fun _ => (heeds_enter _).bind fun _ _ => inductionHypothesis _ _)
          fun _ => inductionHypothesis _ _
      -- The number itself might be left as a placeholder, but only behind a problem at it.
      · rw [number.isNumber, keeps.ends, if_neg Bool.false_ne_true]
        exact attempt_faults (attends.stops after here)
          fun diagnostic _ fault => report_faults fault (onward _)

theorem heeds_elements {layout : Layout} (keeps : layout.KeepsNumbers) :
    Heeds number (elements layout inner) before :=
  .at_length fun bound => heeds_elementsFrom attends keeps bound false []

theorem heeds_groupItems (opening : Token) : Heeds number (groupItems inner opening) before := by
  refine (heeds_elements attends Layout.keepsNumbers_group).bind fun items _ =>
    check_heeds _ (fun closing => ?_) fun _ => heeds_refuse _
  exact advance_heeds (number.ne_of_kind closing (by decide)) (heeds_pure _)

theorem heeds_groupFrom (otherwise : before.current ≠ number.token) :
    Heeds number (groupFrom inner) before :=
  advance_heeds otherwise ((heeds_within .group (heeds_groupItems attends _)).bind
    fun _ _ => heeds_pure _)

/-! ### Expressions -/

theorem heeds_expressionFrom : Heeds number (expressionFrom inner) before := by
  rw [expressionFrom_eq]
  refine peek_heeds_of_kind rfl (expressionAt_cases
    (motive := fun kind step => before.current.kind = kind → Heeds number step before)
    ?_ ?_ ?_ ?_ ?_ ?_ _ rfl)
  · exact fun _ _ leaf here => heeds_leafFrom (here ▸ leaf)
  · exact fun here => heeds_holdFrom attends (number.ne_of_kind here (by decide))
  · exact fun here => heeds_groupFrom attends (number.ne_of_kind here (by decide))
  · exact fun here => heeds_nameFrom attends (number.ne_of_kind here (by decide))
  · exact fun name here =>
      heeds_noteFrom attends (number.ne_of_kind here Token.Kind.noConfusion) name
  · exact fun _ _ => heeds_unexpected .expression

end Parts

/-- The number is no expression. -/
theorem stopsAt_expressionFrom (inner : Step Expression) (here : before.current = number.token) :
    StopsAt number (expressionFrom inner) before := by
  rw [expressionFrom_eq]
  refine stopsAt_peek here ?_
  rw [number.isNumber]
  exact stopsAt_interval here

theorem attends_expression (bound : Nat) : Attends number (expression bound) := by
  induction bound with
  | zero => exact ⟨fun _ => heeds_abort _, fun _ _ => trivial⟩
  | succ bound inductionHypothesis =>
      exact ⟨fun _ => heeds_expressionFrom inductionHypothesis,
        fun _ here => stopsAt_expressionFrom (expression bound) here⟩

theorem heeds_body : Heeds number body before :=
  .at_length fun bound => heeds_elements (attends_expression bound) Layout.keepsNumbers_body

end Solfege.Reading
