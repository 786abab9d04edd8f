import Solfege.Proofs.Conservation.Step
import Solfege.Proofs.Reading.Phrases

/-!
Contract: expressions consist of the tokens that they were read from.

Owns:
- the proof, for each step of the grammar of expressions, that its result consists of the
  ingredients among the tokens that it read, in the same order;
- the loops over arguments and over lists.

Does not own: statements.
-/

namespace Solfege.Reading

open Expression (ingredientsOfAll)

/-- The expression that the step reads consists of the tokens that it reads. -/
abbrev Yields (step : Step Expression) (before : Reading) : Prop :=
  Conserves [] step before Expression.ingredients

section Leaves

variable {before : Reading}

/-! ### Phrases -/

/-- What is owed when the phrase begins, and each pitch that it reads, is what its result is
worth. -/
def Phrase.HandsOn {α : Type} (worth : α → List Ingredient) (owed : List Ingredient) :
    Phrase α → Prop
  | .done value => worth value = owed
  | .anchored next => ∀ value, (next value).HandsOn worth owed
  | .number _ next => ∀ value, (next value).HandsOn worth owed
  | .nonzero _ _ next => ∀ value, (next value).HandsOn worth owed
  | .sign _ _ next => next.HandsOn worth owed
  | .pitch _ next => ∀ name, (next name).HandsOn worth (owed ++ [.syllable name])
  | .choice _ behind other => behind.HandsOn worth owed ∧ other.HandsOn worth owed
  | .amount next other => (∀ value, (next value).HandsOn worth owed) ∧ other.HandsOn worth owed
  | .following _ next => next.HandsOn worth owed

theorem conserves_phrase {α : Type} {worth : α → List Ingredient} {owed : List Ingredient}
    {phrase : Phrase α} (handsOn : phrase.HandsOn worth owed) (anchor : Token) :
    Conserves owed (phrase.run anchor) before worth := by
  induction phrase generalizing before owed anchor with
  | done value => exact conserves_pure handsOn
  | anchored next inductionHypothesis =>
      exact (idle_numberValue _).bind fun value _ =>
        inductionHypothesis value (handsOn value) anchor
  | number expected next inductionHypothesis =>
      exact (idle_expectNumber _).bind fun value _ =>
        inductionHypothesis value (handsOn value) anchor
  | nonzero expected problem next inductionHypothesis =>
      exact peek_conserves ((idle_expectNumber _).bind fun value _ =>
        .ite (conserves_refuse _) (inductionHypothesis value (handsOn value) anchor))
  | sign written expected next inductionHypothesis =>
      exact (idle_expect (by cases written <;> rfl) _).bind fun _ _ =>
        inductionHypothesis handsOn anchor
  | pitch expected next inductionHypothesis =>
      rw [Phrase.run]
      refine peek_conserves ?_
      split
      · exact conserves_unexpected _
      · rename_i name _ isNote
        apply advance_conserves
        rw [Token.ingredient?_of_note isNote]
        exact inductionHypothesis name (handsOn name) anchor
      · exact conserves_unexpected _
  | choice written behind other behindHypothesis otherHypothesis =>
      refine check_conserves _ (fun here => ?_) (otherHypothesis handsOn.2 anchor)
      exact advance_plain (by rw [here]; cases written <;> rfl) (behindHypothesis handsOn.1 _)
  | amount next other nextHypothesis otherHypothesis =>
      refine check_conserves .number (fun here => ?_) (otherHypothesis handsOn.2 anchor)
      exact advance_plain (by rw [here]; rfl) ((idle_numberValue _).bind fun value _ =>
        nextHypothesis value (handsOn.1 value) anchor)
  | following problem next inductionHypothesis =>
      exact idle_followsExpression.bind fun _ _ =>
        .ite (inductionHypothesis handsOn anchor) (conserves_refuse _)

theorem handsOn_durationPhrase {α : Type} {worth : α → List Ingredient} {owed : List Ingredient}
    {make : Duration → α} (same : ∀ value, worth (make value) = owed) :
    (durationPhrase make).HandsOn worth owed :=
  ⟨fun _ => same _, fun _ => ⟨fun _ => same _, same _⟩⟩

/-- The token that a phrase begins with is all that the expression owes to it. -/
theorem handsOn_of_leafPhrase? {token : Token} {phrase : Phrase Leaf}
    (leaf : leafPhrase? token.kind = some phrase) :
    phrase.HandsOn (fun leaf => (leaf.expression token).ingredients) token.ingredient?.toList := by
  unfold Token.ingredient?
  cases kind : token.kind <;> rw [kind] at leaf <;> cases leaf
  case colon => exact handsOn_durationPhrase fun _ => rfl
  case greater => exact ⟨fun _ => rfl, rfl⟩
  case less => exact ⟨fun _ => rfl, rfl⟩
  case bang => exact fun _ _ => rfl
  case pipe => rfl
  case rightParen => rfl
  all_goals exact fun _ => rfl

theorem yields_leafFrom {phrase : Phrase Leaf}
    (leaf : leafPhrase? before.current.kind = some phrase) : Yields (leafFrom phrase) before :=
  advance_conserves ((conserves_phrase (handsOn_of_leafPhrase? leaf) _).bind_owed
    fun _ _ => conserves_pure rfl)

/-! ### Parts of notes -/

theorem isPlain_of_isAccidental (kind : Token.Kind) (accidental : isAccidental kind = true) :
    kind.isPlain = true := by
  cases kind <;> first | rfl | contradiction

theorem idle_accidentals : Idle accidentals before := by
  have skipped : Idle (skipping isAccidental) before :=
    idle_skipping _ isPlain_of_isAccidental
  exact skipped

theorem idle_octaveSuffix : Idle octaveSuffix before := by
  have handsOn : octaveSuffixPhrase.HandsOn (fun _ => []) [] := ⟨fun _ => rfl, rfl⟩
  exact octaveSuffix_eq default ▸ conserves_phrase handsOn _

theorem idle_durationSuffix : Idle durationSuffix before := by
  have handsOn : durationSuffixPhrase.HandsOn (fun _ => []) [] :=
    ⟨handsOn_durationPhrase fun _ => rfl, rfl⟩
  exact durationSuffix_eq default ▸ conserves_phrase handsOn _

theorem isPlain_of_isSpace (kind : Token.Kind) (space : isSpace kind = true) :
    kind.isPlain = true := by
  cases kind <;> first | rfl | contradiction

theorem isPlain_of_isWhitespace (kind : Token.Kind) (white : isWhitespace kind = true) :
    kind.isPlain = true := by
  cases kind <;> first | rfl | contradiction

theorem idle_skipSpace : Idle skipSpace before := idle_skipping isSpace isPlain_of_isSpace

theorem idle_skipWhitespace : Idle skipWhitespace before :=
  idle_skipping isWhitespace isPlain_of_isWhitespace

end Leaves

/-! ### Expressions with expressions inside -/

section Parts

variable {inner : Step Expression} {before : Reading}
variable (yields : ∀ inside, Yields inner inside)

include yields

theorem conserves_chordFrom (first : ChordMember) (token : Token)
    (here : before.current.kind = .slash) :
    Conserves [first.ingredient] (chordFrom inner first token) before
      Expression.ingredients := by
  refine advance_plain (by rw [here]; rfl) ((conserves_within .chord yields).bind ?_)
  intro rest _
  split
  · exact conserves_pure rfl
  · exact conserves_pure rfl
  · rename_i members place
    refine conserves_pure ?_
    rw [Expression.ingredients_chord, Expression.ingredients_chord]
    rfl
  · exact conserves_refuse _

theorem yields_noteFrom {name : Syllable} (here : before.current.kind = .note name) :
    Yields (noteFrom inner name) before := by
  apply advance_conserves
  rw [Token.ingredient?_of_note here]
  refine idle_accidentals.bind fun semitones _ => idle_octaveSuffix.bind fun octave _ => ?_
  refine check_conserves .slash (conserves_chordFrom yields _ _) ?_
  exact idle_durationSuffix.bind fun _ _ => conserves_pure rfl

/-! ### Calls and names -/

theorem conserves_argumentsFrom (bound : Nat) (found : List Expression) :
    Conserves (ingredientsOfAll found.reverse) (argumentsFrom inner bound found) before
      ingredientsOfAll := by
  induction bound generalizing found before with
  | zero => exact conserves_abort _
  | succ bound inductionHypothesis =>
      refine idle_skipWhitespace.bind fun _ _ => check_conserves .endOfFile ?_ ?_
      · exact fun _ => peek_conserves (conserves_refuse _)
      · refine (yields _).bind fun argument _ => idle_skipWhitespace.bind fun _ behind =>
          peek_conserves ?_
        rw [← Expression.ingredientsOfAll_reverse_cons]
        split
        · exact advance_plain (by simp [*]; rfl) (conserves_pure rfl)
        · exact advance_plain (by simp [*]; rfl) (idle_skipWhitespace.bind fun _ _ =>
            check_conserves .rightParen (fun _ => peek_conserves (conserves_refuse _))
              (inductionHypothesis (argument :: found)))
        · exact conserves_unexpected _

theorem conserves_argumentList :
    Conserves [] (argumentList inner) before ingredientsOfAll :=
  idle_skipWhitespace.bind fun _ _ => check_conserves .rightParen
    (fun here => advance_plain (by rw [here]; rfl) (conserves_pure rfl))
    (conserves_argumentsFrom yields _ [])

theorem conserves_recoveredArguments (name : Token) :
    Conserves [] (recoveredArguments inner name) before ingredientsOfAll := by
  refine attempt_conserves (conserves_argumentList yields) ?_ fun diagnostic => ?_
  · exact fun _ _ => conserves_pure rfl
  · exact loud_report diagnostic ((steady_resumeAt _).bind fun _ => (steady_check _).bind fun _ =>
      .ite (steady_discard_advance.bind fun _ => accounts_pure (Nat.le_refl 0))
        (accounts_pure (Nat.le_refl 0)))

theorem conserves_callFrom (name : Token) (here : before.current.kind = .leftParen) :
    Conserves [.word name.text] (callFrom inner name) before Expression.ingredients :=
  advance_plain (by rw [here]; rfl)
    ((conserves_within .arguments fun _ => conserves_recoveredArguments yields name).bind
      fun _ _ => conserves_pure rfl)

theorem yields_nameFrom (here : before.current.kind = .word) : Yields (nameFrom inner) before := by
  apply advance_conserves
  rw [Token.ingredient?_of_word here]
  refine peek_conserves ?_
  split
  · exact conserves_chordFrom yields (.reference _ _) _ ‹_›
  · exact conserves_callFrom yields _ ‹_›
  · exact conserves_pure rfl

/-! ### Holds -/

theorem yields_holdFrom (here : before.current.kind = .leftParen) :
    Yields (holdFrom inner) before :=
  advance_plain (by rw [here]; rfl)
    ((conserves_within .hold fun _ => idle_skipSpace.bind fun _ => yields).bind fun _ _ =>
      .ite (conserves_pure rfl) (conserves_refuse _))

/-! ### Lists and groups -/

theorem conserves_elementsFrom {layout : Layout}
    (plain : ∀ kind, layout.separates kind = true → kind.isPlain = true) (bound : Nat)
    (marked : Bool) (found : List Expression) :
    Conserves (ingredientsOfAll found.reverse) (elementsFrom layout inner bound marked found)
      before ingredientsOfAll := by
  induction bound generalizing marked found before with
  | zero => exact conserves_abort _
  | succ bound inductionHypothesis =>
      refine (idle_skipping _ plain).bind fun _ here => peek_conserves (.ite ?_ ?_)
      · exact .ite ((idle_leave _).bind fun _ _ => conserves_pure rfl) (conserves_pure rfl)
      · refine attempt_conserves ((yields here).keeping _) (fun element middle => ?_)
          fun diagnostic => ?_
        · rw [← Expression.ingredientsOfAll_reverse_cons]
          have rest : ∀ middle, Conserves (ingredientsOfAll (element :: found).reverse)
              (elementsFrom layout inner bound true (element :: found)) middle ingredientsOfAll :=
            fun _ => inductionHypothesis true (element :: found)
          exact .ite ((idle_enter _).bind fun _ => rest) (rest middle)
        · exact loud_report diagnostic ((steady_resumeAt _).bind fun _ =>
            Conserves.steady fun _ => inductionHypothesis marked _)

theorem conserves_elements {layout : Layout}
    (plain : ∀ kind, layout.separates kind = true → kind.isPlain = true) :
    Conserves [] (elements layout inner) before ingredientsOfAll :=
  conserves_elementsFrom yields plain _ false []

theorem conserves_groupItems (opening : Token) :
    Conserves [] (groupItems inner opening) before ingredientsOfAll :=
  (conserves_elements yields isPlain_of_isWhitespace).bind fun _ _ =>
    check_conserves .rightBracket
      (fun here => advance_plain (by rw [here]; rfl) (conserves_pure rfl)) (conserves_refuse _)

theorem yields_groupFrom (here : before.current.kind = .leftBracket) :
    Yields (groupFrom inner) before := by
  apply advance_conserves
  rw [Token.ingredient?_of_sign here (by decide)]
  exact (conserves_within .group fun _ => conserves_groupItems yields _).bind
    fun _ _ => conserves_pure rfl

/-! ### All expressions -/

theorem yields_expressionFrom : Yields (expressionFrom inner) before := by
  rw [expressionFrom_eq]
  refine peek_conserves (expressionAt_cases
    (motive := fun kind step => before.current.kind = kind → Yields step before)
    ?_ ?_ ?_ ?_ ?_ ?_ _ rfl)
  · exact fun _ _ leaf here => yields_leafFrom (here ▸ leaf)
  · exact yields_holdFrom yields
  · exact yields_groupFrom yields
  · exact yields_nameFrom yields
  · exact fun _ => yields_noteFrom yields
  · exact fun _ _ => conserves_unexpected _

end Parts

/-- An expression consists of the tokens it was read from, however deep it nests. -/
theorem yields_expression (bound : Nat) (before : Reading) :
    Yields (expression bound) before := by
  induction bound generalizing before with
  | zero => exact conserves_abort _
  | succ bound inductionHypothesis => exact yields_expressionFrom inductionHypothesis

theorem conserves_body {before : Reading} : Conserves [] body before ingredientsOfAll := by
  have same : body before =
      elements .body (expression (before.rest.length + 1)) before := rfl
  unfold Conserves
  rw [same]
  exact conserves_elements (yields_expression _) isPlain_of_isSpace

end Solfege.Reading
