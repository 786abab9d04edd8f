import Solfege.Proofs.Reading.Statement

/-!
Contract: the stack of constructs is balanced, and the reader is never at fault.

Owns:
- the steps of the grammar, all of them;
- the proof that each of them leaves the stack as it found it, whether it makes something
  or stops at a fault of the score, so that every list of tokens is read.

Does not own: what the steps make.
-/

namespace Solfege.Reading

/-- From a state on, the step leaves the stack of constructs as it found it, and no
fault of the reader stops it. -/
def Balanced {α : Type} (step : Step α) (before : Reading) : Prop :=
  match step before with
  | .ok _ after => after.contexts = before.contexts
  | .error (.recoverable _) after => after.contexts = before.contexts
  | .error (.fatal _) _ => False

/-- The steps of the grammar, where `inner` reads the expressions inside of others. -/
inductive Grammar (inner : Step Expression) : {α : Type} → Step α → Prop where
  | fraction (numerator : Nat) : Grammar inner (fraction numerator)
  | durationValue (colon : Token) : Grammar inner (durationValue colon)
  | durationDirective : Grammar inner durationDirective
  | volumeDirective : Grammar inner volumeDirective
  | toneDirective (direction : Direction) : Grammar inner (toneDirective direction)
  | octaveDirective (direction : Direction) : Grammar inner (octaveDirective direction)
  | measureDirective : Grammar inner measureDirective
  | tempoDirective : Grammar inner tempoDirective
  | intervalDirective : Grammar inner intervalDirective
  | barLine : Grammar inner barLine
  | repetitionSign : Grammar inner repetitionSign
  | releaseSign : Grammar inner releaseSign
  | accidentals : Grammar inner accidentals
  | octaveSuffix : Grammar inner octaveSuffix
  | durationSuffix : Grammar inner durationSuffix
  | chordFrom (first : ChordMember) (token : Token) : Grammar inner (chordFrom inner first token)
  | noteFrom (name : Syllable) : Grammar inner (noteFrom inner name)
  | argumentList : Grammar inner (argumentList inner)
  | recoveredArguments (name : Token) : Grammar inner (recoveredArguments inner name)
  | callFrom (name : Token) : Grammar inner (callFrom inner name)
  | nameFrom : Grammar inner (nameFrom inner)
  | holdFrom : Grammar inner (holdFrom inner)
  | groupItems (opening : Token) : Grammar inner (groupItems inner opening)
  | groupFrom : Grammar inner (groupFrom inner)
  | expressionFrom : Grammar inner (expressionFrom inner)
  | inner : Grammar inner inner
  | body : Grammar inner body
  | metadataStatement (entry : String → Metadata) : Grammar inner (metadataStatement entry)
  | optionalString : Grammar inner optionalString
  | trackStatement : Grammar inner trackStatement
  | parameterList : Grammar inner parameterList
  | macroFrom (name : Token) : Grammar inner (macroFrom name)
  | movementFrom (instrument : Token) : Grammar inner (movementFrom instrument)
  | definitionStatement : Grammar inner definitionStatement
  | statement : Grammar inner statement
  | statementEnd (statement : Statement) : Grammar inner (statementEnd statement)
  | addStatement (score : Score) (statement : Statement) :
      Grammar inner (addStatement score statement)
  | skipStatement (diagnostic : Diagnostic) : Grammar inner (skipStatement diagnostic)

theorem Orderly.balanced {α : Type} {step : Step α} {before : Reading}
    {made : α → List Token → Prop} (orderly : Orderly step before made) :
    Balanced step before := by
  unfold Balanced
  split
  · exact (orderly.of_ok ‹_›).1.contexts
  · exact (orderly.of_recoverable ‹_›).contexts
  · exact orderly.not_fatal ‹_›

section Phrases

variable {before : Reading}

/-- A phrase is read in order whatever is made of it. -/
theorem orderly_any {α : Type} (phrase : Phrase α) (anchor : Token) :
    Orderly (phrase.run anchor) before fun _ _ => True :=
  orderly_phrase anchor (Phrase.makes_of_forall fun _ => trivial)

theorem exists_orderly_leafFrom (phrase : Phrase Leaf) :
    ∃ made, Orderly (leafFrom phrase) before made :=
  ⟨_, advance_orderly_any ((orderly_any phrase _).bind fun _ _ _ _ => orderly_pure trivial)⟩

end Phrases

/-- A step of the grammar is orderly where the step for the expressions inside reads them. -/
theorem Grammar.exists_orderly {inner : Step Expression} {bound : Nat}
    (reads : ReadsWithin bound inner) {α : Type} {step : Step α} (grammar : Grammar inner step)
    {before : Reading} (closed : before.Closed) (fits : before.rest.length < bound) :
    ∃ made, Orderly step before made := by
  have behind : before.rest.tail.length < bound := by
    have shorter := List.length_tail (l := before.rest)
    omega
  cases grammar with
  | fraction numerator =>
      exact fraction_eq numerator ▸ ⟨_, advance_orderly_any (orderly_any _ before.current)⟩
  | durationValue colon => exact durationValue_eq colon ▸ ⟨_, orderly_any _ colon⟩
  | durationDirective => exact durationDirective_eq ▸ exists_orderly_leafFrom _
  | volumeDirective => exact volumeDirective_eq ▸ exists_orderly_leafFrom _
  | toneDirective direction => exact toneDirective_eq direction ▸ exists_orderly_leafFrom _
  | octaveDirective direction => exact octaveDirective_eq direction ▸ exists_orderly_leafFrom _
  | measureDirective => exact measureDirective_eq ▸ exists_orderly_leafFrom _
  | tempoDirective => exact tempoDirective_eq ▸ exists_orderly_leafFrom _
  | intervalDirective => exact intervalDirective_eq ▸ exists_orderly_leafFrom _
  | barLine => exact barLine_eq ▸ exists_orderly_leafFrom _
  | repetitionSign => exact repetitionSign_eq ▸ exists_orderly_leafFrom _
  | releaseSign => exact releaseSign_eq ▸ exists_orderly_leafFrom _
  | accidentals => exact ⟨_, orderly_accidentals⟩
  | octaveSuffix => exact ⟨_, orderly_octaveSuffix⟩
  | durationSuffix => exact ⟨_, orderly_durationSuffix⟩
  | chordFrom first token => exact ⟨_, orderly_chordFrom reads closed first token behind⟩
  | noteFrom name => exact ⟨_, orderly_noteFrom reads closed name behind⟩
  | argumentList => exact ⟨_, orderly_argumentList reads closed fits⟩
  | recoveredArguments name => exact ⟨_, orderly_recoveredArguments reads closed name fits⟩
  | callFrom name => exact ⟨_, orderly_callFrom reads closed name behind⟩
  | nameFrom => exact ⟨_, orderly_nameFrom reads closed behind⟩
  | holdFrom => exact ⟨_, orderly_holdFrom reads closed behind⟩
  | groupItems opening => exact ⟨_, orderly_groupItems reads closed opening fits⟩
  | groupFrom => exact ⟨_, orderly_groupFrom reads closed behind⟩
  | expressionFrom => exact ⟨_, orderly_expressionFrom reads closed behind⟩
  | inner => exact ⟨_, reads before closed fits⟩
  | body => exact ⟨_, orderly_body closed⟩
  | metadataStatement entry => exact ⟨_, orderly_metadataStatement entry⟩
  | optionalString => exact ⟨_, orderly_optionalString⟩
  | trackStatement => exact ⟨_, orderly_trackStatement⟩
  | parameterList => exact ⟨_, orderly_parameterList closed⟩
  | macroFrom name => exact ⟨_, orderly_macroFrom name closed⟩
  | movementFrom instrument => exact ⟨_, orderly_movementFrom instrument closed⟩
  | definitionStatement => exact ⟨_, orderly_definitionStatement closed⟩
  | statement => exact ⟨_, orderly_statement closed⟩
  | statementEnd statement => exact ⟨_, orderly_statementEnd statement⟩
  | addStatement score statement => exact ⟨_, orderly_addStatement score statement⟩
  | skipStatement diagnostic => exact ⟨_, orderly_skipStatement diagnostic⟩

/-- A step of the grammar is balanced where the step for the expressions inside reads
them. -/
theorem Grammar.balanced {inner : Step Expression} {bound : Nat}
    (reads : ReadsWithin bound inner) {α : Type} {step : Step α} (grammar : Grammar inner step)
    {before : Reading} (closed : before.Closed) (fits : before.rest.length < bound) :
    Balanced step before := by
  obtain ⟨_, orderly⟩ := grammar.exists_orderly reads closed fits
  exact orderly.balanced

/-- **The reader is never at fault.** Every list of tokens is read to its end, where the
reader is inside of nothing. Each step of the grammar, in whatever state it begins, leaves
the stack of constructs as it found it, and finds there what it has to pop. -/
theorem reading_balanced :
    (∀ (tokens : List Token) (trackName : String),
      (∃ score, Score.ofTokens tokens trackName = .ok score) ∧
        ∃ score after,
          statements (Score.opened tokens trackName) (Reading.ofTokens tokens) = .ok score after ∧
            after.contexts = []) ∧
      ∀ (bound : Nat) {α : Type} (step : Step α), Grammar (expression bound) step →
        ∀ before : Reading, before.Closed → before.rest.length < bound →
          Balanced step before := by
  refine ⟨fun tokens trackName => ⟨?_, ?_⟩, ?_⟩
  · obtain ⟨statements, diagnostics, read, _⟩ := Score.exists_ofTokens_eq_ok tokens trackName
    exact ⟨_, read⟩
  · obtain ⟨standing, after, read, follows, _⟩ :=
      exists_statements_eq_ok (Score.opened tokens trackName) (closed_ofTokens tokens)
        (contexts_ofTokens tokens)
    exact ⟨_, after, read, follows.contexts.trans (contexts_ofTokens tokens)⟩
  · intro bound α step grammar before closed fits
    exact grammar.balanced (readsWithin_expression bound) closed fits

/-- A group in which a parenthesis holds a repetition sign, and which nothing closes. -/
def unclosedGroup : Reading where
  rest := [⟨"[", .leftBracket, .start⟩, ⟨"(", .leftParen, .start⟩, ⟨"*", .asterisk, .start⟩]
  last := .endOfFileAt .start
  contexts := [.movement]
  diagnostics := []

theorem reading_balanced_unclosedGroup :
    unclosedGroup.Closed ∧ unclosedGroup.rest.length < 4 ∧
      Balanced (expressionFrom (expression 4)) unclosedGroup :=
  ⟨rfl, by decide, reading_balanced.2 4 _ .expressionFrom unclosedGroup rfl (by decide)⟩

end Solfege.Reading
