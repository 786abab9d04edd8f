import Solfege.Proofs.Blanks.Step
import Solfege.Proofs.Reading.Phrases

/-!
Contract: expressions are read in the same way when blanks in groups are exchanged.

Owns:
- the proof, for each step of the grammar of expressions, that it is mirrored;
- how many groups are open in front of a step and behind it;
- the layouts of lists that treat exchanged blanks alike.

Does not own: statements.

An expression is read where a parenthesis would open a hold, and it leaves the reader in such
a place again. In between this fails at one place only, directly behind a name.
-/

namespace Solfege.Reading

/-- The step is mirrored from a place where an expression may begin to another such place in
the same group. -/
abbrev Mirrored {α : Type} (groups : Nat) (step : Step α) (before : Reading) : Prop :=
  Mirrors (Beginning groups) step step (Beginning groups) before

section Leaves

variable {groups : Nat} {before : Reading}

/-! ### Phrases -/

theorem mirrored_phrase {α : Type} (phrase : Phrase α) (anchor : Token) :
    Mirrored groups (phrase.run anchor) before := by
  induction phrase generalizing before anchor with
  | done value => exact mirrors_pure fun _ => id
  | anchored next inductionHypothesis =>
      exact (mirrors_numberValue _).bind fun value _ => inductionHypothesis value anchor
  | number expected next inductionHypothesis =>
      exact (mirrors_expectNumber _).bind fun value _ => inductionHypothesis value anchor
  | nonzero expected problem next inductionHypothesis =>
      exact peek_mirrors fun _ _ => (mirrors_expectNumber _).bind fun value _ =>
        .ite (fun _ => mirrors_refuse _) fun _ => inductionHypothesis value anchor
  | sign written expected next inductionHypothesis =>
      exact (mirrors_expect_ready (by cases written <;> rfl) _).bind fun _ _ =>
        inductionHypothesis anchor
  | pitch expected next inductionHypothesis =>
      rw [Phrase.run]
      -- A note is no blank, so a blank that stands here stops the reading.
      refine peek_mirrors_or_stops (fun blank => ?_) fun _ => ?_
      · rcases isWhitespace_cases blank with kind | kind <;> rw [kind] <;> exact ⟨_, rfl⟩
      · split
        · exact mirrors_unexpected _
        · rename_i name _ isNote
          exact advance_ready (by rw [isNote]; rfl) (inductionHypothesis name anchor)
        · exact mirrors_unexpected _
  | choice written behind other behindHypothesis otherHypothesis =>
      refine check_mirrors _ (by cases written <;> rfl) (fun here => ?_)
        fun _ => otherHypothesis anchor
      exact advance_ready (by rw [here]; cases written <;> rfl) (behindHypothesis _)
  | amount next other nextHypothesis otherHypothesis =>
      refine check_mirrors .number rfl (fun here => ?_) fun _ => otherHypothesis anchor
      exact advance_ready (by rw [here]; rfl)
        ((mirrors_numberValue _).bind fun value _ => nextHypothesis value anchor)
  | following problem next inductionHypothesis =>
      exact followsExpression_mirrors (inductionHypothesis anchor) (mirrors_refuse _)

theorem keepsPlace_of_leafPhrase? {kind : Token.Kind} {phrase : Phrase Leaf}
    (leaf : leafPhrase? kind = some phrase) : keepsPlace kind = true := by
  cases kind <;> first | rfl | contradiction

theorem mirrored_leafFrom {phrase : Phrase Leaf}
    (leaf : leafPhrase? before.current.kind = some phrase) :
    Mirrored groups (leafFrom phrase) before :=
  advance_ready (keepsPlace_of_leafPhrase? leaf)
    ((mirrored_phrase phrase _).bind fun _ _ => mirrors_pure fun _ => id)

/-! ### Parts of notes -/

theorem neutral_isAccidental : Neutral isAccidental := ⟨rfl, rfl, rfl, rfl, rfl⟩

theorem mirrored_accidentals : Mirrored groups accidentals before := by
  have skipped : Mirrored groups (skipping isAccidental) before :=
    mirrors_skipping_neutral neutral_isAccidental
  refine ⟨Nat.le_refl _, fun silent place other beginning twins => ?_⟩
  obtain ⟨there, otherAfter, same, here, still⟩ :=
    (skipped.of_ok rfl).2 silent place other beginning twins
  refine ⟨there, otherAfter, ?_, here, still⟩
  have noBlank : ∀ kind, isWhitespace kind = true → isAccidental kind = false := by
    intro kind blank
    cases kind <;> first | rfl | contradiction
  cases same
  unfold accidentals
  rw [twins.tokens.takeWhile_eq noBlank]

theorem mirrored_octaveSuffix : Mirrored groups octaveSuffix before :=
  octaveSuffix_eq default ▸ mirrored_phrase _ _

theorem mirrored_durationSuffix : Mirrored groups durationSuffix before :=
  durationSuffix_eq default ▸ mirrored_phrase _ _

end Leaves

/-! ### Layouts -/

/-- In so many groups, the layout separates and ends lists in the same way whatever the
blanks are. -/
structure Layout.IsFair (layout : Layout) (groups : Nat) : Prop where
  separates : ∀ before, Mirrored groups (skipping layout.separates) before
  ends : ∀ first second, Mates first second → (groups = 0 → first = second) →
    layout.ends first.kind = layout.ends second.kind

theorem Layout.isFair_group (groups : Nat) : Layout.group.IsFair groups where
  separates _ := mirrors_skipping_neutral neutral_isWhitespace
  ends first second mates _ := by
    have goesOn : ∀ kind, isWhitespace kind = true → Layout.group.ends kind = false := by
      intro kind blank
      cases kind <;> first | rfl | contradiction
    rcases mates with rfl | ⟨blank, otherBlank⟩
    · rfl
    · rw [goesOn _ blank, goesOn _ otherBlank]

/-- Outside of groups there is nothing to be treated alike. -/
theorem Layout.isFair_body : Layout.body.IsFair 0 where
  separates _ := mirrors_skipSpace
  ends first second _ outside := by rw [outside rfl]

/-! ### Expressions with expressions inside -/

section Parts

variable {inner : Step Expression} {groups : Nat} {before : Reading}
variable (reads : ∀ groups inside, Mirrored groups inner inside)

include reads

theorem mirrors_chordFrom (first : ChordMember) (token : Token)
    (here : before.current.kind = .slash) :
    Mirrors (InGroups groups) (chordFrom inner first token) (chordFrom inner first token)
      (Beginning groups) before := by
  refine advance_inGroups (by rw [here]; rfl) ((mirrors_within .chord (reads groups)).bind ?_)
  intro rest _
  split
  · exact mirrors_pure fun _ => id
  · exact mirrors_pure fun _ => id
  · exact mirrors_pure fun _ => id
  · exact mirrors_refuse _

theorem mirrored_noteFrom {name : Syllable} (here : before.current.kind = .note name) :
    Mirrored groups (noteFrom inner name) before := by
  refine advance_ready (by rw [here]; rfl) (mirrored_accidentals.bind fun semitones _ =>
    mirrored_octaveSuffix.bind fun octave _ => check_mirrors .slash rfl (fun slash => ?_)
      fun _ => mirrored_durationSuffix.bind fun _ _ => mirrors_pure fun _ => id)
  exact (mirrors_chordFrom reads _ _ slash).mono (fun _ _ => Beginning.inGroups) fun _ _ => id

/-! ### Calls and names -/

theorem mirrored_argumentsFrom (bound : Nat) (found : List Expression) :
    Mirrored groups (argumentsFrom inner bound found) before := by
  induction bound generalizing found before with
  | zero => exact mirrors_abort _
  | succ bound inductionHypothesis =>
      refine mirrors_skipWhitespace.bind fun _ _ => check_mirrors .endOfFile rfl
        (fun _ => peek_mirrors fun _ _ => mirrors_refuse _) fun _ => ?_
      refine (reads groups _).bind fun argument _ => mirrors_skipWhitespace.bind
        fun _ behind => peek_mirrors_or_stops (fun blank => ?_) fun _ => ?_
      · rcases isWhitespace_cases blank with kind | kind <;> rw [kind] <;> exact ⟨_, rfl⟩
      split
      · exact advance_ready (by simp [*]; rfl) (mirrors_pure fun _ => id)
      · exact advance_ready (by simp [*]; rfl) (mirrors_skipWhitespace.bind fun _ _ =>
          check_mirrors .rightParen rfl (fun _ => peek_mirrors fun _ _ => mirrors_refuse _)
            fun _ => inductionHypothesis (argument :: found))
      · exact mirrors_unexpected _

theorem mirrored_argumentList : Mirrored groups (argumentList inner) before :=
  mirrors_skipWhitespace.bind fun _ _ => check_mirrors .rightParen rfl
    (fun here => advance_ready (by rw [here]; rfl) (mirrors_pure fun _ => id))
    fun _ => .at_length fun bound => mirrored_argumentsFrom reads bound []

theorem mirrored_recoveredArguments (name : Token) :
    Mirrored groups (recoveredArguments inner name) before := by
  refine attempt_mirrors (mirrored_argumentList reads) (fun _ _ => mirrors_pure fun _ => id)
    fun diagnostic => ?_
  exact loud_report diagnostic ((steady_resumeAt _).bind fun _ => (steady_check _).bind fun _ =>
    .ite (steady_discard_advance.bind fun _ => accounts_pure (Nat.le_refl 0))
      (accounts_pure (Nat.le_refl 0)))

theorem mirrors_callFrom (name : Token) (here : before.current.kind = .leftParen) :
    Mirrors (InGroups groups) (callFrom inner name) (callFrom inner name) (Beginning groups)
      before :=
  advance_inGroups (by rw [here]; rfl)
    ((mirrors_within .arguments fun _ => mirrored_recoveredArguments reads name).bind
      fun _ _ => mirrors_pure fun _ => id)

/-- Directly behind a name, a parenthesis is read with the name. -/
theorem mirrored_nameFrom (here : before.current.kind = .word) :
    Mirrored groups (nameFrom inner) before := by
  have inside : ∀ place, Beginning groups place before.current.kind →
      InGroups groups (place.behind before.current.kind) before.advanced.current.kind := by
    rw [here]
    exact fun _ => And.left
  refine advance_mirrors (by rw [here]; rfl) inside (peek_mirrors fun token mates => ?_)
  have alone (noCall : before.advanced.current.kind ≠ .leftParen) :
      Mirrors (InGroups groups)
        (pure (.reference before.current.text before.current) : Step Expression)
        (pure (.reference before.current.text before.current)) (Beginning groups)
        before.advanced :=
    mirrors_pure fun _ inGroups => ⟨inGroups, fun _ _ => noCall⟩
  rcases mates with rfl | ⟨blank, otherBlank⟩
  · split
    · exact mirrors_chordFrom reads _ _ ‹_›
    · exact mirrors_callFrom reads _ ‹_›
    · exact alone ‹_›
  · rcases isWhitespace_cases blank with kind | kind
    all_goals
      have isAlone := alone (by rw [kind]; decide)
      rw [kind]
      rcases isWhitespace_cases otherBlank with otherKind | otherKind <;> rw [otherKind]
      · exact isAlone
      · exact isAlone

/-! ### Holds -/

/-- The blanks behind the parenthesis of a hold are not exchanged. -/
theorem mirrored_holdFrom (here : before.current.kind = .leftParen) :
    Mirrored groups (holdFrom inner) before := by
  have held : ∀ place, Beginning groups place before.current.kind →
      Held groups (place.behind before.current.kind) before.advanced.current.kind := by
    rw [here]
    rintro place ⟨inGroups, beginning⟩
    refine ⟨inGroups, ?_⟩
    by_cases outside : groups = 0
    · exact .inl (inGroups.trans outside)
    · have noName : place.front ≠ .name := fun name => beginning outside name rfl
      exact .inr (if_neg noName)
  exact advance_mirrors (by rw [here]; rfl) held
    ((mirrors_within .hold fun _ => mirrors_skipSpace_held.bind fun _ => reads groups).bind
      fun _ _ => .ite (fun _ => mirrors_pure fun _ => id) fun _ => mirrors_refuse _)

/-! ### Lists and groups -/

theorem mirrored_elementsFrom {layout : Layout} (fair : layout.IsFair groups) (bound : Nat)
    (marked : Bool) (found : List Expression) :
    Mirrored groups (elementsFrom layout inner bound marked found) before := by
  induction bound generalizing marked found before with
  | zero => exact mirrors_abort _
  | succ bound inductionHypothesis =>
      refine (fair.separates _).bind fun _ here =>
        peek_mirrors_inGroups (fun _ _ => Beginning.inGroups) fun token mates outside => ?_
      rw [fair.ends _ _ mates outside]
      refine .ite (fun _ => ?_) fun _ => ?_
      · exact .ite (fun _ => (mirrors_leave _).bind fun _ _ => mirrors_pure fun _ => id)
          fun _ => mirrors_pure fun _ => id
      · refine attempt_mirrors (reads groups here) (fun element middle => ?_)
          fun diagnostic => ?_
        · have rest : ∀ middle, Mirrored groups
              (elementsFrom layout inner bound true (element :: found)) middle :=
            fun _ => inductionHypothesis true (element :: found)
          exact .ite (fun _ => (mirrors_enter _).bind fun _ => rest) fun _ => rest middle
        · exact loud_report diagnostic ((steady_resumeAt _).bind fun _ =>
            Mirrors.steady fun _ => inductionHypothesis marked _)

theorem mirrored_elements {layout : Layout} (fair : layout.IsFair groups) :
    Mirrored groups (elements layout inner) before :=
  .at_length fun bound => mirrored_elementsFrom reads fair bound false []

/-- A group ends with its own closing bracket. -/
theorem mirrors_groupItems (opening : Token) :
    Mirrors (Beginning (groups + 1)) (groupItems inner opening) (groupItems inner opening)
      (Beginning groups) before := by
  refine (mirrored_elements reads (Layout.isFair_group _)).bind fun items behind =>
    check_mirrors .rightBracket rfl (fun closing => ?_) fun _ => mirrors_refuse _
  refine advance_mirrors (by rw [closing]; rfl) (fun place beginning => ?_)
    (mirrors_pure fun _ => id)
  rw [closing] at beginning ⊢
  refine ⟨?_, fun _ impossible => by contradiction⟩
  exact congrArg (· - 1) beginning.1

theorem mirrored_groupFrom (here : before.current.kind = .leftBracket) :
    Mirrored groups (groupFrom inner) before := by
  have opened : ∀ place, Beginning groups place before.current.kind →
      Beginning (groups + 1) (place.behind before.current.kind) before.advanced.current.kind := by
    rw [here]
    rintro place ⟨inGroups, _⟩
    exact ⟨congrArg (· + 1) inGroups, fun _ impossible => by contradiction⟩
  exact advance_mirrors (by rw [here]; rfl) opened
    ((mirrors_within .group fun _ => mirrors_groupItems reads _).bind
      fun _ _ => mirrors_pure fun _ => id)

/-! ### All expressions -/

theorem mirrored_expressionFrom : Mirrored groups (expressionFrom inner) before := by
  rw [expressionFrom_eq]
  refine peek_mirrors_or_stops (fun blank => ?_) fun _ => ?_
  · rcases isWhitespace_cases blank with kind | kind <;> rw [kind] <;> exact ⟨_, rfl⟩
  refine expressionAt_cases
    (motive := fun kind step => before.current.kind = kind → Mirrored groups step before)
    ?_ ?_ ?_ ?_ ?_ ?_ _ rfl
  · exact fun _ _ leaf here => mirrored_leafFrom (here ▸ leaf)
  · exact mirrored_holdFrom reads
  · exact mirrored_groupFrom reads
  · exact mirrored_nameFrom reads
  · exact fun _ => mirrored_noteFrom reads
  · exact fun _ _ => mirrors_unexpected _

end Parts

/-- An expression is read in the same way whatever the blanks in its groups are. -/
theorem mirrored_expression (bound groups : Nat) (before : Reading) :
    Mirrored groups (expression bound) before := by
  induction bound generalizing groups before with
  | zero => exact mirrors_abort _
  | succ bound inductionHypothesis => exact mirrored_expressionFrom inductionHypothesis

theorem mirrored_body {before : Reading} : Mirrored 0 body before :=
  .at_length fun bound =>
    mirrored_elements (fun groups inside => mirrored_expression bound groups inside)
      Layout.isFair_body

end Solfege.Reading
