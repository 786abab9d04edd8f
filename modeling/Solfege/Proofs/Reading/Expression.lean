import Solfege.Proofs.Reading.List
import Solfege.Proofs.Reading.Phrases
import Solfege.Proofs.Shape.Basic

/-!
Contract: reading expressions is orderly, and what it makes has the shape of expressions.

Owns:
- what each step of the grammar of expressions makes, and that it is orderly;
- the loops over arguments and over lists, whose bounds are never used up;
- that the stack of constructs tells whether a postfix sign has something to follow.

Does not own: statements.

A reader of expressions that is handed to a step is only ever called behind a token of
that step. This is why a bound on the number of tokens suffices.
-/

namespace Solfege.Reading

open Expression (Arranged Formed FormedList Holdable)

/-- An expression as one step of reading makes it, inside of these constructs. -/
structure Element (contexts : List Context) (expression : Expression) : Prop where
  formed : Formed expression
  readable : expression.isPlaceholder = false
  opened : expression.isPostfix = true → contexts.head? = some .expression

/-- The step reads one expression, beginning with the current token. -/
abbrev ReadsOne (step : Step Expression) (before : Reading) : Prop :=
  Orderly step before fun expression rest =>
    rest <:+ before.rest.tail ∧ Element before.contexts expression

/-- The step reads an expression wherever less tokens than the bound are left. -/
def ReadsWithin (bound : Nat) (step : Step Expression) : Prop :=
  ∀ before : Reading, before.Closed → before.rest.length < bound →
    Orderly step before fun expression rest =>
      rest.length < before.rest.length ∧ Element before.contexts expression

/-- Any expression but a postfix sign or a placeholder can stand anywhere. -/
theorem Element.plain {contexts : List Context} {expression : Expression}
    (formed : Formed expression) (readable : expression.isPlaceholder = false)
    (plain : expression.isPostfix = false) : Element contexts expression where
  formed := formed
  readable := readable
  opened isPostfix := by
    rw [plain] at isPostfix
    contradiction

/-! ### Phrases -/

section Leaves

variable {before : Reading}

/-- A phrase is read in order, and what is made of it is as it should be. -/
theorem orderly_phrase {α : Type} {made : α → Prop} {phrase : Phrase α} (anchor : Token)
    (makes : phrase.Makes (before.contexts.head? = some .expression) made) :
    Orderly (phrase.run anchor) before fun value _ => made value := by
  induction phrase generalizing before anchor with
  | done value => exact orderly_pure makes
  | anchored next inductionHypothesis =>
      refine (orderly_numberValue anchor).bind fun value _ follows _ => ?_
      exact inductionHypothesis value anchor (follows.contexts ▸ makes value)
  | number expected next inductionHypothesis =>
      refine (orderly_expectNumber _).bind fun value _ follows _ => ?_
      exact inductionHypothesis value anchor (follows.contexts ▸ makes value)
  | nonzero expected problem next inductionHypothesis =>
      refine peek_orderly ((orderly_expectNumber _).bind fun value _ follows _ => ?_)
      refine .ite (fun _ => orderly_refuse _) fun nonzero => ?_
      exact inductionHypothesis value anchor (follows.contexts ▸ makes value nonzero)
  | sign written expected next inductionHypothesis =>
      refine (orderly_expect _ _).bind fun _ _ follows _ => ?_
      exact inductionHypothesis anchor (follows.contexts ▸ makes)
  | pitch expected next inductionHypothesis =>
      rw [Phrase.run]
      refine peek_orderly ?_
      split
      · exact orderly_unexpected _
      · rename_i name notRest _
        refine (advance_orderly ?_).mono fun _ _ made => made.2
        exact inductionHypothesis name anchor (makes name notRest)
      · exact orderly_unexpected _
  | choice written behind other behindHypothesis otherHypothesis =>
      refine check_orderly _ (fun _ => ?_) fun _ => otherHypothesis anchor makes.2
      exact (advance_orderly (behindHypothesis _ makes.1)).mono fun _ _ made => made.2
  | amount next other nextHypothesis otherHypothesis =>
      refine check_orderly .number (fun _ => ?_) fun _ => otherHypothesis anchor makes.2
      refine (advance_orderly ?_).mono fun _ _ made => made.2
      refine (orderly_numberValue _).bind fun value _ follows _ => ?_
      exact nextHypothesis value anchor (follows.contexts ▸ makes.1 value)
  | following problem next inductionHypothesis =>
      refine followsExpression_orderly (fun opened => ?_) fun _ => orderly_refuse _
      exact inductionHypothesis anchor (makes opened)

theorem orderly_accidentals :
    Orderly accidentals before fun _ _ => True :=
  ⟨follows_skip isAccidental before, trivial⟩

theorem orderly_octaveSuffix : Orderly octaveSuffix before fun _ _ => True := by
  rw [octaveSuffix_eq before.current]
  exact orderly_phrase _ ⟨fun _ => trivial, trivial⟩

theorem orderly_durationSuffix :
    Orderly durationSuffix before fun suffix _ =>
      ∀ duration, suffix = some duration → duration.denominator ≠ 0 := by
  rw [durationSuffix_eq before.current]
  refine orderly_phrase _ ⟨makes_durationPhrase fun value nonzero => ?_, nofun⟩
  intro duration same
  rw [← Option.some.inj same]
  exact nonzero

/-! ### Expressions of one token -/

/-- What a phrase makes with a token, inside of these constructs. -/
abbrev Leaf.Fits (contexts : List Context) (leaf : Leaf) : Prop :=
  ∀ token, Element contexts (leaf.expression token)

theorem orderly_leafFrom {phrase : Phrase Leaf}
    (makes : phrase.Makes (before.contexts.head? = some .expression)
      (Leaf.Fits before.contexts)) : ReadsOne (leafFrom phrase) before := by
  have read : Orderly (phrase.run before.current) before.advanced
      fun leaf _ => leaf.Fits before.contexts := orderly_phrase _ makes
  exact advance_orderly (read.bind fun _ _ _ made => orderly_pure (made _))

/-- Each phrase that a token begins makes an element. -/
theorem makes_of_leafPhrase? {contexts : List Context} {kind : Token.Kind} {phrase : Phrase Leaf}
    (begins : leafPhrase? kind = some phrase) :
    phrase.Makes (contexts.head? = some .expression) (Leaf.Fits contexts) := by
  have setting {setting : Directive} (meaningful : setting.Meaningful) :
      Leaf.Fits contexts (.directive setting) :=
    fun token => .plain (.directive token meaningful) rfl rfl
  cases kind with
  | volume => cases begins; exact fun _ => setting trivial
  | plus => cases begins; exact fun _ notRest => setting notRest
  | dash => cases begins; exact fun _ notRest => setting notRest
  | greater => cases begins; exact ⟨fun _ => setting trivial, setting trivial⟩
  | less => cases begins; exact ⟨fun _ => setting trivial, setting trivial⟩
  | colon => cases begins; exact makes_durationPhrase fun _ nonzero => setting nonzero
  | bang => cases begins; exact fun _ _ nonzero => setting nonzero
  | caret => cases begins; exact fun _ => setting trivial
  | pipe => cases begins; exact fun token => .plain (.bar token) rfl rfl
  | number => cases begins; exact fun _ => setting trivial
  | asterisk => cases begins; exact fun opened _ token => ⟨.repetition _ token, rfl, fun _ => opened⟩
  | rightParen => cases begins; exact fun opened token => ⟨.release token, rfl, fun _ => opened⟩
  | _ => contradiction

end Leaves

/-! ### Expressions with expressions inside -/

section Parts

variable {bound : Nat} {inner : Step Expression} {before : Reading}
variable (reads : ReadsWithin bound inner) (closed : before.Closed)

include reads closed

/-- Inside of a construct other than a list, no postfix sign is read. -/
theorem ReadsWithin.within (context : Context) (isList : context ≠ .expression)
    (fits : before.rest.length < bound) :
    Orderly (within context inner) before fun expression _ =>
      Formed expression ∧ expression.isPlaceholder = false ∧ expression.isPostfix = false := by
  refine orderly_within ((reads (before.inside context) closed fits).mono ?_)
  intro expression rest made
  refine ⟨made.2.formed, made.2.readable, ?_⟩
  rw [Bool.eq_false_iff]
  intro isPostfix
  exact isList (Option.some.inj (made.2.opened isPostfix))

theorem orderly_chordFrom (first : ChordMember) (token : Token)
    (fits : before.rest.tail.length < bound) :
    Orderly (chordFrom inner first token) before fun expression rest =>
      rest <:+ before.rest.tail ∧
        (first.duration? = none → Element before.contexts expression) := by
  have timed (undelayed : first.duration? = none) : first.Timed := by
    intro duration same
    rw [undelayed] at same
    contradiction
  have pair {second : ChordMember} (secondTimed : second.Timed)
      (undelayed : first.duration? = none) :
      Element before.contexts (.chord [first, second] token) :=
    .plain (.chord token (Nat.le_refl 2) (by simp [timed undelayed, secondTimed])
      (by simp [undelayed])) rfl rfl
  have closedHere : before.advanced.Closed := closed
  have inside := reads.within closedHere .chord (by decide) fits
  refine advance_orderly (inside.bind ?_)
  intro expression after _ made
  obtain ⟨formed, _, _⟩ := made
  cases formed with
  | note written => exact orderly_pure (pair written)
  | reference name place =>
      exact orderly_pure (pair (by simp [ChordMember.Timed, ChordMember.duration?]))
  | @chord members place several others early =>
      have nonempty : members ≠ [] := by
        rintro rfl
        contradiction
      refine orderly_pure fun undelayed => .plain (.chord token ?_ ?_ ?_) rfl rfl
      · exact Nat.le_succ_of_le several
      · exact List.forall_mem_cons.mpr ⟨timed undelayed, others⟩
      · rw [List.dropLast_cons_of_ne_nil nonempty]
        exact List.forall_mem_cons.mpr ⟨undelayed, early⟩
  | _ => exact orderly_refuse _

theorem orderly_noteFrom (name : Syllable) (fits : before.rest.tail.length < bound) :
    ReadsOne (noteFrom inner name) before := by
  refine advance_orderly (orderly_accidentals.bind fun semitones altered toAltered _ => ?_)
  refine orderly_octaveSuffix.bind fun octave behind toBehind _ => ?_
  have follows := toAltered.trans toBehind
  have closedBehind : behind.Closed := follows.closed closed
  have fewer : behind.rest.tail.length < bound := by
    have shorter := follows.length_le
    have same : before.advanced.rest = before.rest.tail := rfl
    rw [same] at shorter
    have tail := List.length_tail (l := behind.rest)
    omega
  refine check_orderly .slash (fun _ => ?_) fun _ => ?_
  · refine (orderly_chordFrom reads closedBehind _ _ fewer).mono fun _ _ made => ?_
    rw [follows.contexts] at made
    exact made.2 rfl
  · refine orderly_durationSuffix.bind fun duration after _ timed => ?_
    exact orderly_pure (.plain (.note timed) rfl rfl)

/-! ### Calls and names -/

theorem orderly_argumentsFrom (steps : Nat) (found : List Expression)
    (fits : before.rest.length < bound) (enough : before.rest.length < steps)
    (elements : ∀ argument ∈ found, Element before.contexts argument) :
    Orderly (argumentsFrom inner steps found) before fun arguments _ =>
      ∀ argument ∈ arguments, Element before.contexts argument := by
  induction steps generalizing before found with
  | zero => contradiction
  | succ steps inductionHypothesis =>
      refine skipping_orderly _ ?_
      have toHere := follows_skip isWhitespace before
      have shorter := toHere.length_le
      refine check_orderly .endOfFile (fun _ => peek_orderly (orderly_refuse _)) fun _ => ?_
      have argumentRead := reads (before.skip isWhitespace) (toHere.closed closed) (by omega)
      refine argumentRead.bind fun argument after follows made => ?_
      obtain ⟨progress, element⟩ := made
      have all : ∀ other ∈ argument :: found, Element before.contexts other :=
        List.forall_mem_cons.mpr ⟨element, elements⟩
      refine skipping_orderly _ (peek_orderly ?_)
      split
      · refine (advance_orderly ?_).mono fun _ _ made => made.2
        exact orderly_pure fun other member => all other (List.mem_reverse.mp member)
      · have toSign := follows_skip isWhitespace after
        refine (advance_orderly (skipping_orderly _ ?_)).mono fun _ _ made => made.2
        refine check_orderly .rightParen (fun _ => peek_orderly (orderly_refuse _)) fun _ => ?_
        have onward := (((toHere.trans follows).trans toSign).trans
          (follows_advanced _)).trans (follows_skip isWhitespace _)
        have fewer := ((toSign.trans (follows_advanced _)).trans
          (follows_skip isWhitespace _)).length_le
        rw [← onward.contexts] at all ⊢
        exact inductionHypothesis (onward.closed closed) _ (by omega) (by omega) all
      · exact orderly_unexpected _

theorem orderly_argumentList (fits : before.rest.length < bound) :
    Orderly (argumentList inner) before fun arguments _ =>
      ∀ argument ∈ arguments, Element before.contexts argument := by
  refine skipping_orderly _ (check_orderly .rightParen (fun _ => ?_) fun _ => ?_)
  · refine (advance_orderly ?_).mono fun _ _ made => made.2
    exact orderly_pure (List.forall_mem_nil _)
  · have toHere := follows_skip isWhitespace before
    have shorter := toHere.length_le
    exact orderly_argumentsFrom reads (toHere.closed closed) _ [] (by omega)
      (Nat.lt_succ_self _) (List.forall_mem_nil _)

theorem orderly_recoveredArguments (name : Token) (fits : before.rest.length < bound) :
    Orderly (recoveredArguments inner name) before fun arguments _ =>
      (∀ argument ∈ arguments, Element before.contexts argument) ∨
        arguments = [.placeholder name] := by
  refine (orderly_attempt (orderly_argumentList reads closed fits)).bind ?_
  intro result after _ made
  cases result with
  | ok arguments => exact orderly_pure (.inl made)
  | error diagnostic =>
      refine (orderly_report diagnostic).bind fun _ reported _ _ => ?_
      refine (orderly_resumeAt isRightParen).bind fun _ resumed _ _ => ?_
      refine check_orderly .rightParen (fun _ => ?_) fun _ => orderly_pure (.inr rfl)
      exact .from_earlier (follows_advanced resumed) (orderly_pure (.inr rfl)) rfl

theorem orderly_callFrom (name : Token) (fits : before.rest.tail.length < bound) :
    ReadsOne (callFrom inner name) before := by
  have closedInside : (before.advanced.inside .arguments).Closed := closed
  have recovered := orderly_within (orderly_recoveredArguments reads closedInside name fits)
  refine advance_orderly (recovered.bind fun arguments after _ made => orderly_pure ?_)
  refine .plain ?_ rfl rfl
  rcases made with elements | replaced
  · refine .call _ name (fun argument member => (elements argument member).formed) ?_
      (.inr fun argument member => (elements argument member).readable)
    intro argument member
    rw [Bool.eq_false_iff]
    intro isPostfix
    have innermost : Context.arguments = .expression :=
      Option.some.inj ((elements argument member).opened isPostfix)
    contradiction
  · rw [replaced]
    exact .call _ name (by simp [Formed.placeholder]) (by simp [Expression.isPostfix])
      (.inl ⟨name, rfl⟩)

theorem orderly_nameFrom (fits : before.rest.tail.length < bound) :
    ReadsOne (nameFrom inner) before := by
  have fewer : before.advanced.rest.tail.length < bound := by
    have tail := List.length_tail (l := before.advanced.rest)
    have same : before.advanced.rest = before.rest.tail := rfl
    rw [same] at tail ⊢
    omega
  have closedHere : before.advanced.Closed := closed
  refine advance_orderly (peek_orderly ?_)
  split
  · exact (orderly_chordFrom reads closedHere _ _ fewer).mono fun _ _ made => made.2 rfl
  · exact (orderly_callFrom reads closedHere _ fewer).mono fun _ _ made => made.2
  · exact orderly_pure (.plain (.reference _ _) rfl rfl)

/-! ### Holds -/

theorem orderly_holdFrom (fits : before.rest.tail.length < bound) :
    ReadsOne (holdFrom inner) before := by
  have held : Orderly (do skipSpace; inner) (before.advanced.inside .hold)
      fun expression _ => Formed expression := by
    refine skipping_orderly isSpace ?_
    have toHere := follows_skip isSpace (before.advanced.inside .hold)
    have shorter : _ ≤ before.rest.tail.length := toHere.length_le
    exact (reads _ (toHere.closed closed) (by omega)).mono fun _ _ made => made.2.formed
  refine advance_orderly ((orderly_within held).bind fun expression after _ formed => ?_)
  refine .ite (fun can => ?_) fun _ => orderly_refuse _
  refine orderly_pure (.plain (.hold _ ?_ formed) rfl rfl)
  cases expression with
  | note written => exact .note written
  | chord members place => exact .chord members place
  | reference name place => exact .reference name place
  | call name arguments place => exact .call name arguments place
  | _ => contradiction

end Parts

/-! ### Lists -/

/-- What a list holds while it is read, the latest first. No placeholder is in it: behind
one the list ends. -/
structure Collected (outer : List Context) (marked : Bool) (found : List Expression) :
    Prop where
  formed : ∀ element ∈ found, Formed element
  readable : ∀ element ∈ found, element.isPlaceholder = false
  nonempty : marked = true → found ≠ []
  arranged : outer.head? ≠ some .expression → Arranged found.reverse

theorem Collected.nil (outer : List Context) : Collected outer false [] where
  formed := List.forall_mem_nil _
  readable := List.forall_mem_nil _
  nonempty := by
    intro impossible
    contradiction
  arranged _ := Expression.arranged_nil

/-- An element that was read inside of the list joins it. -/
theorem Collected.cons {outer : List Context} {marked : Bool} {found : List Expression}
    {element : Expression} (collected : Collected outer marked found)
    (read : Element (marks marked ++ outer) element) :
    Collected outer true (element :: found) where
  formed := List.forall_mem_cons.mpr ⟨read.formed, collected.formed⟩
  readable := List.forall_mem_cons.mpr ⟨read.readable, collected.readable⟩
  nonempty _ := List.cons_ne_nil _ _
  arranged outside := by
    rw [List.reverse_cons]
    refine (collected.arranged outside).concat ?_ fun isPostfix => ?_
    · intro item member
      exact collected.readable item (List.mem_reverse.mp member)
    · cases marked with
      | true => simpa using collected.nonempty rfl
      | false => exact absurd (read.opened isPostfix) outside

/-- A placeholder ends the list. -/
theorem Collected.formed_placeholder {outer : List Context} {marked : Bool}
    {found : List Expression} (collected : Collected outer marked found) (token : Token) :
    (∀ element ∈ (.placeholder token :: found).reverse, Formed element) ∧
      (outer.head? ≠ some .expression → Arranged (.placeholder token :: found).reverse) := by
  constructor
  · intro element member
    rcases List.mem_cons.mp (List.mem_reverse.mp member) with rfl | earlier
    · exact .placeholder token
    · exact collected.formed element earlier
  · intro outside
    rw [List.reverse_cons]
    refine (collected.arranged outside).concat ?_ fun impossible => ?_
    · intro item member
      exact collected.readable item (List.mem_reverse.mp member)
    · contradiction

section Lists

variable {bound : Nat} {inner : Step Expression} {layout : Layout}
variable (reads : ReadsWithin bound inner) (lawful : layout.Lawful)

include reads lawful

/-- A list is read whatever stands in it. The loop ends within its bound, and leaves the
marker that it may have set. -/
theorem exists_elementsFrom_eq_ok (steps : Nat) (marked : Bool) (found : List Expression)
    {before : Reading} {outer : List Context} (closed : before.Closed)
    (fits : before.rest.length < bound) (enough : before.rest.length < steps)
    (contexts : before.contexts = marks marked ++ outer)
    (collected : Collected outer marked found) :
    ∃ items after, elementsFrom layout inner steps marked found before = .ok items after ∧
      Follows { before with contexts := outer } after ∧
      (∀ item ∈ items, Formed item) ∧ (outer.head? ≠ some .expression → Arranged items) := by
  induction steps generalizing marked found before with
  | zero => contradiction
  | succ steps inductionHypothesis =>
      have toHere := follows_skip layout.separates before
      have closedHere := toHere.closed closed
      have shorter := toHere.length_le
      cases ends : layout.ends (before.skip layout.separates).current.kind with
      | true =>
          refine ⟨_, _, elementsFrom_of_ends ends contexts, ?_, ?_, ?_⟩
          · exact ⟨toHere.rest, rfl, rfl, List.prefix_refl _⟩
          · exact fun item member => collected.formed item (List.mem_reverse.mp member)
          · exact collected.arranged
      | false =>
          have read := reads (before.skip layout.separates) closedHere (by omega)
          cases result : inner (before.skip layout.separates) with
          | ok element after =>
              obtain ⟨follows, progress, element⟩ := read.of_ok result
              have whole := toHere.trans follows
              have elementHere : Element (marks marked ++ outer) _ := contexts ▸ element
              rw [elementsFrom_of_ok ends result]
              have marksHere : marks (!marked) ++ after.contexts = marks true ++ outer := by
                rw [whole.contexts, contexts]
                cases marked <;> rfl
              have closedAfter : Closed
                  { after with contexts := marks (!marked) ++ after.contexts } :=
                whole.closed closed
              obtain ⟨items, final, rest, onward, made⟩ := inductionHypothesis true _
                closedAfter (by dsimp only; omega) (by dsimp only; omega) marksHere
                (collected.cons elementHere)
              refine ⟨items, final, rest, ?_, made⟩
              exact ⟨onward.rest.trans whole.rest, onward.last.trans whole.last,
                onward.contexts, whole.diagnostics.trans onward.diagnostics⟩
          | error halt after =>
              cases halt with
              | fatal diagnostic => exact absurd result read.not_fatal
              | recoverable diagnostic =>
                  have whole := toHere.trans (read.of_recoverable result)
                  have more : (before.skip layout.separates).current.kind ≠ .endOfFile := by
                    intro atEnd
                    rw [atEnd, lawful.ends_endOfFile] at ends
                    contradiction
                  have positive := length_tail_lt closedHere more
                  obtain ⟨others, rfl⟩ : ∃ others, steps = others + 1 :=
                    Nat.exists_eq_succ_of_ne_zero (by omega)
                  refine ⟨_, _, elementsFrom_ends_of_problem lawful (whole.closed closed) ends
                    result (whole.contexts.trans contexts), ?_, collected.formed_placeholder _⟩
                  exact ⟨(resumption_suffix _ _ _).trans whole.rest, whole.last, rfl,
                    whole.diagnostics.trans (List.prefix_append _ _)⟩

theorem orderly_elements {before : Reading} (closed : before.Closed)
    (fits : before.rest.length < bound) :
    Orderly (elements layout inner) before fun items _ =>
      before.contexts.head? ≠ some .expression → FormedList items := by
  obtain ⟨items, after, result, follows, formed, arranged⟩ :=
    exists_elementsFrom_eq_ok reads lawful (before.rest.length + 1) false [] closed fits
      (Nat.lt_succ_self _) rfl (.nil before.contexts)
  have same : elements layout inner before = .ok items after := result
  unfold Orderly
  rw [same]
  exact ⟨follows, fun outside => ⟨arranged outside, formed⟩⟩

end Lists

section Groups

variable {bound : Nat} {inner : Step Expression} {before : Reading}
variable (reads : ReadsWithin bound inner) (closed : before.Closed)

include reads closed

theorem orderly_groupItems (opening : Token) (fits : before.rest.length < bound) :
    Orderly (groupItems inner opening) before fun items _ =>
      before.contexts.head? ≠ some .expression → FormedList items := by
  refine (orderly_elements reads Layout.lawful_group closed fits).bind ?_
  intro items after _ made
  refine check_orderly .rightBracket (fun _ => ?_) fun _ => orderly_refuse _
  exact .from_earlier (follows_advanced after) (orderly_pure made) rfl

theorem orderly_groupFrom (fits : before.rest.tail.length < bound) :
    ReadsOne (groupFrom inner) before := by
  have closedInside : (before.advanced.inside .group).Closed := closed
  have items := orderly_within (orderly_groupItems reads closedInside before.current fits)
  refine advance_orderly (items.bind fun items after _ made => orderly_pure ?_)
  have outside : (before.advanced.inside .group).contexts.head? ≠ some .expression := by
    intro innermost
    have same : Context.group = .expression := Option.some.inj innermost
    contradiction
  obtain ⟨arranged, formed⟩ := made outside
  exact .plain (.group _ arranged formed) rfl rfl

/-! ### All expressions -/

theorem orderly_expressionFrom (fits : before.rest.tail.length < bound) :
    ReadsOne (expressionFrom inner) before := by
  rw [expressionFrom_eq]
  refine peek_orderly ?_
  apply expressionAt_cases (motive := fun _ step => ReadsOne step before)
  · exact fun _ _ begins => orderly_leafFrom (makes_of_leafPhrase? begins)
  · exact orderly_holdFrom reads closed fits
  · exact orderly_groupFrom reads closed fits
  · exact orderly_nameFrom reads closed fits
  · exact fun name => orderly_noteFrom reads closed name fits
  · exact fun _ => orderly_unexpected _

end Groups

/-- Reading an expression never uses up a bound above the number of tokens left. -/
theorem readsWithin_expression (bound : Nat) : ReadsWithin bound (expression bound) := by
  induction bound with
  | zero =>
      intro before _ impossible
      contradiction
  | succ bound inductionHypothesis =>
      intro before closed fits
      by_cases more : before.current.kind = .endOfFile
      · refine peek_orderly ?_
        rw [more]
        exact orderly_unexpected _
      · have shorter := length_tail_lt closed more
        refine (orderly_expressionFrom inductionHypothesis closed (by omega)).mono ?_
        intro expression rest made
        have left := made.1.length_le
        exact ⟨by omega, made.2⟩

/-- A body is read whatever stands in it. -/
theorem orderly_body {before : Reading} (closed : before.Closed) :
    Orderly body before fun items _ =>
      before.contexts.head? ≠ some .expression → FormedList items :=
  .from_earlier (.refl before)
    (orderly_elements (readsWithin_expression (before.rest.length + 1)) Layout.lawful_body closed
      (Nat.lt_succ_self _)) rfl

end Solfege.Reading
