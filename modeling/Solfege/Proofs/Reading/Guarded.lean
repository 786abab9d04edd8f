import Solfege.Proofs.Reading.Expression

/-!
Contract: an expression inside of another one is read behind a token of the outer one.

Owns:
- readers that do the same wherever less tokens than a bound are left;
- the proof that what a step of the grammar makes of a reading depends on the reader for the
  expressions inside only where less tokens are left;
- the proof that the bound on the nesting of expressions never shows.

Does not own: the loops of the grammar, which repeat such steps.

A call that would read at the place where the outer expression began could be told from the
result, because the two readers may differ there in whatever way.
-/

namespace Solfege.Reading

/-- The readers do the same wherever less tokens than the bound are left. -/
def Agree (bound : Nat) (first second : Step Expression) : Prop :=
  ∀ reading : Reading, reading.Closed → reading.rest.length < bound →
    first reading = second reading

/-- From a state on, the construct depends on the reader for the expressions inside only where
less tokens are left. -/
def Guarded {α : Type} (construct : Step Expression → Step α) (before : Reading) : Prop :=
  ∀ first second, ReadsWithin before.rest.length first → Agree before.rest.length first second →
    construct first before = construct second before

theorem ReadsWithin.mono {bound fewer : Nat} {step : Step Expression}
    (reads : ReadsWithin bound step) (le : fewer ≤ bound) : ReadsWithin fewer step :=
  fun before closed fits => reads before closed (Nat.lt_of_lt_of_le fits le)

/-! ### Steps put together -/

section Building

variable {α β : Type} {step other : Step α} {before : Reading}

theorem bind_congr_left {next : α → Step β} (same : step before = other before) :
    (step >>= next) before = (other >>= next) before := by
  rw [bind_eq_handle, bind_eq_handle]
  dsimp only
  rw [same]

/-- What comes behind an orderly step has to be the same where that step ends. -/
theorem Orderly.bind_congr {made : α → List Token → Prop} {next onward : α → Step β}
    (orderly : Orderly step before made)
    (same : ∀ value after, Follows before after → next value after = onward value after) :
    (step >>= next) before = (step >>= onward) before := by
  cases result : step before with
  | ok value after =>
      rw [bind_of_ok result, bind_of_ok result]
      exact same value after (orderly.of_ok result).1
  | error halt after => rw [bind_of_error result, bind_of_error result]

theorem peek_congr_behind {next onward : Token → Step β}
    (same : next before.current before = onward before.current before) :
    (peek >>= next) before = (peek >>= onward) before :=
  same

theorem advance_congr_behind {next onward : Token → Step β}
    (same : next before.current before.advanced = onward before.current before.advanced) :
    (advance >>= next) before = (advance >>= onward) before :=
  same

theorem skipping_congr_behind {next onward : Unit → Step β} (test : Token.Kind → Bool)
    (same : next () (before.skip test) = onward () (before.skip test)) :
    (skipping test >>= next) before = (skipping test >>= onward) before :=
  same

theorem check_congr {third fourth : Step α} (kind : Token.Kind)
    (is : before.current.kind = kind → step before = other before)
    (isNot : before.current.kind ≠ kind → third before = fourth before) :
    (do if ← check kind then step else third) before =
      (do if ← check kind then other else fourth) before := by
  rw [check_then, check_then]
  by_cases here : before.current.kind = kind
  · rw [if_pos here, if_pos here]
    exact is here
  · rw [if_neg here, if_neg here]
    exact isNot here

theorem attempt_congr (same : step before = other before) :
    attempt step before = attempt other before := by
  unfold attempt
  rw [same]

theorem within_congr {context : Context}
    (same : step (before.inside context) = other (before.inside context)) :
    within context step before = within context other before := by
  cases result : step (before.inside context) with
  | ok value after => rw [within_of_ok result, within_of_ok (same ▸ result)]
  | error halt after => rw [within_of_error result, within_of_error (same ▸ result)]

end Building

/-! ### Expressions with expressions inside -/

section Parts

variable {bound : Nat} {first second : Step Expression} {before : Reading}
variable (agree : Agree bound first second)

section Behind

variable (closed : before.Closed) (fits : before.rest.tail.length < bound)

include agree closed fits

theorem chordFrom_congr (member : ChordMember) (token : Token) :
    chordFrom first member token before = chordFrom second member token before :=
  advance_congr_behind (bind_congr_left (within_congr (agree _ closed fits)))

theorem noteFrom_congr (name : Syllable) :
    noteFrom first name before = noteFrom second name before := by
  refine advance_congr_behind ?_
  refine orderly_accidentals.bind_congr fun semitones altered toAltered => ?_
  refine orderly_octaveSuffix.bind_congr fun octave behind toBehind => ?_
  have follows := toAltered.trans toBehind
  have shorter : behind.rest.length ≤ before.rest.tail.length := follows.length_le
  have tail := List.length_tail (l := behind.rest)
  exact check_congr .slash
    (fun _ => chordFrom_congr agree (follows.closed closed) (by omega) _ _) fun _ => rfl

theorem holdFrom_congr : holdFrom first before = holdFrom second before := by
  have toHere := follows_skip isSpace (before.advanced.inside .hold)
  have shorter : _ ≤ before.rest.tail.length := toHere.length_le
  refine advance_congr_behind (bind_congr_left (within_congr (skipping_congr_behind isSpace ?_)))
  exact agree _ (toHere.closed closed) (by omega)

end Behind

variable (reads : ReadsWithin bound first) (closed : before.Closed)

include agree reads closed

/-! ### Calls and names -/

theorem argumentsFrom_congr (steps : Nat) (found : List Expression)
    (fits : before.rest.length < bound) :
    argumentsFrom first steps found before = argumentsFrom second steps found before := by
  induction steps generalizing before found with
  | zero => rfl
  | succ steps inductionHypothesis =>
      have toHere := follows_skip isWhitespace before
      have shorter := toHere.length_le
      have closedHere := toHere.closed closed
      have fitsHere : (before.skip isWhitespace).rest.length < bound := by omega
      refine skipping_congr_behind isWhitespace (check_congr .endOfFile (fun _ => rfl) fun _ => ?_)
      have argument := reads _ closedHere fitsHere
      refine Eq.trans ?_ (bind_congr_left (agree _ closedHere fitsHere))
      refine argument.bind_congr fun value after toAfter => ?_
      have toSign := follows_skip isWhitespace after
      refine skipping_congr_behind isWhitespace (peek_congr_behind ?_)
      cases (after.skip isWhitespace).current.kind with
      | comma =>
          have onward := (toSign.trans (follows_advanced _)).trans (follows_skip isWhitespace _)
          have fewer := (toAfter.trans onward).length_le
          refine advance_congr_behind (skipping_congr_behind isWhitespace ?_)
          exact check_congr .rightParen (fun _ => rfl)
            fun _ => inductionHypothesis ((toAfter.trans onward).closed closedHere) _ (by omega)
      | _ => rfl

theorem argumentList_congr (fits : before.rest.length < bound) :
    argumentList first before = argumentList second before := by
  have toHere := follows_skip isWhitespace before
  have shorter := toHere.length_le
  exact skipping_congr_behind isWhitespace (check_congr .rightParen (fun _ => rfl)
    fun _ => argumentsFrom_congr agree reads (toHere.closed closed) _ [] (by omega))

theorem callFrom_congr (name : Token) (fits : before.rest.tail.length < bound) :
    callFrom first name before = callFrom second name before := by
  have closedInside : (before.advanced.inside .arguments).Closed := closed
  have arguments : argumentList first (before.advanced.inside .arguments) =
      argumentList second (before.advanced.inside .arguments) :=
    argumentList_congr agree reads closedInside fits
  have recovered : recoveredArguments first name (before.advanced.inside .arguments) =
      recoveredArguments second name (before.advanced.inside .arguments) :=
    bind_congr_left (attempt_congr arguments)
  exact advance_congr_behind (bind_congr_left (within_congr recovered))

theorem nameFrom_congr (fits : before.rest.tail.length < bound) :
    nameFrom first before = nameFrom second before := by
  have closedHere : before.advanced.Closed := closed
  have tail : before.advanced.rest.tail.length ≤ before.rest.tail.length :=
    (List.tail_suffix _).length_le
  refine advance_congr_behind (peek_congr_behind ?_)
  cases before.advanced.current.kind with
  | slash => exact chordFrom_congr agree closedHere (by omega) _ _
  | leftParen => exact callFrom_congr agree reads closedHere _ (by omega)
  | _ => rfl

/-! ### Lists -/

theorem elementsFrom_congr (layout : Layout) (steps : Nat) (marked : Bool)
    (found : List Expression) (fits : before.rest.length < bound) :
    elementsFrom layout first steps marked found before =
      elementsFrom layout second steps marked found before := by
  induction steps generalizing before marked found with
  | zero => rfl
  | succ steps inductionHypothesis =>
      have toHere := follows_skip layout.separates before
      have shorter := toHere.length_le
      have fitsHere : (before.skip layout.separates).rest.length < bound := by omega
      have same := agree _ (toHere.closed closed) fitsHere
      have read := reads _ (toHere.closed closed) fitsHere
      cases ends : layout.ends (before.skip layout.separates).current.kind with
      | true => rw [elementsFrom_eq_leaveList ends, elementsFrom_eq_leaveList ends]
      | false =>
          cases result : first (before.skip layout.separates) with
          | ok element after =>
              obtain ⟨follows, progress, _⟩ := read.of_ok result
              have closedAfter : Closed
                  { after with contexts := marks (!marked) ++ after.contexts } :=
                (toHere.trans follows).closed closed
              have fewer : after.rest.length < bound := by omega
              rw [elementsFrom_of_ok ends result, elementsFrom_of_ok ends (same ▸ result)]
              exact inductionHypothesis closedAfter _ _ fewer
          | error halt after =>
              cases halt with
              | fatal diagnostic => exact absurd result read.not_fatal
              | recoverable diagnostic =>
                  have follows := read.of_recoverable result
                  have closedAfter : Closed (resumed layout diagnostic after) :=
                    (toHere.trans follows).closed closed
                  have left := follows.length_le
                  have fewer : (resumed layout diagnostic after).rest.length ≤ after.rest.length :=
                    (resumption_suffix _ _ _).length_le
                  rw [elementsFrom_of_problem ends result,
                    elementsFrom_of_problem ends (same ▸ result)]
                  exact inductionHypothesis closedAfter _ _ (by omega)

theorem groupFrom_congr (fits : before.rest.tail.length < bound) :
    groupFrom first before = groupFrom second before := by
  have closedInside : (before.advanced.inside .group).Closed := closed
  have items : elements .group first (before.advanced.inside .group) =
      elements .group second (before.advanced.inside .group) :=
    elementsFrom_congr agree reads closedInside _ _ _ _ fits
  exact advance_congr_behind (bind_congr_left (within_congr (bind_congr_left items)))

/-! ### All expressions -/

theorem expressionFrom_congr (fits : before.rest.tail.length < bound) :
    expressionFrom first before = expressionFrom second before := by
  refine peek_congr_behind ?_
  cases before.current.kind with
  | leftParen => exact holdFrom_congr agree closed fits
  | leftBracket => exact groupFrom_congr agree reads closed fits
  | word => exact nameFrom_congr agree reads closed fits
  | note name => exact noteFrom_congr agree closed fits name
  | _ => rfl

end Parts

/-! ### Guarded constructs -/

/-- The constructs that hold expressions, each with the kind of the sign that it begins with. -/
inductive Construct : Token.Kind → (Step Expression → Step Expression) → Prop where
  | hold : Construct .leftParen holdFrom
  | chord (first : ChordMember) (token : Token) :
      Construct .slash fun inner => chordFrom inner first token
  | group : Construct .leftBracket groupFrom
  | call (name : Token) : Construct .leftParen fun inner => callFrom inner name

section Guarded

variable {before : Reading}

/-- A construct reads its sign before it reads an expression inside. -/
theorem Construct.guarded {sign : Token.Kind} {construct : Step Expression → Step Expression}
    (holds : Construct sign construct) (closed : before.Closed)
    (here : before.current.kind = sign) : Guarded construct before := by
  intro first second reads agree
  have more : before.current.kind ≠ .endOfFile := by
    rw [here]
    cases holds <;> decide
  have fits := length_tail_lt closed more
  cases holds with
  | hold => exact holdFrom_congr agree closed fits
  | chord member token => exact chordFrom_congr agree closed fits member token
  | group => exact groupFrom_congr agree reads closed fits
  | call name => exact callFrom_congr agree reads closed name fits

/-- Between the beginning of an expression and that of one inside of it, a token is read. -/
theorem guarded_expressionFrom (closed : before.Closed) : Guarded expressionFrom before := by
  intro first second reads agree
  by_cases more : before.current.kind = .endOfFile
  · refine peek_congr_behind ?_
    rw [more]
  · exact expressionFrom_congr agree reads closed (length_tail_lt closed more)

/-! ### The bound on the nesting -/

/-- Two bounds above the number of tokens that are left make no difference. -/
theorem expression_congr {bound other : Nat} (closed : before.Closed)
    (fits : before.rest.length < bound) (fitsOther : before.rest.length < other) :
    expression bound before = expression other before := by
  induction bound generalizing other before with
  | zero => contradiction
  | succ bound inductionHypothesis =>
      obtain ⟨fewer, rfl⟩ := Nat.exists_eq_succ_of_ne_zero (Nat.ne_of_gt
        (Nat.lt_of_le_of_lt (Nat.zero_le _) fitsOther))
      refine guarded_expressionFrom closed _ _
        ((readsWithin_expression bound).mono (by omega)) fun reading closedThere shorter => ?_
      exact inductionHypothesis closedThere (by omega) (by omega)

/-- Where less tokens than the bound are left, the reader of expressions may call itself. -/
theorem expression_eq_expressionFrom {bound : Nat} (closed : before.Closed)
    (fits : before.rest.length < bound) :
    expression bound before = expressionFrom (expression bound) before :=
  expression_congr closed fits (Nat.lt_succ_of_lt fits)

end Guarded

end Solfege.Reading
