import Solfege.Proofs.Names.Source
import Solfege.Proofs.Numbers.Expression
import Solfege.Proofs.Reading.Rounds
import Solfege.Proofs.Tokens.Numbers

/-!
Contract: no number of a score is read as another one.

Owns:
- the proof, for each step of the grammar of statements, that it heeds the number;
- the proof that a number without a value is a fault of the score that is reported at it, or is
  skipped behind another fault and does not matter at all;
- the proof that every number of a source has the value of its digits or is such a number.

Does not own: expressions.
-/

namespace Solfege

namespace Reading

section Statements

variable {number : Oversized} {before : Reading}

/-! ### Metadata and tracks -/

theorem heeds_metadataStatement (entry : String → Metadata)
    (otherwise : before.current ≠ number.token) :
    Heeds number (metadataStatement entry) before :=
  advance_heeds otherwise ((heeds_skipping rfl).bind fun _ _ =>
    (heeds_expect_other (by decide) _).bind fun _ _ => (heeds_skipping rfl).bind fun _ _ =>
      (heeds_expect_other (by decide) _).bind fun text _ =>
        (heeds_stringValue text).bind fun _ _ => heeds_pure _)

theorem heeds_optionalString : Heeds number optionalString before := by
  refine check_heeds .string (fun string => ?_) fun _ => heeds_pure _
  exact advance_heeds (number.ne_of_kind string (by decide)) ((heeds_stringValue _).bind
    fun _ _ => (heeds_skipping rfl).bind fun _ _ => heeds_pure _)

theorem heeds_trackStatement (otherwise : before.current ≠ number.token) :
    Heeds number trackStatement before :=
  advance_heeds otherwise ((heeds_skipping rfl).bind fun _ _ =>
    heeds_optionalString.bind fun _ _ => (heeds_expect_other (by decide) _).bind
      fun _ _ => heeds_pure _)

/-! ### Macros -/

theorem heeds_behindParameters {further : List String → Step (List String)}
    (heeds : ∀ parameters behind, Heeds number (further parameters) behind)
    (parameters : List String) : Heeds number (behindParameters further parameters) before := by
  refine (heeds_skipping rfl).bind fun _ after => check_heeds .comma (fun comma => ?_) fun _ => ?_
  · refine advance_heeds (number.ne_of_kind comma (by decide)) ((heeds_skipping rfl).bind
      fun _ after => check_heeds .rightParen (fun closing => ?_) fun _ => heeds parameters _)
    exact peek_heeds_other (number.ne_of_kind closing (by decide)) (heeds_refuse _)
  · exact (heeds_expect_other (by decide) _).bind fun _ _ => heeds_pure _

theorem heeds_parametersFrom (bound : Nat) (found : List String) :
    Heeds number (parametersFrom bound found) before := by
  induction bound generalizing found before with
  | zero => exact heeds_abort _
  | succ bound inductionHypothesis =>
      rw [parametersFrom_eq]
      refine (heeds_skipping rfl).bind fun _ _ => (heeds_expect_other (by decide) _).bind
        fun written behind => .ite (fun _ => ?_) fun _ => ?_
      · exact report_heeds _ fun _ _ =>
          heeds_behindParameters (fun _ _ => inductionHypothesis _) found
      · exact heeds_behindParameters (fun _ _ => inductionHypothesis _) _

theorem heeds_parameterList (otherwise : before.current ≠ number.token) :
    Heeds number parameterList before := by
  refine advance_heeds otherwise ((heeds_skipping rfl).bind fun _ after =>
    check_heeds .rightParen (fun closing => ?_) fun _ => ?_)
  · exact advance_heeds (number.ne_of_kind closing (by decide)) (heeds_pure _)
  · exact .at_length fun bound => heeds_parametersFrom bound []

theorem heeds_behindHead (name : Token) (parameters : List String) :
    Heeds number (behindHead name parameters) before :=
  (heeds_skipping rfl).bind fun _ _ => (heeds_expect_other (by decide) _).bind fun _ _ =>
    heeds_body.bind fun _ _ => heeds_pure _

theorem heeds_macroFrom (name : Token) : Heeds number (macroFrom name) before := by
  rw [macroFrom_eq]
  refine check_heeds .leftParen (fun opening => ?_) fun _ => heeds_behindHead name []
  exact (heeds_parameterList (number.ne_of_kind opening (by decide))).bind
    fun parameters _ => heeds_behindHead name parameters

/-! ### Movements -/

theorem heeds_movementFrom (instrument : Token) :
    Heeds number (movementFrom instrument) before :=
  heeds_optionalString.bind fun _ _ => (heeds_expect_other (by decide) _).bind fun _ _ =>
    heeds_body.bind fun _ _ => heeds_pure _

theorem heeds_definitionStatement (otherwise : before.current ≠ number.token) :
    Heeds number definitionStatement before := by
  rw [definitionStatement_eq]
  refine advance_heeds otherwise ((heeds_skipping rfl).bind fun _ behind =>
    peek_heeds_of_kind rfl ?_)
  refine .ite (fun _ => ?_) fun _ => .ite (fun _ => ?_) fun _ => heeds_unexpected _
  · exact (heeds_within .definition (heeds_macroFrom _)).bind fun _ _ => heeds_pure _
  · exact (heeds_within .movement (heeds_movementFrom _)).bind fun _ _ => heeds_pure _

/-! ### Sequences of statements -/

theorem heeds_statement : Heeds number statement before := by
  refine peek_heeds_of_kind rfl ?_
  split
  · exact heeds_metadataStatement .title (number.ne_of_kind ‹_› (by decide))
  · exact heeds_metadataStatement .copyRight (number.ne_of_kind ‹_› (by decide))
  · exact heeds_trackStatement (number.ne_of_kind ‹_› (by decide))
  · exact heeds_definitionStatement (number.ne_of_kind ‹_› (by decide))
  · exact heeds_unexpected _

theorem heeds_statementEnd (read : Statement) : Heeds number (statementEnd read) before := by
  unfold statementEnd
  split
  · exact (heeds_skipping rfl).bind fun _ _ => peek_heeds_of_kind rfl
      (.ite (fun _ => heeds_pure _) fun _ => heeds_unexpected _)
  · exact heeds_pure _

theorem heeds_addStatement (score : Score) (read : Statement) :
    Heeds number (addStatement score read) before := by
  rcases addStatement_eq score read with ⟨diagnostic, reports⟩ | ⟨adds, _⟩
  · rw [reports]
    exact report_heeds diagnostic fun _ _ => heeds_pure _
  · rw [adds]
    exact heeds_pure _

theorem heeds_skipStatement (diagnostic : Diagnostic) :
    Heeds number (skipStatement diagnostic) before :=
  report_heeds diagnostic fun _ reported => heeds_resumeAt rfl reported

theorem faults_skipStatement {diagnostic : Diagnostic} (fault : number.token.IsFault diagnostic) :
    Faults number (skipStatement diagnostic) before :=
  report_faults fault fun _ reported => heeds_resumeAt rfl reported

theorem heeds_readStatement (score : Score) : Heeds number (readStatement score) before := by
  have skipped (left : Score) (diagnostic : Diagnostic) (after : Reading) :
      Heeds number (do skipStatement diagnostic; pure left : Step Score) after :=
    (heeds_skipStatement diagnostic).bind fun _ _ => heeds_pure _
  have told (left : Score) (diagnostic : Diagnostic) (after : Reading)
      (fault : number.token.IsFault diagnostic) :
      Faults number (do skipStatement diagnostic; pure left : Step Score) after :=
    (faults_skipStatement fault).bind fun _ _ => heeds_pure _
  refine attempt_heeds heeds_statement (fun read _ => ?_) (skipped score) (told score)
  exact (heeds_addStatement score read).bind fun extended _ =>
    attempt_heeds (heeds_statementEnd read) (fun _ _ => heeds_pure _) (skipped extended)
      (told extended)

theorem heeds_statementsFrom (bound : Nat) (score : Score) :
    Heeds number (statementsFrom bound score) before := by
  induction bound generalizing score before with
  | zero => exact heeds_abort _
  | succ bound inductionHypothesis =>
      refine (heeds_skipping rfl).bind fun _ _ => check_heeds .endOfFile (fun _ => heeds_pure _)
        fun _ => (heeds_readStatement score).bind fun extended _ => inductionHypothesis extended

theorem heeds_statements (score : Score) : Heeds number (statements score) before := by
  refine Heeds.bind (.at_length fun bound => heeds_statementsFrom bound score)
    fun filled ended => ?_
  cases contexts : ended.contexts with
  | nil =>
      refine .of_onward ?_ (List.Subset.refl _) (fun twin beside => .inr ⟨twin, ?_, beside⟩)
        (heeds_pure filled)
      · simp only [contexts]
        rfl
      · simp only [beside.contexts_eq, contexts]
        rfl
  | cons context outer =>
      unfold Heeds
      simp only [contexts]
      trivial

end Statements

/-! ### The whole input -/

variable (number : Oversized) (front : List Token) {behind : List Token}

/-- Readers of lists of tokens are beside each other if the lists differ in the text of the
number. -/
theorem beside_ofTokens (more : behind ≠ []) :
    Beside number (ofTokens (front ++ number.token :: behind))
      (ofTokens (front ++ number.replacement :: behind)) := by
  obtain ⟨back, last, around⟩ := exists_ofTokens_around front more
  rw [around, around]
  exact .ahead front back last [] []

end Reading

open Reading

namespace Score

variable {front behind : List Token} {trackName : String}

theorem opened_replacement (number : Oversized) :
    opened (front ++ number.replacement :: behind) trackName =
      opened (front ++ number.token :: behind) trackName := by
  unfold opened
  rw [List.any_append, List.any_append, List.any_cons, List.any_cons]
  rfl

/-- At the end of the file the number is not to come any more. So there is a fault at it, or it
was skipped behind another fault, and the same is read with its replacement. -/
theorem fault_or_skipped_of_ok (number : Oversized) (more : behind ≠ [])
    (ends : ∀ token ∈ (front ++ number.token :: behind).dropLast, token.kind ≠ .endOfFile)
    {filled : Score} {after : Reading}
    (result : Reading.statements (opened (front ++ number.token :: behind) trackName)
      (Reading.ofTokens (front ++ number.token :: behind)) = .ok filled after)
    (follows : Follows (Reading.ofTokens (front ++ number.token :: behind)) after) :
    Faulted number after ∨ after.diagnostics ≠ [] ∧
      ofTokens (front ++ number.replacement :: behind) trackName =
        .ok { filled with diagnostics := after.diagnostics } := by
  rcases ((heeds_statements _).of_ok result).2 _ (beside_ofTokens number front more) with
    faulted | ⟨there, same, still⟩
  · exact .inl faulted
  refine .inr ?_
  cases still with
  | passed _ reported =>
      rw [← opened_replacement] at same
      exact ⟨reported, ofTokens_of_ok same⟩
  | ahead left back last contexts diagnostics =>
      -- The end of the file is in front of the number, though it is the last of all tokens.
      have atEnd := (rounds_statementsFrom (closed_ofTokens _) (statements_of_ok result)).2
      obtain ⟨_, _, _, none⟩ := exists_rest_ofTokens (front ++ number.token :: behind)
      have current : (⟨left ++ number.token :: back, last, contexts, diagnostics⟩ :
          Reading).current ∈ left ++ number.token :: back := by
        cases left with
        | nil => exact List.mem_cons_self
        | cons first rest => exact List.mem_cons_self
      exact absurd atEnd (none ends _ (follows.rest.mem current))

/-- A number without a value is a fault of the score, or it was skipped behind another one, and
then its text does not matter. -/
theorem fault_or_skipped {token : Token} (isNumber : token.kind = .number)
    (noValue : token.number? = none) (more : behind ≠ [])
    (ends : ∀ other ∈ (front ++ token :: behind).dropLast, other.kind ≠ .endOfFile) :
    ∃ score, ofTokens (front ++ token :: behind) trackName = .ok score ∧
      ((∃ diagnostic ∈ score.diagnostics, token.IsFault diagnostic) ∨
        score.diagnostics ≠ [] ∧ ∀ text,
          ofTokens (front ++ { token with text := text } :: behind) trackName = .ok score) := by
  obtain ⟨standing, after, result, follows, _⟩ := exists_statements_eq_ok
    (opened (front ++ token :: behind) trackName) (closed_ofTokens _) (contexts_ofTokens _)
  refine ⟨_, ofTokens_of_ok result, ?_⟩
  have either (text : String) :=
    fault_or_skipped_of_ok ⟨token, isNumber, noValue, text⟩ more ends result follows
  by_cases fault : ∃ diagnostic ∈ after.diagnostics, token.IsFault diagnostic
  · exact .inl fault
  · exact .inr ⟨((either "").resolve_left fault).1,
      fun text => ((either text).resolve_left fault).2⟩

end Score

/-! ### Main result -/

/-- In front of the end of the file there is no other one, and a token there is not the last. -/
theorem Token.ends_of_tokenize {source : String} {tokens before behind : List Token}
    {token : Token} (tokenized : tokenize source = .ok tokens)
    (split : tokens = before ++ token :: behind) (more : token.kind ≠ .endOfFile) :
    behind ≠ [] ∧ ∀ other ∈ tokens.dropLast, other.kind ≠ .endOfFile := by
  obtain ⟨final, last, closing⟩ := (ordered_of_tokenize tokenized).ends
  obtain ⟨lexemes, run, rfl⟩ := tokenize_eq_ok_iff.mp tokenized
  refine ⟨?_, kind_ne_of_mem_dropLast run .start⟩
  rintro rfl
  rw [split, List.getLast?_concat] at last
  rw [Option.some.inj last] at more
  exact more closing

/-- **Numbers never wrap.** A number token of a source is a run of digits with one unit at most,
and the source does not go on with a further digit or a unit behind the digits alone. Its value
is that of the digits if it is below the 32nd power of two, and else it has none. Reading takes
just this value, also where a number is expected, and stops at the number if there is none. In
the score that the tokens spell there is a fault at such a number then, unless it was skipped
behind another fault, so that with any text in its place the score would be the same. -/
theorem Token.numbers_never_wrap {source : String} {tokens before behind : List Token}
    {token : Token} (tokenized : tokenize source = .ok tokens)
    (split : tokens = before ++ token :: behind) (isNumber : token.kind = .number) :
    ∃ (numeral : Numeral) (front rest : List Char),
      (source.toList = front ++ numeral.text ++ rest ∧ token.text.toList = numeral.text ∧
        token.position = .behind front ∧ numeral.EndsBefore rest) ∧
      token.number? = (if numeral.value < 2 ^ 32 then some numeral.value else none) ∧
      (∀ reading, numberValue token reading =
        if numeral.value < 2 ^ 32 then
          .ok numeral.value reading
        else
          .error (.recoverable (Diagnostic.syntaxAt token (.numberOutOfRange token))) reading) ∧
      (∀ reading expected, reading.current = token →
        expectNumber expected reading = numberValue token reading.advanced) ∧
      (2 ^ 32 ≤ numeral.value → ∀ trackName, ∃ score, Score.ofTokens tokens trackName = .ok score ∧
        ((∃ diagnostic ∈ score.diagnostics, token.IsFault diagnostic) ∨
          score.diagnostics ≠ [] ∧ ∀ text,
            Score.ofTokens (before ++ { token with text := text } :: behind) trackName =
              .ok score)) := by
  obtain ⟨numeral, front, rest, whole, spells, place, ends⟩ :=
    exists_numeral tokenized split isNumber
  have value : token.number? =
      if numeral.value < 2 ^ 32 then some numeral.value else none :=
    numeral.number?_eq isNumber spells
  refine ⟨numeral, front, rest, ⟨whole, spells, place, ends⟩, value, fun reading => ?_,
    fun reading expected here => ?_, fun large trackName => ?_⟩
  · unfold numberValue
    rw [value]
    by_cases small : numeral.value < 2 ^ 32
    · rw [if_pos small, if_pos small]
      rfl
    · rw [if_neg small, if_neg small]
      rfl
  · rw [← here] at isNumber ⊢
    exact expectNumber_of_number expected isNumber
  · have noValue : token.number? = none := value.trans (if_neg (Nat.not_lt.mpr large))
    obtain ⟨more, once⟩ := ends_of_tokenize tokenized split (by rw [isNumber]; decide)
    subst split
    exact Score.fault_or_skipped isNumber noValue more once

/-- A duration that is too large is a fault. A number that is too large as well, behind a sign
that begins no statement, is skipped. -/
theorem Token.numbers_never_wrap_two_lines :
    ∃ (front middle behind : List Token) (wide late : Token) (score : Score),
      tokenize "piano: do:4294967296\n= 4294967296ms" =
          .ok (front ++ wide :: (middle ++ late :: behind)) ∧
        wide.number? = none ∧ late.number? = none ∧
        Score.ofTokens (front ++ wide :: (middle ++ late :: behind)) "global" = .ok score ∧
        (∃ diagnostic ∈ score.diagnostics, wide.IsFault diagnostic) ∧
        ∀ text, Score.ofTokens (front ++ wide :: middle ++ { late with text := text } :: behind)
          "global" = .ok score := by
  let front : List Token := [⟨"piano", .word, ⟨1, 1⟩⟩, ⟨":", .colon, ⟨1, 6⟩⟩,
    ⟨" ", .space, ⟨1, 7⟩⟩, ⟨"do", .note .ut, ⟨1, 8⟩⟩, ⟨":", .colon, ⟨1, 10⟩⟩]
  let wide : Token := ⟨"4294967296", .number, ⟨1, 11⟩⟩
  let middle : List Token := [⟨"\n", .newline, ⟨1, 21⟩⟩, ⟨"=", .equals, ⟨2, 1⟩⟩,
    ⟨" ", .space, ⟨2, 2⟩⟩]
  let late : Token := ⟨"4294967296ms", .number, ⟨2, 3⟩⟩
  let behind : List Token := [endOfFileAt ⟨2, 15⟩]
  have tokenized : tokenize "piano: do:4294967296\n= 4294967296ms" =
      .ok (front ++ wide :: (middle ++ late :: behind)) := by decide +kernel
  have large {numeral : Numeral} {token : Token} (noValue : token.number? = none)
      (value : token.number? =
        if numeral.value < 2 ^ 32 then some numeral.value else none) :
      2 ^ 32 ≤ numeral.value := by
    by_contra small
    rw [noValue, if_pos (Nat.not_le.mp small)] at value
    contradiction
  have noValue : wide.number? = none ∧ late.number? = none := by decide +kernel
  obtain ⟨_, _, _, _, value, _, _, reported⟩ := numbers_never_wrap tokenized rfl rfl
  obtain ⟨score, read, outcome⟩ := reported (large noValue.1 value) "global"
  obtain ⟨_, _, _, _, lateValue, _, _, lateReported⟩ :=
    @numbers_never_wrap _ _ (front ++ wide :: middle) behind late tokenized rfl rfl
  obtain ⟨lateScore, lateRead, lateOutcome⟩ := lateReported (large noValue.2 lateValue) "global"
  obtain rfl := Except.ok.inj (read.symm.trans lateRead)
  have places : (Score.ofTokens (front ++ wide :: (middle ++ late :: behind))
      "global").toOption.map (·.diagnostics.map Diagnostic.position) =
        some [⟨1, 11⟩, ⟨2, 1⟩] := by decide +kernel
  have shorter : (Score.ofTokens (front ++ { wide with text := "1" } ::
      (middle ++ late :: behind)) "global").toOption.map (·.diagnostics.map Diagnostic.position) =
        some [⟨2, 1⟩] := by decide +kernel
  rw [read] at places
  have known : score.diagnostics.map Diagnostic.position = [⟨1, 11⟩, ⟨2, 1⟩] :=
    Option.some.inj places
  refine ⟨front, middle, behind, wide, late, score, tokenized, noValue.1, noValue.2, read,
    outcome.resolve_right fun skipped => ?_, (lateOutcome.resolve_left fun fault => ?_).2⟩
  · rw [skipped.2 "1"] at shorter
    exact absurd (places.symm.trans shorter) (by decide)
  · obtain ⟨diagnostic, member, fault⟩ := fault
    have place : diagnostic.position = ⟨2, 3⟩ := fault.kind_and_position.2
    have among := List.mem_map_of_mem (f := Diagnostic.position) member
    rw [known, place] at among
    exact absurd among (by decide)

end Solfege
