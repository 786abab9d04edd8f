import Solfege.Proofs.Reading.Clauses
import Solfege.Proofs.Reading.Expression

/-!
Contract: reading statements is orderly, and a score is what its statements make of it.

Owns:
- what each step of the grammar of statements makes, and that it is orderly;
- the statements that stand in a list of tokens, in their order;
- the proof that every list of tokens is read, and that the score is built from the
  statements that stand in it and from nothing else.

Does not own: what is reported of a statement.
-/

namespace Solfege

open Expression (FormedList)

/-- The score when a statement has been added. -/
def Score.extended (score : Score) : Reading.Statement → Score
  | .metadata entry _ => score.addMetadata entry
  | .track name => score.addTrack name
  | .definition added => (score.addMacro added).1
  | .movement added => (score.addMovement added).1

/-- The score into which the statements of a list of tokens are read. -/
def Score.opened (tokens : List Token) (trackName : String) : Score :=
  if tokens.any fun token => token.kind = .track then empty else empty.addTrack trackName

namespace Reading

/-- The expressions of the statement have the shape in which lists are read. -/
def Statement.Formed : Statement → Prop
  | .definition added => FormedList added.body
  | .movement added => FormedList added.expressions
  | _ => True

/-- The first token of a list that is no blank has a kind. -/
def SignIs (tokens : List Token) (kind : Token.Kind) : Prop :=
  ∃ sign, (tokens.dropWhile fun token => isSpace token.kind).head? = some sign ∧
    sign.kind = kind

/-- The statement begins with a token, and goes on as it must behind it. -/
def Statement.Begins (first : Token) (behind : List Token) : Statement → Prop
  | .metadata _ keyword => keyword = first
  | .track _ => first.kind = .track
  | .definition added =>
      added.token = first ∧ added.name = first.text ∧
        (SignIs behind .equals ∨ SignIs behind .leftParen)
  | .movement added =>
      added.token = first ∧ added.instrument = first.text ∧
        (SignIs behind .string ∨ SignIs behind .colon)

/-- The statements stand in a list of tokens, one behind the other. -/
inductive Stand : List Statement → List Token → Prop where
  | nil (tokens : List Token) : Stand [] tokens
  | cons {statement : Statement} {others : List Statement} {skipped behind left : List Token}
      {first : Token} (begins : statement.Begins first behind) (onward : left <:+ behind)
      (rest : Stand others left) : Stand (statement :: others) (skipped ++ first :: behind)

/-- Statements that stand in the end of a list stand in the list. -/
theorem Stand.of_suffix {statements : List Statement} {left tokens : List Token}
    (stand : Stand statements left) (suffix : left <:+ tokens) : Stand statements tokens := by
  obtain ⟨skipped, rfl⟩ := suffix
  cases stand with
  | nil => exact .nil _
  | cons begins onward rest =>
      rw [← List.append_assoc]
      exact .cons begins onward rest

theorem SignIs.append {tokens : List Token} {kind : Token.Kind} (signIs : SignIs tokens kind)
    (more : List Token) : SignIs (tokens ++ more) kind := by
  obtain ⟨sign, first, isKind⟩ := signIs
  refine ⟨sign, ?_, isKind⟩
  have nonempty : (tokens.dropWhile fun token => isSpace token.kind).isEmpty = false := by
    cases left : tokens.dropWhile fun token => isSpace token.kind with
    | nil =>
        rw [left] at first
        contradiction
    | cons => rfl
  rw [List.dropWhile_append, nonempty]
  simp only [Bool.false_eq_true, if_false, List.head?_append, first, Option.some_or]

theorem Statement.Begins.append {statement : Statement} {first : Token} {behind : List Token}
    (begins : statement.Begins first behind) (more : List Token) :
    statement.Begins first (behind ++ more) := by
  cases statement with
  | metadata entry keyword => exact begins
  | track name => exact begins
  | definition added =>
      obtain ⟨token, name, sign⟩ := begins
      exact ⟨token, name, sign.imp (·.append more) (·.append more)⟩
  | movement added =>
      obtain ⟨token, instrument, sign⟩ := begins
      exact ⟨token, instrument, sign.imp (·.append more) (·.append more)⟩

/-- Statements that stand in the beginning of a list stand in the list. -/
theorem Stand.append {statements : List Statement} {tokens : List Token}
    (stand : Stand statements tokens) (more : List Token) :
    Stand statements (tokens ++ more) := by
  induction stand with
  | nil tokens => exact .nil _
  | cons begins onward _ inductionHypothesis =>
      rw [List.append_assoc, List.cons_append]
      refine .cons (begins.append more) ?_ inductionHypothesis
      obtain ⟨between, rfl⟩ := onward
      exact ⟨between, by rw [List.append_assoc]⟩

section Parts

variable {before : Reading}

theorem signIs_of_current (closed : before.Closed) {kind : Token.Kind}
    (more : kind ≠ .endOfFile) (here : (before.skip isSpace).current.kind = kind) :
    SignIs before.rest kind := by
  obtain ⟨tail, rest⟩ := exists_cons_of_current ((follows_skip isSpace before).closed closed)
    (here ▸ more)
  refine ⟨_, ?_, here⟩
  change (before.skip isSpace).rest.head? = _
  rw [rest]
  rfl

/-! ### Metadata and tracks -/

theorem orderly_metadataStatement (entry : String → Metadata) :
    Orderly (metadataStatement entry) before fun statement rest =>
      rest <:+ before.rest.tail ∧
        (statement.Formed ∧ statement.Begins before.current before.rest.tail) := by
  refine advance_orderly (skipping_orderly isSpace ?_)
  refine (orderly_expect _ _).bind fun _ _ _ _ => skipping_orderly isSpace ?_
  refine (orderly_expect _ _).bind fun _ _ _ _ => ?_
  exact (orderly_stringValue _).bind fun _ _ _ _ => orderly_pure ⟨trivial, rfl⟩

theorem orderly_optionalString :
    Orderly optionalString before fun _ _ => True := by
  refine check_orderly .string (fun _ => ?_) fun _ => orderly_pure trivial
  refine advance_orderly_any ?_
  exact (orderly_stringValue _).bind fun _ _ _ _ => skipping_orderly isSpace (orderly_pure trivial)

theorem orderly_trackStatement :
    Orderly trackStatement before fun statement rest =>
      rest <:+ before.rest.tail ∧ (statement.Formed ∧ (before.current.kind = .track →
        statement.Begins before.current before.rest.tail)) := by
  refine advance_orderly (skipping_orderly isSpace (orderly_optionalString.bind fun _ _ _ _ => ?_))
  exact (orderly_expect _ _).bind fun _ _ _ _ => orderly_pure ⟨trivial, id⟩

/-! ### Macros -/

/-- Whatever reads the further parameters is only called where the reader has gone on. -/
theorem orderly_behindParameters {further : List String → Step (List String)}
    (reads : ∀ parameters after, Follows before after →
      Orderly (further parameters) after fun _ _ => True) (parameters : List String) :
    Orderly (behindParameters further parameters) before fun _ _ => True := by
  refine skipping_orderly isSpace (check_orderly .comma (fun _ => ?_) fun _ => ?_)
  · refine advance_orderly_any (skipping_orderly isSpace ?_)
    refine check_orderly .rightParen (fun _ => peek_orderly (orderly_refuse _)) fun _ => ?_
    exact reads parameters _
      (((follows_skip isSpace before).trans (follows_advanced _)).trans (follows_skip isSpace _))
  · exact (orderly_expect _ _).bind fun _ _ _ _ => orderly_pure trivial

theorem orderly_parametersFrom (steps : Nat) (found : List String) (closed : before.Closed)
    (enough : before.rest.length < steps) :
    Orderly (parametersFrom steps found) before fun _ _ => True := by
  induction steps generalizing before found with
  | zero => contradiction
  | succ steps inductionHypothesis =>
      rw [parametersFrom_eq]
      refine skipping_orderly isSpace ?_
      have toHere := follows_skip isSpace before
      refine (orderly_expect _ _).bind fun written after toAfter made => ?_
      obtain ⟨rfl, isWord, rest⟩ := made
      have more : (before.skip isSpace).current.kind ≠ .endOfFile := by
        rw [isWord]
        decide
      have shorter := length_tail_lt (toHere.closed closed) more
      have fewer : after.rest.length < steps := by
        have skipped := toHere.length_le
        rw [rest]
        omega
      have closedAfter := toAfter.closed (toHere.closed closed)
      have onward {reported : Reading} (same : Follows after reported) (parameters : List String) :
          Orderly (behindParameters (parametersFrom steps) parameters) reported
            fun _ _ => True := by
        refine orderly_behindParameters (fun _ left toLeft => ?_) parameters
        have whole := same.trans toLeft
        exact inductionHypothesis _ (whole.closed closedAfter)
          (Nat.lt_of_le_of_lt whole.length_le fewer)
      refine .ite (fun _ => ?_) fun _ => onward (.refl after) _
      exact (orderly_report _).bind fun _ _ same _ => onward same _

theorem orderly_parameterList (closed : before.Closed) :
    Orderly parameterList before fun _ _ => True := by
  refine advance_orderly_any ?_
  refine skipping_orderly isSpace (check_orderly .rightParen (fun _ => ?_) fun _ => ?_)
  · refine advance_orderly_any ?_
    exact orderly_pure trivial
  · exact orderly_parametersFrom _ [] closed (Nat.lt_succ_self _)

theorem orderly_behindHead (name : Token) (parameters : List String) (closed : before.Closed) :
    Orderly (behindHead name parameters) before fun definition _ =>
      definition.token = name ∧ definition.name = name.text ∧
        (before.contexts.head? ≠ some .expression → FormedList definition.body) := by
  refine skipping_orderly isSpace ((orderly_expect _ _).bind fun _ behind toBehind _ => ?_)
  have whole := (follows_skip isSpace before).trans toBehind
  refine (orderly_body (whole.closed closed)).bind fun items _ _ made => ?_
  rw [whole.contexts] at made
  exact orderly_pure ⟨rfl, rfl, made⟩

theorem orderly_macroFrom (name : Token) (closed : before.Closed) :
    Orderly (macroFrom name) before fun definition _ =>
      definition.token = name ∧ definition.name = name.text ∧
        (before.contexts.head? ≠ some .expression → FormedList definition.body) := by
  rw [macroFrom_eq]
  refine check_orderly .leftParen (fun _ => ?_) fun _ => orderly_behindHead name [] closed
  refine (orderly_parameterList closed).bind fun parameters _ toHere _ => ?_
  rw [← toHere.contexts]
  exact orderly_behindHead name parameters (toHere.closed closed)

/-! ### Movements -/

theorem orderly_movementFrom (instrument : Token) (closed : before.Closed) :
    Orderly (movementFrom instrument) before fun movement _ =>
      movement.token = instrument ∧ movement.instrument = instrument.text ∧
        (before.contexts.head? ≠ some .expression → FormedList movement.expressions) := by
  refine orderly_optionalString.bind fun tag tagged toTagged _ => ?_
  refine (orderly_expect _ _).bind fun _ behind toBehind _ => ?_
  have whole := toTagged.trans toBehind
  refine (orderly_body (whole.closed closed)).bind fun items _ _ made => ?_
  rw [whole.contexts] at made
  exact orderly_pure ⟨rfl, rfl, made⟩

theorem orderly_definitionStatement (closed : before.Closed) :
    Orderly definitionStatement before fun statement rest =>
      rest <:+ before.rest.tail ∧
        (statement.Formed ∧ statement.Begins before.current before.rest.tail) := by
  rw [definitionStatement_eq]
  refine advance_orderly (skipping_orderly isSpace (peek_orderly ?_))
  have closedHere : (before.advanced.skip isSpace).Closed :=
    ((follows_advanced before).trans (follows_skip isSpace _)).closed closed
  have sign {kind : Token.Kind} (more : kind ≠ .endOfFile)
      (here : (before.advanced.skip isSpace).current.kind = kind) :
      SignIs before.rest.tail kind :=
    signIs_of_current (show before.advanced.Closed from closed) more here
  refine .ite (fun behind => ?_) fun _ => .ite (fun behind => ?_) fun _ => orderly_unexpected _
  · have signed := behind.imp (sign (by decide)) (sign (by decide))
    have closedInside : ((before.advanced.skip isSpace).inside .definition).Closed := closedHere
    have read := orderly_within (orderly_macroFrom before.current closedInside)
    refine read.bind fun definition _ _ made => orderly_pure ?_
    obtain ⟨token, name, formed⟩ := made
    refine ⟨formed fun innermost => ?_, token, name, signed⟩
    have impossible : Context.definition = .expression := Option.some.inj innermost
    contradiction
  · have signed := behind.imp (sign (by decide)) (sign (by decide))
    have closedInside : ((before.advanced.skip isSpace).inside .movement).Closed := closedHere
    have read := orderly_within (orderly_movementFrom before.current closedInside)
    refine read.bind fun movement _ _ made => orderly_pure ?_
    obtain ⟨token, instrument, formed⟩ := made
    refine ⟨formed fun innermost => ?_, token, instrument, signed⟩
    have impossible : Context.movement = .expression := Option.some.inj innermost
    contradiction

/-! ### Statements -/

theorem orderly_statement (closed : before.Closed) :
    Orderly statement before fun statement rest =>
      rest <:+ before.rest.tail ∧
        (statement.Formed ∧ statement.Begins before.current before.rest.tail) := by
  refine peek_orderly ?_
  split
  · exact orderly_metadataStatement .title
  · exact orderly_metadataStatement .copyRight
  · exact orderly_trackStatement.mono fun _ _ made => ⟨made.1, made.2.1, made.2.2 ‹_›⟩
  · exact orderly_definitionStatement closed
  · exact orderly_unexpected _

theorem orderly_statementEnd (statement : Statement) :
    Orderly (statementEnd statement) before fun _ _ => True := by
  unfold statementEnd
  split
  · refine skipping_orderly isSpace (peek_orderly ?_)
    exact .ite (fun _ => orderly_pure trivial) fun _ => orderly_unexpected _
  · exact orderly_pure trivial

theorem orderly_addStatement (score : Score) (statement : Statement) :
    Orderly (addStatement score statement) before fun extended _ =>
      extended = score.extended statement := by
  cases statement with
  | metadata entry keyword => exact orderly_pure rfl
  | track name => exact orderly_pure rfl
  | definition added =>
      unfold addStatement
      dsimp only
      split
      · exact (orderly_report _).bind fun _ _ _ _ => orderly_pure rfl
      · exact orderly_pure rfl
  | movement added =>
      unfold addStatement
      dsimp only
      split
      · exact (orderly_report _).bind fun _ _ _ _ => orderly_pure rfl
      · exact orderly_pure rfl

theorem orderly_skipStatement (diagnostic : Diagnostic) :
    Orderly (skipStatement diagnostic) before fun _ rest =>
      rest = resumption isStatementBreak 0 before.rest := by
  refine (orderly_report diagnostic).bind fun _ after _ rest => ?_
  rw [← rest]
  exact orderly_resumeAt isStatementBreak

/-! ### Sequences of statements -/

/-- What is not between statements is where none is resumed. -/
theorem isStatementBreak_of_not_separates {kind : Token.Kind}
    (stands : separatesStatements kind = false) : isStatementBreak kind = false := by
  cases kind with
  | newline => contradiction
  | semicolon => contradiction
  | _ => rfl

theorem orderly_readStatement (score : Score) (closed : before.Closed)
    (more : before.current.kind ≠ .endOfFile)
    (stands : separatesStatements before.current.kind = false) :
    Orderly (readStatement score) before fun extended rest =>
      rest <:+ before.rest.tail ∧
        (extended = score ∨ ∃ statement : Statement, statement.Formed ∧
          statement.Begins before.current before.rest.tail ∧
          extended = score.extended statement) := by
  have notBreak := isStatementBreak_of_not_separates stands
  refine (orderly_attempt (orderly_statement closed)).bind fun result after toAfter made => ?_
  cases result with
  | error diagnostic =>
      refine (orderly_skipStatement diagnostic).bind fun _ skipped _ rest => orderly_pure ?_
      rw [rest]
      exact ⟨resumption_suffix_tail_of_follows closed more notBreak toAfter, .inl rfl⟩
  | ok statement =>
      obtain ⟨left, formed, begins⟩ := made
      refine (orderly_addStatement score statement).bind fun extended added toAdded same => ?_
      have known : extended = score ∨ ∃ statement : Statement, statement.Formed ∧
          statement.Begins before.current before.rest.tail ∧
          extended = score.extended statement :=
        .inr ⟨statement, formed, begins, same⟩
      refine (orderly_attempt (orderly_statementEnd statement)).bind
        fun ended behind toBehind _ => ?_
      cases ended with
      | error diagnostic =>
          refine (orderly_skipStatement diagnostic).bind fun _ skipped _ rest => orderly_pure ?_
          rw [rest]
          have whole := (toAfter.trans toAdded).trans toBehind
          exact ⟨resumption_suffix_tail_of_follows closed more notBreak whole, known⟩
      | ok nothing =>
          exact orderly_pure ⟨(toBehind.rest.trans toAdded.rest).trans left, known⟩

theorem orderly_statementsFrom (steps : Nat) (score : Score) (closed : before.Closed)
    (enough : before.rest.length < steps) :
    Orderly (statementsFrom steps score) before fun filled _ =>
      ∃ statements, Stand statements before.rest ∧ (∀ statement ∈ statements, statement.Formed) ∧
        filled = statements.foldl Score.extended score := by
  induction steps generalizing before score with
  | zero => contradiction
  | succ steps inductionHypothesis =>
      refine skipping_orderly separatesStatements ?_
      have toHere := follows_skip separatesStatements before
      have closedHere := toHere.closed closed
      refine check_orderly .endOfFile (fun _ => ?_) fun more => ?_
      · exact orderly_pure ⟨[], .nil _, List.forall_mem_nil _, rfl⟩
      obtain ⟨tail, rest⟩ := exists_cons_of_current closedHere more
      have stands : separatesStatements
          (before.skip separatesStatements).current.kind = false :=
        stands_of_skip rest
      have shorter := toHere.length_le
      rw [rest] at shorter
      refine (orderly_readStatement score closedHere more stands).bind ?_
      intro extended after toAfter made
      obtain ⟨left, known⟩ := made
      rw [rest] at left known
      have fewer := left.length_le
      have read := inductionHypothesis extended (toAfter.closed closedHere)
        (by simp only [List.length_cons, List.tail_cons] at shorter fewer; omega)
      refine read.mono fun filled _ made => ?_
      obtain ⟨statements, stand, formed, same⟩ := made
      rcases known with unchanged | ⟨statement, statementFormed, begins, extends_⟩
      · rw [unchanged] at same
        exact ⟨statements, stand.of_suffix (toAfter.rest.trans toHere.rest), formed, same⟩
      · rw [extends_] at same
        refine ⟨statement :: statements, ?_, List.forall_mem_cons.mpr ⟨statementFormed, formed⟩,
          same⟩
        have suffix := toHere.rest
        rw [rest] at suffix
        have standing : Stand (statement :: statements) ([] ++ _ :: _) := .cons begins left stand
        exact standing.of_suffix suffix

end Parts

/-! ### No statement stops the reader -/

theorem unfailing_report (diagnostic : Diagnostic) : Unfailing (report diagnostic) :=
  unfailing_of_total fun _ => ⟨_, _, rfl⟩

theorem unfailing_skipStatement (diagnostic : Diagnostic) :
    Unfailing (skipStatement diagnostic) :=
  (unfailing_report diagnostic).bind fun _ => unfailing_of_total fun _ => ⟨_, _, rfl⟩

theorem unfailing_addStatement (score : Score) (statement : Statement) :
    Unfailing (addStatement score statement) := by
  cases statement with
  | metadata entry keyword => exact unfailing_pure _
  | track name => exact unfailing_pure _
  | definition added =>
      unfold addStatement
      dsimp only
      split
      · exact (unfailing_report _).bind fun _ => unfailing_pure _
      · exact unfailing_pure _
  | movement added =>
      unfold addStatement
      dsimp only
      split
      · exact (unfailing_report _).bind fun _ => unfailing_pure _
      · exact unfailing_pure _

theorem unfailing_readStatement (score : Score) : Unfailing (readStatement score) := by
  refine unfailing_attempt.bind fun result => ?_
  cases result with
  | error diagnostic => exact (unfailing_skipStatement _).bind fun _ => unfailing_pure _
  | ok statement =>
      refine (unfailing_addStatement _ _).bind fun extended => ?_
      refine unfailing_attempt.bind fun ended => ?_
      cases ended with
      | error diagnostic => exact (unfailing_skipStatement _).bind fun _ => unfailing_pure _
      | ok nothing => exact unfailing_pure _

theorem unfailing_statementsFrom (steps : Nat) (score : Score) :
    Unfailing (statementsFrom steps score) := by
  induction steps generalizing score with
  | zero => exact unfailing_abort _
  | succ steps inductionHypothesis =>
      refine Unfailing.bind (unfailing_of_total fun _ => ⟨_, _, rfl⟩) fun _ => ?_
      refine Unfailing.bind (unfailing_of_total fun _ => ⟨_, _, rfl⟩) fun _ => ?_
      refine .ite (unfailing_pure _) ?_
      exact (unfailing_readStatement score).bind inductionHypothesis

/-! ### The whole input -/

theorem closed_ofTokens (tokens : List Token) : (ofTokens tokens).Closed := by
  unfold ofTokens
  split
  · rfl
  · split
    · assumption
    · rfl

theorem contexts_ofTokens (tokens : List Token) : (ofTokens tokens).contexts = [] := by
  unfold ofTokens
  split
  · rfl
  · split <;> rfl

theorem diagnostics_ofTokens (tokens : List Token) : (ofTokens tokens).diagnostics = [] := by
  unfold ofTokens
  split
  · rfl
  · split <;> rfl

/-- What is read is the list of tokens, or all of it but the token that closes it. -/
theorem rest_ofTokens_prefix (tokens : List Token) : (ofTokens tokens).rest <+: tokens := by
  unfold ofTokens
  split
  · exact List.nil_prefix
  · split
    · exact List.dropLast_prefix _
    · exact List.prefix_refl _

/-- A token in front of others is read as it is, and whatever it is, the same is read around
it. -/
theorem exists_ofTokens_around (front : List Token) {behind : List Token} (more : behind ≠ []) :
    ∃ back last, ∀ token, ofTokens (front ++ token :: behind) =
      ⟨front ++ token :: back, last, [], []⟩ := by
  obtain ⟨middle, final, rfl⟩ := (List.eq_nil_or_concat behind).resolve_left more
  have split (token : Token) : front ++ token :: middle.concat final =
      front ++ token :: middle ++ [final] := by simp
  by_cases closing : final.kind = .endOfFile
  · refine ⟨middle, final, fun token => ?_⟩
    unfold ofTokens
    rw [split, List.getLast?_concat, List.dropLast_concat]
    exact if_pos closing
  · refine ⟨middle ++ [final], Token.endOfFileAt ⟨final.position.line,
      final.position.column + final.text.length⟩, fun token => ?_⟩
    unfold ofTokens
    rw [split, List.getLast?_concat, List.dropLast_concat, List.append_assoc]
    exact if_neg closing

/-- All statements are read, and the reader is inside of nothing in the end. -/
theorem exists_statements_eq_ok (score : Score) {before : Reading} (closed : before.Closed)
    (outside : before.contexts = []) :
    ∃ standing after, statements score before =
        .ok (standing.foldl Score.extended score) after ∧ Follows before after ∧
      Stand standing before.rest ∧ ∀ statement ∈ standing, statement.Formed := by
  have read := orderly_statementsFrom (before.rest.length + 1) score closed (Nat.lt_succ_self _)
  obtain ⟨filled, after, result, follows, standing, stand, formed, rfl⟩ :=
    read.exists_ok (unfailing_statementsFrom _ _)
  refine ⟨standing, after, ?_, follows, stand, formed⟩
  have whole : (fun reading => statementsFrom (reading.rest.length + 1) score reading) before =
      .ok (standing.foldl Score.extended score) after := result
  refine (bind_of_ok whole).trans ?_
  have empty : after.contexts = [] := follows.contexts.trans outside
  split
  · rfl
  · rename_i context outer nonempty
    rw [empty] at nonempty
    contradiction

end Reading

theorem Score.ofTokens_of_ok {tokens : List Token} {trackName : String} {filled : Score}
    {after : Reading} (result : Reading.statements (opened tokens trackName)
      (Reading.ofTokens tokens) = .ok filled after) :
    ofTokens tokens trackName = .ok { filled with diagnostics := after.diagnostics } := by
  unfold opened at result
  unfold ofTokens
  dsimp only
  rw [result]

/-- **Every list of tokens is read.** The score is what the statements that stand in the
tokens make of it, one after the other. -/
theorem Score.exists_ofTokens_eq_ok (tokens : List Token) (trackName : String) :
    ∃ statements diagnostics,
      ofTokens tokens trackName = .ok { statements.foldl Score.extended
        (opened tokens trackName) with diagnostics := diagnostics } ∧
      Reading.Stand statements tokens ∧ ∀ statement ∈ statements, statement.Formed := by
  obtain ⟨statements, after, result, _, stand, formed⟩ :=
    Reading.exists_statements_eq_ok (opened tokens trackName)
      (Reading.closed_ofTokens tokens) (Reading.contexts_ofTokens tokens)
  refine ⟨statements, after.diagnostics, ofTokens_of_ok result, ?_, formed⟩
  obtain ⟨final, whole⟩ := Reading.rest_ofTokens_prefix tokens
  rw [← whole]
  exact stand.append final

end Solfege
