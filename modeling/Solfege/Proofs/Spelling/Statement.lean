import Solfege.Proofs.Reading.Statement
import Solfege.Proofs.Spelling.Expression

/-!
Contract: spelled statements are read back.

Owns:
- the proof that what was spelled of metadata, a track, a macro or a movement is read up to
  the end of its line, and that the statement may end there.

Does not own: the score to which the statements are added.
-/

namespace Solfege

namespace Reading

variable {reading : Reading} {tokens behind : List Token}

/-! ### Metadata and tracks -/

theorem takes_metadataStatement (entry : String → Metadata) {keyword : Token} {text : String}
    (quotable : IsQuotable text)
    (spells : Spells [.sign ':', .blank, .quoted text] tokens behind) :
    Takes (metadataStatement entry) reading (keyword :: tokens) behind
      fun read => read = .metadata (entry text) keyword := by
  obtain ⟨_, left, rfl, rest⟩ := spells.cons
  obtain ⟨_, quotes, rfl, more⟩ := rest.cons
  obtain ⟨token, final, rfl, isString, terminated, unquoted, nothing⟩ := more.quoted quotable
  obtain rfl := nothing.eq_of_nil
  have stands : isSpace (reading.front (token :: final)) = false := by
    change isSpace token.kind = false
    rw [isString]
    rfl
  refine advance_takes (skipping_takes rfl (expect_takes rfl ?_))
  refine skipping_cons_takes rfl (skipping_takes stands (expect_takes isString ?_))
  refine (takes_stringValue terminated unquoted).bind ?_
  rintro _ rfl
  exact takes_pure rfl

theorem takes_optionalString {text : String} (quotable : IsQuotable text)
    (spells : Spells [.quoted text] tokens behind)
    (stands : isSpace (reading.front behind) = false) :
    Takes optionalString reading tokens behind fun read => read = some text := by
  obtain ⟨token, left, rfl, isString, terminated, unquoted, nothing⟩ := spells.quoted quotable
  obtain rfl := nothing.eq_of_nil
  refine check_takes isString (advance_takes ((takes_stringValue terminated unquoted).bind ?_))
  rintro _ rfl
  exact skipping_takes stands (takes_pure rfl)

theorem takes_trackStatement {keyword : Token} {name : String} (quotable : IsQuotable name)
    (spells : Spells [.blank, .quoted name, .sign ':'] tokens behind) :
    Takes trackStatement reading (keyword :: tokens) behind fun read => read = .track name := by
  obtain ⟨_, quotes, rfl, rest⟩ := spells.cons
  obtain ⟨middle, quoted, colon⟩ := (show Spells ([.quoted name] ++ [.sign ':']) quotes behind
    from rest).append
  obtain ⟨_, left, rfl, nothing⟩ := colon.cons
  obtain rfl := nothing.eq_of_nil
  have stands : isSpace (reading.front quotes) = false := by
    obtain ⟨token, others, rfl, isString, _⟩ := quoted.quoted quotable
    change isSpace token.kind = false
    rw [isString]
    rfl
  refine advance_takes (skipping_cons_takes rfl (skipping_takes stands ?_))
  refine (takes_optionalString quotable quoted rfl).bind ?_
  rintro _ rfl
  exact expect_takes rfl (takes_pure rfl)

/-! ### Macros -/

theorem takes_parametersFrom (steps : Nat) (found : List String) {parameter : String}
    {others : List String} {closing : String} {place : Position}
    (areNames : ∀ name ∈ parameter :: others, IsName name)
    (distinct : (found ++ parameter :: others).Nodup)
    (spells : Spells (.word parameter :: Macro.furtherParametersSpelled others) tokens
      (⟨closing, .rightParen, place⟩ :: behind))
    (fits : others.length < steps) :
    Takes (parametersFrom steps found) reading tokens behind
      fun read => read = found ++ parameter :: others := by
  induction others generalizing parameter found tokens steps with
  | nil =>
      obtain ⟨steps, rfl⟩ : ∃ fewer, steps = fewer + 1 :=
        Nat.exists_eq_succ_of_ne_zero (by omega)
      obtain ⟨here, _⟩ := List.forall_mem_cons.mp areNames
      obtain ⟨_, left, rfl, nothing⟩ := spells.name here
      obtain rfl := nothing.eq_of_nil
      have fresh : ¬found.contains parameter = true :=
        fun member => not_mem_of_nodup distinct (List.contains_iff_mem.mp member)
      refine skipping_takes rfl (expect_takes rfl (ite_takes fresh ?_))
      rw [if_neg fresh]
      refine skipping_takes rfl (check_not_takes Token.Kind.noConfusion ?_)
      exact expect_takes rfl (takes_pure rfl)
  | cons next others inductionHypothesis =>
      obtain ⟨steps, rfl⟩ : ∃ fewer, steps = fewer + 1 :=
        Nat.exists_eq_succ_of_ne_zero (by omega)
      obtain ⟨here, othersNames⟩ := List.forall_mem_cons.mp areNames
      obtain ⟨nextName, _⟩ := List.forall_mem_cons.mp othersNames
      obtain ⟨_, afterName, rfl, further⟩ := spells.name here
      obtain ⟨_, afterComma, rfl, more⟩ := further.cons
      obtain ⟨_, left, rfl, rest⟩ := more.cons
      have fresh : ¬found.contains parameter = true :=
        fun member => not_mem_of_nodup distinct (List.contains_iff_mem.mp member)
      rw [List.append_cons] at distinct
      have onward : Takes (parametersFrom steps (found ++ [parameter])) reading left behind _ :=
        inductionHypothesis steps (found ++ [parameter]) othersNames distinct rest
          (Nat.lt_of_succ_lt_succ fits)
      rw [← List.append_cons] at onward
      obtain ⟨_, others, rfl, _⟩ := rest.name nextName
      refine skipping_takes rfl (expect_takes rfl (ite_takes fresh ?_))
      rw [if_neg fresh]
      refine skipping_takes rfl (check_takes rfl (advance_takes ?_))
      refine skipping_cons_takes rfl (skipping_takes rfl ?_)
      exact check_not_takes Token.Kind.noConfusion onward

theorem length_furtherParametersSpelled (parameters : List String) :
    parameters.length ≤ (Macro.furtherParametersSpelled parameters).length := by
  induction parameters with
  | nil => exact Nat.le_refl _
  | cons parameter others inductionHypothesis =>
      simp only [Macro.furtherParametersSpelled, List.length_cons]
      omega

theorem takes_parameterList {parameter : String} {others : List String} {opening : Token}
    (areNames : ∀ name ∈ parameter :: others, IsName name)
    (distinct : (parameter :: others).Nodup)
    (spells : Spells (.word parameter :: (Macro.furtherParametersSpelled others ++ [.sign ')']))
      tokens behind) :
    Takes parameterList reading (opening :: tokens) behind
      fun read => read = parameter :: others := by
  obtain ⟨middle, spelled, closing⟩ := (show Spells ((.word parameter ::
    Macro.furtherParametersSpelled others) ++ [.sign ')']) tokens behind from spells).append
  obtain ⟨_, left, rfl, nothing⟩ := closing.cons
  obtain rfl := nothing.eq_of_nil
  have length := spelled.length_eq
  have count := length_furtherParametersSpelled others
  rw [List.length_cons] at length
  have list : Takes (parametersFrom (tokens.length + 1) []) reading tokens left _ :=
    takes_parametersFrom _ [] areNames distinct spelled (by omega)
  obtain ⟨_, afterName, rfl, _⟩ := spelled.name (areNames parameter List.mem_cons_self)
  exact advance_takes (skipping_takes rfl (check_not_takes Token.Kind.noConfusion list))

theorem takes_behindHead {definition : Macro} (writable : definition.Writable) {name : Token}
    (named : name.text = definition.name) {parameters : List String}
    (list : definition.parameters = parameters)
    (spells : Spells (.sign '=' :: Expression.furtherItemsSpelled definition.body) tokens behind)
    (atEnd : reading.front behind = .newline) :
    Takes (behindHead name parameters) reading tokens behind
      fun read => read.erased = definition.erased := by
  obtain ⟨_, left, rfl, rest⟩ := spells.cons
  refine skipping_takes rfl (expect_takes rfl ?_)
  refine (takes_body writable.body rest atEnd).bind fun found same => takes_pure ?_
  unfold Macro.erased
  dsimp only
  rw [same, named, list]

/-- A macro without parameters is written without parentheses. -/
theorem takes_macroFrom_plain {definition : Macro} (writable : definition.Writable)
    (plain : definition.parameters = []) {name : Token} (named : name.text = definition.name)
    (spells : Spells (.sign '=' :: Expression.furtherItemsSpelled definition.body) tokens behind)
    (atEnd : reading.front behind = .newline) :
    Takes (macroFrom name) reading tokens behind fun read => read.erased = definition.erased := by
  have noParenthesis : reading.front tokens ≠ .leftParen := by
    obtain ⟨_, left, rfl, _⟩ := spells.cons
    exact Token.Kind.noConfusion
  rw [macroFrom_eq]
  exact check_not_takes noParenthesis (takes_behindHead writable named plain spells atEnd)

theorem takes_macroFrom {definition : Macro} (writable : definition.Writable)
    {parameter : String} {others : List String}
    (list : definition.parameters = parameter :: others) {name : Token}
    (named : name.text = definition.name)
    (spells : Spells (Macro.parametersSpelled (parameter :: others) ++
      .blank :: .sign '=' :: Expression.furtherItemsSpelled definition.body) tokens behind)
    (atEnd : reading.front behind = .newline) :
    Takes (macroFrom name) reading tokens behind fun read => read.erased = definition.erased := by
  obtain ⟨middle, spelled, rest⟩ := spells.append
  obtain ⟨_, inside, rfl, within⟩ := spelled.cons
  obtain ⟨_, left, rfl, more⟩ := rest.cons
  have areNames := writable.parameters
  have distinct := writable.distinct
  rw [list] at areNames distinct
  rw [macroFrom_eq]
  refine check_takes rfl ((takes_parameterList areNames distinct within).bind ?_)
  rintro _ rfl
  exact skipping_cons_takes rfl (takes_behindHead writable named list more atEnd)

/-! ### Movements -/

theorem takes_behindTag {movement : Movement} (writable : movement.Writable)
    {instrument : Token} (named : instrument.text = movement.instrument) {tag : Option String}
    (tagged : movement.tag = tag)
    (spells : Spells (.sign ':' :: Expression.furtherItemsSpelled movement.expressions) tokens
      behind)
    (atEnd : reading.front behind = .newline) :
    Takes (behindTag instrument tag) reading tokens behind
      fun read => read.erased = movement.erased := by
  obtain ⟨_, left, rfl, rest⟩ := spells.cons
  refine expect_takes rfl ?_
  refine (takes_body writable.expressions rest atEnd).bind fun found same => takes_pure ?_
  unfold Movement.erased
  dsimp only
  rw [same, named, tagged]

theorem takes_movementFrom_plain {movement : Movement} (writable : movement.Writable)
    (plain : movement.tag = none) {instrument : Token}
    (named : instrument.text = movement.instrument)
    (spells : Spells (.sign ':' :: Expression.furtherItemsSpelled movement.expressions) tokens
      behind)
    (atEnd : reading.front behind = .newline) :
    Takes (movementFrom instrument) reading tokens behind
      fun read => read.erased = movement.erased := by
  have untagged : Takes optionalString reading tokens tokens fun read => read = none := by
    refine check_not_takes ?_ (takes_pure rfl)
    obtain ⟨_, left, rfl, _⟩ := spells.cons
    exact Token.Kind.noConfusion
  rw [movementFrom_eq]
  refine untagged.bind ?_
  rintro _ rfl
  exact takes_behindTag writable named plain spells atEnd

theorem takes_movementFrom {movement : Movement} (writable : movement.Writable) {tag : String}
    (tagged : movement.tag = some tag) {instrument : Token}
    (named : instrument.text = movement.instrument)
    (spells : Spells (.quoted tag :: .sign ':' ::
      Expression.furtherItemsSpelled movement.expressions) tokens behind)
    (atEnd : reading.front behind = .newline) :
    Takes (movementFrom instrument) reading tokens behind
      fun read => read.erased = movement.erased := by
  obtain ⟨middle, quoted, rest⟩ := (show Spells ([.quoted tag] ++ .sign ':' ::
    Expression.furtherItemsSpelled movement.expressions) tokens behind from spells).append
  have stands : isSpace (reading.front middle) = false := by
    obtain ⟨_, left, rfl, _⟩ := rest.cons
    rfl
  rw [movementFrom_eq]
  refine (takes_optionalString (writable.tag tag tagged) quoted stands).bind ?_
  rintro _ rfl
  exact takes_behindTag writable named tagged rest atEnd

/-! ### Statements -/

theorem takes_definition {definition : Macro} (writable : definition.Writable)
    (spells : Spells (Statement.definition definition).spelled tokens behind)
    (atEnd : reading.front behind = .newline) :
    Takes definitionStatement reading tokens behind
      fun read => read.Alike (.definition definition) := by
  obtain ⟨place, left, rfl, rest⟩ := spells.name writable.name
  refine advance_takes ?_
  cases list : definition.parameters with
  | nil =>
      rw [list] at rest
      obtain ⟨_, afterBlank, rfl, more⟩ := rest.cons
      have read : Takes (within .definition (macroFrom ⟨definition.name, .word, place⟩)) reading
          afterBlank behind _ :=
        takes_within (takes_macroFrom_plain writable list rfl more atEnd)
      obtain ⟨_, _, rfl, _⟩ := more.cons
      refine skipping_cons_takes rfl (skipping_takes rfl (peek_takes ?_))
      exact read.bind fun _ same => takes_pure (.definition same)
  | cons parameter others =>
      rw [list] at rest
      have read : Takes (within .definition (macroFrom ⟨definition.name, .word, place⟩)) reading
          left behind _ :=
        takes_within (takes_macroFrom writable list rfl rest atEnd)
      obtain ⟨_, _, rfl, _⟩ := rest.cons
      refine skipping_takes rfl (peek_takes ?_)
      exact read.bind fun _ same => takes_pure (.definition same)

theorem takes_movement {movement : Movement} (writable : movement.Writable)
    (spells : Spells (Statement.movement movement).spelled tokens behind)
    (atEnd : reading.front behind = .newline) :
    Takes definitionStatement reading tokens behind
      fun read => read.Alike (.movement movement) := by
  obtain ⟨place, left, rfl, rest⟩ := spells.name writable.instrument
  refine advance_takes ?_
  cases tagged : movement.tag with
  | none =>
      rw [tagged] at rest
      have read : Takes (within .movement (movementFrom ⟨movement.instrument, .word, place⟩))
          reading left behind _ :=
        takes_within (takes_movementFrom_plain writable tagged rfl rest atEnd)
      obtain ⟨_, _, rfl, _⟩ := rest.cons
      refine skipping_takes rfl (peek_takes ?_)
      exact read.bind fun _ same => takes_pure (.movement same)
  | some tag =>
      rw [tagged] at rest
      obtain ⟨_, afterBlank, rfl, more⟩ := rest.cons
      have read : Takes (within .movement (movementFrom ⟨movement.instrument, .word, place⟩))
          reading afterBlank behind _ :=
        takes_within (takes_movementFrom writable tagged rfl more atEnd)
      obtain ⟨⟨text, kind, position⟩, final, rfl, isString, _⟩ :=
        more.quoted (writable.tag tag tagged)
      obtain rfl : kind = .string := isString
      refine skipping_cons_takes rfl (skipping_takes rfl (peek_takes ?_))
      exact read.bind fun _ same => takes_pure (.movement same)

/-- A statement is read up to the end of its line. -/
theorem takes_statement {written : Statement} (writable : written.Writable)
    (spells : Spells written.spelled tokens behind) (atEnd : reading.front behind = .newline) :
    Takes statement reading tokens behind fun read => read.Alike written := by
  cases written with
  | metadata entry keyword =>
      cases entry with
      | title text =>
          obtain ⟨_, left, rfl, rest⟩ :=
            spells.word (show Lexeme.wordKind "title".toList = .title from rfl)
          refine peek_takes ((takes_metadataStatement .title writable rest).mono ?_)
          rintro _ rfl
          exact .metadata _ _ _
      | copyRight text =>
          obtain ⟨_, left, rfl, rest⟩ :=
            spells.word (show Lexeme.wordKind "copy_right".toList = .copyRight from rfl)
          refine peek_takes ((takes_metadataStatement .copyRight writable rest).mono ?_)
          rintro _ rfl
          exact .metadata _ _ _
  | track name =>
      obtain ⟨_, left, rfl, rest⟩ :=
        spells.word (show Lexeme.wordKind "track".toList = .track from rfl)
      refine peek_takes ((takes_trackStatement writable rest).mono ?_)
      rintro _ rfl
      exact .track name
  | definition added =>
      have read := takes_definition writable spells atEnd
      obtain ⟨_, _, rfl, _⟩ := spells.name writable.name
      exact peek_takes read
  | movement added =>
      have read := takes_movement writable spells atEnd
      obtain ⟨_, _, rfl, _⟩ := spells.name writable.instrument
      exact peek_takes read

theorem takes_statementEnd (read : Statement) (atEnd : reading.front behind = .newline) :
    Takes (statementEnd read) reading behind behind fun _ => True := by
  cases read with
  | metadata entry keyword =>
      have stands : isSpace (reading.front behind) = false := by
        rw [atEnd]
        rfl
      refine skipping_takes stands (peek_takes ?_)
      have ends : (reading.facing behind).current.kind.endsStatement = true := by
        rw [show (reading.facing behind).current.kind = .newline from atEnd]
        rfl
      rw [if_pos ends]
      exact takes_pure trivial
  | _ => exact takes_pure trivial

end Reading

end Solfege
