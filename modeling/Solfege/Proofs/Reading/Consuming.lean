import Solfege.Proofs.Reading.Loop
import Solfege.Proofs.Reading.Statement

/-!
Contract: the rounds of the loops of the grammar.

Owns:
- the loops of the grammar, each with what one of its rounds does, without a bound;
- the proof that each round of a loop reads a token or is the last one.

Does not own: that the loops do what their rounds do, and what they collect.
-/

namespace Solfege.Reading

/-! ### What one round does -/

/-- Takes one token whose kind passes the test. -/
def skipRound (test : Token.Kind → Bool) (_ : Unit) : Step (RoundEnd Unit Unit) := do
  let here ← peek
  if test here.kind then
    let _ ← advance
    pure (.again ())
  else
    pure (.left ())

/-- Skips to a place from which reading can go on, inside of so many brackets. -/
def resumeInside (test : Token.Kind → Bool) (depth : Nat) : Step Unit := fun reading =>
  .ok () { reading with rest := resumption test depth reading.rest }

/-- Takes one token in front of the place from which reading can go on, inside of so many
brackets. -/
def resumptionRound (test : Token.Kind → Bool) (depth : Nat) : Step (RoundEnd Nat Unit) := do
  let here ← peek
  if here.kind = .endOfFile || (depth = 0 && test here.kind) then
    pure (.left ())
  else
    let _ ← advance
    pure (.again (match here.kind with
      | .leftBracket => depth + 1
      | .rightBracket => depth - 1
      | _ => depth))

/-- Adds the semitones of a run of accidentals to those of the accidentals in front of it. -/
def accidentalsBehind (semitones : Int) : Step Int := fun reading =>
  .ok ((reading.rest.takeWhile fun token => isAccidental token.kind).foldl
      (fun semitones sign => if sign.kind = .plus then semitones + 1 else semitones - 1) semitones)
    (reading.skip isAccidental)

/-- Takes one accidental. -/
def accidentalsRound (semitones : Int) : Step (RoundEnd Int Int) := do
  let here ← peek
  match here.kind with
  | .plus => do
      let _ ← advance
      pure (.again (semitones + 1))
  | .dash => do
      let _ ← advance
      pure (.again (semitones - 1))
  | _ => pure (.left semitones)

/-- Reads one argument and the comma or the closing parenthesis behind it. -/
def argumentsRound (inner : Step Expression) (found : List Expression) :
    Step (RoundEnd (List Expression) (List Expression)) := do
  skipWhitespace
  if ← check .endOfFile then
    let final ← peek
    refuse (Diagnostic.syntaxAt final .unterminatedArguments)
  else
    let argument ← inner
    skipWhitespace
    let behind ← peek
    match behind.kind with
    | .rightParen => do
        let _ ← advance
        pure (.left (argument :: found).reverse)
    | .comma => do
        let _ ← advance
        skipWhitespace
        if ← check .rightParen then
          let closing ← peek
          refuse (Diagnostic.syntaxAt closing (.trailingComma .arguments))
        else
          pure (.again (argument :: found))
    | _ => unexpected .endOfArgument

/-- Reads the comma or the closing parenthesis behind a parameter. -/
def behindParameter (parameters : List String) :
    Step (RoundEnd (List String) (List String)) := do
  skipSpace
  if ← check .comma then
    let _ ← advance
    skipSpace
    if ← check .rightParen then
      let closing ← peek
      refuse (Diagnostic.syntaxAt closing (.trailingComma .parameters))
    else
      pure (.again parameters)
  else
    let _ ← expect .rightParen .endOfParameter
    pure (.left parameters)

/-- Reads one parameter and what stands behind it. -/
def parametersRound (found : List String) : Step (RoundEnd (List String) (List String)) := do
  skipSpace
  let written ← expect .word .parameter
  if found.contains written.text then
    report (Diagnostic.namingAt written (.repeatedParameter written.text))
  behindParameter (if found.contains written.text then found else found ++ [written.text])

/-- Reads one element of a list, or finds its end. What is carried is whether the list already
holds an expression, and what it holds. -/
def elementsRound (layout : Layout) (inner : Step Expression) :
    Bool × List Expression → Step (RoundEnd (Bool × List Expression) (List Expression))
  | (marked, found) => do
      skipping layout.separates
      let first ← peek
      if layout.ends first.kind then
        if marked then leave .expression
        pure (.left found.reverse)
      else
        match ← attempt inner with
        | .ok element => do
            if !marked then enter .expression
            pure (.again (true, element :: found))
        | .error diagnostic => do
            report diagnostic
            resumeAt layout.resumes
            pure (.again (marked, .placeholder first :: found))

/-- Reads one statement into the score, or finds the end of the file. -/
def statementsRound (score : Score) : Step (RoundEnd Score Score) := do
  skipping separatesStatements
  if ← check .endOfFile then
    pure (.left score)
  else
    let extended ← readStatement score
    pure (.again extended)

/-- The loops of the grammar, each with its round. Where one runs on lists of tokens, the number of
those that are left is its bound. -/
inductive Loop (inner : Step Expression) :
    {σ α : Type} → (σ → Step α) → (σ → Step (RoundEnd σ α)) → Prop where
  | skipping (test : Token.Kind → Bool) (stops : test .endOfFile = false) :
      Loop inner (fun _ => skipping test) (skipRound test)
  | resumption (test : Token.Kind → Bool) :
      Loop inner (resumeInside test) (resumptionRound test)
  | accidentals : Loop inner accidentalsBehind accidentalsRound
  | arguments :
      Loop inner (fun found reading => argumentsFrom inner (reading.rest.length + 1) found reading)
        (argumentsRound inner)
  | parameters :
      Loop inner (fun found reading => parametersFrom (reading.rest.length + 1) found reading)
        parametersRound
  | body :
      Loop inner
        (fun carried reading =>
          elementsFrom .body inner (reading.rest.length + 1) carried.1 carried.2 reading)
        (elementsRound .body inner)
  | group :
      Loop inner
        (fun carried reading =>
          elementsFrom .group inner (reading.rest.length + 1) carried.1 carried.2 reading)
        (elementsRound .group inner)
  | statements :
      Loop inner (fun score reading => statementsFrom (reading.rest.length + 1) score reading)
        statementsRound

/-! ### Every round reads a token or is the last one -/

section Consuming

variable {before : Reading}

theorem consumes_skipRound {test : Token.Kind → Bool} (stops : test .endOfFile = false)
    (nothing : Unit) (closed : before.Closed) : Consumes (skipRound test nothing) before := by
  refine Orderly.consumes (peek_orderly (.ite (fun passes => ?_) fun _ => ?_))
  · have more : before.current.kind ≠ .endOfFile := by
      intro atEnd
      rw [atEnd, stops] at passes
      contradiction
    exact .from_earlier (follows_advanced before)
      (orderly_pure fun _ _ => length_tail_lt closed more) rfl
  · exact orderly_pure fun _ impossible => by contradiction

theorem consumes_resumptionRound (test : Token.Kind → Bool) (depth : Nat)
    (closed : before.Closed) : Consumes (resumptionRound test depth) before := by
  refine Orderly.consumes (peek_orderly (.ite (fun _ => ?_) fun goesOn => ?_))
  · exact orderly_pure fun _ impossible => by contradiction
  · have more : before.current.kind ≠ .endOfFile := by
      intro atEnd
      simp [atEnd] at goesOn
    exact .from_earlier (follows_advanced before)
      (orderly_pure fun _ _ => length_tail_lt closed more) rfl

theorem consumes_accidentalsRound (semitones : Int) (closed : before.Closed) :
    Consumes (accidentalsRound semitones) before := by
  refine Orderly.consumes (peek_orderly ?_)
  have read {kind : Token.Kind} (here : before.current.kind = kind) (other : kind ≠ .endOfFile)
      {semitones : Int} : Orderly (advance >>= fun _ => pure (.again semitones) :
        Step (RoundEnd Int Int)) before fun ended rest =>
          ∀ carried, ended = .again carried → rest.length < before.rest.length :=
    .from_earlier (follows_advanced before)
      (orderly_pure fun _ _ => length_tail_lt closed (here ▸ other)) rfl
  split
  · exact read ‹_› (by decide)
  · exact read ‹_› (by decide)
  · exact orderly_pure fun _ impossible => by contradiction

theorem consumes_argumentsRound {inner : Step Expression} {bound : Nat}
    (reads : ReadsWithin bound inner) (found : List Expression) (closed : before.Closed)
    (fits : before.rest.length < bound) : Consumes (argumentsRound inner found) before := by
  have toHere := follows_skip isWhitespace before
  have shorter := toHere.length_le
  refine Orderly.consumes (skipping_orderly _ ?_)
  refine check_orderly .endOfFile (fun _ => peek_orderly (orderly_refuse _)) fun _ => ?_
  refine (reads _ (toHere.closed closed) (by omega)).bind fun argument after follows made => ?_
  refine skipping_orderly _ (peek_orderly ?_)
  split
  · refine .from_earlier (follows_advanced _) (orderly_pure fun _ impossible => ?_) rfl
    contradiction
  · have onward := ((follows_skip isWhitespace after).trans (follows_advanced _)).trans
      (follows_skip isWhitespace _)
    have fewer := onward.length_le
    refine (advance_orderly (skipping_orderly _ ?_)).mono fun _ _ made => made.2
    refine check_orderly .rightParen (fun _ => peek_orderly (orderly_refuse _)) fun _ => ?_
    exact orderly_pure fun _ _ => by omega
  · exact orderly_unexpected _

theorem consumes_parametersRound (found : List String) (closed : before.Closed) :
    Consumes (parametersRound found) before := by
  have toHere := follows_skip isSpace before
  refine Orderly.consumes (skipping_orderly isSpace ?_)
  refine (orderly_expect _ _).bind fun written after toAfter made => ?_
  obtain ⟨rfl, isWord, rest⟩ := made
  have more : (before.skip isSpace).current.kind ≠ .endOfFile := by
    rw [isWord]
    decide
  have read : after.rest.length < before.rest.length := by
    have skipped := toHere.length_le
    have taken := length_tail_lt (toHere.closed closed) more
    rw [rest]
    omega
  have onward {reported : Reading} (same : Follows after reported) (parameters : List String) :
      Orderly (behindParameter parameters) reported fun ended rest =>
        ∀ carried, ended = .again carried → rest.length < before.rest.length := by
    refine skipping_orderly isSpace (check_orderly .comma (fun _ => ?_) fun _ => ?_)
    · have whole := ((same.trans (follows_skip isSpace reported)).trans
        (follows_advanced _)).trans (follows_skip isSpace _)
      have fewer := whole.length_le
      refine (advance_orderly (skipping_orderly _ ?_)).mono fun _ _ made => made.2
      refine check_orderly .rightParen (fun _ => peek_orderly (orderly_refuse _)) fun _ => ?_
      exact orderly_pure fun _ _ => by omega
    · refine (orderly_expect _ _).bind fun _ _ _ _ => orderly_pure fun _ impossible => ?_
      contradiction
  refine .ite (fun _ => ?_) fun _ => onward (.refl after) _
  exact (orderly_report _).bind fun _ _ same _ => onward same _

theorem consumes_statementsRound (score : Score) (closed : before.Closed) :
    Consumes (statementsRound score) before := by
  have toHere := follows_skip separatesStatements before
  have closedHere := toHere.closed closed
  have shorter := toHere.length_le
  refine Orderly.consumes (skipping_orderly separatesStatements ?_)
  refine check_orderly .endOfFile (fun _ => ?_) fun more => ?_
  · exact orderly_pure fun _ impossible => by contradiction
  obtain ⟨tail, rest⟩ := exists_cons_of_current closedHere more
  refine (orderly_readStatement score closedHere more (stands_of_skip rest)).bind
    fun extended after _ made => orderly_pure fun _ _ => ?_
  have left := made.1.length_le
  have taken := length_tail_lt closedHere more
  omega

theorem onward_leave (context : Context) (reading : Reading) :
    match leave context reading with
    | .ok _ after | .error _ after => Onward reading after := by
  unfold leave
  cases reading.contexts with
  | nil => exact ⟨List.suffix_refl _, rfl⟩
  | cons innermost outer =>
      by_cases same : innermost = context
      · dsimp only
        rw [if_pos same]
        exact ⟨List.suffix_refl _, rfl⟩
      · dsimp only
        rw [if_neg same]
        exact ⟨List.suffix_refl _, rfl⟩

/-- What a round of a list does where an element begins. -/
theorem elementsRound_of_more {layout : Layout} {inner : Step Expression} {marked : Bool}
    {found : List Expression}
    (more : layout.ends (before.skip layout.separates).current.kind = false) :
    elementsRound layout inner (marked, found) before =
      match inner (before.skip layout.separates) with
      | .ok element after => .ok (.again (true, element :: found))
          { after with contexts := marks (!marked) ++ after.contexts }
      | .error (.recoverable diagnostic) after =>
          .ok (.again (marked, .placeholder (before.skip layout.separates).current :: found))
            (resumed layout diagnostic after)
      | .error (.fatal diagnostic) after => .error (.fatal diagnostic) after := by
  have unfolded : elementsRound layout inner (marked, found) before =
      (if layout.ends (before.skip layout.separates).current.kind = true then _
      else attempt inner >>= _) (before.skip layout.separates) := rfl
  rw [unfolded, if_neg (by simp [more])]
  cases result : inner (before.skip layout.separates) with
  | ok element after =>
      rw [bind_of_ok (attempt_eq_ok result)]
      cases marked <;> rfl
  | error halt after =>
      cases halt with
      | recoverable diagnostic => rw [bind_of_ok (attempt_eq_problem result)]; rfl
      | fatal diagnostic => rw [bind_of_error (attempt_eq_fatal result)]

/-- The end of a list is the last round, whether the list can be left or not. -/
theorem consumes_elementsRound_of_ends {layout : Layout} {inner : Step Expression} {marked : Bool}
    {found : List Expression}
    (ends : layout.ends (before.skip layout.separates).current.kind = true) :
    Consumes (elementsRound layout inner (marked, found)) before := by
  have toHere := (follows_skip layout.separates before).onward
  have unfolded : elementsRound layout inner (marked, found) before =
      leaveList marked (.left found.reverse) (before.skip layout.separates) :=
    congrFun (if_pos ends) _
  unfold Consumes
  rw [unfolded, leaveList]
  cases marked with
  | false => exact toHere
  | true =>
      have left := onward_leave .expression (before.skip layout.separates)
      cases result : leave .expression (before.skip layout.separates) with
      | ok _ after =>
          rw [result] at left
          rw [if_pos rfl, bind_of_ok result]
          exact toHere.trans left
      | error halt after =>
          rw [result] at left
          rw [if_pos rfl, bind_of_error result]
          exact toHere.trans left

/-- An element that cannot be read is skipped, because a list does not go on at a token that might
begin one. -/
theorem consumes_elementsRound {layout : Layout} (lawful : layout.Lawful)
    {inner : Step Expression} {bound : Nat} (reads : ReadsWithin bound inner)
    (carried : Bool × List Expression) (closed : before.Closed)
    (fits : before.rest.length < bound) : Consumes (elementsRound layout inner carried) before := by
  obtain ⟨marked, found⟩ := carried
  have toHere := follows_skip layout.separates before
  have closedHere := toHere.closed closed
  have shorter := toHere.length_le
  cases ends : layout.ends (before.skip layout.separates).current.kind with
  | true => exact consumes_elementsRound_of_ends ends
  | false =>
      have read := reads _ closedHere (by omega)
      have more : (before.skip layout.separates).current.kind ≠ .endOfFile := by
        intro atEnd
        rw [atEnd, lawful.ends_endOfFile] at ends
        contradiction
      have refused : layout.resumes (before.skip layout.separates).current.kind = false := by
        rw [Bool.eq_false_iff]
        intro resumes
        rw [lawful.ends_of_resumes _ resumes] at ends
        contradiction
      unfold Consumes
      rw [elementsRound_of_more ends]
      cases result : inner (before.skip layout.separates) with
      | ok element after =>
          obtain ⟨follows, progress, _⟩ := read.of_ok result
          have whole := (toHere.trans follows).onward
          exact ⟨⟨whole.rest, whole.last⟩, Nat.lt_of_lt_of_le progress shorter⟩
      | error halt after =>
          cases halt with
          | fatal diagnostic => exact absurd result read.not_fatal
          | recoverable diagnostic =>
              have follows := read.of_recoverable result
              have behind := resumption_suffix_tail_of_follows closedHere more refused follows
              have taken := length_tail_lt closedHere more
              refine ⟨⟨?_, (toHere.trans follows).last⟩, ?_⟩
              · exact (behind.trans (List.tail_suffix _)).trans toHere.rest
              · exact Nat.lt_of_le_of_lt behind.length_le (Nat.lt_of_lt_of_le taken shorter)

end Consuming

end Solfege.Reading
