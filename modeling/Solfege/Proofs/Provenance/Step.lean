import Solfege.Proofs.Reading.Conduct

/-!
Contract: steps of reading that keep to the places of a list of tokens.

Owns:
- the whole input of a reader, and the place that the reader stands at;
- the tokens that a diagnostic may point at;
- located steps, which read on from a place, and mark only tokens that they were given;
- how located steps are put together from the steps that reading consists of.

Does not own: the grammar, or what its steps make.

A diagnostic about names points at a token that was read. One about syntax may point at
any token of the input: a group that is never closed is reported at its bracket, which
stands before all that was read for it.
-/

namespace Solfege

/-- The diagnostic points at a token: a syntactic one at any, and one about names at a token
that stands at the first place or behind it, and in front of the last one. -/
inductive Diagnostic.Marks (tokens : List Token) (first behind : Nat) : Diagnostic → Prop where
  | syntactic {token : Token} (problem : SyntaxProblem) (member : token ∈ tokens) :
      Marks tokens first behind (syntaxAt token problem)
  | naming {token : Token} {place : Nat} (problem : NameProblem)
      (here : tokens[place]? = some token) (onward : first ≤ place) (before : place < behind) :
      Marks tokens first behind (namingAt token problem)

theorem Diagnostic.Marks.mono {tokens : List Token} {first behind later : Nat}
    {diagnostic : Diagnostic} (marks : diagnostic.Marks tokens first behind)
    (onward : behind ≤ later) : diagnostic.Marks tokens first later := by
  cases marks with
  | syntactic problem member => exact .syntactic problem member
  | naming problem here behind before => exact .naming problem here behind (by omega)

/-- A diagnostic stands where a token of the input does. -/
theorem Diagnostic.Marks.exists_token {tokens : List Token} {first behind : Nat}
    {diagnostic : Diagnostic} (marks : diagnostic.Marks tokens first behind) :
    ∃ token ∈ tokens, diagnostic.position = token.position := by
  cases marks with
  | syntactic problem member => exact ⟨_, member, rfl⟩
  | naming problem here onward before => exact ⟨_, List.mem_of_getElem? here, rfl⟩

namespace Reading

/-! ### Places -/

/-- The reader stands at a place of the tokens, which it has still to read from there on. -/
structure StandsAt (tokens : List Token) (place : Nat) (reading : Reading) : Prop where
  left : tokens.drop place = reading.rest ++ [reading.last]
  closed : reading.Closed

section Places

variable {tokens : List Token} {place : Nat} {before after : Reading}

theorem StandsAt.current (stands : StandsAt tokens place before) :
    tokens[place]? = some before.current := by
  rw [← List.head?_drop, stands.left]
  unfold Reading.current
  cases before.rest <;> rfl

theorem StandsAt.congr (stands : StandsAt tokens place before) (rest : after.rest = before.rest)
    (last : after.last = before.last) : StandsAt tokens place after := by
  refine ⟨?_, stands.closed.of_last last⟩
  rw [rest, last]
  exact stands.left

/-- A reader that leaves fewer tokens stands at a later place. -/
theorem StandsAt.of_suffix (stands : StandsAt tokens place before)
    (suffix : after.rest <:+ before.rest) (last : after.last = before.last) :
    ∃ reached, place ≤ reached ∧ StandsAt tokens reached after := by
  rcases suffix with ⟨between, rest⟩
  refine ⟨place + between.length, Nat.le_add_right _ _, ?_, stands.closed.of_last last⟩
  rw [← List.drop_drop, stands.left, ← rest, last, List.append_assoc, List.drop_left]

/-- The number of tokens that are left tells the place. -/
theorem StandsAt.lt_of_length_lt {reached : Nat} (stands : StandsAt tokens place before)
    (there : StandsAt tokens reached after) (fewer : after.rest.length < before.rest.length) :
    place < reached := by
  have here := congrArg List.length stands.left
  have left := congrArg List.length there.left
  simp only [List.length_drop, List.length_append, List.length_singleton] at here left
  omega

theorem StandsAt.advanced {token : Token} (stands : StandsAt tokens place before)
    (here : tokens[place]? = some token) (more : token.kind ≠ .endOfFile) :
    before.current = token ∧ StandsAt tokens (place + 1) before.advanced := by
  have same : before.current = token := by
    simpa [stands.current] using here
  rw [← same] at more
  obtain ⟨tail, rest⟩ := exists_cons_of_current stands.closed more
  refine ⟨same, ?_, stands.closed⟩
  have others : before.advanced.rest = tail := by
    show before.rest.tail = tail
    rw [rest, List.tail_cons]
  rw [others, ← List.tail_drop, stands.left, rest]
  rfl

end Places

/-! ### Located steps -/

/-- A reader goes on from one place to another, and marks what it meets on its way. -/
structure Proceeds (tokens : List Token) (origin place reached : Nat)
    (before after : Reading) : Prop where
  le : place ≤ reached
  stands : StandsAt tokens reached after
  marked : ∃ found, after.diagnostics = before.diagnostics ++ found ∧
    ∀ diagnostic ∈ found, diagnostic.Marks tokens origin reached

section Proceeds

variable {tokens : List Token} {origin place middle reached : Nat}
variable {before between after : Reading}

theorem Proceeds.of_stands (le : place ≤ reached) (stands : StandsAt tokens reached after)
    (silent : after.diagnostics = before.diagnostics) :
    Proceeds tokens origin place reached before after :=
  ⟨le, stands, [], by simp [silent]⟩

theorem Proceeds.trans (start : Proceeds tokens origin place middle before between)
    (onward : Proceeds tokens origin middle reached between after) :
    Proceeds tokens origin place reached before after := by
  refine ⟨Nat.le_trans start.le onward.le, onward.stands, ?_⟩
  rcases start.marked with ⟨found, diagnostics, marks⟩
  rcases onward.marked with ⟨others, diagnosticsOnward, marksOnward⟩
  refine ⟨found ++ others, by rw [diagnosticsOnward, diagnostics, List.append_assoc], ?_⟩
  intro diagnostic member
  rcases List.mem_append.mp member with early | late
  · exact (marks diagnostic early).mono onward.le
  · exact marksOnward diagnostic late

/-- What the reader is inside of makes no difference. -/
theorem Proceeds.congr {start final : Reading}
    (proceeds : Proceeds tokens origin place reached before after)
    (diagnosticsBefore : before.diagnostics = start.diagnostics)
    (rest : final.rest = after.rest) (last : final.last = after.last)
    (diagnostics : final.diagnostics = after.diagnostics) :
    Proceeds tokens origin place reached start final := by
  refine ⟨proceeds.le, proceeds.stands.congr rest last, ?_⟩
  rw [diagnostics, ← diagnosticsBefore]
  exact proceeds.marked

end Proceeds

/-- A step that stops early points at a token of the input. -/
def Blames (tokens : List Token) (diagnostic : Diagnostic) : Prop :=
  ∃ token ∈ tokens, ∃ problem, diagnostic = Diagnostic.syntaxAt token problem

/-- From a place on, the step goes on to a place behind it. What it makes, and the place that
it reaches then, are as stated. Names are only marked from the origin on. -/
def Located {α : Type} (tokens : List Token) (origin place : Nat) (step : Step α)
    (made : α → Nat → Prop) : Prop :=
  ∀ before, StandsAt tokens place before →
    match step before with
    | .ok value after =>
        ∃ reached, Proceeds tokens origin place reached before after ∧ made value reached
    | .error (.recoverable diagnostic) after =>
        (∃ reached, Proceeds tokens origin place reached before after) ∧
          Blames tokens diagnostic
    | .error (.fatal _) _ => True

section Building

variable {α β : Type} {tokens : List Token} {origin place : Nat} {step : Step α}
variable {made : α → Nat → Prop} {final : β → Nat → Prop}

namespace Located

theorem of_ok {value : α} {before after : Reading} (located : Located tokens origin place step made)
    (stands : StandsAt tokens place before) (result : step before = .ok value after) :
    ∃ reached, Proceeds tokens origin place reached before after ∧ made value reached := by
  have known := located before stands
  rw [result] at known
  exact known

theorem of_recoverable {diagnostic : Diagnostic} {before after : Reading}
    (located : Located tokens origin place step made) (stands : StandsAt tokens place before)
    (result : step before = .error (.recoverable diagnostic) after) :
    (∃ reached, Proceeds tokens origin place reached before after) ∧
      Blames tokens diagnostic := by
  have known := located before stands
  rw [result] at known
  exact known

theorem of_results
    (done : ∀ before value after, StandsAt tokens place before → step before = .ok value after →
      ∃ reached, Proceeds tokens origin place reached before after ∧ made value reached)
    (stopped : ∀ before diagnostic after, StandsAt tokens place before →
      step before = .error (.recoverable diagnostic) after →
      (∃ reached, Proceeds tokens origin place reached before after) ∧
        Blames tokens diagnostic) :
    Located tokens origin place step made := by
  intro before stands
  split
  · exact done _ _ _ stands ‹_›
  · exact stopped _ _ _ stands ‹_›
  · trivial

/-- Less can be said about what is made. -/
theorem mono {other : α → Nat → Prop} (located : Located tokens origin place step made)
    (implies : ∀ value reached, place ≤ reached → made value reached → other value reached) :
    Located tokens origin place step other := by
  apply of_results
  · intro before value after stands result
    rcases located.of_ok stands result with ⟨reached, proceeds, here⟩
    exact ⟨reached, proceeds, implies value reached proceeds.le here⟩
  · intro before diagnostic after stands result
    exact located.of_recoverable stands result

/-- A step goes on where the one before it has come to. -/
theorem bind {next : α → Step β} (first : Located tokens origin place step made)
    (onward : ∀ value middle, place ≤ middle → made value middle →
      Located tokens origin middle (next value) final) :
    Located tokens origin place (step >>= next) final := by
  intro before stands
  cases result : step before with
  | error halt after =>
      rw [bind_of_error result]
      cases halt with
      | recoverable diagnostic => exact first.of_recoverable stands result
      | fatal diagnostic => trivial
  | ok value between =>
      rw [bind_of_ok result]
      rcases first.of_ok stands result with ⟨middle, start, here⟩
      have behind := onward value middle start.le here between start.stands
      split
      · rename_i known
        rw [known] at behind
        rcases behind with ⟨reached, proceeds, there⟩
        exact ⟨reached, start.trans proceeds, there⟩
      · rename_i known
        rw [known] at behind
        rcases behind with ⟨⟨reached, proceeds⟩, blames⟩
        exact ⟨⟨reached, start.trans proceeds⟩, blames⟩
      · trivial

theorem ite {condition : Prop} [Decidable condition] {other : Step α}
    (holds : condition → Located tokens origin place step made)
    (fails : ¬condition → Located tokens origin place other made) :
    Located tokens origin place (if condition then step else other) made := by
  by_cases decided : condition
  · rw [if_pos decided]
    exact holds decided
  · rw [if_neg decided]
    exact fails decided

end Located

/-! ### Ends -/

theorem located_pure {value : α} (here : made value place) :
    Located tokens origin place (pure value) made :=
  fun _ stands => ⟨place, .of_stands (Nat.le_refl _) stands rfl, here⟩

theorem located_refuse {token : Token} (problem : SyntaxProblem) (member : token ∈ tokens) :
    Located tokens origin place (refuse (Diagnostic.syntaxAt token problem) : Step α) made :=
  fun _ stands =>
    ⟨⟨place, .of_stands (Nat.le_refl _) stands rfl⟩, token, member, problem, rfl⟩

theorem located_abort (problem : InternalProblem) :
    Located tokens origin place (abort problem : Step α) made :=
  fun _ _ => trivial

theorem located_unexpected (expected : Expectation) :
    Located tokens origin place (unexpected expected : Step α) made :=
  fun before stands =>
    ⟨⟨place, .of_stands (Nat.le_refl _) stands rfl⟩, before.current,
      List.mem_of_getElem? stands.current, .unexpected expected before.current, rfl⟩

/-! ### Steps on tokens -/

variable {next : Token → Step β}

theorem peek_located
    (onward : ∀ token, tokens[place]? = some token →
      Located tokens origin place (next token) final) :
    Located tokens origin place (peek >>= next) final :=
  fun before stands => onward before.current stands.current before stands

theorem check_located {other : Step α} (kind : Token.Kind)
    (is : ∀ token, tokens[place]? = some token → token.kind = kind →
      Located tokens origin place step made)
    (isNot : Located tokens origin place other made) :
    Located tokens origin place (do if ← check kind then step else other) made := by
  intro before stands
  rw [check_then]
  by_cases same : before.current.kind = kind
  · rw [if_pos same]
    exact is _ stands.current same before stands
  · rw [if_neg same]
    exact isNot before stands

theorem followsExpression_located {other : Step α}
    (opened : Located tokens origin place step made)
    (first : Located tokens origin place other made) :
    Located tokens origin place (do if ← followsExpression then step else other) made := by
  intro before stands
  rw [followsExpression_then]
  by_cases innermost : before.contexts.head? = some .expression
  · rw [if_pos innermost]
    exact opened before stands
  · rw [if_neg innermost]
    exact first before stands

/-- A step that only reads on is located. -/
theorem Located.of_reading_on {on : Reading → Reading} {value : Reading → α}
    (same : ∀ before, step before = .ok (value before) (on before))
    (suffix : ∀ before, (on before).rest <:+ before.rest)
    (last : ∀ before, (on before).last = before.last)
    (silent : ∀ before, (on before).diagnostics = before.diagnostics) :
    Located tokens origin place step fun _ _ => True := by
  intro before stands
  rw [same]
  rcases stands.of_suffix (suffix before) (last before) with ⟨reached, le, there⟩
  exact ⟨reached, .of_stands le there (silent before), trivial⟩

theorem located_skipping (test : Token.Kind → Bool) :
    Located tokens origin place (skipping test) fun _ _ => True :=
  .of_reading_on (fun _ => rfl) (fun _ => List.dropWhile_suffix _) (fun _ => rfl) fun _ => rfl

theorem located_resumeAt (test : Token.Kind → Bool) :
    Located tokens origin place (resumeAt test) fun _ _ => True :=
  .of_reading_on (fun _ => rfl) (fun _ => resumption_suffix _ _ _) (fun _ => rfl) fun _ => rfl

/-- A token at which reading cannot go on is left behind. -/
theorem located_resumeAt_behind {token : Token} {first : Nat} {test : Token.Kind → Bool}
    (here : tokens[first]? = some token) (le : first ≤ place) (more : token.kind ≠ .endOfFile)
    (refused : test token.kind = false) :
    Located tokens origin place (resumeAt test) fun _ reached => first < reached := by
  intro before stands
  rcases (located_resumeAt test).of_ok stands rfl with ⟨reached, proceeds, _⟩
  refine ⟨reached, proceeds, ?_⟩
  rcases Nat.lt_or_eq_of_le le with behind | rfl
  · exact Nat.lt_of_lt_of_le behind proceeds.le
  · have same := (stands.advanced here more).1
    rw [← same] at more refused
    rcases exists_cons_of_current stands.closed more with ⟨tail, rest⟩
    apply stands.lt_of_length_lt proceeds.stands
    show (resumption test 0 before.rest).length < before.rest.length
    rw [rest]
    exact Nat.lt_succ_of_le (resumption_suffix_tail more refused).length_le

/-- An advance takes the token at the place of the reader, unless it is the last one. -/
theorem located_advance {token : Token} (here : tokens[place]? = some token)
    (more : token.kind ≠ .endOfFile) :
    Located tokens origin place advance fun value reached =>
      value = token ∧ reached = place + 1 := by
  intro before stands
  have passed := stands.advanced here more
  exact ⟨place + 1, .of_stands (Nat.le_succ _) passed.2 rfl, passed.1, rfl⟩

theorem advance_located {token : Token} (here : tokens[place]? = some token)
    (more : token.kind ≠ .endOfFile)
    (onward : Located tokens origin (place + 1) (next token) final) :
    Located tokens origin place (advance >>= next) final := by
  apply (located_advance here more).bind
  rintro _ _ _ ⟨rfl, rfl⟩
  exact onward

theorem located_expect {kind : Token.Kind} (expected : Expectation) (more : kind ≠ .endOfFile) :
    Located tokens origin place (expect kind expected) fun token reached =>
      tokens[place]? = some token ∧ token.kind = kind ∧ reached = place + 1 := by
  apply check_located
  · intro token here same
    apply (located_advance here (same ▸ more)).mono
    rintro _ _ _ ⟨rfl, rfl⟩
    exact ⟨here, same, rfl⟩
  · exact located_unexpected expected

theorem located_numberValue {token : Token} (member : token ∈ tokens) :
    Located tokens origin place (numberValue token) fun _ _ => True := by
  unfold numberValue
  split
  · exact located_pure trivial
  · exact located_refuse _ member

theorem located_expectNumber (expected : Expectation) :
    Located tokens origin place (expectNumber expected) fun _ _ => True := by
  apply (located_expect expected (by decide)).bind
  rintro token _ _ ⟨here, _⟩
  exact located_numberValue (List.mem_of_getElem? here)

theorem located_stringValue {token : Token} (member : token ∈ tokens) :
    Located tokens origin place (stringValue token) fun text _ => text = token.unquoted :=
  .ite (fun _ => located_pure rfl) fun _ => located_refuse _ member

/-! ### Problems and nesting -/

/-- A problem may be reported if it marks a token that was read. -/
theorem located_report {diagnostic : Diagnostic}
    (marks : diagnostic.Marks tokens origin place) :
    Located tokens origin place (report diagnostic) fun _ _ => True :=
  fun _ stands => ⟨place, ⟨Nat.le_refl _, stands.congr rfl rfl, [diagnostic], rfl,
    List.forall_mem_singleton.mpr marks⟩, trivial⟩

/-- What a step was stopped by may be reported anywhere. -/
theorem Blames.marks {diagnostic : Diagnostic} (blames : Blames tokens diagnostic)
    (first behind : Nat) : diagnostic.Marks tokens first behind := by
  rcases blames with ⟨token, member, problem, rfl⟩
  exact .syntactic problem member

theorem attempt_located {next : Except Diagnostic α → Step β}
    (first : Located tokens origin place step made)
    (ok : ∀ value middle, place ≤ middle → made value middle →
      Located tokens origin middle (next (.ok value)) final)
    (error : ∀ diagnostic middle, place ≤ middle → Blames tokens diagnostic →
      Located tokens origin middle (next (.error diagnostic)) final) :
    Located tokens origin place (attempt step >>= next) final := by
  have attempted : Located tokens origin place (attempt step) fun
      | .ok value, reached => made value reached
      | .error diagnostic, _ => Blames tokens diagnostic := by
    intro before stands
    unfold attempt
    cases result : step before with
    | ok value after => exact first.of_ok stands result
    | error halt after =>
        cases halt with
        | fatal diagnostic => trivial
        | recoverable diagnostic =>
            rcases first.of_recoverable stands result with ⟨⟨reached, proceeds⟩, blames⟩
            exact ⟨reached, proceeds, blames⟩
  apply attempted.bind
  intro outcome middle le here
  cases outcome with
  | ok value => exact ok value middle le here
  | error diagnostic => exact error diagnostic middle le here

theorem located_enter (context : Context) :
    Located tokens origin place (enter context) fun _ reached => reached = place :=
  fun _ stands => ⟨place, .of_stands (Nat.le_refl _) (stands.congr rfl rfl) rfl, rfl⟩

/-- Leaving a construct takes no token, and blames nothing but the reader. -/
theorem located_leave (context : Context) :
    Located tokens origin place (leave context) fun _ reached => reached = place := by
  intro before stands
  rcases leave_cases context before with ⟨outer, contexts⟩ | ⟨diagnostic, after, left⟩
  · rw [leave_of_contexts contexts]
    exact ⟨place, .of_stands (Nat.le_refl _) (stands.congr rfl rfl) rfl, rfl⟩
  · rw [left]
    trivial

/-- A construct around a step makes no difference. -/
theorem located_within {context : Context} (located : Located tokens origin place step made) :
    Located tokens origin place (within context step) made := by
  intro before stands
  have standsInside : StandsAt tokens place (before.inside context) := stands.congr rfl rfl
  cases result : step (before.inside context) with
  | ok value after =>
      rw [within_of_ok result]
      rcases located.of_ok standsInside result with ⟨reached, proceeds, here⟩
      rcases leave_cases context after with ⟨outer, contexts⟩ | ⟨diagnostic, final, left⟩
      · rw [bind_of_ok (leave_of_contexts contexts)]
        exact ⟨reached, proceeds.congr rfl rfl rfl rfl, here⟩
      · rw [bind_of_error left]
        trivial
  | error halt after =>
      rw [within_of_error result]
      rcases leave_cases context after with ⟨outer, contexts⟩ | ⟨diagnostic, final, left⟩
      · rw [bind_of_ok (leave_of_contexts contexts)]
        cases halt with
        | fatal diagnostic => trivial
        | recoverable diagnostic =>
            rcases located.of_recoverable standsInside result with ⟨⟨reached, proceeds⟩, blames⟩
            exact ⟨⟨reached, proceeds.congr rfl rfl rfl rfl⟩, blames⟩
      · rw [bind_of_error left]
        trivial

end Building

end Reading

end Solfege
