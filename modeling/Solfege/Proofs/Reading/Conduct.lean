import Solfege.Reading.Basic

/-!
Contract: how a step of reading conducts itself.

Owns:
- the states that a reader may pass on to: it has read on, it is inside of the same
  constructs, and every problem that was reported is still there;
- orderly steps, which pass on to such a state however they end, and never blame the
  reader;
- how orderly steps are put together from the steps that reading consists of.

Does not own: the grammar, or what its steps make.

What a step makes is stated together with the tokens that it leaves, so that a loop can
tell from it that a token was read.
-/

namespace Solfege.Reading

/-- The input ends in an end of file token. -/
def Closed (reading : Reading) : Prop := reading.last.kind = .endOfFile

theorem Closed.of_last {before after : Reading} (closed : before.Closed)
    (last : after.last = before.last) : after.Closed := by
  unfold Closed
  rw [last]
  exact closed

/-- A reader passes on from one state to another. -/
structure Follows (before after : Reading) : Prop where
  rest : after.rest <:+ before.rest
  last : after.last = before.last
  contexts : after.contexts = before.contexts
  diagnostics : before.diagnostics <+: after.diagnostics

namespace Follows

variable {first second third : Reading}

theorem refl (reading : Reading) : Follows reading reading :=
  ⟨List.suffix_refl _, rfl, rfl, List.prefix_refl _⟩

theorem trans (start : Follows first second) (onward : Follows second third) :
    Follows first third where
  rest := onward.rest.trans start.rest
  last := onward.last.trans start.last
  contexts := onward.contexts.trans start.contexts
  diagnostics := start.diagnostics.trans onward.diagnostics

theorem closed (follows : Follows first second) (closed : first.Closed) : second.Closed :=
  closed.of_last follows.last

theorem length_le (follows : Follows first second) :
    second.rest.length ≤ first.rest.length :=
  follows.rest.length_le

/-- A reader that leaves fewer tokens has read on. -/
theorem of_rest {reading : Reading} {left : List Token} (shorter : left <:+ reading.rest) :
    Follows reading { reading with rest := left } :=
  ⟨shorter, rfl, rfl, List.prefix_refl _⟩

end Follows

/-! ### The current token -/

theorem current_cons {reading : Reading} {first : Token} {tail : List Token}
    (rest : reading.rest = first :: tail) : reading.current = first := by
  unfold current
  rw [rest]
  rfl

/-- Before the end of the input there is a token to read. -/
theorem exists_cons_of_current {reading : Reading} (closed : reading.Closed)
    (more : reading.current.kind ≠ .endOfFile) :
    ∃ tail, reading.rest = reading.current :: tail := by
  cases rest : reading.rest with
  | nil =>
      have atEnd : reading.current = reading.last := by
        unfold current
        rw [rest]
        rfl
      rw [atEnd] at more
      exact absurd closed more
  | cons first tail => exact ⟨tail, by rw [current_cons rest]⟩

theorem length_tail_lt {reading : Reading} (closed : reading.Closed)
    (more : reading.current.kind ≠ .endOfFile) :
    reading.rest.tail.length < reading.rest.length := by
  obtain ⟨tail, rest⟩ := exists_cons_of_current closed more
  rw [rest]
  exact Nat.lt_succ_self _

/-! ### Resuming behind a problem -/

/-- Resuming only skips. -/
theorem resumption_suffix (test : Token.Kind → Bool) (depth : Nat) (tokens : List Token) :
    resumption test depth tokens <:+ tokens := by
  induction tokens generalizing depth with
  | nil => exact List.suffix_refl _
  | cons token rest inductionHypothesis =>
      rw [resumption]
      split
      · exact List.suffix_refl _
      · split
        all_goals exact (inductionHypothesis _).trans (List.suffix_cons token rest)

/-- Reading goes on at a token that the test allows, or at the end of the input. -/
theorem current_resumption {reading : Reading} (closed : reading.Closed)
    (test : Token.Kind → Bool) (depth : Nat) :
    let there := { reading with rest := resumption test depth reading.rest }.current.kind
    there = .endOfFile ∨ test there = true := by
  obtain ⟨rest, last, contexts, diagnostics⟩ := reading
  induction rest generalizing depth with
  | nil => exact .inl closed
  | cons token rest inductionHypothesis =>
      dsimp only
      rw [resumption]
      split
      · rename_i stops
        simp only [Bool.or_eq_true, decide_eq_true_eq, Bool.and_eq_true] at stops
        exact stops.imp_right And.right
      · split
        all_goals exact inductionHypothesis _ closed

/-- A token at which reading cannot go on is skipped. -/
theorem resumption_suffix_tail {test : Token.Kind → Bool} {token : Token}
    {rest : List Token} (more : token.kind ≠ .endOfFile) (refused : test token.kind = false) :
    resumption test 0 (token :: rest) <:+ rest := by
  rw [resumption, if_neg (by simp [more, refused])]
  split
  all_goals exact resumption_suffix _ _ _

/-- If reading cannot go on at the current token, it goes on behind it, however far a step has
come. -/
theorem resumption_suffix_tail_of_follows {before after : Reading} {test : Token.Kind → Bool}
    (closed : before.Closed) (more : before.current.kind ≠ .endOfFile)
    (refused : test before.current.kind = false) (follows : Follows before after) :
    resumption test 0 after.rest <:+ before.rest.tail := by
  obtain ⟨tail, rest⟩ := exists_cons_of_current closed more
  have suffix := follows.rest
  rw [rest] at suffix ⊢
  rcases List.suffix_cons_iff.mp suffix with whole | shorter
  · rw [whole]
    exact resumption_suffix_tail more refused
  · exact (resumption_suffix _ _ _).trans shorter

/-! ### One step behind another -/

theorem bind_of_ok {α β : Type} {step : Step α} {next : α → Step β} {before middle : Reading}
    {value : α} (first : step before = .ok value middle) :
    (step >>= next) before = next value middle := by
  change EStateM.bind step next before = _
  unfold EStateM.bind
  rw [first]

theorem bind_of_error {α β : Type} {step : Step α} {next : α → Step β}
    {before middle : Reading} {halt : Halt} (first : step before = .error halt middle) :
    (step >>= next) before = .error halt middle := by
  change EStateM.bind step next before = _
  unfold EStateM.bind
  rw [first]

/-- Where two steps come to an end, so did the first one. -/
theorem exists_of_bind_eq_ok {α β : Type} {step : Step α} {next : α → Step β}
    {before after : Reading} {final : β} (result : (step >>= next) before = .ok final after) :
    ∃ value middle, step before = .ok value middle ∧ next value middle = .ok final after := by
  cases first : step before with
  | ok value middle => exact ⟨value, middle, rfl, (bind_of_ok first).symm.trans result⟩
  | error halt middle =>
      rw [bind_of_error first] at result
      contradiction

/-- Steps one after the other, written by what they end with. -/
theorem bind_eq_handle {α β : Type} (step : Step α) (next : α → Step β) :
    step >>= next = fun reading =>
      match step reading with
      | .ok value after => next value after
      | .error halt after => (throw halt : Step β) after := by
  funext reading
  change EStateM.bind step next reading = _
  unfold EStateM.bind
  cases step reading <;> rfl

theorem peek_then {α : Type} (next : Token → Step α) (reading : Reading) :
    (peek >>= next) reading = next reading.current reading := rfl

theorem check_then {α : Type} (kind : Token.Kind) (first second : Step α) (reading : Reading) :
    (do if ← check kind then first else second) reading =
      (if reading.current.kind = kind then first else second) reading := by
  show (if decide (reading.current.kind = kind) = true then first else second) reading = _
  simp

theorem followsExpression_then {α : Type} (first second : Step α) (reading : Reading) :
    (do if ← followsExpression then first else second) reading =
      (if reading.contexts.head? = some .expression then first else second) reading := by
  show (if decide (reading.contexts.head? = some .expression) = true then first else second)
    reading = _
  simp

section Trying

variable {α : Type} {step : Step α} {before after : Reading}

theorem attempt_eq_ok {value : α} (result : step before = .ok value after) :
    attempt step before = .ok (.ok value) after := by
  unfold attempt
  rw [result]

theorem attempt_eq_problem {diagnostic : Diagnostic}
    (result : step before = .error (.recoverable diagnostic) after) :
    attempt step before = .ok (.error diagnostic) after := by
  unfold attempt
  rw [result]

theorem attempt_eq_fatal {diagnostic : Diagnostic}
    (result : step before = .error (.fatal diagnostic) after) :
    attempt step before = .error (.fatal diagnostic) after := by
  unfold attempt
  rw [result]

end Trying

/-- What is done behind a step that was tried and stopped early. -/
def rescue {α β : Type} (next : Except Diagnostic α → Step β) : Halt → Step β
  | .recoverable diagnostic => next (.error diagnostic)
  | .fatal diagnostic => throw (.fatal diagnostic)

/-- A step that is tried, written by what it ends with. -/
theorem attempt_bind_eq_handle {α β : Type} (step : Step α)
    (next : Except Diagnostic α → Step β) :
    attempt step >>= next = fun reading =>
      match step reading with
      | .ok value after => next (.ok value) after
      | .error halt after => rescue next halt after := by
  funext reading
  change EStateM.bind (attempt step) next reading = _
  unfold EStateM.bind attempt
  cases step reading with
  | ok value after => rfl
  | error halt after => cases halt <;> rfl

/-! ### Orderly steps -/

/-- From a state on, the step is orderly. What it makes, and the tokens that it leaves
then, are as stated. -/
def Orderly {α : Type} (step : Step α) (before : Reading) (made : α → List Token → Prop) :
    Prop :=
  match step before with
  | .ok value after => Follows before after ∧ made value after.rest
  | .error (.recoverable _) after => Follows before after
  | .error (.fatal _) _ => False

section Building

variable {α β : Type} {before : Reading} {step : Step α} {made : α → List Token → Prop}

namespace Orderly

theorem of_ok {value : α} {after : Reading} (orderly : Orderly step before made)
    (result : step before = .ok value after) : Follows before after ∧ made value after.rest := by
  unfold Orderly at orderly
  rw [result] at orderly
  exact orderly

theorem of_recoverable {diagnostic : Diagnostic} {after : Reading}
    (orderly : Orderly step before made)
    (result : step before = .error (.recoverable diagnostic) after) : Follows before after := by
  unfold Orderly at orderly
  rw [result] at orderly
  exact orderly

theorem not_fatal {diagnostic : Diagnostic} {after : Reading}
    (orderly : Orderly step before made) :
    step before ≠ .error (.fatal diagnostic) after := by
  intro result
  unfold Orderly at orderly
  rw [result] at orderly
  exact orderly

theorem of_results
    (done : ∀ value after, step before = .ok value after →
      Follows before after ∧ made value after.rest)
    (stopped : ∀ diagnostic after, step before = .error (.recoverable diagnostic) after →
      Follows before after)
    (blameless : ∀ diagnostic after, step before ≠ .error (.fatal diagnostic) after) :
    Orderly step before made := by
  unfold Orderly
  split
  · exact done _ _ ‹_›
  · exact stopped _ _ ‹_›
  · exact blameless _ _ ‹_›

/-- What was read stays read when less is said about it. -/
theorem mono {other : α → List Token → Prop} (orderly : Orderly step before made)
    (implies : ∀ value rest, made value rest → other value rest) :
    Orderly step before other :=
  .of_results
    (fun _ _ result => (orderly.of_ok result).imp_right (implies _ _))
    (fun _ _ result => orderly.of_recoverable result)
    (fun _ _ => orderly.not_fatal)

/-- Between an orderly step and what comes behind it, the reader passes on. -/
theorem bind {next : α → Step β} {final : β → List Token → Prop}
    (first : Orderly step before made)
    (onward : ∀ value after, Follows before after → made value after.rest →
      Orderly (next value) after final) :
    Orderly (step >>= next) before final := by
  unfold Orderly
  cases result : step before with
  | error halt after =>
      rw [bind_of_error result]
      cases halt with
      | recoverable diagnostic => exact first.of_recoverable result
      | fatal diagnostic => exact absurd result first.not_fatal
  | ok value middle =>
      obtain ⟨start, here⟩ := first.of_ok result
      have behind := onward value middle start here
      rw [bind_of_ok result]
      split
      · exact ⟨start.trans (behind.of_ok ‹_›).1, (behind.of_ok ‹_›).2⟩
      · exact start.trans (behind.of_recoverable ‹_›)
      · exact absurd ‹_› behind.not_fatal

/-- A step behind which the reader has read on is orderly from where it started. -/
theorem from_earlier {earlier : Reading} (follows : Follows earlier before)
    (orderly : Orderly step before made) {whole : Step α}
    (same : whole earlier = step before) : Orderly whole earlier made := by
  unfold Orderly
  rw [same]
  split
  · exact ⟨follows.trans (orderly.of_ok ‹_›).1, (orderly.of_ok ‹_›).2⟩
  · exact follows.trans (orderly.of_recoverable ‹_›)
  · exact absurd ‹_› orderly.not_fatal

theorem ite {condition : Prop} [Decidable condition] {other : Step α}
    (holds : condition → Orderly step before made)
    (fails : ¬condition → Orderly other before made) :
    Orderly (if condition then step else other) before made := by
  by_cases decided : condition
  · rw [if_pos decided]
    exact holds decided
  · rw [if_neg decided]
    exact fails decided

end Orderly

/-! ### Ends -/

theorem orderly_pure {value : α} (here : made value before.rest) :
    Orderly (pure value) before made :=
  ⟨.refl before, here⟩

theorem orderly_refuse (diagnostic : Diagnostic) :
    Orderly (refuse diagnostic : Step α) before made :=
  .refl before

theorem orderly_unexpected (expected : Expectation) :
    Orderly (unexpected expected : Step α) before made :=
  .refl before

/-! ### Steps on tokens -/

variable {next : Token → Step β} {final : β → List Token → Prop}

theorem peek_orderly (onward : Orderly (next before.current) before final) :
    Orderly (peek >>= next) before final :=
  onward

theorem check_orderly {other : Step α} (kind : Token.Kind)
    (is : before.current.kind = kind → Orderly step before made)
    (isNot : before.current.kind ≠ kind → Orderly other before made) :
    Orderly (do if ← check kind then step else other) before made := by
  unfold Orderly
  rw [check_then]
  exact Orderly.ite is isNot

theorem followsExpression_orderly {other : Step α}
    (opened : before.contexts.head? = some .expression → Orderly step before made)
    (first : before.contexts.head? ≠ some .expression → Orderly other before made) :
    Orderly (do if ← followsExpression then step else other) before made := by
  unfold Orderly
  rw [followsExpression_then]
  exact Orderly.ite opened first

/-- The state of the reader behind its current token. -/
def advanced (reading : Reading) : Reading := { reading with rest := reading.rest.tail }

theorem follows_advanced (reading : Reading) : Follows reading reading.advanced :=
  .of_rest (List.tail_suffix _)

/-- What is left behind an advance is left behind the current token. -/
theorem advance_orderly (onward : Orderly (next before.current) before.advanced final) :
    Orderly (advance >>= next) before
      fun value rest => rest <:+ before.rest.tail ∧ final value rest := by
  have later : Orderly (next before.current) before.advanced
      fun value rest => rest <:+ before.rest.tail ∧ final value rest :=
    .of_results
      (fun _ _ result =>
        have done := onward.of_ok result
        ⟨done.1, done.1.rest, done.2⟩)
      (fun _ _ => onward.of_recoverable)
      (fun _ _ => onward.not_fatal)
  exact .from_earlier (follows_advanced before) later rfl

theorem advance_orderly_any
    (onward : Orderly (next before.current) before.advanced fun _ _ => True) :
    Orderly (advance >>= next) before fun _ _ => True :=
  .from_earlier (follows_advanced before) onward rfl

theorem follows_skip (test : Token.Kind → Bool) (reading : Reading) :
    Follows reading (reading.skip test) :=
  .of_rest (List.dropWhile_suffix _)

/-- Where the current token passes no test there is nothing to skip. -/
theorem skip_of_current {reading : Reading} {test : Token.Kind → Bool}
    (stands : test reading.current.kind = false) : reading.skip test = reading := by
  obtain ⟨rest, last, contexts, diagnostics⟩ := reading
  cases rest with
  | nil => rfl
  | cons first tail =>
      have refused : test first.kind = false := stands
      unfold skip
      rw [List.dropWhile_cons_of_neg (by simp [refused])]

/-- A token behind those that were skipped does not pass the test. -/
theorem stands_of_skip {reading : Reading} {test : Token.Kind → Bool} {first : Token}
    {tail : List Token} (rest : (reading.skip test).rest = first :: tail) :
    test first.kind = false := by
  have stands := List.head?_dropWhile_not (fun token => test token.kind) reading.rest
  have same : reading.rest.dropWhile (fun token => test token.kind) = first :: tail := rest
  rw [same] at stands
  simpa using stands

theorem skipping_orderly {onwards : Unit → Step β} (test : Token.Kind → Bool)
    (onward : Orderly (onwards ()) (before.skip test) final) :
    Orderly (skipping test >>= onwards) before final :=
  .from_earlier (follows_skip test before) onward rfl

theorem orderly_resumeAt (test : Token.Kind → Bool) :
    Orderly (resumeAt test) before fun _ rest => rest = resumption test 0 before.rest :=
  ⟨.of_rest (resumption_suffix _ _ _), rfl⟩

theorem follows_report (reading : Reading) (diagnostic : Diagnostic) :
    Follows reading { reading with diagnostics := reading.diagnostics ++ [diagnostic] } :=
  ⟨List.suffix_refl _, rfl, rfl, List.prefix_append _ _⟩

theorem orderly_report (diagnostic : Diagnostic) :
    Orderly (report diagnostic) before fun _ rest => rest = before.rest :=
  ⟨follows_report before diagnostic, rfl⟩

/-! ### Expected tokens -/

theorem orderly_expect (kind : Token.Kind) (expected : Expectation) :
    Orderly (expect kind expected) before fun token rest =>
      token = before.current ∧ token.kind = kind ∧ rest = before.rest.tail := by
  refine check_orderly kind (fun same => ?_) fun _ => orderly_unexpected expected
  exact ⟨follows_advanced before, rfl, same, rfl⟩

theorem orderly_numberValue (token : Token) :
    Orderly (numberValue token) before fun value rest =>
      token.number? = some value ∧ rest = before.rest := by
  unfold numberValue
  split
  · exact orderly_pure ⟨‹_›, rfl⟩
  · exact orderly_refuse _

theorem orderly_expectNumber (expected : Expectation) :
    Orderly (expectNumber expected) before fun value rest =>
      before.current.number? = some value ∧ rest = before.rest.tail := by
  refine (orderly_expect .number expected).bind fun token after follows here => ?_
  obtain ⟨rfl, _, rest⟩ := here
  rw [← rest]
  exact orderly_numberValue _

theorem orderly_stringValue (token : Token) :
    Orderly (stringValue token) before fun text rest =>
      token.isTerminated = true ∧ text = token.unquoted ∧ rest = before.rest :=
  .ite (fun terminated => orderly_pure ⟨terminated, rfl, rfl⟩) fun _ => orderly_refuse _

/-! ### Problems and nesting -/

/-- A fault of the score that is handed on leaves the reader in order. -/
theorem orderly_attempt (orderly : Orderly step before made) :
    Orderly (attempt step) before fun
      | .ok value, rest => made value rest
      | .error _, _ => True := by
  unfold Orderly attempt
  cases result : step before with
  | ok value after => exact orderly.of_ok result
  | error halt after =>
      cases halt with
      | recoverable diagnostic => exact ⟨orderly.of_recoverable result, trivial⟩
      | fatal diagnostic => exact orderly.not_fatal result

/-- The state of the reader when it has entered a construct. -/
def inside (reading : Reading) (context : Context) : Reading :=
  { reading with contexts := context :: reading.contexts }

/-- Leaving a construct that the reader has come back to is never its fault. -/
theorem leave_of_contexts {after : Reading} {context : Context} {outer : List Context}
    (contexts : after.contexts = context :: outer) :
    leave context after = .ok () { after with contexts := outer } := by
  unfold leave
  rw [contexts]
  dsimp only
  rw [if_pos rfl]

/-- Leaving any other construct stops the reader. -/
theorem leave_cases (context : Context) (reading : Reading) :
    (∃ outer, reading.contexts = context :: outer) ∨
      ∃ diagnostic after, leave context reading = .error (.fatal diagnostic) after := by
  unfold leave
  cases reading.contexts with
  | nil => exact .inr ⟨_, _, rfl⟩
  | cons innermost outer =>
      by_cases same : innermost = context
      · exact .inl ⟨outer, by rw [same]⟩
      · exact .inr ⟨_, _, if_neg same⟩

theorem Follows.leave {after : Reading} {context : Context}
    (follows : Follows (before.inside context) after) :
    Follows before { after with contexts := before.contexts } :=
  ⟨follows.rest, follows.last, rfl, follows.diagnostics⟩

/-- A step that is orderly inside of a construct is orderly around it. -/
theorem within_of_ok {context : Context} {value : α} {after : Reading}
    (result : step (before.inside context) = .ok value after) :
    within context step before = (do leave context; pure value : Step α) after := by
  have entered : enter context before = .ok () (before.inside context) := rfl
  refine (bind_of_ok entered).trans ?_
  rw [result]

theorem within_of_error {context : Context} {halt : Halt} {after : Reading}
    (result : step (before.inside context) = .error halt after) :
    within context step before = (do leave context; throw halt : Step α) after := by
  have entered : enter context before = .ok () (before.inside context) := rfl
  refine (bind_of_ok entered).trans ?_
  rw [result]

theorem orderly_within {context : Context}
    (orderly : Orderly step (before.inside context) made) :
    Orderly (within context step) before made := by
  unfold Orderly
  cases result : step (before.inside context) with
  | ok value after =>
      obtain ⟨follows, here⟩ := orderly.of_ok result
      have left : (do leave context; pure value : Step α) after =
          .ok value { after with contexts := before.contexts } :=
        bind_of_ok (leave_of_contexts follows.contexts)
      rw [within_of_ok result, left]
      exact ⟨follows.leave, here⟩
  | error halt after =>
      cases halt with
      | fatal diagnostic => exact absurd result orderly.not_fatal
      | recoverable diagnostic =>
          have follows := orderly.of_recoverable result
          have left : (do leave context; throw (.recoverable diagnostic) : Step α) after =
              .error (.recoverable diagnostic) { after with contexts := before.contexts } :=
            bind_of_ok (leave_of_contexts follows.contexts)
          rw [within_of_error result, left]
          exact follows.leave

end Building

/-! ### Steps that never refuse -/

/-- No fault of the score stops the step. -/
def Unfailing {α : Type} (step : Step α) : Prop :=
  ∀ before diagnostic after, step before ≠ .error (.recoverable diagnostic) after

section Unfailing

variable {α β : Type} {step : Step α}

theorem unfailing_of_total (total : ∀ before, ∃ value after, step before = .ok value after) :
    Unfailing step := by
  intro before diagnostic after stopped
  obtain ⟨value, there, result⟩ := total before
  rw [result] at stopped
  contradiction

theorem unfailing_pure (value : α) : Unfailing (pure value) :=
  unfailing_of_total fun before => ⟨value, before, rfl⟩

theorem unfailing_abort (problem : InternalProblem) : Unfailing (abort problem : Step α) := by
  intro before diagnostic after stopped
  have impossible := (EStateM.Result.error.inj stopped).1
  contradiction

theorem unfailing_attempt : Unfailing (attempt step) := by
  intro before diagnostic after stopped
  unfold attempt at stopped
  split at stopped
  · contradiction
  · contradiction
  · have impossible := (EStateM.Result.error.inj stopped).1
    contradiction

theorem Unfailing.bind {next : α → Step β} (first : Unfailing step)
    (onward : ∀ value, Unfailing (next value)) : Unfailing (step >>= next) := by
  intro before diagnostic after stopped
  cases result : step before with
  | ok value middle =>
      rw [bind_of_ok result] at stopped
      exact onward _ _ _ _ stopped
  | error halt middle =>
      rw [bind_of_error result] at stopped
      obtain ⟨rfl, rfl⟩ := EStateM.Result.error.inj stopped
      exact first _ _ _ result

theorem Unfailing.ite {condition : Prop} [Decidable condition] {other : Step α}
    (holds : Unfailing step) (fails : Unfailing other) :
    Unfailing (if condition then step else other) := by
  by_cases decided : condition
  · rw [if_pos decided]
    exact holds
  · rw [if_neg decided]
    exact fails

/-- An orderly step that never refuses comes to its end. -/
theorem Orderly.exists_ok {before : Reading} {made : α → List Token → Prop}
    (orderly : Orderly step before made) (unfailing : Unfailing step) :
    ∃ value after, step before = .ok value after ∧ Follows before after ∧
      made value after.rest := by
  cases result : step before with
  | ok value after => exact ⟨value, after, rfl, orderly.of_ok result⟩
  | error halt after =>
      cases halt with
      | recoverable diagnostic => exact absurd result (unfailing _ _ _)
      | fatal diagnostic => exact absurd result orderly.not_fatal

end Unfailing

end Solfege.Reading
