import Solfege.Proofs.Reading.Conduct
import Solfege.Reading.Statement

/-!
Contract: steps of reading that go the same way whatever surrounds what they read.

Owns:
- the frame of a reading: the tokens behind it, and what was reported before it;
- the readings that fit into a frame: those that nothing stands behind, and those whose
  tokens run up to a statement break and open nothing;
- steps that are carried by a frame, and how they are put together from the steps that
  reading consists of.

Does not own: the grammar, and what a step that blames the reader does in a frame.

A bound on the tokens that are left is larger inside of a frame. This is why a step is
compared with a second one, its twin, and not with itself.
-/

namespace Solfege.Reading

/-! ### Tokens that are barred -/

/-- Whether a kind stands within a line and opens nothing that could reach beyond it. -/
def isPlain : Token.Kind → Bool
  | .newline | .semicolon | .endOfFile | .leftBracket | .leftParen => false
  | _ => true

/-- Plain tokens with one statement break behind them. -/
inductive Barred : List Token → Prop where
  | stop {token : Token} (breaks : isStatementBreak token.kind = true) : Barred [token]
  | cons {token : Token} {rest : List Token} (plain : isPlain token.kind = true)
      (barred : Barred rest) : Barred (token :: rest)

section Barred

variable {test : Token.Kind → Bool} {tokens : List Token}

theorem Barred.of_plain {front : List Token} {stop : Token}
    (plain : ∀ token ∈ front, isPlain token.kind = true)
    (breaks : isStatementBreak stop.kind = true) : Barred (front ++ [stop]) := by
  induction front with
  | nil => exact .stop breaks
  | cons first others inductionHypothesis =>
      rcases List.forall_mem_cons.mp plain with ⟨firstPlain, othersPlain⟩
      exact .cons firstPlain (inductionHypothesis othersPlain)

theorem Barred.ne_nil (barred : Barred tokens) : tokens ≠ [] := by
  cases barred <;> simp

theorem Barred.tail {token : Token} {rest : List Token} (barred : Barred (token :: rest))
    (stands : isStatementBreak token.kind = false) : Barred rest := by
  cases barred with
  | stop breaks => simp [breaks] at stands
  | cons _ barred => exact barred

/-- A test that no statement break passes leaves what is barred barred. -/
theorem Barred.dropWhile (barred : Barred tokens)
    (bars : ∀ kind, isStatementBreak kind = true → test kind = false) :
    Barred (tokens.dropWhile fun token => test token.kind) := by
  induction barred with
  | stop breaks => simpa [bars _ breaks] using Barred.stop breaks
  | @cons token rest plain barred inductionHypothesis =>
      by_cases passes : test token.kind = true
      · simpa [passes] using inductionHypothesis
      · simpa [passes] using barred.cons plain

theorem Barred.dropWhile_append (barred : Barred tokens)
    (bars : ∀ kind, isStatementBreak kind = true → test kind = false) (behind : List Token) :
    (tokens ++ behind).dropWhile (fun token => test token.kind) =
      tokens.dropWhile (fun token => test token.kind) ++ behind := by
  induction barred with
  | stop breaks => simp [bars _ breaks]
  | @cons token rest plain barred inductionHypothesis =>
      by_cases passes : test token.kind = true
      · simpa [passes] using inductionHypothesis
      · simp [passes]

theorem Barred.takeWhile_append (barred : Barred tokens)
    (bars : ∀ kind, isStatementBreak kind = true → test kind = false) (behind : List Token) :
    (tokens ++ behind).takeWhile (fun token => test token.kind) =
      tokens.takeWhile fun token => test token.kind := by
  induction barred with
  | stop breaks => simp [bars _ breaks]
  | @cons token rest plain barred inductionHypothesis =>
      by_cases passes : test token.kind = true
      · simpa [passes] using inductionHypothesis
      · simp [passes]

/-- Where nothing is opened and every statement break passes the test, reading goes on at the
statement break at the latest. -/
theorem Barred.resumption (barred : Barred tokens)
    (rests : ∀ kind, isStatementBreak kind = true → test kind = true) :
    Barred (resumption test 0 tokens) ∧ ∀ behind,
      resumption test 0 (tokens ++ behind) = resumption test 0 tokens ++ behind := by
  induction barred with
  | stop breaks => simpa [Reading.resumption, rests _ breaks] using Barred.stop breaks
  | @cons token rest plain barred inductionHypothesis =>
      by_cases passes : test token.kind = true
      · simpa [Reading.resumption, passes] using barred.cons plain
      · cases kind : token.kind with
        | endOfFile => simp [kind, isPlain] at plain
        | leftBracket => simp [kind, isPlain] at plain
        | _ =>
            rw [kind] at passes
            simpa [Reading.resumption, kind, passes] using inductionHypothesis

end Barred

/-! ### Frames -/

/-- What surrounds a reading. -/
inductive Frame where
  /-- Something was reported before. -/
  | whole (reported : List Diagnostic)
  /-- Tokens stand behind, too, and another one closes them. -/
  | part (behind : List Token) (last : Token) (reported : List Diagnostic)

namespace Frame

def isWhole : Frame → Bool
  | whole _ => true
  | part _ _ _ => false

/-- The number of tokens that stand behind. -/
def extent : Frame → Nat
  | whole _ => 0
  | part behind _ _ => behind.length

/-- The reading with its surroundings. -/
def around : Frame → Reading → Reading
  | whole reported, reading => { reading with diagnostics := reported ++ reading.diagnostics }
  | part behind last reported, reading =>
      ⟨reading.rest ++ behind, last, reading.contexts, reported ++ reading.diagnostics⟩

/-- Nothing of the tokens behind is needed to go on reading. -/
def Fits : Frame → Reading → Prop
  | whole _, _ => True
  | part _ _ _, reading => Barred reading.rest

/-- No statement break that bars the tokens behind passes the test. -/
def Bars (frame : Frame) (test : Token.Kind → Bool) : Prop :=
  frame.isWhole = true ∨ ∀ kind, isStatementBreak kind = true → test kind = false

/-- Every statement break that bars the tokens behind passes the test. -/
def Rests (frame : Frame) (test : Token.Kind → Bool) : Prop :=
  frame.isWhole = true ∨ ∀ kind, isStatementBreak kind = true → test kind = true

theorem bars_isSpace (frame : Frame) : frame.Bars isSpace := by
  apply Or.inr
  intro kind breaks
  cases kind <;> first | rfl | contradiction

theorem bars_isAccidental (frame : Frame) : frame.Bars isAccidental := by
  apply Or.inr
  intro kind breaks
  cases kind <;> first | rfl | contradiction

theorem rests_isStatementBreak (frame : Frame) : frame.Rests isStatementBreak :=
  .inr fun _ breaks => breaks

section Fits

variable {frame : Frame} {before after : Reading}

/-- The bound that every loop is given at its start. -/
theorem bound_around (frame : Frame) (reading : Reading) :
    (frame.around reading).rest.length + 1 = reading.rest.length + 1 + frame.extent := by
  cases frame with
  | whole reported => rfl
  | part behind last reported =>
      simp only [around, extent, List.length_append]
      omega

@[simp] theorem contexts_around (frame : Frame) (reading : Reading) :
    (frame.around reading).contexts = reading.contexts := by
  cases frame <;> rfl

theorem Fits.congr (fits : frame.Fits before) (rest : after.rest = before.rest) :
    frame.Fits after := by
  cases frame with
  | whole reported => trivial
  | part behind last reported =>
      show Barred after.rest
      rw [rest]
      exact fits

theorem Fits.current (fits : frame.Fits before) :
    (frame.around before).current = before.current := by
  cases frame with
  | whole reported => rfl
  | part behind last reported =>
      cases rest : before.rest with
      | nil => exact absurd rest fits.ne_nil
      | cons first tail => simp [Reading.current, around, rest]

/-- Only where nothing stands behind can something be opened. -/
theorem Fits.isWhole (fits : frame.Fits before) (opens : isPlain before.current.kind = false)
    (stands : isStatementBreak before.current.kind = false) : frame.isWhole = true := by
  cases frame with
  | whole reported => rfl
  | part behind last reported =>
      have barred : Barred before.rest := fits
      cases rest : before.rest with
      | nil => exact absurd rest barred.ne_nil
      | cons first tail =>
          rw [current_cons rest] at opens stands
          rw [rest] at barred
          cases barred with
          | stop breaks => simp [breaks] at stands
          | cons plain _ => simp [plain] at opens

/-! ### Reading on -/

theorem Fits.advanced (fits : frame.Fits before)
    (stands : isStatementBreak before.current.kind = false) :
    frame.Fits before.advanced ∧
      (frame.around before).advanced = frame.around before.advanced := by
  cases frame with
  | whole reported => exact ⟨trivial, rfl⟩
  | part behind last reported =>
      have barred : Barred before.rest := fits
      cases rest : before.rest with
      | nil => exact absurd rest barred.ne_nil
      | cons first tail =>
          rw [current_cons rest] at stands
          rw [rest] at barred
          have left : before.advanced.rest = tail := by simp [Reading.advanced, rest]
          constructor
          · show Barred before.advanced.rest
            rw [left]
            exact barred.tail stands
          · simp [Reading.advanced, around, rest]

theorem Fits.skip {test : Token.Kind → Bool} (fits : frame.Fits before)
    (bars : frame.Bars test) :
    frame.Fits (before.skip test) ∧
      (frame.around before).skip test = frame.around (before.skip test) := by
  cases frame with
  | whole reported => exact ⟨trivial, rfl⟩
  | part behind last reported =>
      have barred : Barred before.rest := fits
      have bars := bars.resolve_left (by simp [Frame.isWhole])
      refine ⟨barred.dropWhile bars, ?_⟩
      simp [Reading.skip, around, barred.dropWhile_append bars]

theorem Fits.takeWhile {test : Token.Kind → Bool} (fits : frame.Fits before)
    (bars : frame.Bars test) :
    ((frame.around before).rest.takeWhile fun token => test token.kind) =
      before.rest.takeWhile fun token => test token.kind := by
  cases frame with
  | whole reported => rfl
  | part behind last reported =>
      have barred : Barred before.rest := fits
      exact barred.takeWhile_append (bars.resolve_left (by simp [Frame.isWhole])) behind

theorem Fits.resumption {test : Token.Kind → Bool} (fits : frame.Fits before)
    (rests : frame.Rests test) :
    frame.Fits { before with rest := resumption test 0 before.rest } ∧
      { frame.around before with rest := resumption test 0 (frame.around before).rest } =
        frame.around { before with rest := resumption test 0 before.rest } := by
  cases frame with
  | whole reported => exact ⟨trivial, rfl⟩
  | part behind last reported =>
      have barred : Barred before.rest := fits
      have resumed := barred.resumption (rests.resolve_left (by simp [Frame.isWhole]))
      exact ⟨resumed.1, by simp [around, resumed.2]⟩

theorem around_diagnostics (frame : Frame) (reading : Reading) (found : List Diagnostic) :
    { frame.around reading with diagnostics := (frame.around reading).diagnostics ++ found } =
      frame.around { reading with diagnostics := reading.diagnostics ++ found } := by
  cases frame <;> simp [around]

theorem around_contexts (frame : Frame) (reading : Reading) (contexts : List Context) :
    { frame.around reading with contexts := contexts } =
      frame.around { reading with contexts := contexts } := by
  cases frame <;> rfl

theorem inside_around (frame : Frame) (reading : Reading) (context : Context) :
    (frame.around reading).inside context = frame.around (reading.inside context) := by
  cases frame <;> rfl

end Fits

/-! ### Steps that are carried -/

/-- From a reading on, the twin does in the frame what the step does alone, and what is left
fits into the frame again. -/
def Carries {α : Type} (frame : Frame) (step twin : Step α) (before : Reading) : Prop :=
  match step before with
  | .ok value after =>
      frame.Fits after ∧ twin (frame.around before) = .ok value (frame.around after)
  | .error (.recoverable diagnostic) after =>
      frame.Fits after ∧
        twin (frame.around before) = .error (.recoverable diagnostic) (frame.around after)
  | .error (.fatal _) _ => True

section Building

variable {α β : Type} {frame : Frame} {step twin : Step α} {before : Reading}

namespace Carries

theorem of_ok {value : α} {after : Reading} (carries : frame.Carries step twin before)
    (result : step before = .ok value after) :
    frame.Fits after ∧ twin (frame.around before) = .ok value (frame.around after) := by
  unfold Carries at carries
  rw [result] at carries
  exact carries

theorem of_recoverable {diagnostic : Diagnostic} {after : Reading}
    (carries : frame.Carries step twin before)
    (result : step before = .error (.recoverable diagnostic) after) :
    frame.Fits after ∧
      twin (frame.around before) = .error (.recoverable diagnostic) (frame.around after) := by
  unfold Carries at carries
  rw [result] at carries
  exact carries

/-- The first step of two may go on to another reading. -/
theorem of_same {other : Reading} {whole wholeTwin : Step α}
    (carries : frame.Carries step twin other) (same : whole before = step other)
    (sameTwin : wholeTwin (frame.around before) = twin (frame.around other)) :
    frame.Carries whole wholeTwin before := by
  unfold Carries
  rw [same, sameTwin]
  exact carries

theorem bind {next nextTwin : α → Step β} (first : frame.Carries step twin before)
    (onward : ∀ value after, frame.Fits after →
      frame.Carries (next value) (nextTwin value) after) :
    frame.Carries (step >>= next) (twin >>= nextTwin) before := by
  cases result : step before with
  | ok value after =>
      rcases first.of_ok result with ⟨fits, same⟩
      exact (onward value after fits).of_same (bind_of_ok result) (bind_of_ok same)
  | error halt after =>
      unfold Carries
      rw [bind_of_error result]
      cases halt with
      | recoverable diagnostic =>
          rcases first.of_recoverable result with ⟨fits, same⟩
          exact ⟨fits, bind_of_error same⟩
      | fatal diagnostic => trivial

theorem ite {condition : Prop} [Decidable condition] {other otherTwin : Step α}
    (holds : condition → frame.Carries step twin before)
    (fails : ¬condition → frame.Carries other otherTwin before) :
    frame.Carries (if condition then step else other) (if condition then twin else otherTwin)
      before := by
  by_cases decided : condition
  · simpa [decided] using holds decided
  · simpa [decided] using fails decided

end Carries

/-! ### Ends -/

theorem carries_pure (value : α) (fits : frame.Fits before) :
    frame.Carries (pure value) (pure value) before :=
  ⟨fits, rfl⟩

theorem carries_refuse (diagnostic : Diagnostic) (fits : frame.Fits before) :
    frame.Carries (refuse diagnostic : Step α) (refuse diagnostic) before :=
  ⟨fits, rfl⟩

theorem carries_abort (problem : InternalProblem) :
    frame.Carries (abort problem : Step α) twin before :=
  trivial

/-! ### Steps on tokens -/

section Tokens

variable {next nextTwin : Token → Step β}

theorem peek_carries (fits : frame.Fits before)
    (onward : frame.Carries (next before.current) (nextTwin before.current) before) :
    frame.Carries (peek >>= next) (peek >>= nextTwin) before := by
  apply onward.of_same rfl
  show nextTwin (frame.around before).current (frame.around before) = _
  rw [fits.current]

theorem carries_unexpected (expected : Expectation) (fits : frame.Fits before) :
    frame.Carries (unexpected expected : Step α) (unexpected expected) before :=
  peek_carries fits (carries_refuse _ fits)

theorem check_carries {other otherTwin : Step α} (kind : Token.Kind) (fits : frame.Fits before)
    (is : before.current.kind = kind → frame.Carries step twin before)
    (isNot : before.current.kind ≠ kind → frame.Carries other otherTwin before) :
    frame.Carries (do if ← check kind then step else other)
      (do if ← check kind then twin else otherTwin) before := by
  apply (Carries.ite is isNot).of_same (check_then _ _ _ _)
  rw [check_then, fits.current]

theorem followsExpression_carries {other otherTwin : Step α}
    (opened : frame.Carries step twin before) (first : frame.Carries other otherTwin before) :
    frame.Carries (do if ← followsExpression then step else other)
      (do if ← followsExpression then twin else otherTwin) before := by
  apply (Carries.ite (fun _ => opened) fun _ => first).of_same (followsExpression_then _ _ _)
  rw [followsExpression_then, contexts_around]

theorem advance_carries (fits : frame.Fits before)
    (stands : isStatementBreak before.current.kind = false)
    (onward : frame.Fits before.advanced →
      frame.Carries (next before.current) (nextTwin before.current) before.advanced) :
    frame.Carries (advance >>= next) (advance >>= nextTwin) before := by
  rcases fits.advanced stands with ⟨fitsOn, same⟩
  have twinOn : (advance >>= nextTwin) (frame.around before) =
      nextTwin before.current (frame.around before.advanced) := by
    show nextTwin (frame.around before).current (frame.around before).advanced = _
    rw [fits.current, same]
  exact Carries.of_same (onward fitsOn) rfl twinOn

theorem carries_advance (fits : frame.Fits before)
    (stands : isStatementBreak before.current.kind = false) :
    frame.Carries advance advance before :=
  advance_carries fits stands (carries_pure _)

theorem carries_skipping {test : Token.Kind → Bool} (bars : frame.Bars test)
    (fits : frame.Fits before) :
    frame.Carries (skipping test) (skipping test) before := by
  rcases fits.skip bars with ⟨fitsOn, same⟩
  exact ⟨fitsOn, congrArg (EStateM.Result.ok ()) same⟩

theorem carries_resumeAt {test : Token.Kind → Bool} (rests : frame.Rests test)
    (fits : frame.Fits before) :
    frame.Carries (resumeAt test) (resumeAt test) before := by
  rcases fits.resumption rests with ⟨fitsOn, same⟩
  exact ⟨fitsOn, congrArg (EStateM.Result.ok ()) same⟩

end Tokens

/-! ### Expected tokens -/

theorem carries_expect {kind : Token.Kind} (expected : Expectation)
    (stands : isStatementBreak kind = false) (fits : frame.Fits before) :
    frame.Carries (expect kind expected) (expect kind expected) before := by
  apply check_carries kind fits
  · intro same
    exact carries_advance fits (same ▸ stands)
  · exact fun _ => carries_unexpected expected fits

theorem carries_numberValue (token : Token) (fits : frame.Fits before) :
    frame.Carries (numberValue token) (numberValue token) before := by
  unfold numberValue
  split
  · exact carries_pure _ fits
  · exact carries_refuse _ fits

theorem carries_expectNumber (expected : Expectation) (fits : frame.Fits before) :
    frame.Carries (expectNumber expected) (expectNumber expected) before := by
  apply (carries_expect expected rfl fits).bind
  exact fun token _ fits => carries_numberValue token fits

theorem carries_stringValue (token : Token) (fits : frame.Fits before) :
    frame.Carries (stringValue token) (stringValue token) before :=
  .ite (fun _ => carries_pure _ fits) fun _ => carries_refuse _ fits

/-! ### Problems and nesting -/

theorem carries_report (diagnostic : Diagnostic) (fits : frame.Fits before) :
    frame.Carries (report diagnostic) (report diagnostic) before :=
  ⟨fits.congr rfl, congrArg (EStateM.Result.ok ()) (around_diagnostics frame before _)⟩

theorem carries_attempt (carries : frame.Carries step twin before) :
    frame.Carries (attempt step) (attempt twin) before := by
  unfold Carries attempt
  cases result : step before with
  | ok value after =>
      rcases carries.of_ok result with ⟨fits, same⟩
      exact ⟨fits, by rw [same]⟩
  | error halt after =>
      cases halt with
      | recoverable diagnostic =>
          rcases carries.of_recoverable result with ⟨fits, same⟩
          exact ⟨fits, by rw [same]⟩
      | fatal diagnostic => trivial

theorem carries_enter (context : Context) (fits : frame.Fits before) :
    frame.Carries (enter context) (enter context) before :=
  ⟨fits.congr rfl, congrArg (EStateM.Result.ok ()) (inside_around frame before context)⟩

theorem carries_leave (context : Context) (fits : frame.Fits before) :
    frame.Carries (leave context) (leave context) before := by
  unfold Carries
  rcases leave_cases context before with ⟨outer, contexts⟩ | ⟨diagnostic, after, stopped⟩
  · have contextsAround : (frame.around before).contexts = context :: outer := by
      rw [contexts_around, contexts]
    rw [leave_of_contexts contexts, leave_of_contexts contextsAround, around_contexts]
    exact ⟨fits.congr rfl, rfl⟩
  · rw [stopped]
    trivial

theorem carries_within {context : Context}
    (carries : frame.Carries step twin (before.inside context)) :
    frame.Carries (within context step) (within context twin) before := by
  have inside := inside_around frame before context
  cases result : step (before.inside context) with
  | ok value after =>
      rcases carries.of_ok result with ⟨fits, same⟩
      rw [← inside] at same
      have left := (carries_leave context fits).bind fun _ _ fits => carries_pure value fits
      exact left.of_same (within_of_ok result) (within_of_ok same)
  | error halt after =>
      cases halt with
      | recoverable diagnostic =>
          rcases carries.of_recoverable result with ⟨fits, same⟩
          rw [← inside] at same
          have left : frame.Carries (leave context >>= fun _ => (refuse diagnostic : Step α))
              (leave context >>= fun _ => refuse diagnostic) after :=
            (carries_leave context fits).bind fun _ _ fits => carries_refuse diagnostic fits
          exact left.of_same (within_of_error result) (within_of_error same)
      | fatal diagnostic =>
          unfold Carries
          rw [within_of_error result]
          rcases leave_cases context after with ⟨outer, contexts⟩ | ⟨_, _, stopped⟩
          · rw [bind_of_ok (leave_of_contexts contexts)]
            trivial
          · rw [bind_of_error stopped]
            trivial

end Building

end Frame

end Solfege.Reading
