import Solfege.Proofs.Recovery.Place

/-!
Contract: steps that lead from a place inside of a call to another one.

Owns:
- what is known behind a step that comes to its end, and behind one that stops at a fault of
  the score;
- how such steps are put together from the steps that reading consists of;
- steps that keep to the closing brackets that are expected.

Does not own: that a step does either, and the grammar.
-/

namespace Solfege.Reading

/-- Behind the step one thing holds if it comes to its end, and another if it stops at a fault
of the score. -/
def Leads {α : Type} (step : Step α) (before : Reading) (done stopped : Reading → Prop) : Prop :=
  match step before with
  | .ok _ after => done after
  | .error (.recoverable _) after => stopped after
  | .error (.fatal _) _ => True

section Building

variable {α β : Type} {step : Step α} {before : Reading}
variable {done stopped middle failed : Reading → Prop}

namespace Leads

theorem of_ok {value : α} {after : Reading} (leads : Leads step before done stopped)
    (result : step before = .ok value after) : done after := by
  unfold Leads at leads
  rw [result] at leads
  exact leads

theorem of_recoverable {diagnostic : Diagnostic} {after : Reading}
    (leads : Leads step before done stopped)
    (result : step before = .error (.recoverable diagnostic) after) : stopped after := by
  unfold Leads at leads
  rw [result] at leads
  exact leads

theorem of_results (ends : ∀ value after, step before = .ok value after → done after)
    (stops : ∀ diagnostic after, step before = .error (.recoverable diagnostic) after →
      stopped after) : Leads step before done stopped := by
  unfold Leads
  split
  · exact ends _ _ ‹_›
  · exact stops _ _ ‹_›
  · trivial

theorem mono (leads : Leads step before middle failed) (ends : ∀ after, middle after → done after)
    (stops : ∀ after, failed after → stopped after) : Leads step before done stopped :=
  .of_results (fun _ _ result => ends _ (leads.of_ok result))
    (fun _ _ result => stops _ (leads.of_recoverable result))

theorem bind {next : α → Step β} (first : Leads step before middle stopped)
    (onward : ∀ value after, middle after → Leads (next value) after done stopped) :
    Leads (step >>= next) before done stopped := by
  unfold Leads
  cases result : step before with
  | ok value after =>
      rw [bind_of_ok result]
      exact onward value after (first.of_ok result)
  | error halt after =>
      rw [bind_of_error result]
      cases halt with
      | recoverable diagnostic => exact first.of_recoverable result
      | fatal diagnostic => trivial

/-- A fault of the score that was tried for is handed on to the step behind. -/
theorem attempt_bind {next : Except Diagnostic α → Step β}
    (first : Leads step before middle failed)
    (onward : ∀ value after, middle after → Leads (next (.ok value)) after done stopped)
    (rescued : ∀ diagnostic after, failed after →
      Leads (next (.error diagnostic)) after done stopped) :
    Leads (attempt step >>= next) before done stopped := by
  unfold Leads
  cases result : step before with
  | ok value after =>
      have tried : attempt step before = .ok (.ok value) after := by simp [attempt, result]
      rw [bind_of_ok tried]
      exact onward value after (first.of_ok result)
  | error halt after =>
      cases halt with
      | recoverable diagnostic =>
          have tried : attempt step before = .ok (.error diagnostic) after := by
            simp [attempt, result]
          rw [bind_of_ok tried]
          exact rescued diagnostic after (first.of_recoverable result)
      | fatal diagnostic =>
          have tried : attempt step before = .error (.fatal diagnostic) after := by
            simp [attempt, result]
          rw [bind_of_error tried]
          trivial

theorem ite {condition : Prop} [Decidable condition] {other : Step α}
    (holds : condition → Leads step before done stopped)
    (fails : ¬condition → Leads other before done stopped) :
    Leads (if condition then step else other) before done stopped := by
  by_cases decided : condition
  · rw [if_pos decided]
    exact holds decided
  · rw [if_neg decided]
    exact fails decided

end Leads

/-! ### Ends -/

theorem leads_pure {value : α} (here : done before) : Leads (pure value) before done stopped :=
  here

theorem leads_refuse {diagnostic : Diagnostic} (here : stopped before) :
    Leads (refuse diagnostic : Step α) before done stopped :=
  here

theorem leads_abort {problem : InternalProblem} :
    Leads (abort problem : Step α) before done stopped :=
  trivial

theorem leads_unexpected {expected : Expectation} (here : stopped before) :
    Leads (unexpected expected : Step α) before done stopped :=
  here

/-! ### Steps on tokens -/

variable {next : Token → Step β} {onwards : Unit → Step β}

theorem peek_leads (onward : Leads (next before.current) before done stopped) :
    Leads (peek >>= next) before done stopped :=
  onward

theorem advance_leads (onward : Leads (next before.current) before.advanced done stopped) :
    Leads (advance >>= next) before done stopped :=
  onward

theorem skipping_leads (test : Token.Kind → Bool)
    (onward : Leads (onwards ()) (before.skip test) done stopped) :
    Leads (skipping test >>= onwards) before done stopped :=
  onward

theorem check_leads {other : Step α} (kind : Token.Kind)
    (is : before.current.kind = kind → Leads step before done stopped)
    (isNot : before.current.kind ≠ kind → Leads other before done stopped) :
    Leads (do if ← check kind then step else other) before done stopped := by
  unfold Leads
  rw [check_then]
  exact Leads.ite is isNot

theorem followsExpression_leads {other : Step α} (opened : Leads step before done stopped)
    (first : Leads other before done stopped) :
    Leads (do if ← followsExpression then step else other) before done stopped := by
  unfold Leads
  rw [followsExpression_then]
  exact Leads.ite (fun _ => opened) fun _ => first

/-! ### Nesting -/

/-- The constructs that the reader is inside of do not matter. -/
def Unplaced (holds : Reading → Prop) : Prop :=
  ∀ reading contexts, holds reading → holds { reading with contexts := contexts }

theorem leads_enter (context : Context) (here : done before) (unplaced : Unplaced done) :
    Leads (enter context) before done stopped :=
  unplaced _ _ here

theorem leads_leave (context : Context) (here : done before) (unplaced : Unplaced done) :
    Leads (leave context) before done stopped := by
  rcases leave_cases context before with ⟨outer, contexts⟩ | ⟨diagnostic, after, stops⟩
  · unfold Leads
    rw [leave_of_contexts contexts]
    exact unplaced _ _ here
  · unfold Leads
    rw [stops]
    trivial

theorem leads_within {context : Context}
    (leads : Leads step (before.inside context) done stopped) (ends : Unplaced done)
    (stops : Unplaced stopped) : Leads (within context step) before done stopped := by
  unfold Leads
  cases result : step (before.inside context) with
  | ok value after =>
      rw [within_of_ok result]
      exact (leads_leave context (leads.of_ok result) ends).bind fun _ _ => leads_pure
  | error halt after =>
      rw [within_of_error result]
      cases halt with
      | recoverable diagnostic =>
          have left : Leads (leave context) after stopped stopped :=
            leads_leave context (leads.of_recoverable result) stops
          exact left.bind fun _ _ here => leads_refuse here
      | fatal diagnostic =>
          have left : Leads (leave context) after (fun _ => True) stopped :=
            leads_leave context trivial fun _ _ _ => trivial
          exact left.bind fun _ _ _ => trivial

end Building

/-! ### Steps that keep to their place -/

/-- However the step ends, the closing brackets of the base are expected behind it. -/
abbrev Keeps {α : Type} (scope : Scope) (base : List Token.Kind) (step : Step α)
    (before : Reading) : Prop :=
  Leads step before (Reaches scope base) (Reaches scope base)

section Keeping

variable {α β : Type} {scope : Scope} {base : List Token.Kind} {before : Reading}
variable {next : Token → Step β} {onwards : Unit → Step β} {done stopped : Reading → Prop}

theorem unplaced_reaches : Unplaced (Reaches scope base) :=
  fun _ _ reaches => reaches.imp fun _ expects => expects.congr rfl rfl (Nat.le_refl _)

theorem unplaced_atCloser {bracket : Token.Kind} : Unplaced (AtCloser scope bracket base) :=
  fun _ _ there => ⟨unplaced_reaches _ _ there.reaches, there.closes⟩

theorem unplaced_ended : Unplaced (Ended scope base) :=
  fun _ _ ended => ⟨unplaced_reaches _ _ ended.reaches, ended.behind⟩

theorem unplaced_false : Unplaced fun _ => False := fun _ _ impossible => impossible

theorem advance_leads_alone (reaches : Reaches scope base before) (filled : base ≠ [])
    (alone : standsAlone before.current.kind = true)
    (onward : Reaches scope base before.advanced →
      Leads (next before.current) before.advanced done stopped) :
    Leads (advance >>= next) before done stopped :=
  advance_leads (onward (reaches.imp fun _ expects => expects.advanced_alone filled alone))

theorem skipping_leads_alone {test : Token.Kind → Bool} (reaches : Reaches scope base before)
    (filled : base ≠ []) (blank : ∀ kind, test kind = true → standsAlone kind = true)
    (onward : Reaches scope base (before.skip test) →
      Leads (onwards ()) (before.skip test) done stopped) :
    Leads (skipping test >>= onwards) before done stopped :=
  skipping_leads test (onward (reaches.imp fun _ expects => expects.skip filled blank))

/-- Behind a problem that was reported, the reader goes on at a closing bracket. -/
theorem recover_leads {test : Token.Kind → Bool} {bracket : Token.Kind}
    (reaches : Reaches scope (bracket :: base) before)
    (tests : ∀ kind, test kind = true ↔ kind = bracket)
    (brackets : bracket = .rightParen ∨ bracket = .rightBracket) (diagnostic : Diagnostic)
    {rest : Step β}
    (onward : ∀ after, AtCloser scope bracket base after → Leads rest after done stopped) :
    Leads (do report diagnostic; resumeAt test; rest) before done stopped := by
  obtain ⟨extra, expects⟩ := reaches
  have reported := expects.reported
  have behind : Expects scope (bracket :: base) extra
      { before with diagnostics := before.diagnostics ++ [diagnostic] } :=
    expects.congr rfl rfl (by simp)
  exact onward _ (Reaches.resumed ⟨extra, behind⟩ (by simp; omega) tests brackets)

theorem keeps_expect {kind : Token.Kind} (alone : standsAlone kind = true)
    (expected : Expectation) (reaches : Reaches scope base before) (filled : base ≠ []) :
    Keeps scope base (expect kind expected) before := by
  refine check_leads kind (fun here => ?_) fun _ => leads_unexpected reaches
  exact reaches.imp fun _ expects => expects.advanced_alone filled (by rwa [here])

theorem keeps_numberValue (token : Token) (reaches : Reaches scope base before) :
    Keeps scope base (numberValue token) before := by
  unfold numberValue
  split
  · exact leads_pure reaches
  · exact leads_refuse reaches

theorem keeps_expectNumber (expected : Expectation) (reaches : Reaches scope base before)
    (filled : base ≠ []) : Keeps scope base (expectNumber expected) before :=
  (keeps_expect rfl expected reaches filled).bind fun token _ => keeps_numberValue token

end Keeping

end Solfege.Reading
