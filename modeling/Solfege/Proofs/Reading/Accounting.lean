import Solfege.Proofs.Reading.Conduct

/-!
Contract: what a step of reading makes is accounted for by the problems that it reports.

Owns:
- steps that make something of a weight and report at least as many problems as it weighs
  more than the credit that they were given;
- steady steps, which take back no problem that was reported, and loud steps, behind which
  there is one;
- how both are built from the steps that reading consists of.

Does not own: what weighs how much.

A step that stops early makes nothing, so it only has to keep the problems that were
reported, less its credit.
-/

namespace Solfege.Reading

/-- The step reports as many problems as its result weighs more than the credit, at
least. -/
def Accounts {α : Type} (credit : Nat) (step : Step α) (weight : α → Nat) : Prop :=
  ∀ reading : Reading,
    match step reading with
    | .ok value after =>
        reading.diagnostics.length + weight value ≤ after.diagnostics.length + credit
    | .error _ after => reading.diagnostics.length ≤ after.diagnostics.length + credit

/-- The step takes back no problem. -/
def Steady {α : Type} (step : Step α) : Prop := Accounts 0 step fun _ => 0

/-- Behind the step there is a problem. -/
abbrev Loud {α : Type} (step : Step α) : Prop := Accounts 0 step fun _ => 1

section Building

variable {α β : Type} {credit : Nat} {step : Step α} {weight : α → Nat}

namespace Accounts

theorem ok_le (accounts : Accounts credit step weight) {reading after : Reading} {value : α}
    (result : step reading = .ok value after) :
    reading.diagnostics.length + weight value ≤ after.diagnostics.length + credit := by
  have here := accounts reading
  rw [result] at here
  exact here

theorem error_le (accounts : Accounts credit step weight) {reading after : Reading}
    {halt : Halt} (result : step reading = .error halt after) :
    reading.diagnostics.length ≤ after.diagnostics.length + credit := by
  have here := accounts reading
  rw [result] at here
  exact here

theorem of_results
    (done : ∀ reading value after, step reading = .ok value after →
      reading.diagnostics.length + weight value ≤ after.diagnostics.length + credit)
    (halted : ∀ reading halt after, step reading = .error halt after →
      reading.diagnostics.length ≤ after.diagnostics.length + credit) :
    Accounts credit step weight := by
  intro reading
  cases result : step reading with
  | ok value after => exact done reading value after result
  | error halt after => exact halted reading halt after result

/-- What a step makes is the credit of the step that goes on behind it. Behind a halt
there is no credit. -/
theorem handle {next : α → Step β} {rescue : Halt → Step β} {final : β → Nat}
    (first : Accounts credit step weight)
    (rest : ∀ value, Accounts (weight value) (next value) final)
    (rescued : ∀ halt, Accounts 0 (rescue halt) final) :
    Accounts credit (fun reading =>
      match step reading with
      | .ok value after => next value after
      | .error halt after => rescue halt after) final := by
  intro reading
  dsimp only
  cases result : step reading with
  | ok value middle =>
      have made := first.ok_le result
      dsimp only
      cases last : next value middle with
      | ok other after =>
          have remaining := (rest value).ok_le last
          dsimp only
          omega
      | error halt after =>
          have remaining := (rest value).error_le last
          dsimp only
          omega
  | error halt middle =>
      have kept := first.error_le result
      dsimp only
      cases last : rescue halt middle with
      | ok other after =>
          have remaining := (rescued halt).ok_le last
          dsimp only
          omega
      | error other after =>
          have remaining := (rescued halt).error_le last
          dsimp only
          omega

theorem throw (halt : Halt) : Accounts credit (throw halt : Step α) weight :=
  fun _ => Nat.le_add_right _ _

/-- What the first step makes is the credit of the rest. -/
theorem bind {next : α → Step β} {final : β → Nat} (first : Accounts credit step weight)
    (rest : ∀ value, Accounts (weight value) (next value) final) :
    Accounts credit (step >>= next) final := by
  rw [bind_eq_handle]
  exact first.handle rest throw

theorem ite {condition : Prop} [Decidable condition] {other : Step α}
    (holds : Accounts credit step weight) (fails : Accounts credit other weight) :
    Accounts credit (if condition then step else other) weight := by
  by_cases decided : condition
  · rw [if_pos decided]
    exact holds
  · rw [if_neg decided]
    exact fails

/-- A step may depend on the state that it starts in. -/
theorem at_state {index : Type} {family : index → Step α} (choice : Reading → index)
    (accounts : ∀ chosen, Accounts credit (family chosen) weight) :
    Accounts credit (fun reading => family (choice reading) reading) weight :=
  fun reading => accounts (choice reading) reading

end Accounts

/-- Credit that a step does not need is still there behind it. -/
theorem Accounts.keeping (accounts : Accounts 0 step weight) (credit : Nat) :
    Accounts credit step fun value => weight value + credit := by
  refine .of_results ?_ ?_
  · intro reading value after result
    have made := accounts.ok_le result
    omega
  · intro reading halt after result
    have kept := accounts.error_le result
    omega

/-- Behind a steady step the credit is what it was. -/
theorem Steady.bind {next : α → Step β} {final : β → Nat} (steady : Steady step)
    (rest : ∀ value, Accounts credit (next value) final) :
    Accounts credit (step >>= next) final := by
  refine (steady.keeping credit).bind fun value => ?_
  rw [Nat.zero_add]
  exact rest value

/-- A step that never changes the problems is steady. -/
theorem steady_of_kept
    (kept : ∀ reading, match step reading with
      | .ok _ after => after.diagnostics = reading.diagnostics
      | .error _ after => after.diagnostics = reading.diagnostics) : Steady step := by
  refine .of_results ?_ ?_
  · intro reading value after result
    have here := kept reading
    rw [result] at here
    exact Nat.le_of_eq (congrArg List.length here.symm)
  · intro reading halt after result
    have here := kept reading
    rw [result] at here
    exact Nat.le_of_eq (congrArg List.length here.symm)

end Building

/-! ### Ends -/

section Ends

variable {α : Type} {credit : Nat} {weight : α → Nat}

theorem accounts_pure {value : α} (enough : weight value ≤ credit) :
    Accounts credit (pure value) weight :=
  fun reading => Nat.add_le_add_left enough reading.diagnostics.length

theorem accounts_refuse (diagnostic : Diagnostic) :
    Accounts credit (refuse diagnostic : Step α) weight :=
  .throw _

theorem accounts_abort (problem : InternalProblem) :
    Accounts credit (abort problem : Step α) weight :=
  fun _ => Nat.le_add_right _ _

theorem accounts_unexpected (expected : Expectation) :
    Accounts credit (unexpected expected : Step α) weight :=
  fun _ => Nat.le_add_right _ _

end Ends

/-! ### Steps on tokens -/

theorem steady_peek : Steady peek := steady_of_kept fun _ => rfl

theorem steady_check (kind : Token.Kind) : Steady (check kind) := steady_of_kept fun _ => rfl

theorem steady_advance : Steady advance := steady_of_kept fun _ => rfl

theorem steady_discard_advance : Steady (discard advance) := steady_of_kept fun _ => rfl

theorem steady_skipping (test : Token.Kind → Bool) : Steady (skipping test) :=
  steady_of_kept fun _ => rfl

theorem steady_resumeAt (test : Token.Kind → Bool) : Steady (resumeAt test) :=
  steady_of_kept fun _ => rfl

theorem steady_followsExpression : Steady followsExpression := steady_of_kept fun _ => rfl

theorem steady_expect (kind : Token.Kind) (expected : Expectation) :
    Steady (expect kind expected) :=
  (steady_check kind).bind fun _ => .ite steady_advance (accounts_unexpected expected)

theorem steady_numberValue (token : Token) : Steady (numberValue token) := by
  unfold numberValue
  split
  · exact accounts_pure (Nat.le_refl 0)
  · exact accounts_refuse _

theorem steady_expectNumber (expected : Expectation) : Steady (expectNumber expected) :=
  (steady_expect _ _).bind steady_numberValue

theorem steady_stringValue (token : Token) : Steady (stringValue token) :=
  .ite (accounts_pure (Nat.le_refl 0)) (accounts_refuse _)

/-! ### Problems and nesting -/

section Nesting

variable {α : Type} {credit : Nat} {step : Step α} {weight : α → Nat}

theorem accounts_report (diagnostic : Diagnostic) :
    Accounts 0 (report diagnostic) fun _ => 1 := by
  intro reading
  have longer : (reading.diagnostics ++ [diagnostic]).length =
      reading.diagnostics.length + 1 := by
    rw [List.length_append, List.length_singleton]
  exact Nat.le_of_eq longer.symm

theorem steady_report (diagnostic : Diagnostic) : Steady (report diagnostic) :=
  fun reading => Nat.le_of_succ_le (accounts_report diagnostic reading)

/-- A problem that is reported pays for one thing more. -/
theorem report_bind {next : Unit → Step α} (diagnostic : Diagnostic)
    (rest : Accounts (credit + 1) (next ()) weight) :
    Accounts credit (report diagnostic >>= next) weight := by
  refine ((accounts_report diagnostic).keeping credit).bind fun _ => ?_
  rw [Nat.add_comm]
  exact rest

theorem loud_report {next : Unit → Step α} (diagnostic : Diagnostic)
    (steady : Steady (next ())) : Loud (report diagnostic >>= next) :=
  report_bind diagnostic (steady.keeping 1)

/-- A step that failed has made nothing. -/
theorem accounts_attempt (accounts : Accounts credit step weight) :
    Accounts credit (attempt step) fun
      | .ok value => weight value
      | .error _ => 0 := by
  intro reading
  unfold attempt
  cases result : step reading with
  | ok value after => exact accounts.ok_le result
  | error halt after =>
      cases halt with
      | recoverable => exact accounts.error_le result
      | fatal => exact accounts.error_le result

theorem steady_attempt (steady : Steady step) : Steady (attempt step) := by
  intro reading
  have here := accounts_attempt steady reading
  cases result : attempt step reading with
  | ok value after =>
      rw [result] at here
      exact Nat.le_trans (Nat.le_add_right _ _) here
  | error halt after =>
      rw [result] at here
      exact here

theorem steady_enter (context : Context) : Steady (enter context) :=
  steady_of_kept fun _ => rfl

theorem steady_leave (context : Context) : Steady (leave context) := by
  refine steady_of_kept fun reading => ?_
  unfold leave
  cases reading.contexts with
  | nil => rfl
  | cons innermost outer =>
      dsimp only
      by_cases same : innermost = context
      · rw [if_pos same]
      · rw [if_neg same]
        rfl

theorem accounts_within (context : Context) (accounts : Accounts credit step weight) :
    Accounts credit (within context step) weight :=
  (steady_enter context).bind fun _ => accounts.handle
    (fun _ => (steady_leave context).bind fun _ => accounts_pure (Nat.le_refl _))
    (fun halt => (steady_leave context).bind fun _ => .throw halt)

end Nesting

end Solfege.Reading
