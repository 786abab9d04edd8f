import Solfege.Proofs.Columns.Basic
import Solfege.Proofs.Reading.Conduct

/-!
Contract: steps for which columns are labels.

Owns:
- steps that come to the same whether the tokens are moved in front of them or behind them;
- how such steps are put together;
- the proof that the steps which every reading is made of are of this sort.

Does not own: the grammar.

A step that is given tokens or expressions of its own does this together with the step that is
given them moved, its twin.
-/

namespace Solfege.Reading

variable {columns : Position → Nat} {α β : Type}

/-- What a step made, moved. The action moves the value. -/
def movedResult (columns : Position → Nat) (action : α → α) :
    EStateM.Result Halt Reading α → EStateM.Result Halt Reading α
  | .ok value after => .ok (action value) (after.moved columns)
  | .error halt after => .error (halt.moved columns) (after.moved columns)

/-- From moved tokens the twin makes what the step makes of the tokens where they were, moved. -/
def Equivariant (columns : Position → Nat) (action : α → α) (step twin : Step α) : Prop :=
  ∀ before : Reading, twin (before.moved columns) = movedResult columns action (step before)

section Building

variable {action : α → α} {other : β → β} {step twin : Step α}

namespace Equivariant

theorem of_ok (equivariant : Equivariant columns action step twin) {before after : Reading}
    {value : α} (result : step before = .ok value after) :
    twin (before.moved columns) = .ok (action value) (after.moved columns) := by
  rw [equivariant before, result]
  rfl

theorem of_error (equivariant : Equivariant columns action step twin) {before after : Reading}
    {halt : Halt} (result : step before = .error halt after) :
    twin (before.moved columns) = .error (halt.moved columns) (after.moved columns) := by
  rw [equivariant before, result]
  rfl

/-! ### Steps put together -/

/-- A step goes on, or hands the halt on to one that may do something else first. -/
theorem handle {next onward : α → Step β} {rescue rescueTwin : Halt → Step β}
    (first : Equivariant columns action step twin)
    (rest : ∀ value, Equivariant columns other (next value) (onward (action value)))
    (rescued : ∀ halt : Halt,
      Equivariant columns other (rescue halt) (rescueTwin (halt.moved columns))) :
    Equivariant columns other
      (fun reading =>
        match step reading with
        | .ok value after => next value after
        | .error halt after => rescue halt after)
      (fun reading =>
        match twin reading with
        | .ok value after => onward value after
        | .error halt after => rescueTwin halt after) := by
  intro before
  dsimp only
  cases result : step before with
  | ok value after =>
      rw [first.of_ok result]
      exact rest value after
  | error halt after =>
      rw [first.of_error result]
      exact rescued halt after

theorem throw (halt : Halt) :
    Equivariant columns action (throw halt) (throw (halt.moved columns)) :=
  fun _ => rfl

theorem bind {next onward : α → Step β} (first : Equivariant columns action step twin)
    (rest : ∀ value, Equivariant columns other (next value) (onward (action value))) :
    Equivariant columns other (step >>= next) (twin >>= onward) := by
  rw [bind_eq_handle, bind_eq_handle]
  exact first.handle rest throw

/-- What comes behind a step whose value holds no token is given that value. -/
theorem bind_same {next onward : α → Step β} (first : Equivariant columns id step twin)
    (rest : ∀ value, Equivariant columns other (next value) (onward value)) :
    Equivariant columns other (step >>= next) (twin >>= onward) :=
  first.bind rest

theorem ite {condition : Prop} [Decidable condition] {third fourth : Step α}
    (holds : Equivariant columns action step twin)
    (fails : Equivariant columns action third fourth) :
    Equivariant columns action (if condition then step else third)
      (if condition then twin else fourth) := by
  by_cases decided : condition
  · rwa [if_pos decided, if_pos decided]
  · rwa [if_neg decided, if_neg decided]

/-- A step may depend on the number of tokens that are left. -/
theorem at_length {family familyTwin : Nat → Step α}
    (equivariant : ∀ bound, Equivariant columns action (family bound) (familyTwin bound)) :
    Equivariant columns action (fun reading => family (reading.rest.length + 1) reading)
      (fun reading => familyTwin (reading.rest.length + 1) reading) := by
  intro before
  have length : (before.moved columns).rest.length = before.rest.length := List.length_map _
  dsimp only
  rw [length]
  exact equivariant _ before

end Equivariant

open Equivariant (throw)

/-! ### Ends -/

theorem equivariant_pure {value moved : α} (same : action value = moved) :
    Equivariant columns action (pure value) (pure moved) := by
  subst same
  exact fun _ => rfl

theorem equivariant_refuse (diagnostic : Diagnostic) :
    Equivariant columns action (refuse diagnostic) (refuse (diagnostic.moved columns)) :=
  throw (.recoverable diagnostic)

theorem equivariant_refuse_grammar (token : Token) (problem : SyntaxProblem) :
    Equivariant columns action (refuse (Diagnostic.syntaxAt token problem))
      (refuse (Diagnostic.syntaxAt (token.moved columns) (problem.moved columns))) :=
  equivariant_refuse _

theorem equivariant_abort (problem : InternalProblem) :
    Equivariant columns action (abort problem) (abort problem) := by
  intro before
  unfold abort
  rw [current_moved]
  rfl

/-! ### Steps on tokens -/

theorem equivariant_peek : Equivariant columns (Token.moved columns) peek peek := by
  intro before
  unfold peek
  rw [current_moved]
  rfl

theorem equivariant_check (kind : Token.Kind) :
    Equivariant columns id (check kind) (check kind) := by
  intro before
  unfold check
  rw [current_moved]
  rfl

theorem equivariant_advance : Equivariant columns (Token.moved columns) advance advance := by
  intro before
  unfold advance
  rw [current_moved]
  unfold moved
  rw [← List.map_tail]
  rfl

theorem equivariant_skipping (test : Token.Kind → Bool) :
    Equivariant columns id (skipping test) (skipping test) := by
  intro before
  unfold skipping
  rw [skip_moved]
  rfl

theorem equivariant_resumeAt (test : Token.Kind → Bool) :
    Equivariant columns id (resumeAt test) (resumeAt test) := by
  intro before
  unfold resumeAt moved
  rw [resumption_moved]
  rfl

theorem equivariant_accidentals : Equivariant columns id accidentals accidentals := by
  intro before
  unfold accidentals
  rw [skip_moved]
  unfold moved
  rw [takeWhile_moved, semitonesOf_moved]
  rfl

theorem equivariant_followsExpression :
    Equivariant columns id followsExpression followsExpression :=
  fun _ => rfl

theorem equivariant_unexpected (expected : Expectation) :
    Equivariant columns action (unexpected expected) (unexpected (expected.moved columns)) :=
  equivariant_peek.bind fun found => equivariant_refuse_grammar found (.unexpected expected found)

theorem equivariant_expect (kind : Token.Kind) (expected : Expectation) :
    Equivariant columns (Token.moved columns) (expect kind expected)
      (expect kind (expected.moved columns)) :=
  (equivariant_check kind).bind_same fun _ =>
    .ite equivariant_advance (equivariant_unexpected expected)

theorem equivariant_numberValue (token : Token) :
    Equivariant columns id (numberValue token) (numberValue (token.moved columns)) := by
  unfold numberValue
  rw [Token.number?_moved]
  cases token.number? with
  | none => exact equivariant_refuse_grammar token (.numberOutOfRange token)
  | some value => exact equivariant_pure rfl

theorem equivariant_expectNumber (expected : Expectation) :
    Equivariant columns id (expectNumber expected) (expectNumber (expected.moved columns)) :=
  (equivariant_expect .number expected).bind equivariant_numberValue

theorem equivariant_stringValue (token : Token) :
    Equivariant columns id (stringValue token) (stringValue (token.moved columns)) := by
  unfold stringValue
  rw [Token.isTerminated_moved, Token.unquoted_moved]
  exact .ite (equivariant_pure rfl) (equivariant_refuse_grammar token .unterminatedString)

/-! ### Problems and nesting -/

theorem equivariant_report (diagnostic : Diagnostic) :
    Equivariant columns id (report diagnostic) (report (diagnostic.moved columns)) := by
  intro before
  have reported : (before.diagnostics ++ [diagnostic]).map (Diagnostic.moved columns) =
      before.diagnostics.map (Diagnostic.moved columns) ++ [diagnostic.moved columns] := by
    rw [List.map_append, List.map_singleton]
  unfold report
  show _ = EStateM.Result.ok () (moved columns { before with diagnostics := _ })
  unfold moved
  rw [reported]

/-- A problem of the score is handed on where it was moved to. -/
theorem attempt_equivariant {next onward : Except Diagnostic α → Step β}
    (first : Equivariant columns action step twin)
    (done : ∀ value, Equivariant columns other (next (.ok value)) (onward (.ok (action value))))
    (failed : ∀ diagnostic : Diagnostic, Equivariant columns other (next (.error diagnostic))
      (onward (.error (diagnostic.moved columns)))) :
    Equivariant columns other (attempt step >>= next) (attempt twin >>= onward) := by
  rw [attempt_bind_eq_handle, attempt_bind_eq_handle]
  apply first.handle done
  intro halt
  cases halt with
  | recoverable diagnostic => exact failed diagnostic
  | fatal diagnostic => exact throw (.fatal diagnostic)

theorem equivariant_enter (context : Context) :
    Equivariant columns id (enter context) (enter context) :=
  fun _ => rfl

theorem equivariant_leave (context : Context) :
    Equivariant columns id (leave context) (leave context) := by
  intro before
  unfold leave
  have contexts : (before.moved columns).contexts = before.contexts := rfl
  rw [contexts]
  cases before.contexts with
  | nil => exact equivariant_abort _ before
  | cons innermost outer =>
      dsimp only
      by_cases same : innermost = context
      · rw [if_pos same, if_pos same]
        rfl
      · rw [if_neg same, if_neg same]
        exact equivariant_abort _ { before with contexts := outer }

theorem equivariant_within (context : Context) (inside : Equivariant columns action step twin) :
    Equivariant columns action (within context step) (within context twin) :=
  (equivariant_enter context).bind_same fun _ => inside.handle
    (fun _ => (equivariant_leave context).bind_same fun _ => equivariant_pure rfl)
    (fun halt => (equivariant_leave context).bind_same fun _ => throw halt)

end Building

end Solfege.Reading
