import Solfege.Proofs.Conservation.Basic
import Solfege.Proofs.Reading.Accounting
import Solfege.Proofs.Reading.Conduct
import Mathlib.Data.List.TakeWhile

/-!
Contract: steps of reading that hand on what they read.

Owns:
- steps of which, if no problem is reported, the result consists of the tokens that were
  read;
- how such steps are put together from the steps that reading consists of;
- what is known of the states in front of a step and behind it when it did not stop early.

Does not own: the grammar.

As with problems, a step is given something to begin with: the ingredients of tokens that
were read before it and are not yet part of a result. A step that reports a problem may lose
what it read, and one that stops early has no result. Neither takes a problem back, so a
reader that ends without problems never had one.
-/

namespace Solfege.Reading

open Token (ingredients)

/-! ### What was read -/

/-- Between the two states tokens were read, and together with what was owed before they make
up what is owed behind. -/
structure Passes (before after : Reading) (owed made : List Ingredient) : Prop where
  last : after.last = before.last
  taken : ∃ taken, before.rest = taken ++ after.rest ∧ owed ++ ingredients taken = made

namespace Passes

variable {first second third : Reading} {owed made final : List Ingredient}

theorem refl (reading : Reading) (owed : List Ingredient) : Passes reading reading owed owed :=
  ⟨rfl, [], rfl, List.append_nil _⟩

theorem trans (start : Passes first second owed made) (onward : Passes second third made final) :
    Passes first third owed final := by
  obtain ⟨taken, rest, same⟩ := start.taken
  obtain ⟨more, restOnward, sameOnward⟩ := onward.taken
  refine ⟨onward.last.trans start.last, taken ++ more, ?_, ?_⟩
  · rw [rest, restOnward, List.append_assoc]
  · rw [Token.ingredients_append, ← List.append_assoc, same, sameOnward]

theorem closed (passes : Passes first second owed made) (closed : first.Closed) :
    second.Closed :=
  closed.of_last passes.last

/-- What was owed before stays owed. -/
theorem keeping (passes : Passes first second [] made) (owed : List Ingredient) :
    Passes first second owed (owed ++ made) := by
  obtain ⟨taken, rest, same⟩ := passes.taken
  exact ⟨passes.last, taken, rest, by rw [← same, List.nil_append]⟩

end Passes

/-! ### Steps -/

/-- What the step makes is worth what was owed before it and what it read, unless there is a
problem behind it. No problem is taken back. -/
def Conserves {α : Type} (owed : List Ingredient) (step : Step α) (before : Reading)
    (worth : α → List Ingredient) : Prop :=
  match step before with
  | .ok value after =>
      before.diagnostics.length ≤ after.diagnostics.length ∧
        (after.diagnostics = [] → before.Closed → Passes before after owed (worth value))
  | .error _ after => before.diagnostics.length ≤ after.diagnostics.length

/-- The step hands on nothing, and nothing that it reads is an ingredient. -/
abbrev Idle {α : Type} (step : Step α) (before : Reading) : Prop :=
  Conserves [] step before fun _ => []

section Building

variable {α β : Type} {owed : List Ingredient} {step : Step α} {before : Reading}
variable {worth : α → List Ingredient} {final : β → List Ingredient}

namespace Conserves

theorem of_ok (conserves : Conserves owed step before worth) {value : α} {after : Reading}
    (result : step before = .ok value after) :
    before.diagnostics.length ≤ after.diagnostics.length ∧
      (after.diagnostics = [] → before.Closed → Passes before after owed (worth value)) := by
  unfold Conserves at conserves
  rw [result] at conserves
  exact conserves

theorem of_error (conserves : Conserves owed step before worth) {halt : Halt} {after : Reading}
    (result : step before = .error halt after) :
    before.diagnostics.length ≤ after.diagnostics.length := by
  unfold Conserves at conserves
  rw [result] at conserves
  exact conserves

theorem of_results
    (done : ∀ value after, step before = .ok value after →
      before.diagnostics.length ≤ after.diagnostics.length ∧
        (after.diagnostics = [] → before.Closed → Passes before after owed (worth value)))
    (halted : ∀ halt after, step before = .error halt after →
      before.diagnostics.length ≤ after.diagnostics.length) :
    Conserves owed step before worth := by
  unfold Conserves
  cases result : step before with
  | ok value after => exact done value after result
  | error halt after => exact halted halt after result

/-- What is owed before a step is still there behind it. -/
theorem keeping (conserves : Conserves [] step before worth) (owed : List Ingredient) :
    Conserves owed step before fun value => owed ++ worth value :=
  .of_results
    (fun _ _ result => (conserves.of_ok result).imp_right fun passes silent closed =>
      (passes silent closed).keeping owed)
    (fun _ _ result => conserves.of_error result)

/-- Without a problem behind a step there was none in front of it. -/
theorem silent_of_length_le {first second : Reading}
    (kept : first.diagnostics.length ≤ second.diagnostics.length)
    (silent : second.diagnostics = []) : first.diagnostics = [] := by
  rw [silent] at kept
  exact List.eq_nil_of_length_eq_zero (Nat.le_zero.mp kept)

/-- Where there is a problem, nothing has to be handed on. -/
theorem of_loud (loud : Loud step) : Conserves owed step before worth := by
  refine .of_results ?_ ?_
  · intro value after result
    have more := loud.ok_le result
    refine ⟨by omega, fun silent => ?_⟩
    rw [silent] at more
    simp at more
  · intro halt after result
    have more := loud.error_le result
    omega

/-- What a step makes is owed to the step that goes on behind it. Behind a halt there must be
a problem. -/
theorem handle {next : α → Step β} {rescue : Halt → Step β}
    (first : Conserves owed step before worth)
    (rest : ∀ value middle, Conserves (worth value) (next value) middle final)
    (rescued : ∀ halt, Loud (rescue halt)) :
    Conserves owed (fun reading =>
      match step reading with
      | .ok value after => next value after
      | .error halt after => rescue halt after) before final := by
  cases result : step before with
  | ok value middle =>
      obtain ⟨kept, passes⟩ := first.of_ok result
      have onward := rest value middle
      refine .of_results ?_ ?_
      · intro other after last
        rw [result] at last
        obtain ⟨keptOnward, passesOnward⟩ := onward.of_ok last
        refine ⟨Nat.le_trans kept keptOnward, fun silent closed => ?_⟩
        have start := passes (silent_of_length_le keptOnward silent) closed
        exact start.trans (passesOnward silent (start.closed closed))
      · intro halt after last
        rw [result] at last
        exact Nat.le_trans kept (onward.of_error last)
  | error halt middle =>
      have kept := first.of_error result
      refine .of_results ?_ ?_
      · intro other after last
        rw [result] at last
        have more := (rescued halt).ok_le last
        refine ⟨by omega, fun silent => ?_⟩
        rw [silent] at more
        simp at more
      · intro other after last
        rw [result] at last
        have more := (rescued halt).error_le last
        omega

/-- What the first step makes of all that is owed is owed to the rest. -/
theorem bind_owed {next : α → Step β} (first : Conserves owed step before worth)
    (rest : ∀ value middle, Conserves (worth value) (next value) middle final) :
    Conserves owed (step >>= next) before final := by
  rw [bind_eq_handle]
  exact first.handle rest .throw

/-- What the first step makes is owed to the rest, together with what was owed before. -/
theorem bind {next : α → Step β} (first : Conserves [] step before worth)
    (rest : ∀ value middle, Conserves (owed ++ worth value) (next value) middle final) :
    Conserves owed (step >>= next) before final :=
  (first.keeping owed).bind_owed rest

/-- A step that begins by reading on. -/
theorem from_earlier {whole : Step α} {earlier : Reading} {made : List Ingredient}
    (conserves : Conserves made step before worth)
    (passes : earlier.Closed → Passes earlier before owed made)
    (kept : before.diagnostics = earlier.diagnostics)
    (same : whole earlier = step before) : Conserves owed whole earlier worth := by
  refine .of_results ?_ ?_
  · intro value after result
    obtain ⟨longer, onward⟩ := conserves.of_ok (same ▸ result)
    rw [kept] at longer
    refine ⟨longer, fun silent closed => ?_⟩
    have start := passes closed
    exact start.trans (onward silent (start.closed closed))
  · intro halt after result
    have longer := conserves.of_error (same ▸ result)
    rwa [kept] at longer

/-- A step that conserves wherever it starts is steady. -/
theorem steady (conserves : ∀ before, Conserves owed step before worth) : Steady step :=
  .of_results (fun before _ _ result => ((conserves before).of_ok result).1)
    (fun before _ _ result => (conserves before).of_error result)

theorem ite {condition : Prop} [Decidable condition] {other : Step α}
    (holds : Conserves owed step before worth) (fails : Conserves owed other before worth) :
    Conserves owed (if condition then step else other) before worth := by
  by_cases decided : condition
  · rw [if_pos decided]
    exact holds
  · rw [if_neg decided]
    exact fails

end Conserves

/-- Behind an idle step the same is owed as in front of it. -/
theorem Idle.bind {next : α → Step β} (first : Idle step before)
    (rest : ∀ value middle, Conserves owed (next value) middle final) :
    Conserves owed (step >>= next) before final := by
  refine Conserves.bind first fun value middle => ?_
  rw [List.append_nil]
  exact rest value middle

/-! ### Ends -/

theorem conserves_pure {value : α} (enough : worth value = owed) :
    Conserves owed (pure value) before worth :=
  ⟨Nat.le_refl _, fun _ _ => enough ▸ .refl before owed⟩

theorem conserves_refuse (diagnostic : Diagnostic) :
    Conserves owed (refuse diagnostic : Step α) before worth :=
  Nat.le_refl _

theorem conserves_abort (problem : InternalProblem) :
    Conserves owed (abort problem : Step α) before worth :=
  Nat.le_refl _

theorem conserves_unexpected (expected : Expectation) :
    Conserves owed (unexpected expected : Step α) before worth :=
  Nat.le_refl _

/-! ### Steps on tokens -/

variable {next : Token → Step β}

theorem peek_conserves (onward : Conserves owed (next before.current) before final) :
    Conserves owed (peek >>= next) before final :=
  onward

theorem check_conserves {other : Step α} (kind : Token.Kind)
    (is : before.current.kind = kind → Conserves owed step before worth)
    (isNot : Conserves owed other before worth) :
    Conserves owed (do if ← check kind then step else other) before worth := by
  unfold Conserves
  rw [check_then]
  by_cases same : before.current.kind = kind
  · rw [if_pos same]
    exact is same
  · rw [if_neg same]
    exact isNot

theorem idle_followsExpression : Idle followsExpression before :=
  ⟨Nat.le_refl _, fun _ _ => .refl before []⟩

/-- Whatever the reader stands at is owed behind an advance. -/
theorem passes_advanced (closed : before.Closed) (owed : List Ingredient) :
    Passes before before.advanced owed (owed ++ before.current.ingredient?.toList) := by
  refine ⟨rfl, ?_⟩
  cases rest : before.rest with
  | nil =>
      have atEnd : before.current = before.last := by
        unfold current
        rw [rest]
        rfl
      have nothing : before.current.ingredient? = none := by
        have ends : before.last.kind = .endOfFile := closed
        unfold Token.ingredient?
        rw [atEnd, ends]
      refine ⟨[], ?_, ?_⟩
      · unfold advanced
        rw [rest]
        rfl
      · rw [nothing]
        rfl
  | cons first tail =>
      refine ⟨[first], ?_, ?_⟩
      · unfold advanced
        rw [rest]
        rfl
      · rw [current_cons rest, Token.ingredients_cons, Token.ingredients_nil, List.append_nil]

theorem advance_conserves
    (onward : Conserves (owed ++ before.current.ingredient?.toList) (next before.current)
      before.advanced final) :
    Conserves owed (advance >>= next) before final :=
  onward.from_earlier (passes_advanced · owed) rfl rfl

/-- A token that is no ingredient is read over. -/
theorem advance_plain (plain : before.current.kind.isPlain = true)
    (onward : Conserves owed (next before.current) before.advanced final) :
    Conserves owed (advance >>= next) before final := by
  apply advance_conserves
  rw [Token.ingredient?_of_isPlain plain, Option.toList_none, List.append_nil]
  exact onward

/-- What is skipped is taken off the front, and passes the test. -/
theorem exists_skipped (test : Token.Kind → Bool) (before : Reading) : ∃ skipped,
    before.rest = skipped ++ (before.skip test).rest ∧
      ∀ token ∈ skipped, test token.kind = true := by
  refine ⟨_, List.takeWhile_append_dropWhile.symm, fun token member => ?_⟩
  have passes := List.mem_takeWhile_imp member
  exact passes

theorem idle_skipping (test : Token.Kind → Bool)
    (plain : ∀ kind, test kind = true → kind.isPlain = true) : Idle (skipping test) before := by
  obtain ⟨skipped, rest, passes⟩ := exists_skipped test before
  have nothing : Token.ingredients skipped = [] :=
    Token.ingredients_of_isPlain fun token member => plain _ (passes token member)
  exact ⟨Nat.le_refl _, fun _ _ => ⟨rfl, skipped, rest, nothing⟩⟩

/-- An expected token is owed behind it. -/
theorem expect_conserves {kind : Token.Kind} {expected : Expectation}
    (onward : before.current.kind = kind →
      Conserves (owed ++ before.current.ingredient?.toList) (next before.current) before.advanced
        final) :
    Conserves owed (expect kind expected >>= next) before final := by
  have same : expect kind expected >>= next =
      check kind >>= fun stands => (if stands then advance else unexpected expected) >>= next :=
    bind_assoc _ _ _
  rw [same]
  change Conserves owed ((if decide (before.current.kind = kind) = true then advance
    else unexpected expected) >>= next) before final
  by_cases here : before.current.kind = kind
  · rw [if_pos (decide_eq_true here)]
    exact advance_conserves (onward here)
  · rw [if_neg (by simpa using here)]
    exact Nat.le_refl _

theorem idle_expect {kind : Token.Kind} (plain : kind.isPlain = true) (expected : Expectation) :
    Idle (expect kind expected) before := by
  refine check_conserves kind (fun here => ⟨Nat.le_refl _, fun _ closed => ?_⟩)
    (conserves_unexpected expected)
  have passes := passes_advanced closed []
  rw [Token.ingredient?_of_isPlain (here ▸ plain)] at passes
  exact passes

theorem idle_numberValue (token : Token) : Idle (numberValue token) before := by
  unfold numberValue
  split
  · exact conserves_pure rfl
  · exact conserves_refuse _

theorem idle_expectNumber (expected : Expectation) : Idle (expectNumber expected) before :=
  (idle_expect rfl expected).bind fun token _ => idle_numberValue token

theorem stringValue_conserves {onwards : String → Step β} {token : Token}
    (onward : token.isTerminated = true → Conserves owed (onwards token.unquoted) before final) :
    Conserves owed (stringValue token >>= onwards) before final := by
  unfold stringValue
  by_cases terminated : token.isTerminated = true
  · rw [if_pos terminated]
    exact onward terminated
  · rw [if_neg terminated]
    exact Nat.le_refl _

/-! ### Problems and nesting -/

/-- A problem that is handed on has to be reported. -/
theorem attempt_conserves {onwards : Except Diagnostic α → Step β}
    (first : Conserves owed step before worth)
    (ok : ∀ value middle, Conserves (worth value) (onwards (.ok value)) middle final)
    (error : ∀ diagnostic, Loud (onwards (.error diagnostic))) :
    Conserves owed (attempt step >>= onwards) before final := by
  rw [attempt_bind_eq_handle]
  refine first.handle ok fun halt => ?_
  cases halt with
  | recoverable diagnostic => exact error diagnostic
  | fatal diagnostic => exact .throw _

theorem idle_enter (context : Context) : Idle (enter context) before :=
  ⟨Nat.le_refl _, fun _ _ => ⟨rfl, [], rfl, rfl⟩⟩

theorem idle_leave (context : Context) : Idle (leave context) before := by
  have left : leave context before = .ok () { before with contexts := before.contexts.tail } ∨
      ∃ halt after, leave context before = .error halt after ∧
        after.diagnostics = before.diagnostics := by
    unfold leave
    cases before.contexts with
    | nil => exact .inr ⟨_, _, rfl, rfl⟩
    | cons innermost outer =>
        by_cases same : innermost = context
        · exact .inl (if_pos same)
        · exact .inr ⟨_, _, if_neg same, rfl⟩
  unfold Idle Conserves
  rcases left with result | ⟨halt, after, result, kept⟩
  · rw [result]
    exact ⟨Nat.le_refl _, fun _ _ => ⟨rfl, [], rfl, rfl⟩⟩
  · rw [result]
    exact Nat.le_of_eq (congrArg List.length kept.symm)

/-- Being inside of a construct makes no difference. -/
theorem conserves_within (context : Context)
    (conserves : ∀ inside, Conserves owed step inside worth) :
    Conserves owed (within context step) before worth :=
  (idle_enter context).bind fun _ entered => (conserves entered).handle
    (fun _ _ => (idle_leave context).bind fun _ _ => conserves_pure rfl)
    (fun halt => (steady_leave context).bind fun _ => .throw halt)

end Building

/-! ### Steps that came to an end -/

section Ended

variable {before after : Reading}

theorem advance_of_ok {token : Token} (result : advance before = .ok token after) :
    token = before.current ∧ after = before.advanced := by
  cases result
  exact ⟨rfl, rfl⟩

/-- In front of the end, one token is taken off by an advance. -/
theorem rest_eq_cons_advanced (closed : before.Closed)
    (more : before.current.kind ≠ .endOfFile) :
    before.rest = before.current :: before.advanced.rest := by
  obtain ⟨tail, rest⟩ := exists_cons_of_current closed more
  have others : before.advanced.rest = before.rest.tail := rfl
  rw [others, rest]
  rfl

theorem expect_of_ok {kind : Token.Kind} {expected : Expectation} {token : Token}
    (result : expect kind expected before = .ok token after) :
    before.current.kind = kind ∧ after = before.advanced := by
  have unfolded : expect kind expected before =
      (if decide (before.current.kind = kind) = true then advance else unexpected expected)
        before := rfl
  rw [unfolded] at result
  by_cases here : before.current.kind = kind
  · rw [if_pos (decide_eq_true here)] at result
    cases result
    exact ⟨here, rfl⟩
  · rw [if_neg (by simpa using here)] at result
    contradiction

theorem stringValue_of_ok {token : Token} {text : String}
    (result : stringValue token before = .ok text after) :
    token.isTerminated = true ∧ text = token.unquoted ∧ after = before := by
  unfold stringValue at result
  by_cases terminated : token.isTerminated = true
  · rw [if_pos terminated] at result
    cases result
    exact ⟨terminated, rfl, rfl⟩
  · rw [if_neg terminated] at result
    contradiction

theorem attempt_of_ok {α : Type} {step : Step α} {value : α}
    (result : attempt step before = .ok (.ok value) after) : step before = .ok value after := by
  unfold attempt at result
  cases run : step before with
  | ok other middle =>
      rw [run] at result
      cases result
      rfl
  | error halt middle =>
      rw [run] at result
      cases halt <;> cases result

theorem not_silent_of_loud {α : Type} {step : Step α} {value : α} (loud : Loud step)
    (result : step before = .ok value after) : after.diagnostics ≠ [] := by
  intro silent
  have more := loud.ok_le result
  rw [silent] at more
  simp at more

end Ended

end Solfege.Reading
