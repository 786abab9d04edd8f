import Solfege.Proofs.Numbers.Basic

/-!
Contract: steps of reading for which a number without a value is a fault of the score.

Owns:
- steps that heed the number: behind them a problem is reported at it, or they do the same
  beside it;
- steps that stop at the number, and steps behind which there is a problem at it;
- how such steps are put together from the steps that reading consists of.

Does not own: the grammar.

Only the text is exchanged. So a step that takes a number for what it is worth could tell the
two readings apart, and one that looks at kinds could not. What a fault of the reader leaves
behind does not matter, as there is no score then.
-/

namespace Solfege.Reading

variable {number : Oversized}

/-! ### Steps that heed the number -/

/-- No problem is taken back. Behind the step one is reported at the number, or it stops at the
number, or else it does the same with every reading beside this one. -/
def Heeds {α : Type} (number : Oversized) (step : Step α) (before : Reading) : Prop :=
  match step before with
  | .ok value after =>
      before.diagnostics ⊆ after.diagnostics ∧ ∀ twin, Beside number before twin →
        Faulted number after ∨ ∃ there, step twin = .ok value there ∧ Beside number after there
  | .error (.recoverable diagnostic) after =>
      before.diagnostics ⊆ after.diagnostics ∧ ∀ twin, Beside number before twin →
        (Faulted number after ∨ number.token.IsFault diagnostic) ∨
          ∃ there, step twin = .error (.recoverable diagnostic) there ∧ Beside number after there
  | .error (.fatal _) _ => True

/-- No problem is taken back, and however the step ends, there is one at the number. -/
def Faults {α : Type} (number : Oversized) (step : Step α) (before : Reading) : Prop :=
  match step before with
  | .ok _ after => before.diagnostics ⊆ after.diagnostics ∧ Faulted number after
  | .error (.recoverable diagnostic) after =>
      before.diagnostics ⊆ after.diagnostics ∧
        (Faulted number after ∨ number.token.IsFault diagnostic)
  | .error (.fatal _) _ => True

/-- The step stops at the number. -/
def StopsAt {α : Type} (number : Oversized) (step : Step α) (before : Reading) : Prop :=
  match step before with
  | .ok _ _ => False
  | .error (.recoverable diagnostic) after =>
      before.diagnostics ⊆ after.diagnostics ∧ number.token.IsFault diagnostic
  | .error (.fatal _) _ => True

section Building

variable {α β : Type} {step : Step α} {next : α → Step β} {before : Reading}

/-! ### Stopping at the number -/

theorem StopsAt.faults (stops : StopsAt number step before) : Faults number step before := by
  unfold StopsAt at stops
  unfold Faults
  split at stops
  · exact stops.elim
  · exact ⟨stops.1, .inr stops.2⟩
  · trivial

theorem StopsAt.bind (stops : StopsAt number step before) :
    StopsAt number (step >>= next) before := by
  unfold StopsAt at stops ⊢
  split at stops
  · exact stops.elim
  · rw [bind_of_error ‹_›]
    exact stops
  · rw [bind_of_error ‹_›]
    trivial

theorem Faults.heeds (faults : Faults number step before) : Heeds number step before := by
  unfold Faults at faults
  unfold Heeds
  split at faults
  · exact ⟨faults.1, fun _ _ => .inl faults.2⟩
  · exact ⟨faults.1, fun _ _ => .inl faults.2⟩
  · trivial

theorem StopsAt.heeds (stops : StopsAt number step before) : Heeds number step before :=
  stops.faults.heeds

/-- A step that goes on in another state with what faults the number there. -/
theorem Faults.of_onward {whole : Step β} {onward : Step β} {middle : Reading}
    (here : whole before = onward middle) (kept : before.diagnostics ⊆ middle.diagnostics)
    (faults : Faults number onward middle) : Faults number whole before := by
  unfold Faults at faults ⊢
  rw [here]
  split at faults
  · exact ⟨List.Subset.trans kept faults.1, faults.2⟩
  · exact ⟨List.Subset.trans kept faults.1, faults.2⟩
  · trivial

/-! ### Rules -/

namespace Heeds

theorem of_ok (heeds : Heeds number step before) {value : α} {after : Reading}
    (result : step before = .ok value after) :
    before.diagnostics ⊆ after.diagnostics ∧ ∀ twin, Beside number before twin →
      Faulted number after ∨ ∃ there, step twin = .ok value there ∧ Beside number after there := by
  unfold Heeds at heeds
  rw [result] at heeds
  exact heeds

theorem of_recoverable (heeds : Heeds number step before) {diagnostic : Diagnostic}
    {after : Reading} (result : step before = .error (.recoverable diagnostic) after) :
    before.diagnostics ⊆ after.diagnostics ∧ ∀ twin, Beside number before twin →
      (Faulted number after ∨ number.token.IsFault diagnostic) ∨
        ∃ there, step twin = .error (.recoverable diagnostic) there ∧
          Beside number after there := by
  unfold Heeds at heeds
  rw [result] at heeds
  exact heeds

/-- Once a problem is reported at the number, it stays. -/
theorem faults (heeds : Heeds number step before) (faulted : Faulted number before) :
    Faults number step before := by
  unfold Heeds at heeds
  unfold Faults
  split at heeds
  · exact ⟨heeds.1, faulted.mono heeds.1⟩
  · exact ⟨heeds.1, .inl (faulted.mono heeds.1)⟩
  · trivial

/-- A step that goes on in another state, and in one beside it, with what heeds the number
there. -/
theorem of_onward {whole onward : Step β} {middle : Reading}
    (here : whole before = onward middle) (kept : before.diagnostics ⊆ middle.diagnostics)
    (goes : ∀ twin, Beside number before twin →
      Faulted number middle ∨ ∃ there, whole twin = onward there ∧ Beside number middle there)
    (heeds : Heeds number onward middle) : Heeds number whole before := by
  unfold Heeds
  rw [here]
  split
  · rename_i value after result
    obtain ⟨keptOnward, goesOnward⟩ := heeds.of_ok result
    refine ⟨List.Subset.trans kept keptOnward, fun twin beside => ?_⟩
    rcases goes twin beside with faulted | ⟨there, same, still⟩
    · exact .inl (faulted.mono keptOnward)
    · rw [same]
      exact goesOnward there still
  · rename_i diagnostic after result
    obtain ⟨keptOnward, goesOnward⟩ := heeds.of_recoverable result
    refine ⟨List.Subset.trans kept keptOnward, fun twin beside => ?_⟩
    rcases goes twin beside with faulted | ⟨there, same, still⟩
    · exact .inl (.inl (faulted.mono keptOnward))
    · rw [same]
      exact goesOnward there still
  · trivial

theorem bind (first : Heeds number step before)
    (rest : ∀ value after, Heeds number (next value) after) :
    Heeds number (step >>= next) before := by
  cases result : step before with
  | ok value middle =>
      obtain ⟨kept, goes⟩ := first.of_ok result
      refine .of_onward (bind_of_ok result) kept (fun twin beside => ?_) (rest value middle)
      refine (goes twin beside).imp_right fun ⟨there, same, still⟩ => ?_
      exact ⟨there, bind_of_ok same, still⟩
  | error halt middle =>
      unfold Heeds
      rw [bind_of_error result]
      cases halt with
      | fatal diagnostic => trivial
      | recoverable diagnostic =>
          obtain ⟨kept, goes⟩ := first.of_recoverable result
          refine ⟨kept, fun twin beside => (goes twin beside).imp_right ?_⟩
          rintro ⟨there, same, still⟩
          exact ⟨there, bind_of_error same, still⟩

theorem ite {condition : Prop} [Decidable condition] {others : Step α}
    (holds : condition → Heeds number step before)
    (fails : ¬condition → Heeds number others before) :
    Heeds number (if condition then step else others) before := by
  by_cases decided : condition
  · rw [if_pos decided]
    exact holds decided
  · rw [if_neg decided]
    exact fails decided

/-- A step may depend on the number of tokens that are left. -/
theorem at_length {family : Nat → Step α}
    (heeds : ∀ bound, Heeds number (family bound) before) :
    Heeds number (fun reading => family (reading.rest.length + 1) reading) before := by
  refine .of_onward rfl (List.Subset.refl _) (fun twin beside => ?_)
    (heeds (before.rest.length + 1))
  refine .inr ⟨twin, ?_, beside⟩
  rw [beside.length_eq]

end Heeds

theorem Faults.bind (first : Faults number step before)
    (rest : ∀ value after, Heeds number (next value) after) :
    Faults number (step >>= next) before := by
  unfold Faults at first
  split at first
  · rename_i value middle result
    exact .of_onward (bind_of_ok result) first.1 ((rest value middle).faults first.2)
  · unfold Faults
    rw [bind_of_error ‹_›]
    exact first
  · unfold Faults
    rw [bind_of_error ‹_›]
    trivial

/-! ### Ends -/

theorem heeds_pure (value : α) : Heeds number (pure value) before :=
  ⟨List.Subset.refl _, fun twin beside => .inr ⟨twin, rfl, beside⟩⟩

theorem heeds_refuse (diagnostic : Diagnostic) :
    Heeds number (refuse diagnostic : Step α) before :=
  ⟨List.Subset.refl _, fun twin beside => .inr ⟨twin, rfl, beside⟩⟩

theorem stopsAt_refuse {diagnostic : Diagnostic} (fault : number.token.IsFault diagnostic) :
    StopsAt number (refuse diagnostic : Step α) before :=
  ⟨List.Subset.refl _, fault⟩

theorem heeds_abort (problem : InternalProblem) :
    Heeds number (abort problem : Step α) before :=
  trivial

/-! ### Steps on tokens -/

section Tokens

variable {follow : Token → Step β}

/-- A token that is looked at is the same for both, unless it is the number. -/
theorem peek_heeds
    (otherwise : before.current ≠ number.token → Heeds number (follow before.current) before)
    (atNumber : before.current = number.token → Faults number (follow number.token) before) :
    Heeds number (peek >>= follow) before := by
  by_cases here : before.current = number.token
  · have same : (peek >>= follow) before = follow number.token before := by rw [← here]; rfl
    exact (Faults.of_onward same (List.Subset.refl _) (atNumber here)).heeds
  · refine .of_onward (peek_then follow before) (List.Subset.refl _) (fun twin beside => ?_)
      (otherwise here)
    have same := peek_then follow twin
    rw [beside.current_eq here] at same
    exact .inr ⟨twin, same, beside⟩

theorem peek_heeds_other (otherwise : before.current ≠ number.token)
    (onward : Heeds number (follow before.current) before) :
    Heeds number (peek >>= follow) before :=
  peek_heeds (fun _ => onward) fun here => absurd here otherwise

theorem stopsAt_peek (here : before.current = number.token)
    (stops : StopsAt number (follow number.token) before) :
    StopsAt number (peek >>= follow) before := by
  have looked : (peek >>= follow) before = follow number.token before := by
    rw [← here]
    rfl
  unfold StopsAt
  rw [looked]
  exact stops

/-- Where only the kind of the token matters, it may be the number. -/
theorem peek_heeds_of_kind (same : follow number.replacement = follow number.token)
    (onward : Heeds number (follow before.current) before) :
    Heeds number (peek >>= follow) before := by
  refine .of_onward (peek_then follow before) (List.Subset.refl _) (fun twin beside => ?_) onward
  have there := peek_then follow twin
  rcases beside.current_cases with alike | ⟨here, replaced⟩
  · rw [alike] at there
    exact .inr ⟨twin, there, beside⟩
  · rw [replaced, same, ← here] at there
    exact .inr ⟨twin, there, beside⟩

theorem check_heeds {others : Step α} (kind : Token.Kind)
    (is : before.current.kind = kind → Heeds number step before)
    (isNot : before.current.kind ≠ kind → Heeds number others before) :
    Heeds number (do if ← check kind then step else others) before := by
  refine .of_onward (check_then kind step others before) (List.Subset.refl _)
    (fun twin beside => ?_) (.ite is isNot)
  refine .inr ⟨twin, ?_, beside⟩
  rw [check_then, beside.kind_eq]

theorem followsExpression_heeds {others : Step α} (opened : Heeds number step before)
    (first : Heeds number others before) :
    Heeds number (do if ← followsExpression then step else others) before := by
  refine .of_onward (followsExpression_then step others before) (List.Subset.refl _)
    (fun twin beside => ?_) (.ite (fun _ => opened) fun _ => first)
  refine .inr ⟨twin, ?_, beside⟩
  rw [followsExpression_then, beside.contexts_eq]

theorem heeds_unexpected (expected : Expectation) :
    Heeds number (unexpected expected : Step α) before :=
  peek_heeds (fun _ => heeds_refuse _) fun _ => (stopsAt_refuse (.inr ⟨expected, rfl⟩)).faults

theorem heeds_advance (otherwise : before.current ≠ number.token) :
    Heeds number advance before := by
  refine ⟨List.Subset.refl _, fun twin beside => .inr ⟨twin.advanced, ?_, ?_⟩⟩
  · rw [← beside.current_eq otherwise]
    rfl
  · exact beside.advanced otherwise

theorem advance_heeds (otherwise : before.current ≠ number.token)
    (onward : Heeds number (follow before.current) before.advanced) :
    Heeds number (advance >>= follow) before := by
  have moved : (advance >>= follow) before = follow before.current before.advanced := rfl
  refine .of_onward moved (List.Subset.refl _) (fun twin beside => ?_) onward
  have same : (advance >>= follow) twin = follow twin.current twin.advanced := rfl
  rw [beside.current_eq otherwise] at same
  exact .inr ⟨twin.advanced, same, beside.advanced otherwise⟩

/-- A step that reads the number and stops then stops at it. -/
theorem stopsAt_advance (here : before.current = number.token)
    (stops : ∀ after, StopsAt number (follow number.token) after) :
    StopsAt number (advance >>= follow) before := by
  have moved : (advance >>= follow) before = follow number.token before.advanced := by
    rw [← here]
    rfl
  unfold StopsAt
  rw [moved]
  exact stops before.advanced

theorem heeds_skipping {test : Token.Kind → Bool} (stops : test .number = false) :
    Heeds number (skipping test) before :=
  ⟨List.Subset.refl _, fun twin beside => .inr ⟨twin.skip test, rfl, (beside.skip stops).2⟩⟩

theorem heeds_expect {kind : Token.Kind} (expected : Expectation)
    (otherwise : before.current.kind = kind → before.current ≠ number.token) :
    Heeds number (expect kind expected) before :=
  check_heeds kind (fun here => heeds_advance (otherwise here)) fun _ => heeds_unexpected expected

theorem heeds_expect_other {kind : Token.Kind} (other : kind ≠ .number)
    (expected : Expectation) : Heeds number (expect kind expected) before :=
  heeds_expect expected fun here => number.ne_of_kind here other

theorem heeds_numberValue (token : Token) : Heeds number (numberValue token) before := by
  unfold numberValue
  split
  · exact heeds_pure _
  · exact heeds_refuse _

/-- The number has no value. -/
theorem stopsAt_numberValue : StopsAt number (numberValue number.token) before := by
  unfold numberValue
  rw [number.noValue]
  exact stopsAt_refuse (.inl rfl)

/-- Where a number is expected and stands, it is read for its value. -/
theorem expectNumber_of_number (expected : Expectation)
    (isNumber : before.current.kind = .number) :
    expectNumber expected before = numberValue before.current before.advanced := by
  have taken : expect .number expected before = .ok before.current before.advanced := by
    unfold expect
    rw [check_then, if_pos isNumber]
    rfl
  exact bind_of_ok taken

theorem stopsAt_expectNumber (expected : Expectation) (here : before.current = number.token) :
    StopsAt number (expectNumber expected) before := by
  have isNumber : before.current.kind = .number := by rw [here]; exact number.isNumber
  have stops : StopsAt number (numberValue number.token) before.advanced := stopsAt_numberValue
  unfold StopsAt
  rw [expectNumber_of_number expected isNumber, here]
  exact stops

theorem heeds_expectNumber (expected : Expectation) :
    Heeds number (expectNumber expected) before := by
  by_cases here : before.current = number.token
  · exact (stopsAt_expectNumber expected here).heeds
  · exact (heeds_expect expected fun _ => here).bind fun token _ => heeds_numberValue token

/-- A number that is looked at before it is read for its value stops the reading, too. -/
theorem peek_expectNumber_heeds {final : Token → Nat → Step β} (expected : Expectation)
    (onward : ∀ token value after, Heeds number (final token value) after) :
    Heeds number (do
      let written ← peek
      let value ← expectNumber expected
      final written value) before :=
  peek_heeds (fun _ => (heeds_expectNumber expected).bind (onward _))
    fun here => (stopsAt_expectNumber expected here).bind.faults

theorem stopsAt_advance_numberValue {final : Token → Nat → Step β}
    (here : before.current = number.token) :
    StopsAt number (do
      let token ← advance
      let value ← numberValue token
      final token value) before :=
  stopsAt_advance here fun _ => stopsAt_numberValue.bind

theorem advance_numberValue_heeds {final : Token → Nat → Step β}
    (onward : ∀ token value after, Heeds number (final token value) after) :
    Heeds number (do
      let token ← advance
      let value ← numberValue token
      final token value) before := by
  by_cases here : before.current = number.token
  · exact (stopsAt_advance_numberValue here).heeds
  · exact advance_heeds here ((heeds_numberValue _).bind (onward _))

theorem heeds_stringValue (token : Token) : Heeds number (stringValue token) before :=
  .ite (fun _ => heeds_pure _) fun _ => heeds_refuse _

end Tokens

/-! ### Problems and nesting -/

/-- Behind a problem that is reported, there is one. -/
theorem report_heeds {next : Unit → Step β} (diagnostic : Diagnostic)
    (onward : ∀ after : Reading, after.diagnostics ≠ [] → Heeds number (next ()) after) :
    Heeds number (report diagnostic >>= next) before := by
  have told (reading : Reading) : (report diagnostic >>= next) reading =
      next () { reading with diagnostics := reading.diagnostics ++ [diagnostic] } := rfl
  refine .of_onward (told before) (List.subset_append_left _ _)
    (fun twin beside => .inr ⟨_, told twin, beside.reported diagnostic⟩) (onward _ ?_)
  exact List.append_ne_nil_of_right_ne_nil _ (List.cons_ne_nil _ _)

theorem report_faults {next : Unit → Step β} {diagnostic : Diagnostic}
    (fault : number.token.IsFault diagnostic)
    (onward : ∀ after : Reading, after.diagnostics ≠ [] → Heeds number (next ()) after) :
    Faults number (report diagnostic >>= next) before := by
  have told : (report diagnostic >>= next) before =
      next () { before with diagnostics := before.diagnostics ++ [diagnostic] } := rfl
  have reported : diagnostic ∈ before.diagnostics ++ [diagnostic] := by simp
  refine .of_onward told (List.subset_append_left _ _) ((onward _ ?_).faults ?_)
  · exact List.ne_nil_of_mem reported
  · exact ⟨diagnostic, reported, fault⟩

theorem heeds_resumeAt {test : Token.Kind → Bool} (stops : test .number = false)
    (reported : before.diagnostics ≠ []) : Heeds number (resumeAt test) before :=
  ⟨List.Subset.refl _, fun _ beside => .inr ⟨_, rfl, beside.resumed stops reported⟩⟩

/-- A step that stopped at the number hands the problem on, which has to be reported. -/
theorem attempt_faults {next : Except Diagnostic α → Step β} (stops : StopsAt number step before)
    (tells : ∀ diagnostic after, number.token.IsFault diagnostic →
      Faults number (next (.error diagnostic)) after) :
    Faults number (attempt step >>= next) before := by
  unfold StopsAt at stops
  split at stops
  · exact stops.elim
  · rename_i diagnostic after result
    exact .of_onward (bind_of_ok (attempt_eq_problem result)) stops.1
      (tells diagnostic after stops.2)
  · rename_i diagnostic after result
    unfold Faults
    rw [bind_of_error (attempt_eq_fatal result)]
    trivial

theorem attempt_heeds {next : Except Diagnostic α → Step β} (first : Heeds number step before)
    (ok : ∀ value after, Heeds number (next (.ok value)) after)
    (error : ∀ diagnostic after, Heeds number (next (.error diagnostic)) after)
    (tells : ∀ diagnostic after, number.token.IsFault diagnostic →
      Faults number (next (.error diagnostic)) after) :
    Heeds number (attempt step >>= next) before := by
  cases result : step before with
  | ok value middle =>
      obtain ⟨kept, goes⟩ := first.of_ok result
      refine .of_onward (bind_of_ok (attempt_eq_ok result)) kept (fun twin beside => ?_)
        (ok value middle)
      refine (goes twin beside).imp_right fun ⟨there, same, still⟩ => ?_
      exact ⟨there, bind_of_ok (attempt_eq_ok same), still⟩
  | error halt middle =>
      cases halt with
      | fatal diagnostic =>
          unfold Heeds
          rw [bind_of_error (attempt_eq_fatal result)]
          trivial
      | recoverable diagnostic =>
          have tried : (attempt step >>= next) before = next (.error diagnostic) middle :=
            bind_of_ok (attempt_eq_problem result)
          obtain ⟨kept, goes⟩ := first.of_recoverable result
          -- Behind a fault at the number nothing has to be the same, as it is told.
          by_cases fault : number.token.IsFault diagnostic
          · exact (Faults.of_onward tried kept (tells diagnostic middle fault)).heeds
          · refine .of_onward tried kept (fun twin beside => ?_) (error diagnostic middle)
            rcases goes twin beside with (faulted | faulty) | ⟨there, same, still⟩
            · exact .inl faulted
            · exact absurd faulty fault
            · exact .inr ⟨there, bind_of_ok (attempt_eq_problem same), still⟩

theorem heeds_enter (context : Context) : Heeds number (enter context) before :=
  ⟨List.Subset.refl _, fun twin beside => .inr ⟨twin.inside context, rfl, beside.inside context⟩⟩

theorem heeds_leave (context : Context) : Heeds number (leave context) before := by
  rcases leave_cases context before with ⟨outer, contexts⟩ | ⟨diagnostic, after, stopped⟩
  · unfold Heeds
    rw [leave_of_contexts contexts]
    refine ⟨List.Subset.refl _, fun twin beside => .inr ⟨_, ?_, beside.in_contexts outer⟩⟩
    exact leave_of_contexts (beside.contexts_eq.trans contexts)
  · unfold Heeds
    rw [stopped]
    trivial

/-- A fault that leaves a construct is still a fault. -/
theorem stopsAt_leave {diagnostic : Diagnostic} (fault : number.token.IsFault diagnostic)
    (context : Context) :
    StopsAt number (do leave context; refuse diagnostic : Step α) before := by
  unfold StopsAt
  rcases leave_cases context before with ⟨outer, contexts⟩ | ⟨internal, after, stopped⟩
  · rw [bind_of_ok (leave_of_contexts contexts)]
    exact ⟨List.Subset.refl _, fault⟩
  · rw [bind_of_error stopped]
    trivial

/-- Being inside of a construct makes no difference. -/
theorem heeds_within (context : Context) (heeds : Heeds number step (before.inside context)) :
    Heeds number (within context step) before := by
  cases result : step (before.inside context) with
  | ok value after =>
      obtain ⟨kept, goes⟩ := heeds.of_ok result
      refine .of_onward (within_of_ok result) kept (fun twin beside => ?_)
        ((heeds_leave context).bind fun _ _ => heeds_pure value)
      refine (goes _ (beside.inside context)).imp_right fun ⟨there, same, still⟩ => ?_
      exact ⟨there, within_of_ok same, still⟩
  | error halt after =>
      cases halt with
      | fatal diagnostic =>
          unfold Heeds
          rw [within_of_error result]
          rcases leave_cases context after with ⟨outer, contexts⟩ | ⟨internal, left, stopped⟩
          · rw [bind_of_ok (leave_of_contexts contexts)]
            trivial
          · rw [bind_of_error stopped]
            trivial
      | recoverable diagnostic =>
          obtain ⟨kept, goes⟩ := heeds.of_recoverable result
          by_cases fault : number.token.IsFault diagnostic
          · exact (Faults.of_onward (within_of_error result) kept
              (stopsAt_leave fault context).faults).heeds
          · refine .of_onward (within_of_error result) kept (fun twin beside => ?_)
              ((heeds_leave context).bind fun _ _ => heeds_refuse diagnostic)
            rcases goes _ (beside.inside context) with (faulted | faulty) | ⟨there, same, still⟩
            · exact .inl faulted
            · exact absurd faulty fault
            · exact .inr ⟨there, within_of_error same, still⟩

end Building

end Solfege.Reading
