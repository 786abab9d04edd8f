import Solfege.Proofs.Evaluation.References
import Solfege.Proofs.Inlining.Course

/-!
Contract: what inlining keeps, if each of its steps does.

Owns:
- the invariants of inlining: properties of a state that problems, emissions and excursions
  keep, where uses of macros are restricted to names that may be met;
- the proof that inlining an expression, a list or arguments keeps an invariant, if the
  bodies of macros do and every name that is used may be met;
- the fact that arguments use no names any more when they are passed on.

Does not own: any particular invariant, or how the body of a macro keeps it.
-/

namespace Solfege

open Expression

/-! ### Settled expressions use no names -/

theorem memberUses_nil_of_notes {members : List ChordMember}
    (notes : allNotes members = true) : members.flatMap (memberUses []) = [] := by
  induction members with
  | nil => rfl
  | cons member rest inductionHypothesis =>
      cases member with
      | note written =>
          rw [allNotes_cons_note] at notes
          exact inductionHypothesis notes
      | reference name token => contradiction

theorem Expression.Sounding.uses_nil {expression : Expression}
    (sounding : Sounding expression) : expression.uses [] = [] := by
  cases sounding with
  | note written => rfl
  | chord members token notes => exact memberUses_nil_of_notes notes

/-- What inlining emits uses no names. -/
theorem Expression.Settled.uses_nil {expression : Expression} (settled : Settled expression) :
    expression.uses [] = [] := by
  cases settled with
  | placeholder token => rfl
  | playable playable =>
      cases playable with
      | sounding sounding => exact sounding.uses_nil
      | hold sounding token => exact sounding.uses_nil
      | release token => rfl
      | directive directive token => rfl
      | bar token => rfl

theorem usesOfAll_nil_of_settled {list : List Expression}
    (settled : ∀ expression ∈ list, Settled expression) : usesOfAll [] list = [] := by
  induction list with
  | nil => rfl
  | cons item rest inductionHypothesis =>
      rw [List.forall_mem_cons] at settled
      rw [usesOfAll, settled.1.uses_nil, inductionHypothesis settled.2]
      rfl

namespace Inlining

theorem uses_nil_gather {emitted : List Expression}
    (settled : ∀ expression ∈ emitted, Settled expression) (token : Token) :
    (gather emitted token).uses [] = [] := by
  unfold gather
  split
  · exact (settled _ (List.mem_singleton_self _)).uses_nil
  · rename_i several _
    apply usesOfAll_nil_of_settled
    intro expression reversed
    exact settled expression (List.mem_reverse.mp reversed)

/-- What an argument becomes uses no names. -/
theorem uses_nil_of_mem_placeArguments {around : Surroundings} {unfolding : Unfolding}
    (unfolds : Unfolds around unfolding) (arguments : List Expression) (state : Inlining) :
    ∀ argument ∈ (placeArguments around unfolding arguments state).1,
      argument.uses [] = [] := by
  induction arguments generalizing state with
  | nil => exact List.forall_mem_nil _
  | cons argument rest inductionHypothesis =>
      obtain ⟨added, gain⟩ := (place_course unfolds argument { state with emitted := [] }).gain
      have gathered := uses_nil_gather gain.settled argument.token
      rw [← List.append_nil added, ← gain.emitted] at gathered
      rw [placeArguments]
      exact List.forall_mem_cons.mpr ⟨gathered, inductionHypothesis _⟩

/-! ### Invariants -/

theorem forall_mem_problems_fail {fine : Diagnostic → Prop} {state : Inlining}
    {diagnostic : Diagnostic} (known : ∀ earlier ∈ state.problems, fine earlier)
    (here : fine diagnostic) : ∀ problem ∈ (state.fail diagnostic).problems, fine problem := by
  unfold fail
  dsimp only
  split
  · exact known
  · exact List.forall_mem_append.mpr ⟨known, List.forall_mem_singleton.mpr here⟩

/-- A property of states that the steps of inlining keep. `may` tells which names may be met
while which macros are being inlined, and `fine` which problems the property allows. -/
structure Invariant (around : Surroundings) (may : List String → String → Prop)
    (fine : Diagnostic → Prop) (holds : Inlining → Prop) : Prop where
  fail : ∀ state diagnostic, holds state → fine diagnostic → holds (state.fail diagnostic)
  emitting : ∀ state emitted, holds state → holds { state with emitted := emitted }
  spending : ∀ state spent exhausted, holds state →
    holds { state with spent := spent, exhausted := exhausted }
  /-- Every problem is fine that is none of a use. -/
  fine_expansion : ∀ token problem, (∀ name chain, problem ≠ .selfReference name chain) →
    fine (Diagnostic.expansionAt token problem)
  fine_callee : ∀ active name given token diagnostic, may active name →
    callee around active name given token = .error diagnostic → fine diagnostic

/-- The body of a macro whose name may be met keeps a property, where the arguments use no
names. -/
def UnfoldsKeeping (around : Surroundings) (may : List String → String → Prop)
    (holds : Inlining → Prop) (unfolding : Unfolding) : Prop :=
  ∀ name token definition arguments state, may state.active name →
    callee around state.active name arguments.length token = .ok definition →
    (∀ argument ∈ arguments, argument.uses [] = []) → holds state →
    holds (unfolding definition arguments state)

namespace Invariant

section Steps

variable {around : Surroundings} {may : List String → String → Prop}
  {fine : Diagnostic → Prop} {holds : Inlining → Prop}
  (invariant : Invariant around may fine holds) {state : Inlining}

include invariant

theorem fails {diagnostics : List Diagnostic} (known : holds state)
    (areFine : ∀ diagnostic ∈ diagnostics, fine diagnostic) :
    holds (diagnostics.foldl Inlining.fail state) := by
  induction diagnostics generalizing state with
  | nil => exact known
  | cons diagnostic rest inductionHypothesis =>
      obtain ⟨here, others⟩ := List.forall_mem_cons.mp areFine
      exact inductionHypothesis (invariant.fail state diagnostic known here) others

theorem emit (known : holds state) (expression : Expression) :
    holds (state.emit around expression) := by
  apply emit_elim (motive := holds)
  · intro _
    exact known
  · intro _ _
    apply invariant.fail
    · exact invariant.spending state _ _ known
    · exact invariant.fine_expansion _ _ fun _ _ => ExpansionProblem.noConfusion
  · intro _ _
    exact invariant.emitting _ _ (invariant.spending state _ _ known)

theorem closeHold (known : holds state) (emitted : List Expression) (token : Token) :
    holds (state.closeHold around emitted token) := by
  unfold Inlining.closeHold
  split
  · exact invariant.emit known _
  · exact invariant.emit known _
  · exact invariant.fail _ _ known
      (invariant.fine_expansion _ _ fun _ _ => ExpansionProblem.noConfusion)

variable {unfolding : Unfolding} (keeping : UnfoldsKeeping around may holds unfolding)

include keeping

theorem placeName (known : holds state) {name : String} (token : Token)
    (allowed : may state.active name) :
    holds (Inlining.placeName around unfolding name token state) := by
  unfold Inlining.placeName
  cases accepted : callee around state.active name 0 token with
  | error diagnostic =>
      exact invariant.fail _ _ known (invariant.fine_callee _ _ _ _ _ allowed accepted)
  | ok definition =>
      dsimp only
      split
      · exact known
      · exact keeping name token definition [] state allowed accepted (List.forall_mem_nil _) known

theorem placeMember {progress : List ChordMember × Inlining} (known : holds progress.2)
    {member : ChordMember} (allowed : ∀ name ∈ memberUses [] member, may progress.2.active name) :
    holds (Inlining.placeMember around unfolding progress member).2 := by
  cases member with
  | note written => exact known
  | reference name token =>
      have inside := invariant.placeName keeping (invariant.emitting progress.2 [] known) token
        (allowed name (List.mem_singleton_self name))
      have after := invariant.emitting _ progress.2.emitted inside
      unfold Inlining.placeMember
      dsimp only
      split
      · exact after
      · exact invariant.fail _ _ after
          (invariant.fine_expansion _ _ fun _ _ => ExpansionProblem.noConfusion)

theorem placeMembers (unfolds : Unfolds around unfolding) (members : List ChordMember)
    {progress : List ChordMember × Inlining} (known : holds progress.2)
    (allowed : ∀ name ∈ members.flatMap (memberUses []), may progress.2.active name) :
    holds (members.foldl (Inlining.placeMember around unfolding) progress).2 := by
  induction members generalizing progress with
  | nil => exact known
  | cons member rest inductionHypothesis =>
      obtain ⟨here, others⟩ := List.forall_mem_append.mp allowed
      apply inductionHypothesis (invariant.placeMember keeping known here)
      rw [(placeMember_course unfolds progress member).active_eq]
      exact others

end Steps

mutual

/-- Inlining an expression keeps an invariant. -/
theorem place {around : Surroundings} {may : List String → String → Prop}
    {fine : Diagnostic → Prop} {holds : Inlining → Prop} {unfolding : Unfolding}
    (invariant : Invariant around may fine holds) (unfolds : Unfolds around unfolding)
    (keeping : UnfoldsKeeping around may holds unfolding) (expression : Expression)
    {state : Inlining} (known : holds state)
    (allowed : ∀ name ∈ expression.uses [], may state.active name) :
    holds (Inlining.place around unfolding expression state) := by
  cases expression with
  | reference name token =>
      rw [Inlining.place]
      exact invariant.placeName keeping known token (allowed name (List.mem_singleton_self name))
  | call name arguments token =>
      obtain ⟨here, inArguments⟩ := List.forall_mem_cons.mp allowed
      cases accepted : callee around state.active name arguments.length token with
      | error diagnostic =>
          rw [place_call_of_error accepted]
          exact invariant.fail _ _ known (invariant.fine_callee _ _ _ _ _ here accepted)
      | ok definition =>
          have placed := invariant.placeArguments unfolds keeping arguments known inArguments
          have still := (placeArguments_course unfolds arguments state).active_eq
          rw [place_call_of_ok accepted]
          split
          · exact placed
          · rw [← still] at here accepted
            rw [← length_placeArguments arguments state] at accepted
            exact keeping name token definition _ _ here accepted
              (uses_nil_of_mem_placeArguments unfolds arguments state) placed
  | group items token =>
      rw [Inlining.place]
      exact invariant.placeAll unfolds keeping items known allowed
  | chord members token =>
      have begun : holds (([] : List ChordMember), state).2 := known
      rw [place_chord]
      exact invariant.emit (invariant.placeMembers keeping unfolds members begun allowed) _
  | hold inner token =>
      have inside := invariant.place unfolds keeping inner
        (invariant.emitting state [] known) allowed
      have after := invariant.emitting _ state.emitted inside
      rw [Inlining.place]
      split
      · exact after
      · exact invariant.closeHold after _ token
  | repetition count token =>
      exact invariant.fail _ _ known
        (invariant.fine_expansion _ _ fun _ _ => ExpansionProblem.noConfusion)
  | _ => exact invariant.emit known _

/-- Inlining a list keeps an invariant. -/
theorem placeAll {around : Surroundings} {may : List String → String → Prop}
    {fine : Diagnostic → Prop} {holds : Inlining → Prop} {unfolding : Unfolding}
    (invariant : Invariant around may fine holds) (unfolds : Unfolds around unfolding)
    (keeping : UnfoldsKeeping around may holds unfolding) (list : List Expression)
    {state : Inlining} (known : holds state)
    (allowed : ∀ name ∈ usesOfAll [] list, may state.active name) :
    holds (Inlining.placeAll around unfolding list state) := by
  cases list with
  | nil => exact known
  | cons item rest =>
      obtain ⟨here, others⟩ := List.forall_mem_append.mp allowed
      have placed := invariant.place unfolds keeping item known here
      have still := (place_course unfolds item state).active_eq
      rw [Inlining.placeAll]
      split
      · exact known
      · apply invariant.placeAll unfolds keeping rest placed
        rw [still]
        exact others

/-- Inlining arguments keeps an invariant. -/
theorem placeArguments {around : Surroundings} {may : List String → String → Prop}
    {fine : Diagnostic → Prop} {holds : Inlining → Prop} {unfolding : Unfolding}
    (invariant : Invariant around may fine holds) (unfolds : Unfolds around unfolding)
    (keeping : UnfoldsKeeping around may holds unfolding) (arguments : List Expression)
    {state : Inlining} (known : holds state)
    (allowed : ∀ name ∈ usesOfAll [] arguments, may state.active name) :
    holds (Inlining.placeArguments around unfolding arguments state).2 := by
  cases arguments with
  | nil => exact known
  | cons argument rest =>
      obtain ⟨here, others⟩ := List.forall_mem_append.mp allowed
      have inside := invariant.place unfolds keeping argument
        (invariant.emitting state [] known) here
      have after := invariant.emitting _ state.emitted inside
      have still := (place_course unfolds argument { state with emitted := [] }).active_eq
      rw [Inlining.placeArguments]
      apply invariant.placeArguments unfolds keeping rest after
      change ∀ name ∈ usesOfAll [] rest, may (Inlining.place around unfolding argument
        { state with emitted := [] }).active name
      rw [still]
      exact others

end

end Invariant

end Inlining

end Solfege
