import Solfege.Proofs.Evaluation.Basic
import Solfege.Proofs.Inlining.Settled
import Mathlib.Data.List.Forall2

/-!
Contract: how the parts of inlining stand for the parts of evaluation.

Owns:
- an argument that inlining passes on, and the value that it stands for;
- bindings that represent an environment, and what both know about a name;
- the members that a chord gains and the hold that is closed, in terms of what settled
  expressions contribute, and the macro that is entered without a warning;
- the proofs that every value is settled, and that no chord has a problem where there is
  a value.

Does not own: that inlining and evaluation agree.
-/

namespace Solfege

open Expression

/-! ### Arguments -/

/-- An argument as inlining passes it on, and the value that it stands for. -/
structure Passes (argument : Expression) (value : List Expression) : Prop where
  gathered : ∃ token, argument = Inlining.gather value.reverse token
  settled : ∀ expression ∈ value, Settled expression

/-- An argument contributes something to a chord only if its value is a single expression
that does. -/
theorem Passes.contribution?_eq_some_iff {argument : Expression} {value : List Expression}
    (passes : Passes argument value) {contribution : List ChordMember} :
    argument.contribution? = some contribution ↔
      ∃ single, value = [single] ∧ single.contribution? = some contribution := by
  obtain ⟨token, rfl⟩ := passes.gathered
  unfold Inlining.gather
  split
  · rename_i single reversed
    rw [List.reverse_eq_iff, List.reverse_singleton] at reversed
    subst reversed
    constructor
    · intro contributed
      exact ⟨single, rfl, contributed⟩
    · rintro ⟨other, same, contributed⟩
      rw [List.singleton_inj.mp same]
      exact contributed
  · rename_i several
    constructor
    · intro impossible
      contradiction
    · rintro ⟨single, same, _⟩
      subst same
      exact absurd rfl (several single)

/-! ### Bindings -/

/-- Bindings of the same names as an environment, to arguments that stand for its
values. -/
def Represents (bindings : Bindings) (environment : Environment) : Prop :=
  List.Forall₂ (fun binding entry => binding.1 = entry.1 ∧ Passes binding.2 entry.2)
    bindings environment

namespace Represents

variable {bindings : Bindings} {environment : Environment}

/-- A name is bound in both or in neither. -/
theorem lookup_cases (represents : Represents bindings environment) (name : String) :
    (bindings.lookup name = none ∧ environment.lookup name = none) ∨
      ∃ argument value, bindings.lookup name = some argument ∧
        environment.lookup name = some value ∧ Passes argument value := by
  induction represents with
  | nil => exact .inl ⟨rfl, rfl⟩
  | @cons binding entry bindings environment here _ inductionHypothesis =>
      obtain ⟨bound, argument⟩ := binding
      obtain ⟨known, value⟩ := entry
      obtain ⟨same, passes⟩ := here
      change bound = known at same
      subst same
      rw [List.lookup_cons, List.lookup_cons]
      by_cases found : name = bound
      · rw [found, beq_self_eq_true]
        exact .inr ⟨argument, value, rfl, rfl, passes⟩
      · rw [beq_false_of_ne found]
        exact inductionHypothesis

theorem lookup_of_none (represents : Represents bindings environment) {name : String}
    (free : environment.lookup name = none) : bindings.lookup name = none := by
  rcases represents.lookup_cases name with ⟨unbound, _⟩ | ⟨_, _, _, bound, _⟩
  · exact unbound
  · rw [free] at bound
    contradiction

theorem lookup_of_some (represents : Represents bindings environment) {name : String}
    {value : List Expression} (bound : environment.lookup name = some value) :
    ∃ argument, bindings.lookup name = some argument ∧ Passes argument value := by
  rcases represents.lookup_cases name with ⟨_, free⟩ | ⟨argument, other, found, known, passes⟩
  · rw [bound] at free
    contradiction
  · rw [bound] at known
    rw [Option.some.inj known]
    exact ⟨argument, found, passes⟩

/-- The parameters of a macro, each with an argument and with the value of the
argument. -/
theorem zip {arguments : List Expression} {given : List (List Expression)}
    (passes : List.Forall₂ Passes arguments given) (parameters : List String) :
    Represents (parameters.zip arguments) (parameters.zip given) := by
  induction passes generalizing parameters with
  | nil =>
      rw [List.zip_nil_right, List.zip_nil_right]
      exact .nil
  | cons here _ inductionHypothesis =>
      cases parameters with
      | nil => exact .nil
      | cons parameter parameters => exact .cons ⟨rfl, here⟩ (inductionHypothesis parameters)

end Represents

/-! ### Members of chords -/

section Members

variable {bindings : Bindings} {name : String} {argument : Expression}

theorem substituteMember_of_bound (bound : bindings.lookup name = some argument)
    {contribution : List ChordMember} (contributed : argument.contribution? = some contribution)
    (token : Token) :
    substituteMember bindings (.reference name token) = contribution := by
  rw [substituteMember, bound]
  cases argument with
  | note | chord => exact Option.some.inj contributed
  | _ => contradiction

theorem memberProblem?_of_bound (bound : bindings.lookup name = some argument)
    (token : Token) :
    memberProblem? bindings (.reference name token) = none ↔
      ∃ contribution, argument.contribution? = some contribution := by
  rw [memberProblem?, bound]
  cases argument <;> simp [Expression.contribution?]

theorem memberProblem?_of_free (free : bindings.lookup name = none) (token : Token) :
    memberProblem? bindings (.reference name token) = none := by
  rw [memberProblem?, free]

theorem substituteMember_of_free (free : bindings.lookup name = none) (token : Token) :
    substituteMember bindings (.reference name token) = [.reference name token] := by
  rw [substituteMember, free]

end Members

theorem mapM_contribution?_cons_iff {expression : Expression} {rest : List Expression}
    {parts : List (List ChordMember)} :
    (expression :: rest).mapM Expression.contribution? = some parts ↔
      ∃ part others, expression.contribution? = some part ∧
        rest.mapM Expression.contribution? = some others ∧ parts = part :: others := by
  rw [List.mapM_cons]
  cases expression.contribution? <;> cases rest.mapM Expression.contribution? <;>
    simp [eq_comm]

/-- A chord gains the notes of a list if all of it contributes to chords. -/
theorem Inlining.membersFrom_eq_true_iff {made members : List ChordMember}
    {expressions : List Expression} :
    membersFrom made expressions = (members, true) ↔
      ∃ parts, expressions.mapM Expression.contribution? = some parts ∧
        members = parts.flatten.reverse ++ made := by
  induction expressions generalizing made with
  | nil => simp [membersFrom, eq_comm]
  | cons expression rest inductionHypothesis =>
      have contributed {part : List ChordMember} (here : expression.contribution? = some part) :
          (∃ parts, rest.mapM Expression.contribution? = some parts ∧
              members = parts.flatten.reverse ++ (part.reverse ++ made)) ↔
            ∃ parts, (expression :: rest).mapM Expression.contribution? = some parts ∧
              members = parts.flatten.reverse ++ made := by
        constructor
        · rintro ⟨others, othersFound, same⟩
          refine ⟨part :: others,
            mapM_contribution?_cons_iff.mpr ⟨part, others, here, othersFound, rfl⟩, ?_⟩
          rw [same, List.flatten_cons, List.reverse_append, List.append_assoc]
        · rintro ⟨parts, found, same⟩
          obtain ⟨first, others, firstFound, othersFound, rfl⟩ :=
            mapM_contribution?_cons_iff.mp found
          rw [here] at firstFound
          rw [List.flatten_cons, List.reverse_append, List.append_assoc,
            ← Option.some.inj firstFound] at same
          exact ⟨others, othersFound, same⟩
      cases expression with
      | note written =>
          rw [membersFrom, inductionHypothesis]
          exact contributed rfl
      | chord more token =>
          rw [membersFrom, inductionHypothesis]
          exact contributed rfl
      | _ =>
          constructor
          · intro impossible
            cases impossible
          · rintro ⟨parts, found, _⟩
            obtain ⟨part, _, impossible, _⟩ := mapM_contribution?_cons_iff.mp found
            contradiction

/-- A name in a chord gives it the notes and chords that the name becomes. -/
theorem Inlining.placeMember_of_parts {around : Surroundings} {unfolding : Unfolding}
    {name : String} {token : Token} {progress : List ChordMember × Inlining} {toll : Nat}
    {value : List Expression} {parts : List (List ChordMember)}
    (placed : placeName around unfolding name token { progress.2 with emitted := [] } =
      adding { progress.2 with emitted := [] } toll value)
    (contributed : value.mapM Expression.contribution? = some parts) :
    placeMember around unfolding progress (.reference name token) =
      (parts.flatten.reverse ++ progress.1, progress.2.adding toll []) := by
  have complete : membersFrom progress.1 value =
      (parts.flatten.reverse ++ progress.1, true) :=
    membersFrom_eq_true_iff.mpr ⟨parts, contributed, rfl⟩
  unfold placeMember
  dsimp only
  rw [placed, emitted_adding, List.append_nil, List.reverse_reverse, complete]
  rfl

/-! ### Holds -/

theorem Inlining.closeHold_of_contribution {around : Surroundings} {single : Expression}
    (holdable : single.contribution?.isSome = true) (token : Token) (state : Inlining) :
    closeHold around [single] token state = state.emit around (.hold single token) := by
  cases single with
  | note | chord => rfl
  | _ => contradiction

/-- A hold is closed around a single expression that could stand in a chord, or it is a
problem. -/
theorem Inlining.closeHold_cases (around : Surroundings) (emitted : List Expression)
    (token : Token) (state : Inlining) :
    (∃ single, emitted = [single] ∧ single.contribution?.isSome = true) ∨
      closeHold around emitted token state =
        state.fail (Diagnostic.expansionAt token .unholdableExpansion) := by
  unfold closeHold
  split
  · exact .inl ⟨_, rfl, rfl⟩
  · exact .inl ⟨_, rfl, rfl⟩
  · exact .inr rfl

/-! ### Bodies of macros -/

/-- A macro is entered quietly if its arguments suit the chords in its body. -/
theorem Inlining.unfoldTo_of_clear (around : Surroundings) (level : Nat) {definition : Macro}
    {arguments : List Expression}
    (clear : chordProblems (definition.parameters.zip arguments) definition.body = [])
    (state : Inlining) :
    unfoldTo around (level + 1) definition arguments state =
      let inside := placeAll around (unfoldTo around level)
        (definition.body.map (substitute (definition.parameters.zip arguments)))
        { state with active := definition.name :: state.active }
      { inside with active := inside.active.tail } := by
  rw [unfoldTo, clear, substituteAll_eq]
  rfl

/-! ### Every value is settled -/

theorem Expression.Settled.notes_of_contribution {expression : Expression}
    (settled : Settled expression) {contribution : List ChordMember}
    (contributed : expression.contribution? = some contribution) :
    allNotes contribution = true := by
  cases expression with
  | note written =>
      rw [← Option.some.inj contributed]
      rfl
  | chord members token =>
      rw [← Option.some.inj contributed]
      exact settled.allNotes_of_chord
  | _ => contradiction

theorem Expression.Settled.sounding_of_contribution {expression : Expression}
    (settled : Settled expression) (contributes : expression.contribution?.isSome = true) :
    Sounding expression := by
  cases expression with
  | note written => exact .note written
  | chord members token => exact .chord members token settled.allNotes_of_chord
  | _ => contradiction

theorem allNotes_flatten_of_mapM {expressions : List Expression}
    (settled : ∀ expression ∈ expressions, Settled expression)
    {parts : List (List ChordMember)}
    (found : expressions.mapM Expression.contribution? = some parts) :
    allNotes parts.flatten = true := by
  induction expressions generalizing parts with
  | nil =>
      rw [← Option.some.inj found]
      rfl
  | cons expression rest inductionHypothesis =>
      obtain ⟨part, others, here, there, rfl⟩ := mapM_contribution?_cons_iff.mp found
      rw [List.forall_mem_cons] at settled
      rw [List.flatten_cons, Expression.allNotes_append,
        settled.1.notes_of_contribution here, inductionHypothesis settled.2 there]
      rfl

/-- An environment whose values are settled. -/
def Environment.IsSettled (environment : Environment) : Prop :=
  ∀ name value, environment.lookup name = some value →
    ∀ expression ∈ value, Settled expression

theorem Environment.isSettled_nil : Environment.IsSettled [] := by
  intro _ _ impossible
  contradiction

theorem Environment.isSettled_zip {given : List (List Expression)}
    (settled : ∀ value ∈ given, ∀ expression ∈ value, Settled expression)
    (parameters : List String) : Environment.IsSettled (parameters.zip given) := by
  intro name value bound
  exact settled value (mem_of_lookup_zip bound)

theorem Represents.isSettled {bindings : Bindings} {environment : Environment}
    (represents : Represents bindings environment) : environment.IsSettled := by
  intro name value bound
  obtain ⟨_, _, passes⟩ := represents.lookup_of_some bound
  exact passes.settled

section Values

variable {find : String → Option Macro}

mutual

/-- What an expression evaluates to is settled. -/
theorem Evaluates.settled {environment : Environment} {expression : Expression}
    {value : List Expression} (known : environment.IsSettled) :
    Evaluates find environment expression value → ∀ item ∈ value, Settled item
  | .note written => List.forall_mem_singleton.mpr (.playable (.sounding (.note written)))
  | .release token => List.forall_mem_singleton.mpr (.playable (.release token))
  | .directive setting token =>
      List.forall_mem_singleton.mpr (.playable (.directive setting token))
  | .bar token => List.forall_mem_singleton.mpr (.playable (.bar token))
  | .placeholder token => List.forall_mem_singleton.mpr (.placeholder token)
  | .parameter _ bound => known _ _ bound
  | .name _ _ _ _ body => List.forall_mem_flatten.mpr (body.settled Environment.isSettled_nil)
  | .call _ _ _ each body =>
      List.forall_mem_flatten.mpr
        (body.settled (Environment.isSettled_zip (each.settled known) _))
  | .group _ each => List.forall_mem_flatten.mpr (each.settled known)
  | .hold token inside holdable =>
      List.forall_mem_singleton.mpr (.playable (.hold
        ((inside.settled known _ (List.mem_singleton_self _)).sounding_of_contribution holdable)
        token))
  | .chord token each =>
      List.forall_mem_singleton.mpr (.playable (.sounding (.chord _ token (each.notes known))))

theorem EvaluatesEach.settled {environment : Environment} {list : List Expression}
    {values : List (List Expression)} (known : environment.IsSettled) :
    EvaluatesEach find environment list values →
      ∀ value ∈ values, ∀ item ∈ value, Settled item
  | .nil => fun _ impossible => absurd impossible List.not_mem_nil
  | .cons head tail => List.forall_mem_cons.mpr ⟨head.settled known, tail.settled known⟩

theorem EvaluatesMembers.notes {environment : Environment} {members : List ChordMember}
    {contributions : List (List ChordMember)} (known : environment.IsSettled) :
    EvaluatesMembers find environment members contributions →
      allNotes contributions.flatten = true
  | .nil => rfl
  | .note written tail => by
      rw [List.flatten_cons, List.singleton_append, Expression.allNotes_cons_note]
      exact tail.notes known
  | .parameter _ bound contributed tail => by
      have settled := known _ _ bound _ (List.mem_singleton_self _)
      rw [List.flatten_cons, Expression.allNotes_append,
        settled.notes_of_contribution contributed, tail.notes known]
      rfl
  | .name _ _ inside contributed tail => by
      rw [List.flatten_cons, Expression.allNotes_append,
        allNotes_flatten_of_mapM (inside.settled known) contributed, tail.notes known]
      rfl

end

/-! ### Chords without problems -/

mutual

/-- No chord in an expression with a value has a problem. -/
theorem Evaluates.clear {bindings : Bindings} {environment : Environment}
    {expression : Expression} {value : List Expression}
    (represents : Represents bindings environment) :
    Evaluates find environment expression value → Clear bindings expression
  | .note _ => rfl
  | .release _ => rfl
  | .directive _ _ => rfl
  | .bar _ => rfl
  | .placeholder _ => rfl
  | .parameter _ _ => rfl
  | .name _ _ _ _ _ => rfl
  | .call _ _ _ each _ => clear_call_iff.mpr (each.clear represents)
  | .group _ each => clear_group_iff.mpr (each.clear represents)
  | .hold _ inside _ => clear_hold_iff.mpr (inside.clear represents)
  | .chord _ each => clear_chord_iff.mpr (each.clear represents)

theorem EvaluatesEach.clear {bindings : Bindings} {environment : Environment}
    {list : List Expression} {values : List (List Expression)}
    (represents : Represents bindings environment) :
    EvaluatesEach find environment list values → ∀ item ∈ list, Clear bindings item
  | .nil => List.forall_mem_nil _
  | .cons head tail => List.forall_mem_cons.mpr ⟨head.clear represents, tail.clear represents⟩

theorem EvaluatesMembers.clear {bindings : Bindings} {environment : Environment}
    {members : List ChordMember} {contributions : List (List ChordMember)}
    (represents : Represents bindings environment) :
    EvaluatesMembers find environment members contributions →
      ∀ member ∈ members, memberProblem? bindings member = none
  | .nil => List.forall_mem_nil _
  | .note _ tail => List.forall_mem_cons.mpr ⟨rfl, tail.clear represents⟩
  | .parameter token bound contributed tail => by
      obtain ⟨argument, found, passes⟩ := represents.lookup_of_some bound
      have contributes := passes.contribution?_eq_some_iff.mpr ⟨_, rfl, contributed⟩
      exact List.forall_mem_cons.mpr
        ⟨(memberProblem?_of_bound found token).mpr ⟨_, contributes⟩, tail.clear represents⟩
  | .name token free _ _ tail =>
      List.forall_mem_cons.mpr
        ⟨memberProblem?_of_free (represents.lookup_of_none free) token, tail.clear represents⟩

end

end Values

end Solfege
