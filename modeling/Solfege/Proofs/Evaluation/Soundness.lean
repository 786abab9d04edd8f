import Solfege.Proofs.Evaluation.Binding
import Solfege.Proofs.Inlining.Course

/-!
Contract: where inlining meets no problem, what it emits is the value.

Owns:
- the proof that an expression, with arguments in place of its parameters, is inlined to
  what it evaluates to, one case for each sort of expression;
- the same for the bodies of macros, to however many levels, and for whole lists.

Does not own: that inlining meets no problem.

Inlining is quiet when it meets no problem that it did not meet before. Problems are only
ever added, so every step of a quiet inlining is quiet.
-/

namespace Solfege.Inlining

open Expression

/-! ### Quiet steps -/

/-- Both parts of a quiet step are quiet. -/
theorem quiet_parts {first second third : Inlining} (early : first.failures ≤ second.failures)
    (late : second.failures ≤ third.failures) (quiet : third.failures = first.failures) :
    second.failures = first.failures ∧ third.failures = second.failures := by
  omega

theorem not_quiet_fail (state : Inlining) (diagnostic : Diagnostic) :
    (state.fail diagnostic).failures ≠ state.failures :=
  Nat.succ_ne_self _

theorem eq_nil_of_quiet_fails {diagnostics : List Diagnostic} {state : Inlining}
    (quiet : (diagnostics.foldl fail state).failures = state.failures) : diagnostics = [] := by
  cases diagnostics with
  | nil => rfl
  | cons diagnostic rest =>
      have more : state.failures + 1 ≤ (rest.foldl fail (state.fail diagnostic)).failures :=
        (fails_course ⟨[], .empty, 0, default⟩ rest (state.fail diagnostic)).failures_le
      rw [List.foldl_cons] at quiet
      omega

/-- The bodies of macros are inlined to what they evaluate to. -/
def UnfoldsSoundly (around : Surroundings) (unfolding : Unfolding) : Prop :=
  ∀ (definition : Macro) (arguments : List Expression) (given : List (List Expression))
    (state : Inlining),
    List.Forall₂ Passes arguments given → state.exhausted = false →
    (unfolding definition arguments state).failures = state.failures →
    ∃ values toll,
      EvaluatesEach around.macro? (definition.parameters.zip given) definition.body values ∧
        unfolding definition arguments state = state.adding toll values.flatten

/-! ### Names and members of chords -/

section Names

variable {around : Surroundings} {unfolding : Unfolding} {environment : Environment}

theorem placeName_sound (sound : UnfoldsSoundly around unfolding) {name : String}
    (token : Token) (free : environment.lookup name = none) {state : Inlining}
    (lasting : state.exhausted = false)
    (quiet : (placeName around unfolding name token state).failures = state.failures) :
    ∃ value toll, Evaluates around.macro? environment (.reference name token) value ∧
      placeName around unfolding name token state = state.adding toll value := by
  unfold placeName at quiet ⊢
  cases accepted : callee around state.active name 0 token with
  | error diagnostic =>
      rw [accepted] at quiet
      exact absurd quiet (not_quiet_fail _ _)
  | ok definition =>
      obtain ⟨found, _, arity⟩ := callee_eq_ok_iff.mp accepted
      have plain := List.eq_nil_of_length_eq_zero arity.symm
      rw [accepted] at quiet
      dsimp only at quiet ⊢
      rw [if_neg (by simp [lasting])] at quiet ⊢
      obtain ⟨values, toll, body, unfolded⟩ := sound definition [] [] state .nil lasting quiet
      rw [plain] at body
      exact ⟨values.flatten, toll, .name token free found plain body, unfolded⟩

theorem placeMember_name_sound (unfolds : Unfolds around unfolding)
    (sound : UnfoldsSoundly around unfolding) {name : String} (token : Token)
    (free : environment.lookup name = none) {progress : List ChordMember × Inlining}
    (lasting : progress.2.exhausted = false)
    (quiet : (placeMember around unfolding progress (.reference name token)).2.failures =
      progress.2.failures) :
    ∃ value parts toll, Evaluates around.macro? environment (.reference name token) value ∧
      value.mapM Expression.contribution? = some parts ∧
      placeMember around unfolding progress (.reference name token) =
        (parts.flatten.reverse ++ progress.1, progress.2.adding toll []) := by
  have quietInside : (placeName around unfolding name token
      { progress.2 with emitted := [] }).failures = progress.2.failures ∧
      ∃ members, membersFrom progress.1 (placeName around unfolding name token
        { progress.2 with emitted := [] }).emitted.reverse = (members, true) := by
    have course := placeName_course unfolds name token { progress.2 with emitted := [] }
    unfold placeMember at quiet
    dsimp only at quiet
    split at quiet
    · rename_i members complete
      exact ⟨quiet, members, complete⟩
    · exact absurd quiet (Nat.ne_of_gt (Nat.lt_succ_of_le course.failures_le))
  obtain ⟨nameQuiet, members, complete⟩ := quietInside
  obtain ⟨value, toll, evaluates, placed⟩ := placeName_sound sound token free
    (show { progress.2 with emitted := [] }.exhausted = false from lasting) nameQuiet
  rw [placed, emitted_adding, List.append_nil, List.reverse_reverse] at complete
  obtain ⟨parts, contributed, _⟩ := membersFrom_eq_true_iff.mp complete
  exact ⟨value, parts, toll, evaluates, contributed, placeMember_of_parts placed contributed⟩

/-- What a member of a chord becomes goes in front of what the members before it became. -/
theorem placeMember_sound (unfolds : Unfolds around unfolding)
    (sound : UnfoldsSoundly around unfolding) {bindings : Bindings}
    (represents : Represents bindings environment) (member : ChordMember)
    (clear : memberProblem? bindings member = none)
    {progress : List ChordMember × Inlining} (lasting : progress.2.exhausted = false)
    (quiet : ((substituteMember bindings member).foldl
      (placeMember around unfolding) progress).2.failures = progress.2.failures) :
    ∃ contribution toll,
      (∀ {rest contributions}, EvaluatesMembers around.macro? environment rest contributions →
        EvaluatesMembers around.macro? environment (member :: rest)
          (contribution :: contributions)) ∧
      (substituteMember bindings member).foldl (placeMember around unfolding) progress =
        (contribution.reverse ++ progress.1, progress.2.adding toll []) := by
  cases member with
  | note written => exact ⟨[.note written], 0, .note written, rfl⟩
  | reference name token =>
      rcases represents.lookup_cases name with
        ⟨free, unknown⟩ | ⟨argument, value, bound, known, passes⟩
      · rw [substituteMember_of_free free, List.foldl_cons, List.foldl_nil] at quiet ⊢
        obtain ⟨value, parts, toll, inside, contributed, placed⟩ :=
          placeMember_name_sound unfolds sound token unknown lasting quiet
        exact ⟨parts.flatten, toll, .name token unknown inside contributed, placed⟩
      · obtain ⟨contribution, contributed⟩ := (memberProblem?_of_bound bound token).mp clear
        obtain ⟨single, rfl, singleContributed⟩ :=
          passes.contribution?_eq_some_iff.mp contributed
        have notes := (passes.settled single
          (List.mem_singleton_self _)).notes_of_contribution singleContributed
        refine ⟨contribution, 0, .parameter token known singleContributed, ?_⟩
        rw [substituteMember_of_bound bound contributed, placeMembers_of_notes notes]
        rfl

theorem placeMembers_sound (unfolds : Unfolds around unfolding)
    (sound : UnfoldsSoundly around unfolding) {bindings : Bindings}
    (represents : Represents bindings environment) (members : List ChordMember)
    (clear : ∀ member ∈ members, memberProblem? bindings member = none)
    {progress : List ChordMember × Inlining} (lasting : progress.2.exhausted = false)
    (quiet : ((members.flatMap (substituteMember bindings)).foldl
      (placeMember around unfolding) progress).2.failures = progress.2.failures) :
    ∃ contributions toll, EvaluatesMembers around.macro? environment members contributions ∧
      (members.flatMap (substituteMember bindings)).foldl (placeMember around unfolding)
          progress =
        (contributions.flatten.reverse ++ progress.1, progress.2.adding toll []) := by
  induction members generalizing progress with
  | nil => exact ⟨[], 0, .nil, rfl⟩
  | cons member rest inductionHypothesis =>
      rw [List.forall_mem_cons] at clear
      rw [List.flatMap_cons, List.foldl_append] at quiet ⊢
      obtain ⟨memberQuiet, restQuiet⟩ :=
        quiet_parts (placeMembers_course unfolds _ progress).failures_le
          (placeMembers_course unfolds _ _).failures_le quiet
      obtain ⟨contribution, first, evaluates, placedMember⟩ :=
        placeMember_sound unfolds sound represents member clear.1 lasting memberQuiet
      rw [placedMember] at restQuiet ⊢
      obtain ⟨contributions, second, evaluatesRest, placed⟩ :=
        inductionHypothesis clear.2 (by exact lasting) restQuiet
      refine ⟨contribution :: contributions, first + second, evaluates evaluatesRest, ?_⟩
      rw [placed, List.flatten_cons, List.reverse_append, List.append_assoc]
      exact congrArg _ (adding_adding _ _ _ _ _)

end Names

/-! ### Expressions -/

section Expressions

variable {around : Surroundings} {unfolding : Unfolding} {environment : Environment}
  {bindings : Bindings}

theorem place_chord_sound (unfolds : Unfolds around unfolding)
    (sound : UnfoldsSoundly around unfolding) (represents : Represents bindings environment)
    {members : List ChordMember} {token : Token}
    (clear : Clear bindings (.chord members token)) {state : Inlining}
    (lasting : state.exhausted = false)
    (quiet : (place around unfolding (substitute bindings (.chord members token))
      state).failures = state.failures) :
    ∃ value toll, Evaluates around.macro? environment (.chord members token) value ∧
      place around unfolding (substitute bindings (.chord members token)) state =
        state.adding toll value := by
  rw [substitute, place_chord] at quiet ⊢
  obtain ⟨membersQuiet, emitQuiet⟩ :=
    quiet_parts (placeMembers_course unfolds _ ([], state)).failures_le
      (failures_le_emit _ _ _) quiet
  obtain ⟨contributions, toll, evaluates, placed⟩ :=
    placeMembers_sound unfolds sound represents members (clear_chord_iff.mp clear)
      (by exact lasting) membersQuiet
  rw [placed, List.append_nil] at emitQuiet ⊢
  dsimp only at emitQuiet ⊢
  rw [List.reverse_reverse] at emitQuiet ⊢
  have emitted : emit around (.chord contributions.flatten token) (state.adding toll []) =
      _ := (emit_adds _ (by exact lasting)).eq_of_quiet emitQuiet
  rw [emitted, adding_adding]
  exact ⟨_, _, .chord token evaluates, rfl⟩

theorem place_reference_sound (sound : UnfoldsSoundly around unfolding)
    (represents : Represents bindings environment) {name : String} {token : Token}
    {state : Inlining} (lasting : state.exhausted = false)
    (quiet : (place around unfolding (substitute bindings (.reference name token))
      state).failures = state.failures) :
    ∃ value toll, Evaluates around.macro? environment (.reference name token) value ∧
      place around unfolding (substitute bindings (.reference name token)) state =
        state.adding toll value := by
  rcases represents.lookup_cases name with
    ⟨free, unknown⟩ | ⟨argument, value, bound, known, passes⟩
  · rw [substitute, free] at quiet ⊢
    exact placeName_sound sound token unknown lasting quiet
  · obtain ⟨place, rfl⟩ := passes.gathered
    rw [substitute, bound] at quiet ⊢
    exact ⟨value, _, .parameter token known,
      (place_gather passes.settled place lasting).eq_of_quiet quiet⟩

/-- A call is inlined to what it evaluates to, if its arguments are. -/
theorem place_call_sound (unfolds : Unfolds around unfolding)
    (sound : UnfoldsSoundly around unfolding) {name : String} {arguments : List Expression}
    {token : Token} {state : Inlining} (lasting : state.exhausted = false)
    (argumentsSound : (placeArguments around unfolding
        (arguments.map (substitute bindings)) state).2.failures = state.failures →
      ∃ given resolved toll, EvaluatesEach around.macro? environment arguments given ∧
        List.Forall₂ Passes resolved given ∧
        placeArguments around unfolding (arguments.map (substitute bindings)) state =
          (resolved, state.adding toll []))
    (quiet : (place around unfolding (substitute bindings (.call name arguments token))
      state).failures = state.failures) :
    ∃ value toll, Evaluates around.macro? environment (.call name arguments token) value ∧
      place around unfolding (substitute bindings (.call name arguments token)) state =
        state.adding toll value := by
  rw [substitute_call] at quiet ⊢
  cases accepted : callee around state.active name
      (arguments.map (substitute bindings)).length token with
  | error diagnostic =>
      rw [place_call_of_error accepted] at quiet
      exact absurd quiet (not_quiet_fail _ _)
  | ok definition =>
      obtain ⟨found, fresh, arity⟩ := callee_eq_ok_iff.mp accepted
      rw [List.length_map] at arity
      rw [place_call_of_ok accepted] at quiet ⊢
      have course := placeArguments_course unfolds (arguments.map (substitute bindings)) state
      have argumentsQuiet : (placeArguments around unfolding
          (arguments.map (substitute bindings)) state).2.failures = state.failures := by
        split at quiet
        · exact quiet
        · have entered := unfolds definition (placeArguments around unfolding
            (arguments.map (substitute bindings)) state).1 _
            (Surroundings.mem_of_macro? found) (course.active_eq ▸ fresh)
          exact (quiet_parts course.failures_le entered.failures_le quiet).1
      obtain ⟨given, resolved, first, each, passes, placed⟩ := argumentsSound argumentsQuiet
      rw [placed, if_neg (by simp [lasting])] at quiet ⊢
      obtain ⟨values, second, body, unfolded⟩ :=
        sound definition resolved given (state.adding first []) passes lasting quiet
      rw [unfolded, adding_adding]
      exact ⟨_, _, .call token found arity each body, rfl⟩

/-- A hold is inlined to what it evaluates to, if what it holds is. -/
theorem place_hold_sound (unfolds : Unfolds around unfolding) {inner : Expression}
    {token : Token} {state : Inlining} (lasting : state.exhausted = false)
    (innerSound : (place around unfolding (substitute bindings inner)
        { state with emitted := [] }).failures = state.failures →
      ∃ value toll, Evaluates around.macro? environment inner value ∧
        place around unfolding (substitute bindings inner) { state with emitted := [] } =
          { state with emitted := [] }.adding toll value)
    (quiet : (place around unfolding (substitute bindings (.hold inner token))
      state).failures = state.failures) :
    ∃ value toll, Evaluates around.macro? environment (.hold inner token) value ∧
      place around unfolding (substitute bindings (.hold inner token)) state =
        state.adding toll value := by
  have course := place_course unfolds (substitute bindings inner) { state with emitted := [] }
  rw [substitute, place] at quiet ⊢
  split at quiet
  · rename_i ended
    rw [Bool.or_eq_true, decide_eq_true_eq] at ended
    have insideQuiet : (place around unfolding (substitute bindings inner)
      { state with emitted := [] }).failures = state.failures := quiet
    rcases ended with louder | exhausted
    · exact absurd insideQuiet (Nat.ne_of_gt louder)
    · exact absurd insideQuiet (Nat.ne_of_gt (course.failures_lt lasting exhausted))
  · rename_i lasted
    rw [if_neg lasted]
    rw [Bool.or_eq_true, decide_eq_true_eq, not_or] at lasted
    obtain ⟨value, toll, inside, placed⟩ :=
      innerSound (Nat.le_antisymm (Nat.le_of_not_lt lasted.1) course.failures_le)
    rw [placed, adding_aside, emitted_adding, List.append_nil] at quiet ⊢
    rcases closeHold_cases around value.reverse token (state.adding toll []) with
      ⟨single, same, holdable⟩ | refused
    · rw [List.reverse_eq_iff, List.reverse_singleton] at same
      subst same
      rw [List.reverse_singleton, closeHold_of_contribution holdable] at quiet ⊢
      have emitted : emit around (.hold single token) (state.adding toll []) = _ :=
        (emit_adds _ (by exact lasting)).eq_of_quiet quiet
      rw [emitted, adding_adding]
      exact ⟨_, _, .hold token inside holdable, rfl⟩
    · rw [refused] at quiet
      exact absurd quiet (not_quiet_fail _ _)

end Expressions

mutual

/-- An expression with arguments in place of its parameters is inlined to what it
evaluates to. -/
theorem place_sound {around : Surroundings} {unfolding : Unfolding}
    (unfolds : Unfolds around unfolding) (sound : UnfoldsSoundly around unfolding)
    {bindings : Bindings} {environment : Environment}
    (represents : Represents bindings environment) (expression : Expression)
    (clear : Clear bindings expression) {state : Inlining} (lasting : state.exhausted = false)
    (quiet : (place around unfolding (substitute bindings expression) state).failures =
      state.failures) :
    ∃ value toll, Evaluates around.macro? environment expression value ∧
      place around unfolding (substitute bindings expression) state =
        state.adding toll value := by
  cases expression with
  | note written =>
      exact ⟨_, _, .note written, (emit_adds (.note written) lasting).eq_of_quiet quiet⟩
  | chord members token =>
      exact place_chord_sound unfolds sound represents clear lasting quiet
  | reference name token => exact place_reference_sound sound represents lasting quiet
  | call name arguments token =>
      refine place_call_sound unfolds sound lasting ?_ quiet
      exact placeArguments_sound unfolds sound represents arguments (clear_call_iff.mp clear)
        lasting
  | repetition count token => exact absurd quiet (not_quiet_fail _ _)
  | hold inner token =>
      refine place_hold_sound unfolds lasting ?_ quiet
      exact place_sound unfolds sound represents inner clear
        (show { state with emitted := [] }.exhausted = false from lasting)
  | release token =>
      exact ⟨_, _, .release token, (emit_adds (.release token) lasting).eq_of_quiet quiet⟩
  | group items token =>
      rw [substitute_group, place] at quiet ⊢
      obtain ⟨values, toll, each, placed⟩ :=
        placeAll_sound unfolds sound represents items (clear_group_iff.mp clear) lasting quiet
      exact ⟨_, toll, .group token each, placed⟩
  | directive directive token =>
      exact ⟨_, _, .directive directive token,
        (emit_adds (.directive directive token) lasting).eq_of_quiet quiet⟩
  | bar token => exact ⟨_, _, .bar token, (emit_adds (.bar token) lasting).eq_of_quiet quiet⟩
  | placeholder token =>
      exact ⟨_, _, .placeholder token,
        (emit_adds (.placeholder token) lasting).eq_of_quiet quiet⟩

/-- The elements of a list are inlined to what they evaluate to. -/
theorem placeAll_sound {around : Surroundings} {unfolding : Unfolding}
    (unfolds : Unfolds around unfolding) (sound : UnfoldsSoundly around unfolding)
    {bindings : Bindings} {environment : Environment}
    (represents : Represents bindings environment) (list : List Expression)
    (clear : ∀ item ∈ list, Clear bindings item) {state : Inlining}
    (lasting : state.exhausted = false)
    (quiet : (placeAll around unfolding (list.map (substitute bindings)) state).failures =
      state.failures) :
    ∃ values toll, EvaluatesEach around.macro? environment list values ∧
      placeAll around unfolding (list.map (substitute bindings)) state =
        state.adding toll values.flatten := by
  cases list with
  | nil => exact ⟨[], 0, .nil, rfl⟩
  | cons item rest =>
      rw [List.forall_mem_cons] at clear
      rw [List.map_cons, placeAll, if_neg (by simp [lasting])] at quiet ⊢
      obtain ⟨itemQuiet, restQuiet⟩ :=
        quiet_parts (place_course unfolds _ state).failures_le
          (placeAll_course unfolds _ _).failures_le quiet
      obtain ⟨value, first, head, placed⟩ :=
        place_sound unfolds sound represents item clear.1 lasting itemQuiet
      rw [placed] at restQuiet ⊢
      obtain ⟨values, second, tail, others⟩ :=
        placeAll_sound unfolds sound represents rest clear.2 (by exact lasting) restQuiet
      rw [others, adding_adding]
      exact ⟨_, _, .cons head tail, rfl⟩

/-- Arguments are inlined to expressions that stand for their values. -/
theorem placeArguments_sound {around : Surroundings} {unfolding : Unfolding}
    (unfolds : Unfolds around unfolding) (sound : UnfoldsSoundly around unfolding)
    {bindings : Bindings} {environment : Environment}
    (represents : Represents bindings environment) (arguments : List Expression)
    (clear : ∀ argument ∈ arguments, Clear bindings argument) {state : Inlining}
    (lasting : state.exhausted = false)
    (quiet : (placeArguments around unfolding (arguments.map (substitute bindings))
      state).2.failures = state.failures) :
    ∃ given resolved toll, EvaluatesEach around.macro? environment arguments given ∧
      List.Forall₂ Passes resolved given ∧
      placeArguments around unfolding (arguments.map (substitute bindings)) state =
        (resolved, state.adding toll []) := by
  cases arguments with
  | nil => exact ⟨[], [], 0, .nil, .nil, rfl⟩
  | cons argument rest =>
      rw [List.forall_mem_cons] at clear
      rw [List.map_cons, placeArguments] at quiet ⊢
      obtain ⟨argumentQuiet, restQuiet⟩ :=
        quiet_parts (place_course unfolds _ { state with emitted := [] }).aside.failures_le
          (placeArguments_course unfolds _ _).failures_le quiet
      obtain ⟨value, first, head, placed⟩ :=
        place_sound unfolds sound represents argument clear.1
          (show { state with emitted := [] }.exhausted = false from lasting) argumentQuiet
      rw [placed, adding_aside] at restQuiet
      obtain ⟨given, resolved, second, tail, passes, others⟩ :=
        placeArguments_sound unfolds sound represents rest clear.2 (by exact lasting) restQuiet
      refine ⟨value :: given,
        gather value.reverse (substitute bindings argument).token :: resolved, first + second,
        .cons head tail, .cons ⟨⟨_, rfl⟩, head.settled represents.isSettled⟩ passes, ?_⟩
      rw [placed, adding_aside, others, adding_adding, emitted_adding]
      dsimp only
      rw [List.append_nil]
      rfl

end

/-! ### Macros and lists -/

theorem clear_of_quiet_unfoldTo {around : Surroundings} {level : Nat} {definition : Macro}
    {arguments : List Expression} {state : Inlining}
    (quiet : (unfoldTo around (level + 1) definition arguments state).failures =
      state.failures) :
    chordProblems (definition.parameters.zip arguments) definition.body = [] := by
  let warned := (chordProblems (definition.parameters.zip arguments) definition.body).foldl
    fail state
  have entered : warned.failures ≤
      (unfoldTo around (level + 1) definition arguments state).failures :=
    (placeAll_course (unfoldTo_course around level) _
      { warned with active := definition.name :: warned.active }).failures_le
  exact eq_nil_of_quiet_fails
    (quiet_parts (fails_course around _ state).failures_le entered quiet).1

/-- The body of a macro is inlined to what it evaluates to, to however many levels. -/
theorem unfoldTo_sound (around : Surroundings) (level : Nat) :
    UnfoldsSoundly around (unfoldTo around level) := by
  induction level with
  | zero =>
      intro definition arguments given state passes lasting quiet
      exact absurd quiet (not_quiet_fail _ _)
  | succ level inductionHypothesis =>
      intro definition arguments given state passes lasting quiet
      have represents := Represents.zip passes definition.parameters
      have clear := clear_of_quiet_unfoldTo quiet
      rw [unfoldTo_of_clear around level clear] at quiet ⊢
      obtain ⟨values, toll, body, placed⟩ :=
        placeAll_sound (unfoldTo_course around level) inductionHypothesis represents
          definition.body (chordProblems_eq_nil_iff.mp clear)
          (show { state with active := definition.name :: state.active }.exhausted = false
            from lasting) quiet
      rw [placed]
      exact ⟨values, toll, body, rfl⟩

/-- A list that stands in no macro becomes what it evaluates to, if that meets no
problem. -/
theorem ofList_sound {around : Surroundings} {list : List Expression}
    (silent : (ofList around list).problems = []) :
    ∃ values, EvaluatesEach around.macro? [] list values ∧
      (ofList around list).emitted = values.flatten.reverse := by
  obtain ⟨_, quiet⟩ := (ofList_course around list).quiet_of_problems_eq_nil silent
  have same : list.map (substitute []) = list := by
    rw [List.map_congr_left fun item _ => substitute_nil item, List.map_id']
  unfold ofList at quiet ⊢
  obtain ⟨values, toll, each, placed⟩ :=
    placeAll_sound (unfoldTo_course around around.macros.length) (unfoldTo_sound around _) .nil
      list (fun item _ => clear_nil item) rfl (same.symm ▸ quiet)
  rw [same] at placed
  refine ⟨values, each, ?_⟩
  rw [placed, emitted_adding]
  exact List.append_nil _

end Solfege.Inlining
