import Solfege.Proofs.Inlining.Callee
import Solfege.Proofs.Inlining.Settled

/-!
Contract: everything that inlining may do to its state, and what follows from that alone.

Owns:
- the courses that a state can take, built from problems, emissions, excursions into an
  argument, a chord or a hold, and macros entered and left;
- the proof that inlining an expression, a list, arguments or a macro is a course;
- what every course keeps: counters only rise, the macros being inlined are as before, the
  expressions already emitted stay, those that join them are settled, and what they cost
  was paid for.

Does not own: which course an expression takes.

Facts about inlining that no particular expression matters to are proved by induction on
the course and not on the expression.
-/

namespace Solfege.Inlining

open Expression (Sounding Playable Settled allNotes)

/-- The courses that the state of an inlining can take. -/
inductive Course (around : Surroundings) : Inlining → Inlining → Prop where
  | refl (state : Inlining) : Course around state state
  | trans {first second third : Inlining} (start : Course around first second)
      (rest : Course around second third) : Course around first third
  | fail (state : Inlining) (diagnostic : Diagnostic) :
      Course around state (state.fail diagnostic)
  /-- Something other than a hold is emitted. -/
  | emit (state : Inlining) {expression : Expression} (settled : Settled expression)
      (plain : charge expression = cost expression) :
      Course around state (state.emit around expression)
  /-- A part is inlined by itself, and what it emits is put to another use. -/
  | aside {state inside : Inlining} (course : Course around { state with emitted := [] } inside) :
      Course around state { inside with emitted := state.emitted }
  /-- A part is inlined by itself, and the one thing that it emits is held. -/
  | hold {state inside : Inlining} {inner : Expression} (token : Token)
      (course : Course around { state with emitted := [] } inside)
      (single : inside.emitted = [inner]) (sounding : Sounding inner) :
      Course around state
        (emit around (.hold inner token) { inside with emitted := state.emitted })
  /-- A macro that is not being inlined is entered and left again. -/
  | enter {state inside : Inlining} {definition : Macro}
      (member : definition ∈ around.macros) (fresh : definition.name ∉ state.active)
      (course :
        Course around { state with active := definition.name :: state.active } inside) :
      Course around state { inside with active := inside.active.tail }

/-! ### What every course keeps -/

/-- The expressions that a course adds, the latest first. They are settled, nothing is
added once the budget is spent, and what they cost was paid for within the budget. -/
structure Gain (around : Surroundings) (before after : Inlining) (added : List Expression) :
    Prop where
  emitted : after.emitted = added ++ before.emitted
  settled : ∀ expression ∈ added, Settled expression
  stopped : before.exhausted = true → added = []
  paid : chargeAll added + before.spent ≤ after.spent
  afforded : added = [] ∨ chargeAll added + before.spent ≤ around.limit

/-- Where nothing is emitted, nothing is gained. -/
theorem Gain.nothing {around : Surroundings} {before after : Inlining}
    (emitted : after.emitted = before.emitted) (spent : before.spent ≤ after.spent) :
    Gain around before after [] where
  emitted := emitted
  settled := List.forall_mem_nil _
  stopped _ := rfl
  paid := by
    rw [chargeAll_nil, Nat.zero_add]
    exact spent
  afforded := .inl rfl

/-- Gains add up, where a budget that is spent stays so. -/
theorem Gain.trans {around : Surroundings} {first second third : Inlining}
    {early late : List Expression} (start : Gain around first second early)
    (rest : Gain around second third late)
    (lasting : first.exhausted = true → second.exhausted = true) :
    Gain around first third (late ++ early) where
  emitted := by rw [rest.emitted, start.emitted, List.append_assoc]
  settled := by
    intro expression member
    rcases List.mem_append.mp member with inLate | inEarly
    · exact rest.settled expression inLate
    · exact start.settled expression inEarly
  stopped exhausted := by
    rw [rest.stopped (lasting exhausted), start.stopped exhausted]
    rfl
  paid := by
    have earlyPaid := start.paid
    have latePaid := rest.paid
    rw [chargeAll_append]
    omega
  afforded := by
    rcases rest.afforded with nothing | affordable
    · subst nothing
      exact start.afforded
    · have earlyPaid := start.paid
      right
      rw [chargeAll_append]
      omega

theorem exists_gain_emit (around : Surroundings) (state : Inlining) {expression : Expression}
    (settled : Settled expression) (plain : charge expression = cost expression) :
    ∃ added, Gain around state (state.emit around expression) added := by
  have paid : chargeAll [expression] + state.spent = state.spent + cost expression := by
    rw [chargeAll_singleton, plain, Nat.add_comm]
  refine emit_elim (motive := fun after => ∃ added, Gain around state after added) ?_ ?_ ?_
  · intro _
    exact ⟨[], .nothing rfl (Nat.le_refl _)⟩
  · intro _ _
    exact ⟨[], .nothing rfl (Nat.le_add_right _ _)⟩
  · intro lasting affordable
    refine ⟨[expression], rfl, ?_, ?_, Nat.le_of_eq paid, ?_⟩
    · exact List.forall_mem_singleton.mpr settled
    · intro exhausted
      rw [lasting] at exhausted
      contradiction
    · right
      rw [paid]
      exact affordable

/-- A hold is paid for on top of what it holds, which was paid for inside. -/
theorem exists_gain_hold {around : Surroundings} {state inside : Inlining}
    {inner : Expression} (token : Token) (sounding : Sounding inner)
    (lasting : state.exhausted = true → inside.exhausted = true)
    (paid : cost inner + state.spent ≤ inside.spent) :
    ∃ added, Gain around state
      (emit around (.hold inner token) { inside with emitted := state.emitted }) added := by
  have spent : state.spent ≤ inside.spent := by omega
  have charged : chargeAll [.hold inner token] + state.spent ≤
      inside.spent + cost (.hold inner token) := by
    rw [chargeAll_singleton, charge_hold]
    omega
  refine emit_elim (motive := fun after => ∃ added, Gain around state after added) ?_ ?_ ?_
  · intro _
    exact ⟨[], .nothing rfl spent⟩
  · intro _ _
    exact ⟨[], .nothing rfl (Nat.le_trans spent (Nat.le_add_right _ _))⟩
  · intro notExhausted affordable
    refine ⟨[.hold inner token], rfl, ?_, ?_, charged, .inr (Nat.le_trans charged affordable)⟩
    · exact List.forall_mem_singleton.mpr (.playable (.hold sounding token))
    · intro exhausted
      rw [lasting exhausted] at notExhausted
      contradiction

namespace Course

variable {around : Surroundings} {before after : Inlining}

theorem active_eq (course : Course around before after) : after.active = before.active := by
  induction course with
  | refl => rfl
  | trans _ _ start rest => rw [rest, start]
  | fail => rfl
  | emit => rw [active_emit]
  | aside _ inductionHypothesis => exact inductionHypothesis
  | hold _ _ _ _ inductionHypothesis => rw [active_emit]; exact inductionHypothesis
  | enter _ _ _ inductionHypothesis => rw [inductionHypothesis]; rfl

theorem failures_le (course : Course around before after) :
    before.failures ≤ after.failures := by
  induction course with
  | refl => exact Nat.le_refl _
  | trans _ _ start rest => exact Nat.le_trans start rest
  | fail => exact Nat.le_succ _
  | emit => exact failures_le_emit _ _ _
  | aside _ inductionHypothesis => exact inductionHypothesis
  | @hold state inside inner token _ _ _ inductionHypothesis =>
      exact Nat.le_trans inductionHypothesis
        (failures_le_emit around (.hold inner token) { inside with emitted := state.emitted })
  | enter _ _ _ inductionHypothesis => exact inductionHypothesis

theorem spent_le (course : Course around before after) : before.spent ≤ after.spent := by
  induction course with
  | refl => exact Nat.le_refl _
  | trans _ _ start rest => exact Nat.le_trans start rest
  | fail => exact Nat.le_refl _
  | emit => exact spent_le_emit _ _ _
  | aside _ inductionHypothesis => exact inductionHypothesis
  | @hold state inside inner token _ _ _ inductionHypothesis =>
      exact Nat.le_trans inductionHypothesis
        (spent_le_emit around (.hold inner token) { inside with emitted := state.emitted })
  | enter _ _ _ inductionHypothesis => exact inductionHypothesis

/-- Exhaustion lasts. -/
theorem exhausted (course : Course around before after) (exhausted : before.exhausted = true) :
    after.exhausted = true := by
  induction course with
  | refl => exact exhausted
  | trans _ _ start rest => exact rest (start exhausted)
  | fail => exact exhausted
  | emit => exact exhausted_emit _ _ exhausted
  | aside _ inductionHypothesis => exact inductionHypothesis exhausted
  | hold _ _ _ _ inductionHypothesis =>
      exact exhausted_emit _ _ (inductionHypothesis exhausted)
  | enter _ _ _ inductionHypothesis => exact inductionHypothesis exhausted

/-- Exhaustion is a problem of the movement. -/
theorem failures_lt (course : Course around before after) (lasting : before.exhausted = false)
    (exhausted : after.exhausted = true) : before.failures < after.failures := by
  induction course with
  | refl => rw [lasting] at exhausted; contradiction
  | @trans first second third start rest startHypothesis restHypothesis =>
      by_cases middle : second.exhausted = true
      · exact Nat.lt_of_lt_of_le (startHypothesis lasting middle) rest.failures_le
      · rw [Bool.not_eq_true] at middle
        exact Nat.lt_of_le_of_lt start.failures_le (restHypothesis middle exhausted)
  | fail => exact Nat.lt_succ_self _
  | emit => exact failures_lt_emit lasting exhausted
  | aside _ inductionHypothesis => exact inductionHypothesis lasting exhausted
  | @hold state inside inner token course _ _ inductionHypothesis =>
      by_cases middle : inside.exhausted = true
      · exact Nat.lt_of_lt_of_le (inductionHypothesis lasting middle)
          (failures_le_emit around (.hold inner token) { inside with emitted := state.emitted })
      · rw [Bool.not_eq_true] at middle
        have refused := failures_lt_emit
          (show { inside with emitted := state.emitted }.exhausted = false from middle) exhausted
        exact Nat.lt_of_le_of_lt course.failures_le refused
  | enter _ _ _ inductionHypothesis => exact inductionHypothesis lasting exhausted

theorem gain (course : Course around before after) :
    ∃ added, Gain around before after added := by
  induction course with
  | refl state => exact ⟨[], .nothing rfl (Nat.le_refl _)⟩
  | trans start _ startHypothesis restHypothesis =>
      obtain ⟨early, earlyGain⟩ := startHypothesis
      obtain ⟨late, lateGain⟩ := restHypothesis
      exact ⟨late ++ early, earlyGain.trans lateGain start.exhausted⟩
  | fail state diagnostic => exact ⟨[], .nothing rfl (Nat.le_refl _)⟩
  | emit state settled plain => exact exists_gain_emit around state settled plain
  | @aside state inside course _ => exact ⟨[], .nothing rfl course.spent_le⟩
  | @hold state inside inner token course single sounding inductionHypothesis =>
      obtain ⟨added, innerGain⟩ := inductionHypothesis
      -- The part emitted nothing but what is held, so what it cost was paid inside.
      have addedSingle : added = [inner] := by
        rw [← single, innerGain.emitted, List.append_nil]
      subst addedSingle
      have innerPaid : cost inner + state.spent ≤ inside.spent := by
        have paid := innerGain.paid
        rwa [chargeAll_singleton, charge_of_sounding sounding] at paid
      exact exists_gain_hold token sounding course.exhausted innerPaid
  | enter _ _ _ inductionHypothesis =>
      obtain ⟨added, inner⟩ := inductionHypothesis
      exact ⟨added, inner.emitted, inner.settled, inner.stopped, inner.paid, inner.afforded⟩

/-- Where no problem is listed in the end, none was met. -/
theorem quiet_of_problems_eq_nil (course : Course around before after)
    (silent : after.problems = []) :
    before.problems = [] ∧ after.failures = before.failures := by
  induction course with
  | refl => exact ⟨silent, rfl⟩
  | trans _ _ start rest =>
      obtain ⟨middleSilent, restQuiet⟩ := rest silent
      obtain ⟨firstSilent, startQuiet⟩ := start middleSilent
      exact ⟨firstSilent, restQuiet.trans startQuiet⟩
  | fail state diagnostic => exact absurd silent (problems_fail_ne_nil state diagnostic)
  | emit => exact quiet_of_problems_emit_eq_nil silent
  | aside _ inductionHypothesis => exact inductionHypothesis silent
  | hold _ _ _ _ inductionHypothesis =>
      obtain ⟨insideSilent, emitQuiet⟩ := quiet_of_problems_emit_eq_nil silent
      obtain ⟨beforeSilent, insideQuiet⟩ := inductionHypothesis insideSilent
      exact ⟨beforeSilent, emitQuiet.trans insideQuiet⟩
  | enter _ _ _ inductionHypothesis => exact inductionHypothesis silent

end Course

/-! ### Parts emit nothing -/

section Parts

variable {around : Surroundings} {unfolding : Unfolding}

theorem place_call_of_error {name : String} {arguments : List Expression} {token : Token}
    {state : Inlining} {diagnostic : Diagnostic}
    (refused : callee around state.active name arguments.length token = .error diagnostic) :
    place around unfolding (.call name arguments token) state = state.fail diagnostic := by
  rw [place, refused]

theorem place_call_of_ok {name : String} {arguments : List Expression} {token : Token}
    {state : Inlining} {definition : Macro}
    (accepted : callee around state.active name arguments.length token = .ok definition) :
    place around unfolding (.call name arguments token) state =
      if (placeArguments around unfolding arguments state).2.exhausted then
        (placeArguments around unfolding arguments state).2
      else
        unfolding definition (placeArguments around unfolding arguments state).1
          (placeArguments around unfolding arguments state).2 := by
  rw [place, accepted]

theorem place_chord (members : List ChordMember) (token : Token) (state : Inlining) :
    place around unfolding (.chord members token) state =
      emit around
        (.chord (members.foldl (placeMember around unfolding) ([], state)).1.reverse token)
        (members.foldl (placeMember around unfolding) ([], state)).2 := by
  rw [place]

theorem emitted_placeArguments (arguments : List Expression) (state : Inlining) :
    (placeArguments around unfolding arguments state).2.emitted = state.emitted := by
  induction arguments generalizing state with
  | nil => rfl
  | cons argument rest inductionHypothesis =>
      rw [placeArguments]
      exact inductionHypothesis _

theorem length_placeArguments (arguments : List Expression) (state : Inlining) :
    (placeArguments around unfolding arguments state).1.length = arguments.length := by
  induction arguments generalizing state with
  | nil => rfl
  | cons argument rest inductionHypothesis =>
      rw [placeArguments, List.length_cons, List.length_cons, inductionHypothesis]

theorem emitted_placeMember (progress : List ChordMember × Inlining) (member : ChordMember) :
    (placeMember around unfolding progress member).2.emitted = progress.2.emitted := by
  cases member with
  | note written => rfl
  | reference name token =>
      unfold placeMember
      dsimp only
      split <;> rfl

theorem emitted_placeMembers (members : List ChordMember)
    (progress : List ChordMember × Inlining) :
    (members.foldl (placeMember around unfolding) progress).2.emitted =
      progress.2.emitted := by
  induction members generalizing progress with
  | nil => rfl
  | cons member rest inductionHypothesis =>
      rw [List.foldl_cons, inductionHypothesis, emitted_placeMember]

theorem exhausted_placeMember (progress : List ChordMember × Inlining) (name : String)
    (token : Token) :
    (placeMember around unfolding progress (.reference name token)).2.exhausted =
      (placeName around unfolding name token { progress.2 with emitted := [] }).exhausted := by
  unfold placeMember
  dsimp only
  split <;> rfl

end Parts

/-! ### Inlining is a course -/

theorem notes_membersFrom {expressions : List Expression} {members : List ChordMember}
    (settled : ∀ expression ∈ expressions, Settled expression)
    (notes : allNotes members = true) : allNotes (membersFrom members expressions).1 = true := by
  induction expressions generalizing members with
  | nil => exact notes
  | cons expression rest inductionHypothesis =>
      have restSettled : ∀ other ∈ rest, Settled other :=
        fun other member => settled other (List.mem_cons_of_mem _ member)
      cases expression with
      | note written =>
          exact inductionHypothesis restSettled (by simpa using notes)
      | chord more token =>
          have moreNotes := (settled (.chord more token) (by simp)).allNotes_of_chord
          exact inductionHypothesis restSettled (by simp [moreNotes, notes])
      | _ => exact notes

section Placement

variable {around : Surroundings}

theorem closeHold_course {state inside : Inlining} (token : Token)
    (course : Course around { state with emitted := [] } inside) :
    Course around state
      (closeHold around inside.emitted token { inside with emitted := state.emitted }) := by
  obtain ⟨added, gain⟩ := course.gain
  have refused := course.aside.trans
    (.fail _ (Diagnostic.expansionAt token .unholdableExpansion))
  unfold closeHold
  split
  · rename_i written single
    exact course.hold token single (.note written)
  · rename_i members place single
    have settled : Settled (.chord members place) := by
      apply gain.settled
      rw [show added = inside.emitted by rw [gain.emitted, List.append_nil], single]
      exact List.mem_singleton_self _
    exact course.hold token single (.chord members place settled.allNotes_of_chord)
  · exact refused

/-- The body of a macro that is not being inlined takes a course. -/
def Unfolds (around : Surroundings) (unfolding : Unfolding) : Prop :=
  ∀ definition arguments state, definition ∈ around.macros →
    definition.name ∉ state.active → Course around state (unfolding definition arguments state)

variable {unfolding : Unfolding} (unfolds : Unfolds around unfolding)

include unfolds

theorem placeName_course (name : String) (token : Token) (state : Inlining) :
    Course around state (placeName around unfolding name token state) := by
  unfold placeName
  cases accepted : callee around state.active name 0 token with
  | error diagnostic => exact .fail state diagnostic
  | ok definition =>
      obtain ⟨found, fresh, _⟩ := callee_eq_ok_iff.mp accepted
      dsimp only
      split
      · exact .refl state
      · exact unfolds definition [] state (Surroundings.mem_of_macro? found) fresh

theorem placeMember_course (progress : List ChordMember × Inlining) (member : ChordMember) :
    Course around progress.2 (placeMember around unfolding progress member).2 := by
  cases member with
  | note written => exact .refl _
  | reference name token =>
      have course := placeName_course unfolds name token { progress.2 with emitted := [] }
      unfold placeMember
      dsimp only
      split
      · exact course.aside
      · exact course.aside.trans (.fail _ _)

theorem placeMembers_course (members : List ChordMember)
    (progress : List ChordMember × Inlining) :
    Course around progress.2 (members.foldl (placeMember around unfolding) progress).2 := by
  induction members generalizing progress with
  | nil => exact .refl _
  | cons member rest inductionHypothesis =>
      exact (placeMember_course unfolds progress member).trans (inductionHypothesis _)

theorem notes_placeMember (progress : List ChordMember × Inlining) (member : ChordMember)
    (notes : allNotes progress.1 = true) :
    allNotes (placeMember around unfolding progress member).1 = true := by
  cases member with
  | note written => simpa [placeMember] using notes
  | reference name token =>
      obtain ⟨added, gain⟩ :=
        (placeName_course unfolds name token { progress.2 with emitted := [] }).gain
      have settled : ∀ expression ∈ (placeName around unfolding name token
          { progress.2 with emitted := [] }).emitted.reverse, Settled expression := by
        intro expression reversed
        apply gain.settled
        rw [List.mem_reverse, gain.emitted, List.append_nil] at reversed
        exact reversed
      have membersNotes := notes_membersFrom settled notes
      unfold placeMember
      dsimp only
      split
      all_goals
        rename_i members same
        rw [same] at membersNotes
        exact membersNotes

theorem notes_placeMembers (members : List ChordMember)
    (progress : List ChordMember × Inlining) (notes : allNotes progress.1 = true) :
    allNotes (members.foldl (placeMember around unfolding) progress).1 = true := by
  induction members generalizing progress with
  | nil => exact notes
  | cons member rest inductionHypothesis =>
      exact inductionHypothesis _ (notes_placeMember unfolds progress member notes)

end Placement

mutual

/-- Inlining an expression is a course. -/
theorem place_course {around : Surroundings} {unfolding : Unfolding}
    (unfolds : Unfolds around unfolding) (expression : Expression) (state : Inlining) :
    Course around state (place around unfolding expression state) := by
  cases expression with
  | note written => exact .emit state (.playable (.sounding (.note written))) rfl
  | chord members token =>
      have course := placeMembers_course unfolds members ([], state)
      have notes := notes_placeMembers unfolds members ([], state) rfl
      rw [place_chord]
      exact course.trans
        (.emit _ (.playable (.sounding (.chord _ token (by simpa using notes)))) rfl)
  | reference name token =>
      rw [place]
      exact placeName_course unfolds name token state
  | call name arguments token =>
      rw [place]
      cases accepted : callee around state.active name arguments.length token with
      | error diagnostic => exact .fail state diagnostic
      | ok definition =>
          obtain ⟨found, fresh, _⟩ := callee_eq_ok_iff.mp accepted
          have course := placeArguments_course unfolds arguments state
          dsimp only
          split
          · exact course
          · refine course.trans (unfolds definition _ _ (Surroundings.mem_of_macro? found) ?_)
            rw [course.active_eq]
            exact fresh
  | repetition count token => exact .fail state _
  | hold inner token =>
      have course := place_course unfolds inner { state with emitted := [] }
      rw [place]
      split
      · exact course.aside
      · exact closeHold_course token course
  | release token => exact .emit state (.playable (.release token)) rfl
  | group items token =>
      rw [place]
      exact placeAll_course unfolds items state
  | directive directive token =>
      exact .emit state (.playable (.directive directive token)) rfl
  | bar token => exact .emit state (.playable (.bar token)) rfl
  | placeholder token => exact .emit state (.placeholder token) rfl

/-- Inlining a list is a course. -/
theorem placeAll_course {around : Surroundings} {unfolding : Unfolding}
    (unfolds : Unfolds around unfolding) (list : List Expression) (state : Inlining) :
    Course around state (placeAll around unfolding list state) := by
  cases list with
  | nil => exact .refl state
  | cons item rest =>
      rw [placeAll]
      split
      · exact .refl state
      · exact (place_course unfolds item state).trans (placeAll_course unfolds rest _)

/-- Inlining arguments is a course, which emits nothing in the end. -/
theorem placeArguments_course {around : Surroundings} {unfolding : Unfolding}
    (unfolds : Unfolds around unfolding) (arguments : List Expression) (state : Inlining) :
    Course around state (placeArguments around unfolding arguments state).2 := by
  cases arguments with
  | nil => exact .refl state
  | cons argument rest =>
      rw [placeArguments]
      exact (place_course unfolds argument { state with emitted := [] }).aside.trans
        (placeArguments_course unfolds rest _)

end

theorem fails_course (around : Surroundings) (diagnostics : List Diagnostic)
    (state : Inlining) : Course around state (diagnostics.foldl fail state) := by
  induction diagnostics generalizing state with
  | nil => exact .refl state
  | cons diagnostic rest inductionHypothesis =>
      exact (Course.fail state diagnostic).trans (inductionHypothesis _)

/-- Inlining a macro is a course, to however many levels. -/
theorem unfoldTo_course (around : Surroundings) (level : Nat) :
    Unfolds around (unfoldTo around level) := by
  induction level with
  | zero => exact fun _ _ state _ _ => .fail state _
  | succ level inductionHypothesis =>
      intro definition arguments state member fresh
      rw [unfoldTo]
      have warnings := fails_course around (Expression.chordProblems
        (definition.parameters.zip arguments) definition.body) state
      refine warnings.trans (.enter member ?_ (placeAll_course inductionHypothesis _ _))
      rw [warnings.active_eq]
      exact fresh

/-- Inlining a list that stands in no macro is a course from the beginning of a
movement. -/
theorem ofList_course (around : Surroundings) (list : List Expression) :
    Course around start (ofList around list) :=
  placeAll_course (unfoldTo_course around around.macros.length) list start

end Solfege.Inlining
