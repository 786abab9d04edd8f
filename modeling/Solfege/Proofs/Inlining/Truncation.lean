import Solfege.Proofs.Inlining.Course

/-!
Contract: what a smaller budget changes.

Owns:
- the comparison of an inlining with the same one under a larger budget: until the
  smaller budget is spent they are the same, and afterwards the shorter one stands still
  while the longer one only adds.

Does not own: what the expressions cost.
-/

namespace Solfege

/-- The surroundings with another budget. -/
def Surroundings.withLimit (around : Surroundings) (limit : Nat) : Surroundings :=
  { around with limit := limit }

namespace Inlining

/-- One inlining has spent its budget, and the other has emitted what it has, and maybe
more. -/
structure Stopped (short long : Inlining) : Prop where
  exhausted : short.exhausted = true
  kept : short.emitted <:+ long.emitted

theorem Course.emitted_suffix {around : Surroundings} {before after : Inlining}
    (course : Course around before after) : before.emitted <:+ after.emitted := by
  obtain ⟨added, gain⟩ := course.gain
  exact ⟨added, gain.emitted.symm⟩

theorem Course.emitted_of_exhausted {around : Surroundings} {before after : Inlining}
    (course : Course around before after) (exhausted : before.exhausted = true) :
    after.emitted = before.emitted := by
  obtain ⟨added, gain⟩ := course.gain
  rw [gain.emitted, gain.stopped exhausted, List.nil_append]

/-- Whatever comes after the smaller budget is spent, it stays so. -/
theorem Stopped.courses {narrow wide : Surroundings} {short long shortAfter longAfter : Inlining}
    (stopped : Stopped short long) (shortCourse : Course narrow short shortAfter)
    (longCourse : Course wide long longAfter) : Stopped shortAfter longAfter where
  exhausted := shortCourse.exhausted stopped.exhausted
  kept := by
    rw [shortCourse.emitted_of_exhausted stopped.exhausted]
    exact stopped.kept.trans longCourse.emitted_suffix

/-- A run that emitted nothing before it stopped is behind every other one. -/
theorem Course.stopped {around : Surroundings} {before short long : Inlining}
    (course : Course around before long) (exhausted : short.exhausted = true)
    (idle : short.emitted = before.emitted) : Stopped short long where
  exhausted := exhausted
  kept := by
    rw [idle]
    exact course.emitted_suffix

/-- What was emitted in front of an excursion is the same in both. -/
theorem Stopped.aside {short long : Inlining} (stopped : Stopped short long)
    (emitted : List Expression) :
    Stopped { short with emitted := emitted } { long with emitted := emitted } where
  exhausted := stopped.exhausted
  kept := List.suffix_rfl

/-- Two runs are the same, or the one with the smaller budget stopped. -/
def Abreast (short long : Inlining) : Prop :=
  short = long ∨ Stopped short long

/-! ### Step by step -/

section Steps

variable {around : Surroundings} {limit : Nat} (le : around.limit ≤ limit)

include le

theorem emit_abreast (expression : Expression) (state : Inlining) :
    Abreast (state.emit around expression)
      (state.emit (around.withLimit limit) expression) := by
  refine emit_elim (motive := fun short => Abreast short _) ?_ ?_ ?_
  · intro exhausted
    rw [emit_of_exhausted _ _ exhausted]
    exact .inl rfl
  · intro lasting dear
    refine .inr ⟨rfl, ?_⟩
    exact emit_elim (motive := fun long => state.emitted <:+ long.emitted)
      (fun _ => List.suffix_rfl) (fun _ _ => List.suffix_rfl)
      (fun _ _ => List.suffix_cons _ _)
  · intro lasting affordable
    rw [emit_of_le lasting (Nat.le_trans affordable le)]
    exact .inl rfl

theorem closeHold_abreast (emitted : List Expression) (token : Token) (state : Inlining) :
    Abreast (closeHold around emitted token state)
      (closeHold (around.withLimit limit) emitted token state) := by
  unfold closeHold
  split
  · exact emit_abreast le _ _
  · exact emit_abreast le _ _
  · exact .inl rfl

end Steps

/-- How the bodies of macros are inlined under two budgets. -/
structure UnfoldsAbreast (around : Surroundings) (limit : Nat) (short long : Unfolding) :
    Prop where
  le : around.limit ≤ limit
  shortUnfolds : Unfolds around short
  longUnfolds : Unfolds (around.withLimit limit) long
  abreast : ∀ definition arguments state,
    Abreast (short definition arguments state) (long definition arguments state)

theorem callee_withLimit (around : Surroundings) (limit : Nat) :
    callee (around.withLimit limit) = callee around := rfl

section Placement

variable {around : Surroundings} {limit : Nat} {short long : Unfolding}
  (unfolds : UnfoldsAbreast around limit short long)

include unfolds

theorem placeName_abreast (name : String) (token : Token) (state : Inlining) :
    Abreast (placeName around short name token state)
      (placeName (around.withLimit limit) long name token state) := by
  unfold placeName
  rw [callee_withLimit]
  cases callee around state.active name 0 token with
  | error diagnostic => exact .inl rfl
  | ok definition =>
      dsimp only
      split
      · exact .inl rfl
      · exact unfolds.abreast _ _ _

theorem placeMember_abreast (progress : List ChordMember × Inlining) (member : ChordMember) :
    placeMember around short progress member =
        placeMember (around.withLimit limit) long progress member ∨
      Stopped (placeMember around short progress member).2
        (placeMember (around.withLimit limit) long progress member).2 := by
  cases member with
  | note written => exact .inl rfl
  | reference name token =>
      rcases placeName_abreast unfolds name token { progress.2 with emitted := [] } with
        same | stopped
      · left
        unfold placeMember
        dsimp only
        rw [same]
      · right
        constructor
        · rw [exhausted_placeMember]
          exact stopped.exhausted
        · have ends : (placeMember around short progress (.reference name token)).2.emitted =
              (placeMember (around.withLimit limit) long progress
                (.reference name token)).2.emitted := by
            rw [emitted_placeMember, emitted_placeMember]
          exact ends ▸ List.suffix_rfl

theorem placeMembers_abreast (members : List ChordMember)
    (progress : List ChordMember × Inlining) :
    members.foldl (placeMember around short) progress =
        members.foldl (placeMember (around.withLimit limit) long) progress ∨
      Stopped (members.foldl (placeMember around short) progress).2
        (members.foldl (placeMember (around.withLimit limit) long) progress).2 := by
  induction members generalizing progress with
  | nil => exact .inl rfl
  | cons member rest inductionHypothesis =>
      rw [List.foldl_cons, List.foldl_cons]
      rcases placeMember_abreast unfolds progress member with same | stopped
      · rw [same]
        exact inductionHypothesis _
      · exact .inr (stopped.courses (placeMembers_course unfolds.shortUnfolds rest _)
          (placeMembers_course unfolds.longUnfolds rest _))

end Placement

mutual

/-- Inlining an expression under two budgets. -/
theorem place_abreast {around : Surroundings} {limit : Nat} {short long : Unfolding}
    (unfolds : UnfoldsAbreast around limit short long) (expression : Expression)
    (state : Inlining) :
    Abreast (place around short expression state)
      (place (around.withLimit limit) long expression state) := by
  have longCourse := place_course unfolds.longUnfolds expression state
  cases expression with
  | reference name token =>
      rw [place, place]
      exact placeName_abreast unfolds name token state
  | call name arguments token =>
      cases accepted : callee around state.active name arguments.length token with
      | error diagnostic =>
          rw [place_call_of_error accepted, place_call_of_error (callee_withLimit .. ▸ accepted)]
          exact .inl rfl
      | ok definition =>
          rcases placeArguments_abreast unfolds arguments state with same | stopped
          · rw [place_call_of_ok accepted, place_call_of_ok (callee_withLimit .. ▸ accepted),
              same]
            split
            · exact .inl rfl
            · exact unfolds.abreast _ _ _
          · right
            apply longCourse.stopped
            · rw [place_call_of_ok accepted, if_pos stopped.exhausted]
              exact stopped.exhausted
            · rw [place_call_of_ok accepted, if_pos stopped.exhausted]
              exact emitted_placeArguments arguments state
  | group items token =>
      rw [place, place]
      exact placeAll_abreast unfolds items state
  | chord members token =>
      rcases placeMembers_abreast unfolds members ([], state) with same | stopped
      · rw [place_chord, place_chord, same]
        exact emit_abreast unfolds.le _ _
      · right
        apply longCourse.stopped
        · rw [place_chord]
          exact exhausted_emit _ _ stopped.exhausted
        · rw [place_chord, emit_of_exhausted _ _ stopped.exhausted]
          exact emitted_placeMembers members ([], state)
  | hold inner token =>
      rcases place_abreast unfolds inner { state with emitted := [] } with same | stopped
      · rw [place, place, same]
        split
        · exact .inl rfl
        · exact closeHold_abreast unfolds.le _ _ _
      · right
        apply longCourse.stopped
        · rw [place, if_pos (by simp [stopped.exhausted])]
          exact stopped.exhausted
        · rw [place, if_pos (by simp [stopped.exhausted])]
  | repetition count token => exact .inl rfl
  | note written => exact emit_abreast unfolds.le _ state
  | release token => exact emit_abreast unfolds.le _ state
  | directive directive token => exact emit_abreast unfolds.le _ state
  | bar token => exact emit_abreast unfolds.le _ state
  | placeholder token => exact emit_abreast unfolds.le _ state

/-- Inlining a list under two budgets. -/
theorem placeAll_abreast {around : Surroundings} {limit : Nat} {short long : Unfolding}
    (unfolds : UnfoldsAbreast around limit short long) (list : List Expression)
    (state : Inlining) :
    Abreast (placeAll around short list state)
      (placeAll (around.withLimit limit) long list state) := by
  cases list with
  | nil => exact .inl rfl
  | cons item rest =>
      rw [placeAll, placeAll]
      split
      · exact .inl rfl
      · rcases place_abreast unfolds item state with same | stopped
        · rw [same]
          exact placeAll_abreast unfolds rest _
        · exact .inr (stopped.courses (placeAll_course unfolds.shortUnfolds rest _)
            (placeAll_course unfolds.longUnfolds rest _))

/-- Inlining arguments under two budgets. -/
theorem placeArguments_abreast {around : Surroundings} {limit : Nat} {short long : Unfolding}
    (unfolds : UnfoldsAbreast around limit short long) (arguments : List Expression)
    (state : Inlining) :
    placeArguments around short arguments state =
        placeArguments (around.withLimit limit) long arguments state ∨
      Stopped (placeArguments around short arguments state).2
        (placeArguments (around.withLimit limit) long arguments state).2 := by
  cases arguments with
  | nil => exact .inl rfl
  | cons argument rest =>
      rw [placeArguments, placeArguments]
      rcases place_abreast unfolds argument { state with emitted := [] } with same | stopped
      · rw [same]
        rcases placeArguments_abreast unfolds rest
          { place (around.withLimit limit) long argument { state with emitted := [] } with
            emitted := state.emitted } with restSame | restStopped
        · left
          dsimp only
          rw [restSame]
        · exact .inr restStopped
      · right
        exact (stopped.aside state.emitted).courses
          (placeArguments_course unfolds.shortUnfolds rest _)
          (placeArguments_course unfolds.longUnfolds rest _)

end

/-- Inlining a macro under two budgets. -/
theorem unfoldTo_abreast {around : Surroundings} {limit : Nat} (le : around.limit ≤ limit)
    (level : Nat) :
    UnfoldsAbreast around limit (unfoldTo around level)
      (unfoldTo (around.withLimit limit) level) := by
  induction level with
  | zero => exact ⟨le, unfoldTo_course _ 0, unfoldTo_course _ 0, fun _ _ _ => .inl rfl⟩
  | succ level inductionHypothesis =>
      refine ⟨le, unfoldTo_course _ _, unfoldTo_course _ _, ?_⟩
      intro definition arguments state
      rw [unfoldTo, unfoldTo]
      rcases placeAll_abreast inductionHypothesis _ _ with same | stopped
      · left
        rw [same]
      · right
        exact ⟨stopped.exhausted, stopped.kept⟩

/-- Two budgets for one list. -/
theorem ofList_abreast {around : Surroundings} {limit : Nat} (le : around.limit ≤ limit)
    (list : List Expression) :
    Abreast (ofList around list) (ofList (around.withLimit limit) list) :=
  placeAll_abreast (unfoldTo_abreast le around.macros.length) list start

end Inlining

end Solfege
