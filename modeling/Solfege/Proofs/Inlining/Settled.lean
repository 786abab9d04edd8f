import Solfege.Expansion.Inlining

/-!
Contract: the expressions that inlining leaves as they are.

Owns:
- the sounding expressions, notes and chords of notes; the playable ones, of which a
  movement may consist in the end; and the settled ones, which inlining emits;
- what it costs to inline a settled expression once more;
- the law that a settled expression becomes itself, as long as the budget lasts.

Does not own: how other expressions become settled ones.
-/

namespace Solfege

namespace Expression

/-! ### Shapes -/

/-- A note, or a chord that holds nothing but notes. -/
inductive Sounding : Expression → Prop where
  | note (written : Note) : Sounding (.note written)
  | chord (members : List ChordMember) (token : Token) (notes : allNotes members = true) :
      Sounding (.chord members token)

/-- What a movement may consist of when it is ready to be played. A hold holds a note or
a chord of notes, and nothing else. -/
inductive Playable : Expression → Prop where
  | sounding {expression : Expression} (sounding : Sounding expression) : Playable expression
  | hold {inner : Expression} (sounding : Sounding inner) (token : Token) :
      Playable (.hold inner token)
  | release (token : Token) : Playable (.release token)
  | directive (directive : Directive) (token : Token) : Playable (.directive directive token)
  | bar (token : Token) : Playable (.bar token)

/-- What inlining emits: what can be played, and the placeholders that reading left. -/
inductive Settled : Expression → Prop where
  | playable {expression : Expression} (playable : Playable expression) : Settled expression
  | placeholder (token : Token) : Settled (.placeholder token)

/-- A settled chord holds notes only. -/
theorem Settled.allNotes_of_chord {members : List ChordMember} {token : Token}
    (settled : Settled (.chord members token)) : allNotes members = true := by
  rcases settled with ⟨⟨_ | ⟨_, _, notes⟩⟩⟩
  exact notes

@[simp] theorem allNotes_nil : allNotes [] = true := rfl

@[simp] theorem allNotes_cons_note (written : Note) (members : List ChordMember) :
    allNotes (.note written :: members) = allNotes members := by
  simp [allNotes]

@[simp] theorem allNotes_append (left right : List ChordMember) :
    allNotes (left ++ right) = (allNotes left && allNotes right) := by
  simp [allNotes]

@[simp] theorem allNotes_reverse (members : List ChordMember) :
    allNotes members.reverse = allNotes members := by
  simp [allNotes]

end Expression

namespace Inlining

open Expression (Sounding Playable Settled allNotes)

/-- What it costs to inline a settled expression. A hold pays for what it holds, too. -/
def charge : Expression → Nat
  | .hold inner token => cost inner + cost (.hold inner token)
  | expression => cost expression

theorem cost_le_charge (expression : Expression) : cost expression ≤ charge expression := by
  cases expression with
  | hold inner token => exact Nat.le_add_left _ _
  | _ => exact Nat.le_refl _

theorem charge_hold (inner : Expression) (token : Token) :
    charge (.hold inner token) = cost inner + cost (.hold inner token) := rfl

theorem charge_of_sounding {expression : Expression} (sounding : Sounding expression) :
    charge expression = cost expression := by
  cases sounding <;> rfl

/-- What a list of expressions costs to emit. -/
def costAll : List Expression → Nat
  | [] => 0
  | expression :: rest => cost expression + costAll rest

@[simp] theorem costAll_nil : costAll [] = 0 := rfl

@[simp] theorem costAll_cons (expression : Expression) (rest : List Expression) :
    costAll (expression :: rest) = cost expression + costAll rest := rfl

@[simp] theorem costAll_append (left right : List Expression) :
    costAll (left ++ right) = costAll left + costAll right := by
  induction left with
  | nil => simp
  | cons expression rest inductionHypothesis => simp [inductionHypothesis, Nat.add_assoc]

@[simp] theorem costAll_reverse (expressions : List Expression) :
    costAll expressions.reverse = costAll expressions := by
  induction expressions with
  | nil => rfl
  | cons expression rest inductionHypothesis => simp [inductionHypothesis, Nat.add_comm]

/-- What a list of settled expressions costs to inline. -/
def chargeAll : List Expression → Nat
  | [] => 0
  | expression :: rest => charge expression + chargeAll rest

@[simp] theorem chargeAll_nil : chargeAll [] = 0 := rfl

@[simp] theorem chargeAll_cons (expression : Expression) (rest : List Expression) :
    chargeAll (expression :: rest) = charge expression + chargeAll rest := rfl

@[simp] theorem chargeAll_append (left right : List Expression) :
    chargeAll (left ++ right) = chargeAll left + chargeAll right := by
  induction left with
  | nil => simp
  | cons expression rest inductionHypothesis => simp [inductionHypothesis, Nat.add_assoc]

@[simp] theorem chargeAll_reverse (expressions : List Expression) :
    chargeAll expressions.reverse = chargeAll expressions := by
  induction expressions with
  | nil => rfl
  | cons expression rest inductionHypothesis => simp [inductionHypothesis, Nat.add_comm]

theorem costAll_le_chargeAll (expressions : List Expression) :
    costAll expressions ≤ chargeAll expressions := by
  induction expressions with
  | nil => exact Nat.le_refl _
  | cons expression rest inductionHypothesis =>
      have here := cost_le_charge expression
      rw [costAll_cons, chargeAll_cons]
      omega

theorem chargeAll_singleton (expression : Expression) :
    chargeAll [expression] = charge expression := by
  simp

/-! ### Emission -/

theorem problems_fail_ne_nil (state : Inlining) (diagnostic : Diagnostic) :
    (state.fail diagnostic).problems ≠ [] := by
  unfold fail
  dsimp only
  split
  · rename_i known
    intro empty
    rw [empty] at known
    contradiction
  · exact List.append_ne_nil_of_right_ne_nil _ (List.cons_ne_nil _ _)

/-- What holds of the three ways in which an emission can end holds of it: nothing happens
any more, the budget does not allow it, or the expression is emitted. -/
theorem emit_elim {around : Surroundings} {expression : Expression} {state : Inlining}
    {motive : Inlining → Prop}
    (stopped : state.exhausted = true → motive state)
    (refused : state.exhausted = false → around.limit < state.spent + cost expression →
      motive ({ state with spent := state.spent + cost expression, exhausted := true }.fail
        (Diagnostic.expansionAt around.site (.movementTooLarge around.limit))))
    (emitted : state.exhausted = false → state.spent + cost expression ≤ around.limit →
      motive { state with
        spent := state.spent + cost expression, emitted := expression :: state.emitted }) :
    motive (state.emit around expression) := by
  unfold emit
  by_cases exhausted : state.exhausted = true
  · rw [if_pos exhausted]
    exact stopped exhausted
  · rw [if_neg exhausted]
    rw [Bool.not_eq_true] at exhausted
    by_cases dear : around.limit < state.spent + cost expression
    · rw [if_pos dear]
      exact refused exhausted dear
    · rw [if_neg dear]
      exact emitted exhausted (Nat.le_of_not_lt dear)

theorem emit_of_exhausted (around : Surroundings) (expression : Expression)
    {state : Inlining} (exhausted : state.exhausted = true) :
    state.emit around expression = state := by
  unfold emit
  rw [if_pos exhausted]

theorem emit_of_le {around : Surroundings} {expression : Expression} {state : Inlining}
    (lasting : state.exhausted = false)
    (affordable : state.spent + cost expression ≤ around.limit) :
    state.emit around expression =
      { state with
        spent := state.spent + cost expression, emitted := expression :: state.emitted } := by
  unfold emit
  rw [if_neg (by simp [lasting]), if_neg (by omega)]

theorem active_emit (around : Surroundings) (expression : Expression) (state : Inlining) :
    (state.emit around expression).active = state.active :=
  emit_elim (motive := fun after => after.active = state.active)
    (fun _ => rfl) (fun _ _ => rfl) (fun _ _ => rfl)

theorem exhausted_emit (around : Surroundings) (expression : Expression) {state : Inlining}
    (exhausted : state.exhausted = true) :
    (state.emit around expression).exhausted = true := by
  rw [emit_of_exhausted around expression exhausted]
  exact exhausted

theorem failures_le_emit (around : Surroundings) (expression : Expression)
    (state : Inlining) : state.failures ≤ (state.emit around expression).failures :=
  emit_elim (motive := fun after => state.failures ≤ after.failures)
    (fun _ => Nat.le_refl _) (fun _ _ => Nat.le_succ _) (fun _ _ => Nat.le_refl _)

theorem spent_le_emit (around : Surroundings) (expression : Expression) (state : Inlining) :
    state.spent ≤ (state.emit around expression).spent :=
  emit_elim (motive := fun after => state.spent ≤ after.spent)
    (fun _ => Nat.le_refl _) (fun _ _ => Nat.le_add_right _ _)
    (fun _ _ => Nat.le_add_right _ _)

/-- A budget is not spent in silence. -/
theorem failures_lt_emit {around : Surroundings} {expression : Expression} {state : Inlining}
    (lasting : state.exhausted = false)
    (exhausted : (state.emit around expression).exhausted = true) :
    state.failures < (state.emit around expression).failures := by
  revert exhausted
  refine emit_elim (motive := fun after => after.exhausted = true →
    state.failures < after.failures) ?_ ?_ ?_
  · intro already _
    rw [lasting] at already
    contradiction
  · intro _ _ _
    exact Nat.lt_succ_self _
  · intro _ _ exhausted
    rw [lasting] at exhausted
    contradiction

theorem quiet_of_problems_emit_eq_nil {around : Surroundings} {expression : Expression}
    {state : Inlining} (silent : (state.emit around expression).problems = []) :
    state.problems = [] ∧ (state.emit around expression).failures = state.failures := by
  revert silent
  refine emit_elim (motive := fun after => after.problems = [] →
    state.problems = [] ∧ after.failures = state.failures) ?_ ?_ ?_
  · intro _ silent
    exact ⟨silent, rfl⟩
  · intro _ _ silent
    exact absurd silent (problems_fail_ne_nil _ _)
  · intro _ _ silent
    exact ⟨silent, rfl⟩

/-! ### Expressions added for a toll -/

/-- The state with expressions added, for which an amount of the budget was spent. -/
def adding (state : Inlining) (toll : Nat) (value : List Expression) : Inlining :=
  { state with spent := state.spent + toll, emitted := value.reverse ++ state.emitted }

@[simp] theorem emitted_adding (state : Inlining) (toll : Nat) (value : List Expression) :
    (state.adding toll value).emitted = value.reverse ++ state.emitted := rfl

@[simp] theorem spent_adding (state : Inlining) (toll : Nat) (value : List Expression) :
    (state.adding toll value).spent = state.spent + toll := rfl

@[simp] theorem exhausted_adding (state : Inlining) (toll : Nat) (value : List Expression) :
    (state.adding toll value).exhausted = state.exhausted := rfl

@[simp] theorem active_adding (state : Inlining) (toll : Nat) (value : List Expression) :
    (state.adding toll value).active = state.active := rfl

@[simp] theorem problems_adding (state : Inlining) (toll : Nat) (value : List Expression) :
    (state.adding toll value).problems = state.problems := rfl

@[simp] theorem failures_adding (state : Inlining) (toll : Nat) (value : List Expression) :
    (state.adding toll value).failures = state.failures := rfl

theorem adding_adding (state : Inlining) (first second : Nat) (early late : List Expression) :
    (state.adding first early).adding second late =
      state.adding (first + second) (early ++ late) := by
  simp [adding, Nat.add_assoc]

/-- What is added aside is not emitted, but it was paid for. -/
theorem adding_aside (state : Inlining) (toll : Nat) (value : List Expression) :
    { adding { state with emitted := [] } toll value with emitted := state.emitted } =
      state.adding toll [] := rfl

/-- The state after something was inlined that comes to a toll: either it was added and
nothing else happened, or the budget did not allow it, and is spent now. -/
inductive Adds (around : Surroundings) (state : Inlining) (toll : Nat)
    (value : List Expression) (after : Inlining) : Prop where
  | paid (same : after = state.adding toll value)
  | refused (dear : around.limit < state.spent + toll) (exhausted : after.exhausted = true)
      (louder : state.failures < after.failures)

namespace Adds

variable {around : Surroundings} {state after : Inlining} {toll : Nat}
  {value : List Expression}

theorem eq_of_le (adds : Adds around state toll value after)
    (affordable : state.spent + toll ≤ around.limit) : after = state.adding toll value := by
  cases adds with
  | paid same => exact same
  | refused dear => exact absurd affordable (Nat.not_le_of_lt dear)

theorem eq_of_quiet (adds : Adds around state toll value after)
    (quiet : after.failures = state.failures) : after = state.adding toll value := by
  cases adds with
  | paid same => exact same
  | refused _ _ louder => exact absurd quiet (Nat.ne_of_gt louder)

end Adds

variable {around : Surroundings} {unfolding : Unfolding}

theorem emit_adds (expression : Expression) {state : Inlining}
    (lasting : state.exhausted = false) :
    Adds around state (cost expression) [expression] (state.emit around expression) := by
  refine emit_elim (motive := Adds around state (cost expression) [expression]) ?_ ?_ ?_
  · intro exhausted
    rw [lasting] at exhausted
    contradiction
  · intro _ dear
    exact .refused dear rfl (Nat.lt_succ_self _)
  · intro _ _
    exact .paid rfl

/-! ### Settled expressions become themselves -/

/-- Notes are members of a chord as they are. -/
theorem placeMembers_of_notes {members : List ChordMember} (notes : allNotes members = true)
    (progress : List ChordMember × Inlining) :
    members.foldl (placeMember around unfolding) progress =
      (members.reverse ++ progress.1, progress.2) := by
  induction members generalizing progress with
  | nil => rfl
  | cons member rest inductionHypothesis =>
      cases member with
      | note written =>
          rw [Expression.allNotes_cons_note] at notes
          rw [List.foldl_cons, inductionHypothesis notes, List.reverse_cons, List.append_assoc]
          rfl
      | reference name token => contradiction

theorem place_sounding {expression : Expression} (sounding : Sounding expression)
    {state : Inlining} (lasting : state.exhausted = false) :
    Adds around state (cost expression) [expression]
      (place around unfolding expression state) := by
  cases sounding with
  | note written => exact emit_adds (.note written) lasting
  | chord members token notes =>
      rw [place, placeMembers_of_notes notes, List.append_nil]
      dsimp only
      rw [List.reverse_reverse]
      exact emit_adds (.chord members token) lasting

theorem closeHold_of_sounding {inner : Expression} (sounding : Sounding inner)
    (token : Token) (state : Inlining) :
    closeHold around [inner] token state = state.emit around (.hold inner token) := by
  cases sounding <;> rfl

/-- A settled expression becomes itself, as long as the budget lasts. -/
theorem place_settled {expression : Expression} (settled : Settled expression)
    {state : Inlining} (lasting : state.exhausted = false) :
    Adds around state (charge expression) [expression]
      (place around unfolding expression state) := by
  cases settled with
  | placeholder token => exact emit_adds (.placeholder token) lasting
  | playable playable =>
      cases playable with
      | release token => exact emit_adds (.release token) lasting
      | directive directive token => exact emit_adds (.directive directive token) lasting
      | bar token => exact emit_adds (.bar token) lasting
      | sounding sounding =>
          rw [charge_of_sounding sounding]
          exact place_sounding sounding lasting
      | @hold inner sounding token =>
          have inside : Adds around { state with emitted := [] } (cost inner) [inner]
              (place around unfolding inner { state with emitted := [] }) :=
            place_sounding sounding lasting
          rw [charge_hold, place]
          rcases inside with same | ⟨dear, exhausted, louder⟩
          · rw [same, if_neg (by simp [lasting]), adding_aside]
            change Adds around state _ _
              (closeHold around [inner] token (state.adding (cost inner) []))
            rw [closeHold_of_sounding sounding]
            have closed : Adds around (state.adding (cost inner) []) (cost (.hold inner token))
                [.hold inner token] _ := emit_adds (.hold inner token) lasting
            rcases closed with emitted | ⟨dear, exhausted, louder⟩
            · rw [emitted, adding_adding]
              exact .paid rfl
            · refine .refused ?_ exhausted louder
              rw [spent_adding] at dear
              omega
          · rw [if_pos (by simp [exhausted])]
            refine .refused ?_ exhausted louder
            have dearHere : around.limit < state.spent + cost inner := dear
            omega

theorem placeAll_of_exhausted (list : List Expression) {state : Inlining}
    (exhausted : state.exhausted = true) : placeAll around unfolding list state = state := by
  cases list with
  | nil => rfl
  | cons => rw [placeAll, if_pos exhausted]

theorem placeAll_settled {value : List Expression}
    (settled : ∀ expression ∈ value, Settled expression) {state : Inlining}
    (lasting : state.exhausted = false) :
    Adds around state (chargeAll value) value (placeAll around unfolding value state) := by
  induction value generalizing state with
  | nil => exact .paid rfl
  | cons expression rest inductionHypothesis =>
      rw [List.forall_mem_cons] at settled
      rw [placeAll, if_neg (by simp [lasting]), chargeAll_cons]
      have first : Adds around state (charge expression) [expression]
          (place around unfolding expression state) := place_settled settled.1 lasting
      rcases first with same | ⟨dear, exhausted, louder⟩
      · rw [same]
        have others : Adds around (state.adding (charge expression) [expression])
            (chargeAll rest) rest _ := inductionHypothesis settled.2 lasting
        rcases others with placed | ⟨dear, exhausted, louder⟩
        · rw [placed, adding_adding]
          exact .paid rfl
        · refine .refused ?_ exhausted louder
          rw [spent_adding] at dear
          omega
      · rw [placeAll_of_exhausted rest exhausted]
        exact .refused (by omega) exhausted louder

/-- An argument that became settled expressions becomes them once more. -/
theorem place_gather {value : List Expression}
    (settled : ∀ expression ∈ value, Settled expression) (token : Token) {state : Inlining}
    (lasting : state.exhausted = false) :
    Adds around state (chargeAll value) value
      (place around unfolding (gather value.reverse token) state) := by
  unfold gather
  split
  · rename_i single reversed
    rw [List.reverse_eq_iff, List.reverse_singleton] at reversed
    subst reversed
    rw [chargeAll_singleton]
    exact place_settled (settled single (List.mem_singleton_self _)) lasting
  · rw [List.reverse_reverse, place]
    exact placeAll_settled settled lasting

end Inlining

end Solfege
