import Solfege.Proofs.Inlining.Course
import Mathlib.Data.List.Forall2

/-!
Contract: two inlinings of the same expressions, step by step.

Owns:
- the relations of states that the steps of inlining keep, where both sides take the same
  step;
- surroundings that differ in their macros only, which stand for each other one by one;
- the proof that inlining an expression, a list or arguments on both sides keeps such a
  relation, if the bodies of macros that stand for each other do.

Does not own: any particular relation, or which macros stand for each other.
-/

namespace Solfege

open Expression

/-! ### Macros that stand for each other -/

/-- At each place macros stand for each other, or there is none. -/
theorem Score.rel_macroAt? {similar : Macro → Macro → Prop} {macros others : List Macro}
    (paired : List.Forall₂ similar macros others) (index : Nat) :
    Option.Rel similar (macroAt? macros index) (macroAt? others index) := by
  cases index with
  | zero => exact .none
  | succ index =>
      induction paired generalizing index with
      | nil => exact .none
      | cons here _ inductionHypothesis =>
          cases index with
          | zero => exact .some here
          | succ index => exact inductionHypothesis index

/-- The surroundings differ in their macros only. Those stand for each other one by one:
they have one name and take as many arguments. -/
structure Surroundings.Pairs (similar : Macro → Macro → Prop) (around other : Surroundings) :
    Prop where
  names : other.names = around.names
  limit : other.limit = around.limit
  site : other.site = around.site
  macros : List.Forall₂ similar around.macros other.macros
  name : ∀ {definition variant}, similar definition variant → variant.name = definition.name
  arity : ∀ {definition variant}, similar definition variant →
    variant.parameters.length = definition.parameters.length

/-- Every macro stands for itself. -/
theorem Surroundings.pairs_self (around : Surroundings) : around.Pairs (· = ·) around where
  names := rfl
  limit := rfl
  site := rfl
  macros := List.forall₂_same.mpr fun _ _ => rfl
  name same := by rw [same]
  arity same := by rw [same]

namespace Inlining

/-- A use is refused for the same reason among both macros, or it is of macros that stand
for each other. -/
theorem callee_paired {similar : Macro → Macro → Prop} {around other : Surroundings}
    (pairs : around.Pairs similar other) (active : List String) (name : String)
    (given : Nat) (token : Token) :
    (∃ diagnostic, callee around active name given token = .error diagnostic ∧
        callee other active name given token = .error diagnostic) ∨
      ∃ definition variant, callee around active name given token = .ok definition ∧
        callee other active name given token = .ok variant ∧ similar definition variant := by
  unfold callee macroNamed
  rw [pairs.names]
  cases around.names.get? name with
  | none => exact .inl ⟨_, rfl, rfl⟩
  | some entry =>
      cases entry with
      | movementAt track movement => exact .inl ⟨_, rfl, rfl⟩
      | macroAt index =>
          have there := Score.rel_macroAt? pairs.macros index
          dsimp only
          generalize Score.macroAt? around.macros index = here at there ⊢
          generalize Score.macroAt? other.macros index = beside at there ⊢
          cases there with
          | none => exact .inl ⟨_, rfl, rfl⟩
          | some same =>
              dsimp only
              rw [pairs.name same, pairs.arity same]
              split
              · exact .inl ⟨_, rfl, rfl⟩
              · split
                · exact .inl ⟨_, rfl, rfl⟩
                · exact .inr ⟨_, _, rfl, rfl, same⟩

/-! ### Relations that inlining keeps -/

/-- A relation of states that every step of inlining keeps, if it is taken on both sides.
Related states differ at most in the problems met before and in their number. -/
structure Congruence (tied : Inlining → Inlining → Prop) : Prop where
  emitted : ∀ {left right}, tied left right → right.emitted = left.emitted
  spent : ∀ {left right}, tied left right → right.spent = left.spent
  exhausted : ∀ {left right}, tied left right → right.exhausted = left.exhausted
  active : ∀ {left right}, tied left right → right.active = left.active
  louder : ∀ {left right leftAfter rightAfter}, tied left right →
    tied leftAfter rightAfter →
      (right.failures < rightAfter.failures ↔ left.failures < leftAfter.failures)
  fail : ∀ {left right}, tied left right → ∀ diagnostic,
    tied (left.fail diagnostic) (right.fail diagnostic)
  emitting : ∀ {left right}, tied left right → ∀ emitted,
    tied { left with emitted := emitted } { right with emitted := emitted }
  spending : ∀ {left right}, tied left right → ∀ spent,
    tied { left with spent := spent } { right with spent := spent }
  exhausting : ∀ {left right}, tied left right →
    tied { left with exhausted := true } { right with exhausted := true }
  activating : ∀ {left right}, tied left right → ∀ active,
    tied { left with active := active } { right with active := active }

/-- Inlining from one state is a function of it. -/
theorem congruence_eq : Congruence (· = ·) where
  emitted same := by rw [same]
  spent same := by rw [same]
  exhausted same := by rw [same]
  active same := by rw [same]
  louder same sameAfter := by rw [same, sameAfter]
  fail same diagnostic := by rw [same]
  emitting same emitted := by rw [same]
  spending same spent := by rw [same]
  exhausting same := by rw [same]
  activating same active := by rw [same]

/-- The bodies of macros that stand for each other keep the relation. -/
def UnfoldsTied (similar : Macro → Macro → Prop) (tied : Inlining → Inlining → Prop)
    (unfolding otherUnfolding : Unfolding) : Prop :=
  ∀ definition variant arguments left right, similar definition variant →
    arguments.length = definition.parameters.length → tied left right →
    tied (unfolding definition arguments left) (otherUnfolding variant arguments right)

/-- Both take the same branch. -/
theorem tied_ite {tied : Inlining → Inlining → Prop} {condition otherCondition : Prop}
    [Decidable condition] [Decidable otherCondition]
    {first second otherFirst otherSecond : Inlining} (same : otherCondition ↔ condition)
    (yes : tied first otherFirst) (no : tied second otherSecond) :
    tied (if condition then first else second)
      (if otherCondition then otherFirst else otherSecond) := by
  by_cases holds : condition
  · rw [if_pos holds, if_pos (same.mpr holds)]
    exact yes
  · rw [if_neg holds, if_neg (mt same.mp holds)]
    exact no

namespace Congruence

section Steps

variable {tied : Inlining → Inlining → Prop} (congruence : Congruence tied)
  {left right : Inlining}

include congruence

theorem fails (alike : tied left right) (diagnostics : List Diagnostic) :
    tied (diagnostics.foldl Inlining.fail left) (diagnostics.foldl Inlining.fail right) := by
  induction diagnostics generalizing left right with
  | nil => exact alike
  | cons diagnostic rest inductionHypothesis =>
      exact inductionHypothesis (congruence.fail alike diagnostic)

/-- What was emitted aside is put away again on both sides. -/
theorem back {inside otherInside : Inlining} (alike : tied left right)
    (after : tied inside otherInside) :
    tied { inside with emitted := left.emitted }
      { otherInside with emitted := right.emitted } := by
  rw [congruence.emitted alike]
  exact congruence.emitting after left.emitted

/-- The same macro is entered on both sides. -/
theorem entering (alike : tied left right) (name : String) :
    tied { left with active := name :: left.active }
      { right with active := name :: right.active } := by
  rw [congruence.active alike]
  exact congruence.activating alike (name :: left.active)

theorem leaving (alike : tied left right) :
    tied { left with active := left.active.tail }
      { right with active := right.active.tail } := by
  rw [congruence.active alike]
  exact congruence.activating alike left.active.tail

variable {similar : Macro → Macro → Prop} {around other : Surroundings}
  (pairs : around.Pairs similar other)

include pairs

theorem emit (alike : tied left right) (expression : Expression) :
    tied (left.emit around expression) (right.emit other expression) := by
  have paid := congruence.spending alike (left.spent + cost expression)
  unfold Inlining.emit
  rw [congruence.spent alike, pairs.limit, pairs.site]
  apply tied_ite (by rw [congruence.exhausted alike]) alike
  apply tied_ite Iff.rfl
  · exact congruence.fail (congruence.exhausting paid) _
  · rw [congruence.emitted alike]
    exact congruence.emitting paid (expression :: left.emitted)

theorem closeHold (alike : tied left right) (emitted : List Expression) (token : Token) :
    tied (left.closeHold around emitted token) (right.closeHold other emitted token) := by
  unfold Inlining.closeHold
  split
  · exact congruence.emit pairs alike _
  · exact congruence.emit pairs alike _
  · exact congruence.fail alike _

variable {unfolding otherUnfolding : Unfolding}
  (unfolds : UnfoldsTied similar tied unfolding otherUnfolding)

include unfolds

theorem placeName (alike : tied left right) (name : String) (token : Token) :
    tied (Inlining.placeName around unfolding name token left)
      (Inlining.placeName other otherUnfolding name token right) := by
  unfold Inlining.placeName
  rw [congruence.active alike]
  rcases callee_paired pairs left.active name 0 token with
    ⟨diagnostic, refused, otherRefused⟩ | ⟨definition, variant, accepted, otherAccepted, same⟩
  · rw [refused, otherRefused]
    exact congruence.fail alike _
  · have arity := (callee_eq_ok_iff.mp accepted).2.2
    rw [accepted, otherAccepted, congruence.exhausted alike]
    dsimp only
    split
    · exact alike
    · exact unfolds definition variant [] left right same arity alike

theorem placeMember {progress otherProgress : List ChordMember × Inlining}
    (members : otherProgress.1 = progress.1) (alike : tied progress.2 otherProgress.2)
    (member : ChordMember) :
    (Inlining.placeMember other otherUnfolding otherProgress member).1 =
        (Inlining.placeMember around unfolding progress member).1 ∧
      tied (Inlining.placeMember around unfolding progress member).2
        (Inlining.placeMember other otherUnfolding otherProgress member).2 := by
  cases member with
  | note written => exact ⟨congrArg (ChordMember.note written :: ·) members, alike⟩
  | reference name token =>
      have inside := congruence.placeName pairs unfolds (congruence.emitting alike []) name token
      have after := congruence.back alike inside
      unfold Inlining.placeMember
      dsimp only
      rw [members, congruence.emitted inside]
      split
      · exact ⟨rfl, after⟩
      · exact ⟨rfl, congruence.fail after _⟩

theorem placeMembers (written : List ChordMember)
    (progress otherProgress : List ChordMember × Inlining)
    (members : otherProgress.1 = progress.1) (alike : tied progress.2 otherProgress.2) :
    (written.foldl (Inlining.placeMember other otherUnfolding) otherProgress).1 =
        (written.foldl (Inlining.placeMember around unfolding) progress).1 ∧
      tied (written.foldl (Inlining.placeMember around unfolding) progress).2
        (written.foldl (Inlining.placeMember other otherUnfolding) otherProgress).2 := by
  induction written generalizing progress otherProgress with
  | nil => exact ⟨members, alike⟩
  | cons member rest inductionHypothesis =>
      obtain ⟨same, after⟩ := congruence.placeMember pairs unfolds members alike member
      exact inductionHypothesis _ _ same after

end Steps

mutual

/-- Inlining an expression on both sides keeps the relation. -/
theorem place {tied : Inlining → Inlining → Prop} (congruence : Congruence tied)
    {similar : Macro → Macro → Prop} {around other : Surroundings}
    (pairs : around.Pairs similar other) {unfolding otherUnfolding : Unfolding}
    (unfolds : UnfoldsTied similar tied unfolding otherUnfolding) {left right : Inlining}
    (alike : tied left right) (expression : Expression) :
    tied (Inlining.place around unfolding expression left)
      (Inlining.place other otherUnfolding expression right) := by
  cases expression with
  | reference name token =>
      rw [Inlining.place, Inlining.place]
      exact congruence.placeName pairs unfolds alike name token
  | call name arguments token =>
      have active := congruence.active alike
      rcases callee_paired pairs left.active name arguments.length token with
        ⟨diagnostic, refused, otherRefused⟩ | ⟨definition, variant, accepted, otherAccepted, same⟩
      · rw [place_call_of_error refused, place_call_of_error (active ▸ otherRefused)]
        exact congruence.fail alike _
      · have arity := (callee_eq_ok_iff.mp accepted).2.2
        obtain ⟨resolved, after⟩ := congruence.placeArguments pairs unfolds alike arguments
        rw [place_call_of_ok accepted, place_call_of_ok (active ▸ otherAccepted), resolved,
          congruence.exhausted after]
        split
        · exact after
        · exact unfolds definition variant _ _ _ same
            ((length_placeArguments arguments left).trans arity) after
  | group items token =>
      rw [Inlining.place, Inlining.place]
      exact congruence.placeAll pairs unfolds alike items
  | chord members token =>
      obtain ⟨placed, after⟩ := congruence.placeMembers pairs unfolds members ([], left)
        ([], right) rfl alike
      rw [place_chord, place_chord, placed]
      exact congruence.emit pairs after _
  | hold inner token =>
      have inside := congruence.place pairs unfolds (congruence.emitting alike []) inner
      have after := congruence.back alike inside
      rw [Inlining.place, Inlining.place, congruence.emitted inside]
      apply tied_ite _ after (congruence.closeHold pairs after _ _)
      have louder := congruence.louder (congruence.emitting alike []) inside
      simp only [Bool.or_eq_true, decide_eq_true_eq, congruence.exhausted inside]
      exact or_congr_left louder
  | repetition count token => exact congruence.fail alike _
  | note written => exact congruence.emit pairs alike _
  | release token => exact congruence.emit pairs alike _
  | directive directive token => exact congruence.emit pairs alike _
  | bar token => exact congruence.emit pairs alike _
  | placeholder token => exact congruence.emit pairs alike _

/-- Inlining a list on both sides keeps the relation. -/
theorem placeAll {tied : Inlining → Inlining → Prop} (congruence : Congruence tied)
    {similar : Macro → Macro → Prop} {around other : Surroundings}
    (pairs : around.Pairs similar other) {unfolding otherUnfolding : Unfolding}
    (unfolds : UnfoldsTied similar tied unfolding otherUnfolding) {left right : Inlining}
    (alike : tied left right) (list : List Expression) :
    tied (Inlining.placeAll around unfolding list left)
      (Inlining.placeAll other otherUnfolding list right) := by
  cases list with
  | nil => exact alike
  | cons item rest =>
      rw [Inlining.placeAll, Inlining.placeAll, congruence.exhausted alike]
      split
      · exact alike
      · exact congruence.placeAll pairs unfolds (congruence.place pairs unfolds alike item) rest

/-- Inlining arguments on both sides keeps the relation, and makes the same of them. -/
theorem placeArguments {tied : Inlining → Inlining → Prop} (congruence : Congruence tied)
    {similar : Macro → Macro → Prop} {around other : Surroundings}
    (pairs : around.Pairs similar other) {unfolding otherUnfolding : Unfolding}
    (unfolds : UnfoldsTied similar tied unfolding otherUnfolding) {left right : Inlining}
    (alike : tied left right) (arguments : List Expression) :
    (Inlining.placeArguments other otherUnfolding arguments right).1 =
        (Inlining.placeArguments around unfolding arguments left).1 ∧
      tied (Inlining.placeArguments around unfolding arguments left).2
        (Inlining.placeArguments other otherUnfolding arguments right).2 := by
  cases arguments with
  | nil => exact ⟨rfl, alike⟩
  | cons argument rest =>
      have inside := congruence.place pairs unfolds (congruence.emitting alike []) argument
      obtain ⟨resolved, after⟩ := congruence.placeArguments pairs unfolds
        (congruence.back alike inside) rest
      rw [Inlining.placeArguments, Inlining.placeArguments]
      dsimp only
      rw [congruence.emitted inside]
      exact ⟨congrArg (gather _ _ :: ·) resolved, after⟩

end

end Congruence

end Inlining

end Solfege
