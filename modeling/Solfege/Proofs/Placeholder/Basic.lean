import Solfege.Score.Basic

/-!
Contract: how many places of a score could not be read.

Owns:
- the number of placeholders in an expression and in a list, at any depth;
- the number in a macro, in a movement and in a score.

Does not own: which problems placeholders come with.
-/

namespace Solfege

/-! ### Expressions -/

namespace Expression

mutual

/-- The number of placeholders in an expression, at any depth. -/
def placeholders : Expression → Nat
  | .placeholder _ => 1
  | .call _ arguments _ => placeholdersOfAll arguments
  | .group items _ => placeholdersOfAll items
  | .hold inner _ => placeholders inner
  | _ => 0

/-- The number of placeholders in a list. -/
def placeholdersOfAll : List Expression → Nat
  | [] => 0
  | item :: rest => placeholders item + placeholdersOfAll rest

end

@[simp] theorem placeholdersOfAll_nil : placeholdersOfAll [] = 0 := rfl

@[simp] theorem placeholdersOfAll_cons (item : Expression) (rest : List Expression) :
    placeholdersOfAll (item :: rest) = item.placeholders + placeholdersOfAll rest := rfl

@[simp] theorem placeholdersOfAll_append (left right : List Expression) :
    placeholdersOfAll (left ++ right) = placeholdersOfAll left + placeholdersOfAll right := by
  induction left with
  | nil => simp
  | cons item rest inductionHypothesis => simp [inductionHypothesis, Nat.add_assoc]

@[simp] theorem placeholdersOfAll_reverse (list : List Expression) :
    placeholdersOfAll list.reverse = placeholdersOfAll list := by
  induction list with
  | nil => rfl
  | cons item rest inductionHypothesis => simp [inductionHypothesis, Nat.add_comm]

theorem placeholdersOfAll_eq_zero_iff {list : List Expression} :
    placeholdersOfAll list = 0 ↔ ∀ item ∈ list, item.placeholders = 0 := by
  induction list with
  | nil => simp
  | cons item rest inductionHypothesis =>
      rw [placeholdersOfAll_cons, Nat.add_eq_zero_iff, inductionHypothesis,
        List.forall_mem_cons]

end Expression

open Expression (placeholdersOfAll)

/-! ### Scores -/

/-- The number of placeholders in the body of a macro. -/
def Macro.placeholders (definition : Macro) : Nat := placeholdersOfAll definition.body

/-- The number of placeholders in a movement. -/
def Movement.placeholders (movement : Movement) : Nat :=
  placeholdersOfAll movement.expressions

/-- The number of placeholders in a score, in macros and in movements. -/
def Score.placeholders (score : Score) : Nat :=
  placeholdersOfAll (score.macros.flatMap Macro.body) +
    placeholdersOfAll (score.movements.flatMap Movement.expressions)

theorem Score.placeholders_eq_zero_iff {score : Score} :
    score.placeholders = 0 ↔
      (∀ definition ∈ score.macros, definition.placeholders = 0) ∧
        ∀ movement ∈ score.movements, movement.placeholders = 0 := by
  simp only [placeholders, Macro.placeholders, Movement.placeholders, Nat.add_eq_zero_iff,
    Expression.placeholdersOfAll_eq_zero_iff, List.forall_mem_flatMap]

end Solfege
