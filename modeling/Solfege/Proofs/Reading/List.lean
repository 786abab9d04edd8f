import Solfege.Proofs.Reading.Conduct
import Solfege.Reading.Expression

/-!
Contract: the rounds in which a list of expressions is read.

Owns:
- the laws of a layout: where reading can go on behind a problem the list ends, and what
  ends a list does not separate its elements;
- what one round does: it ends the list, takes an element, or leaves a placeholder.

Does not own: what the elements of a list are.
-/

namespace Solfege.Reading

/-! ### Layouts -/

/-- Reading a list goes on only where the list ends, and what ends a list does not
separate its elements. -/
structure Layout.Lawful (layout : Layout) : Prop where
  ends_endOfFile : layout.ends .endOfFile = true
  ends_of_resumes : ∀ kind, layout.resumes kind = true → layout.ends kind = true
  not_separates : ∀ kind, layout.ends kind = true → layout.separates kind = false

theorem Layout.lawful_body : Layout.body.Lawful where
  ends_endOfFile := rfl
  ends_of_resumes kind resumes := by
    cases kind with
    | newline => rfl
    | semicolon => rfl
    | _ => contradiction
  not_separates kind ends := by
    cases kind with
    | space => contradiction
    | _ => rfl

theorem Layout.lawful_group : Layout.group.Lawful where
  ends_endOfFile := rfl
  ends_of_resumes kind resumes := by
    cases kind with
    | rightBracket => rfl
    | _ => contradiction
  not_separates kind ends := by
    cases kind with
    | space => contradiction
    | newline => contradiction
    | _ => rfl

/-! ### Rounds -/

/-- The constructs that a list adds to those around it. -/
def marks (marked : Bool) : List Context := if marked then [.expression] else []

section Rounds

variable {layout : Layout} {inner : Step Expression} {steps : Nat} {marked : Bool}
variable {found : List Expression} {before : Reading}

/-- Leaves a list, with what was made of it. -/
def leaveList {α : Type} (marked : Bool) (made : α) : Step α := do
  if marked then leave .expression
  pure made

theorem elementsFrom_eq_leaveList
    (ends : layout.ends (before.skip layout.separates).current.kind = true) :
    elementsFrom layout inner (steps + 1) marked found before =
      leaveList marked found.reverse (before.skip layout.separates) :=
  congrFun (if_pos ends) _

theorem elementsFrom_of_ends {outer : List Context}
    (ends : layout.ends (before.skip layout.separates).current.kind = true)
    (contexts : before.contexts = marks marked ++ outer) :
    elementsFrom layout inner (steps + 1) marked found before =
      .ok found.reverse { before.skip layout.separates with contexts := outer } := by
  rw [elementsFrom_eq_leaveList ends]
  cases marked with
  | false =>
      change before.contexts = outer at contexts
      rw [← contexts]
      rfl
  | true =>
      have here : (before.skip layout.separates).contexts = .expression :: outer := contexts
      exact bind_of_ok (leave_of_contexts here)

theorem elementsFrom_of_ok {element : Expression} {after : Reading}
    (more : layout.ends (before.skip layout.separates).current.kind = false)
    (result : inner (before.skip layout.separates) = .ok element after) :
    elementsFrom layout inner (steps + 1) marked found before =
      elementsFrom layout inner steps true (element :: found)
        { after with contexts := marks (!marked) ++ after.contexts } := by
  have unfolded : elementsFrom layout inner (steps + 1) marked found before =
      (if layout.ends (before.skip layout.separates).current.kind = true then _
      else attempt inner >>= _) (before.skip layout.separates) := rfl
  rw [unfolded, if_neg (by simp [more]), bind_of_ok (attempt_eq_ok result)]
  cases marked <;> rfl

/-- The reader when a problem in a list is reported and reading goes on behind it. -/
def resumed (layout : Layout) (diagnostic : Diagnostic) (after : Reading) : Reading :=
  { after with
    rest := resumption layout.resumes 0 after.rest
    diagnostics := after.diagnostics ++ [diagnostic] }

theorem elementsFrom_of_problem {diagnostic : Diagnostic} {after : Reading}
    (more : layout.ends (before.skip layout.separates).current.kind = false)
    (result : inner (before.skip layout.separates) = .error (.recoverable diagnostic) after) :
    elementsFrom layout inner (steps + 1) marked found before =
      elementsFrom layout inner steps marked
        (.placeholder (before.skip layout.separates).current :: found)
        (resumed layout diagnostic after) := by
  have unfolded : elementsFrom layout inner (steps + 1) marked found before =
      (if layout.ends (before.skip layout.separates).current.kind = true then _
      else attempt inner >>= _) (before.skip layout.separates) := rfl
  rw [unfolded, if_neg (by simp [more]), bind_of_ok (attempt_eq_problem result)]
  rfl

/-- Behind a problem reading goes on where the list ends, so the placeholder that stands for
the element is the last one of the list. -/
theorem elementsFrom_ends_of_problem (lawful : layout.Lawful) {outer : List Context}
    {diagnostic : Diagnostic} {after : Reading} (closed : after.Closed)
    (more : layout.ends (before.skip layout.separates).current.kind = false)
    (result : inner (before.skip layout.separates) = .error (.recoverable diagnostic) after)
    (contexts : after.contexts = marks marked ++ outer) :
    elementsFrom layout inner (steps + 2) marked found before =
      .ok (.placeholder (before.skip layout.separates).current :: found).reverse
        { resumed layout diagnostic after with contexts := outer } := by
  have here : (resumed layout diagnostic after).contexts = marks marked ++ outer := contexts
  have ends : layout.ends (resumed layout diagnostic after).current.kind = true := by
    rcases current_resumption closed layout.resumes 0 with atEnd | resumes
    · exact (congrArg layout.ends atEnd).trans lawful.ends_endOfFile
    · exact lawful.ends_of_resumes _ resumes
  have nothing := skip_of_current (lawful.not_separates _ ends)
  rw [elementsFrom_of_problem more result, elementsFrom_of_ends (nothing.symm ▸ ends) here,
    nothing]

end Rounds

end Solfege.Reading
