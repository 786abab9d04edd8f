import Solfege.Proofs.Repetition.Basic
import Mathlib.Data.List.Induction

/-!
Contract: what the expansion of a list consists of.

Owns:
- the copies of the elements of a list, in their order, where several copies of an element
  take no more room together than the limit;
- the proof that every list is expanded to such copies, whatever its repetitions do.

Does not own: how many copies there are of which element.

A repetition may meet an element that is several places away, if those between were repeated
no times. This is why the copies are looked for from the end.
-/

namespace Solfege.Expression

/-- Copies of the elements of a list, in their order. Where there is more than one copy of an
element, all of them fit into the limit. -/
inductive CopiesOf (limit : Nat) : List Expression → List Expression → Prop where
  | nil : CopiesOf limit [] []
  | element {list made : List Expression} {element : Expression} (copies : Nat)
      (before : CopiesOf limit list made) (plain : element.isRepetition = false)
      (fits : copies ≤ 1 ∨ copies * (unrollWithin limit element).1.flatSize ≤ limit) :
      CopiesOf limit (list ++ [element])
        (made ++ List.replicate copies (unrollWithin limit element).1)
  | repetition {list made : List Expression} (count : Nat) (token : Token)
      (before : CopiesOf limit list made) :
      CopiesOf limit (list ++ [.repetition count token]) made

section Copies

variable {limit : Nat} {list made : List Expression}

/-- Copies of the latest element may take its place, if there is room for them. -/
theorem CopiesOf.repeated (copies : CopiesOf limit list made) {earlier : List Expression}
    {latest : Expression} {count : Nat} (last : made = earlier ++ [latest])
    (room : (flatten earlier).length + count * latest.flatSize ≤ limit) :
    CopiesOf limit list (earlier ++ List.replicate count latest) := by
  induction copies generalizing earlier with
  | nil => simp at last
  | repetition other token before inductionHypothesis =>
      exact .repetition other token (inductionHypothesis last room)
  | @element list made element copies before plain fits inductionHypothesis =>
      cases copies with
      | zero =>
          rw [List.replicate_zero, List.append_nil] at last
          have moved := inductionHypothesis last room
          have none := CopiesOf.element 0 moved plain (.inl (Nat.zero_le 1))
          rwa [List.replicate_zero, List.append_nil] at none
      | succ copies =>
          rw [List.replicate_succ', ← List.append_assoc] at last
          obtain ⟨rfl, same⟩ := List.append_inj' last rfl
          obtain rfl := List.singleton_inj.mp same
          rw [flatten_append, List.length_append, length_flatten_replicate] at room
          rw [List.append_assoc, List.replicate_append_replicate]
          refine .element (copies + count) before plain (.inr ?_)
          rw [Nat.add_mul]
          omega

/-- Every list is expanded to copies of its elements. -/
theorem copiesOf_unroll (limit : Nat) (list : List Expression) :
    CopiesOf limit list (unroll limit list).1 := by
  induction list using List.reverseRecOn with
  | nil => exact .nil
  | append_singleton list last inductionHypothesis =>
      rcases repetition_or_plain last with ⟨count, token, rfl⟩ | plain
      · apply CopiesOf.repetition count token
        rcases List.eq_nil_or_concat (unroll limit list).1 with nothing | ⟨earlier, latest, made⟩
        · rw [unroll_concat_of_nothing nothing]
          rwa [nothing] at inductionHypothesis
        · rw [List.concat_eq_append] at made
          by_cases room : (flatten earlier).length + count * latest.flatSize ≤ limit
          · rw [unroll_concat_of_room made room]
            exact inductionHypothesis.repeated made room
          · rw [unroll_concat_of_no_room made (Nat.not_le.mp room), ← made]
            exact inductionHypothesis
      · have plain := isRepetition_eq_false_iff.mpr plain
        rw [unroll_concat_of_plain plain]
        exact .element 1 inductionHypothesis plain (.inl (Nat.le_refl 1))

theorem CopiesOf.exists_of_mem (copies : CopiesOf limit list made) :
    ∀ copy ∈ made, ∃ element ∈ list, copy = (unrollWithin limit element).1 := by
  induction copies with
  | nil => exact List.forall_mem_nil _
  | repetition _ _ _ inductionHypothesis =>
      intro copy member
      obtain ⟨element, inList, same⟩ := inductionHypothesis copy member
      exact ⟨element, List.mem_append_left _ inList, same⟩
  | element _ _ _ _ inductionHypothesis =>
      intro copy member
      rcases List.mem_append.mp member with before | latest
      · obtain ⟨element, inList, same⟩ := inductionHypothesis copy before
        exact ⟨element, List.mem_append_left _ inList, same⟩
      · exact ⟨_, List.mem_append_right _ (List.mem_singleton_self _),
          List.eq_of_mem_replicate latest⟩

/-- Whatever is made of a list is the expansion of one of its elements. -/
theorem exists_of_mem_unroll {copy : Expression} (member : copy ∈ (unroll limit list).1) :
    ∃ element ∈ list, copy = (unrollWithin limit element).1 :=
  (copiesOf_unroll limit list).exists_of_mem copy member

/-- A list without repetitions is expanded element by element. -/
theorem unroll_eq_map_of_plain (limit : Nat)
    (plain : ∀ element ∈ list, element.isRepetition = false) :
    (unroll limit list).1 = list.map fun element => (unrollWithin limit element).1 := by
  induction list using List.reverseRecOn with
  | nil => rfl
  | append_singleton list last inductionHypothesis =>
      rw [List.forall_mem_append, List.forall_mem_singleton] at plain
      rw [unroll_concat_of_plain plain.2, inductionHypothesis plain.1, List.map_append,
        List.map_singleton]

end Copies

end Solfege.Expression
