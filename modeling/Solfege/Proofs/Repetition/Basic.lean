import Solfege.Expansion.Group
import Solfege.Proofs.FixedPoint.Lacking
import Solfege.Proofs.Repetition.Limit

/-!
Contract: the expansion of a list from left to right, told without its state.

Owns:
- the law that the size that is kept of a list is the number of elements it is flattened to;
- what one more element at the end of a list adds to its expansion;
- what one more repetition there does to it, with room for the copies or without;
- the problems of a list, which are found again in those of every longer one.

Does not own: which elements of the list the copies are of.

A repetition copies what is last among the elements made so far. So the laws look at a list
from its end, and what was made of the rest is all that they need to know of it.
-/

namespace Solfege.Expression

/-! ### Sizes -/

mutual

theorem length_opened_settle (expression : Expression) :
    (opened (settle expression)).length = expression.flatSize := by
  cases expression with
  | group items token =>
      rw [settle_group, opened, flatSize, flatSizeFrom_eq, Nat.zero_add]
  | _ => rfl

/-- The size that is kept is the number of elements once the list is flattened. -/
theorem flatSizeFrom_eq (size : Nat) (list : List Expression) :
    flatSizeFrom size list = size + (flatten list).length := by
  cases list with
  | nil => rfl
  | cons item rest =>
      rw [flatSizeFrom, flatSizeFrom_eq, flatten_cons, List.length_append,
        length_opened_settle, Nat.add_assoc]

end

theorem length_flatten_singleton (expression : Expression) :
    (flatten [expression]).length = expression.flatSize := by
  rw [flatten_singleton, length_opened_settle]

theorem flatSize_group (items : List Expression) (token : Token) :
    (Expression.group items token).flatSize = (flatten items).length := by
  rw [flatSize, flatSizeFrom_eq, Nat.zero_add]

theorem length_flatten_concat (list : List Expression) (element : Expression) :
    (flatten (list ++ [element])).length = (flatten list).length + element.flatSize := by
  rw [flatten_append, List.length_append, length_flatten_singleton]

theorem length_flatten_replicate (count : Nat) (element : Expression) :
    (flatten (List.replicate count element)).length = count * element.flatSize := by
  induction count with
  | zero => rw [List.replicate_zero, flatten_nil, List.length_nil, Nat.zero_mul]
  | succ count inductionHypothesis =>
      rw [List.replicate_succ', length_flatten_concat, inductionHypothesis, Nat.succ_mul]

namespace Unrolling

/-- The size is that of the elements once they are flattened. -/
def Measured (state : Unrolling) : Prop :=
  state.size = (flatten state.made.reverse).length

theorem measured_start : Measured ⟨[], 0, []⟩ := rfl

theorem Measured.add {state : Unrolling} (measured : state.Measured)
    (element : Expression × List Diagnostic) : (state.add element).Measured := by
  unfold Measured Unrolling.add
  dsimp only
  rw [List.reverse_cons, length_flatten_concat, ← measured]

/-- The size of the latest element is part of the size of the whole. -/
theorem Measured.size_eq {state : Unrolling} {latest : Expression} {earlier : List Expression}
    (measured : state.Measured) (made : state.made = latest :: earlier) :
    state.size = (flatten earlier.reverse).length + latest.flatSize := by
  unfold Measured at measured
  rw [measured, made, List.reverse_cons, length_flatten_concat]

theorem Measured.repeatLatest {state : Unrolling} (measured : state.Measured)
    (limit count : Nat) (token : Token) : (state.repeatLatest limit count token).Measured := by
  unfold Unrolling.repeatLatest
  split
  · exact measured
  · rename_i latest earlier made
    dsimp only
    split
    · exact measured
    · unfold Measured
      dsimp only
      rw [measured.size_eq made, List.reverse_append, List.reverse_replicate, flatten_append,
        List.length_append, length_flatten_replicate, Nat.add_sub_cancel, Nat.mul_comm]

end Unrolling

/-- Whatever is read, the size stays that of the elements. -/
theorem Unrolling.Measured.unrollOnto {state : Unrolling} (measured : state.Measured)
    (limit : Nat) (list : List Expression) :
    (Expression.unrollOnto limit state list).Measured := by
  induction list generalizing state with
  | nil => exact measured
  | cons element rest inductionHypothesis =>
      rcases repetition_or_plain element with ⟨count, token, rfl⟩ | plain
      · exact inductionHypothesis (measured.repeatLatest limit count token)
      · rw [unrollOnto_cons_of_plain plain]
        exact inductionHypothesis (measured.add _)

/-! ### One more at the end -/

theorem unrollOnto_append (limit : Nat) (state : Unrolling) (left right : List Expression) :
    unrollOnto limit state (left ++ right) =
      unrollOnto limit (unrollOnto limit state left) right := by
  induction left generalizing state with
  | nil => rfl
  | cons element rest inductionHypothesis =>
      rcases repetition_or_plain element with ⟨count, token, rfl⟩ | plain
      · exact inductionHypothesis _
      · rw [List.cons_append, unrollOnto_cons_of_plain plain, unrollOnto_cons_of_plain plain,
          inductionHypothesis]

section Growing

variable {limit count : Nat} {list earlier : List Expression} {element latest : Expression}
  {token : Token}

theorem unroll_nil (limit : Nat) : unroll limit [] = ([], []) := rfl

/-- The state behind a list is known from the expansion of the list. -/
theorem unrollOnto_eq (limit : Nat) (list : List Expression) :
    unrollOnto limit ⟨[], 0, []⟩ list =
      ⟨(unroll limit list).1.reverse, (flatten (unroll limit list).1).length,
        (unroll limit list).2⟩ := by
  have measured := Unrolling.measured_start.unrollOnto limit list
  unfold Unrolling.Measured at measured
  unfold unroll
  dsimp only
  rw [List.reverse_reverse, ← measured]

theorem unroll_concat (limit : Nat) (list : List Expression) (element : Expression) :
    unroll limit (list ++ [element]) =
      let state := unrollOnto limit ⟨(unroll limit list).1.reverse,
        (flatten (unroll limit list).1).length, (unroll limit list).2⟩ [element]
      (state.made.reverse, state.problems) := by
  rw [← unrollOnto_eq, ← unrollOnto_append]
  rfl

/-- An element is expanded by itself, and its problems come last. -/
theorem unroll_concat_of_plain (plain : element.isRepetition = false) :
    unroll limit (list ++ [element]) =
      ((unroll limit list).1 ++ [(unrollWithin limit element).1],
        (unroll limit list).2 ++ (unrollWithin limit element).2) := by
  rw [unroll_concat, unrollOnto_cons_of_plain (isRepetition_eq_false_iff.mp plain)]
  dsimp only [unrollOnto, Unrolling.add]
  rw [List.reverse_cons, List.reverse_reverse]

/-- A repetition behind nothing is a problem. -/
theorem unroll_concat_of_nothing (nothing : (unroll limit list).1 = []) :
    unroll limit (list ++ [.repetition count token]) =
      ([], (unroll limit list).2 ++ [Diagnostic.expansionAt token .nothingToRepeat]) := by
  rw [unroll_concat, nothing]
  rfl

/-- A repetition whose copies find room puts them in the place of the latest element. -/
theorem unroll_concat_of_room (made : (unroll limit list).1 = earlier ++ [latest])
    (room : (flatten earlier).length + count * latest.flatSize ≤ limit) :
    unroll limit (list ++ [.repetition count token]) =
      (earlier ++ List.replicate count latest, (unroll limit list).2) := by
  rw [unroll_concat, made, length_flatten_concat, List.reverse_concat]
  dsimp only [unrollOnto, Unrolling.repeatLatest]
  rw [Nat.add_sub_cancel, Nat.mul_comm, if_neg (Nat.not_lt.mpr room)]
  dsimp only
  rw [List.reverse_append, List.reverse_reverse, List.reverse_replicate]

/-- A repetition whose copies find no room is a problem, and the latest element stays. -/
theorem unroll_concat_of_no_room (made : (unroll limit list).1 = earlier ++ [latest])
    (full : limit < (flatten earlier).length + count * latest.flatSize) :
    unroll limit (list ++ [.repetition count token]) =
      (earlier ++ [latest],
        (unroll limit list).2 ++
          [Diagnostic.expansionAt token (.repetitionTooLarge count limit)]) := by
  rw [unroll_concat, made, length_flatten_concat, List.reverse_concat]
  dsimp only [unrollOnto, Unrolling.repeatLatest]
  rw [Nat.add_sub_cancel, Nat.mul_comm, if_pos full]
  dsimp only [Unrolling.fail]
  rw [List.reverse_cons, List.reverse_reverse]

end Growing

/-! ### Problems -/

/-- The problems of a list come first among those of a list that begins with it. -/
theorem problems_prefix_unroll_append (limit : Nat) (front behind : List Expression) :
    (unroll limit front).2 <+: (unroll limit (front ++ behind)).2 := by
  unfold unroll
  dsimp only
  rw [unrollOnto_append]
  exact problems_prefix_unrollOnto limit behind _

theorem silent_of_append {limit : Nat} {front behind : List Expression}
    (silent : (unroll limit (front ++ behind)).2 = []) : (unroll limit front).2 = [] := by
  have kept := problems_prefix_unroll_append limit front behind
  rw [silent] at kept
  exact List.prefix_nil.mp kept

theorem unrollWithin_group (limit : Nat) (items : List Expression) (token : Token) :
    unrollWithin limit (.group items token) =
      (.group (unroll limit items).1 token, (unroll limit items).2) := rfl

theorem unrollArguments_eq (limit : Nat) (arguments : List Expression) :
    unrollArguments limit arguments =
      (arguments.map fun argument => (unrollWithin limit argument).1,
        arguments.flatMap fun argument => (unrollWithin limit argument).2) := by
  induction arguments with
  | nil => rfl
  | cons argument rest inductionHypothesis =>
      rw [unrollArguments, inductionHypothesis]
      rfl

/-- The problems within an element are among those of the list. -/
theorem silent_within {limit : Nat} {list : List Expression}
    (silent : (unroll limit list).2 = []) :
    ∀ element ∈ list, (unrollWithin limit element).2 = [] := by
  intro element member
  obtain ⟨front, behind, rfl⟩ := List.append_of_mem member
  rw [List.append_cons] at silent
  have here := silent_of_append silent
  rcases repetition_or_plain element with ⟨count, token, rfl⟩ | plain
  · rfl
  · rw [unroll_concat_of_plain (isRepetition_eq_false_iff.mpr plain)] at here
    exact (List.append_eq_nil_iff.mp here).2

end Solfege.Expression
