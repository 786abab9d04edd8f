import Solfege.Expansion.Repetition

/-!
Contract: what the limit of a list changes in the expansion of repetitions.

Owns:
- problems are only added: a list that was expanded without any has none in its parts;
- a larger limit makes no difference to a list that the smaller one did not refuse;
- where each of several things needs some limit, there is one limit for all of them.

Does not own: what the copies are.
-/

namespace Solfege

/-- Where each thing in a list is fine from some bound on, all of them are from one bound
on. -/
theorem exists_bound_of_forall_mem {α : Type} {list : List α} {fine : α → Nat → Prop}
    (each : ∀ item ∈ list, ∃ bound, ∀ limit, bound ≤ limit → fine item limit) :
    ∃ bound, ∀ limit, bound ≤ limit → ∀ item ∈ list, fine item limit := by
  induction list with
  | nil => exact ⟨0, fun _ _ => List.forall_mem_nil _⟩
  | cons item rest inductionHypothesis =>
      rw [List.forall_mem_cons] at each
      obtain ⟨here, itemFine⟩ := each.1
      obtain ⟨there, restFine⟩ := inductionHypothesis each.2
      refine ⟨max here there, fun limit enough => List.forall_mem_cons.mpr ⟨?_, ?_⟩⟩
      · exact itemFine limit (Nat.le_trans (Nat.le_max_left _ _) enough)
      · exact restFine limit (Nat.le_trans (Nat.le_max_right _ _) enough)

namespace Expression

/-! ### Problems are only added -/

namespace Unrolling

theorem problems_add (state : Unrolling) (element : Expression × List Diagnostic) :
    (state.add element).problems = state.problems ++ element.2 := rfl

theorem problems_fail (state : Unrolling) (token : Token) (problem : ExpansionProblem) :
    (state.fail token problem).problems =
      state.problems ++ [Diagnostic.expansionAt token problem] := rfl

theorem problems_prefix_repeatLatest (limit count : Nat) (token : Token) (state : Unrolling) :
    state.problems <+: (state.repeatLatest limit count token).problems := by
  unfold repeatLatest
  split
  · exact List.prefix_append _ _
  · dsimp only
    split
    · exact List.prefix_append _ _
    · exact List.prefix_rfl

/-- A repetition that was not refused is not refused under a larger limit. -/
theorem repeatLatest_of_le {small large : Nat} (le : small ≤ large) {count : Nat}
    {token : Token} {state : Unrolling}
    (silent : (state.repeatLatest small count token).problems = []) :
    state.repeatLatest large count token = state.repeatLatest small count token := by
  unfold repeatLatest at silent ⊢
  split
  · rfl
  · rename_i latest earlier made
    rw [made] at silent
    dsimp only at silent ⊢
    by_cases refused :
        small < state.size - latest.flatSize + latest.flatSize * count
    · rw [if_pos refused, problems_fail] at silent
      exact absurd silent (List.append_ne_nil_of_right_ne_nil _ (List.cons_ne_nil _ _))
    · rw [if_neg refused, if_neg (by omega)]

end Unrolling

theorem problems_prefix_unrollOnto (limit : Nat) (list : List Expression) (state : Unrolling) :
    state.problems <+: (unrollOnto limit state list).problems := by
  induction list generalizing state with
  | nil => exact List.prefix_rfl
  | cons element rest inductionHypothesis =>
      rcases repetition_or_plain element with ⟨count, token, rfl⟩ | plain
      · exact (Unrolling.problems_prefix_repeatLatest limit count token state).trans
          (inductionHypothesis _)
      · rw [unrollOnto_cons_of_plain plain]
        refine List.IsPrefix.trans ?_ (inductionHypothesis _)
        rw [Unrolling.problems_add]
        exact List.prefix_append _ _

theorem problems_eq_nil_of_unrollOnto {limit : Nat} {list : List Expression}
    {state : Unrolling} (silent : (unrollOnto limit state list).problems = []) :
    state.problems = [] := by
  have kept := problems_prefix_unrollOnto limit list state
  rw [silent] at kept
  exact List.prefix_nil.mp kept

/-! ### A larger limit -/

mutual

theorem unrollWithin_of_le {small large : Nat} (le : small ≤ large) (expression : Expression)
    (silent : (unrollWithin small expression).2 = []) :
    unrollWithin large expression = unrollWithin small expression := by
  cases expression with
  | group items token =>
      rw [unrollWithin] at silent
      rw [unrollWithin, unrollWithin, unrollOnto_of_le le items ⟨[], 0, []⟩ silent]
  | call name arguments token =>
      rw [unrollWithin] at silent
      rw [unrollWithin, unrollWithin, unrollArguments_of_le le arguments silent]
  | hold inner token =>
      rw [unrollWithin] at silent
      rw [unrollWithin, unrollWithin, unrollWithin_of_le le inner silent]
  | _ => rfl

theorem unrollArguments_of_le {small large : Nat} (le : small ≤ large)
    (arguments : List Expression) (silent : (unrollArguments small arguments).2 = []) :
    unrollArguments large arguments = unrollArguments small arguments := by
  cases arguments with
  | nil => rfl
  | cons argument rest =>
      rw [unrollArguments] at silent
      obtain ⟨here, behind⟩ := List.append_eq_nil_iff.mp silent
      rw [unrollArguments, unrollArguments, unrollWithin_of_le le argument here,
        unrollArguments_of_le le rest behind]

theorem unrollOnto_of_le {small large : Nat} (le : small ≤ large) (list : List Expression)
    (state : Unrolling) (silent : (unrollOnto small state list).problems = []) :
    unrollOnto large state list = unrollOnto small state list := by
  cases list with
  | nil => rfl
  | cons element rest =>
      rcases repetition_or_plain element with ⟨count, token, rfl⟩ | plain
      · rw [unrollOnto] at silent
        have here := problems_eq_nil_of_unrollOnto silent
        rw [unrollOnto, unrollOnto, Unrolling.repeatLatest_of_le le here,
          unrollOnto_of_le le rest _ silent]
      · rw [unrollOnto_cons_of_plain plain] at silent
        have here := problems_eq_nil_of_unrollOnto silent
        rw [Unrolling.problems_add] at here
        rw [unrollOnto_cons_of_plain plain, unrollOnto_cons_of_plain plain,
          unrollWithin_of_le le element (List.append_eq_nil_iff.mp here).2,
          unrollOnto_of_le le rest _ silent]

end

/-- A larger limit makes no difference to a list that was expanded without problems. -/
theorem unroll_of_le {small large : Nat} (le : small ≤ large) {list : List Expression}
    (silent : (unroll small list).2 = []) : unroll large list = unroll small list := by
  unfold unroll at silent ⊢
  rw [unrollOnto_of_le le list ⟨[], 0, []⟩ silent]

end Expression

end Solfege
