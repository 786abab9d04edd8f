import Solfege.Proofs.Evaluation.Agreement
import Solfege.Proofs.FixedPoint.Lacking
import Solfege.Proofs.Inlining.Budget

/-!
Contract: expanding a score once more changes nothing.

Owns:
- the proof that what inlining made of a list is inlined to itself, for what was paid for it;
- the proof that each pass leaves a score alone that it has nothing to do on;
- the fixed point of inlining, with problems or without, and of the whole expansion where it
  has none.

Does not own: what the first expansion makes of a score.

The second run is charged for everything again. A hold was charged for its inside, too, so
it is the charge and not the cost that has to fit into the budget.
-/

namespace Solfege

open Expression

/-! ### Lists -/

namespace Inlining

/-- A settled list that the budget allows is inlined to itself. -/
theorem ofList_of_settled {around : Surroundings} {list : List Expression}
    (settled : ∀ expression ∈ list, Settled expression)
    (affordable : chargeAll list ≤ around.limit) :
    ofList around list = start.adding (chargeAll list) list := by
  unfold ofList
  have adds : Adds around start (chargeAll list) list
      (placeAll around (unfoldTo around around.macros.length) list start) :=
    placeAll_settled settled rfl
  apply adds.eq_of_le
  rw [show start.spent = 0 from rfl, Nat.zero_add]
  exact affordable

end Inlining

/-! ### Changes that change nothing -/

theorem changeAll_of_same {α : Type} {change : α → α × List Diagnostic} {things : List α}
    (same : ∀ thing ∈ things, change thing = (thing, [])) :
    changeAll change things = (things, []) := by
  have changed : things.map change = things.map fun thing => (thing, []) :=
    List.map_congr_left same
  unfold changeAll
  rw [changed]
  simp [Function.comp_def]

theorem map_of_same {α : Type} {change : α → α} {things : List α}
    (same : ∀ thing ∈ things, change thing = thing) : things.map change = things := by
  rw [List.map_congr_left same, List.map_id'']
  exact fun _ => rfl

namespace Score

variable {score : Score}

/-- A score without repetitions has none to expand, whatever the limit is. -/
theorem unroll_of_without (limit : Nat)
    (macros : ∀ definition ∈ score.macros, ∀ item ∈ definition.body,
      Without isRepetition item)
    (movements : ∀ movement ∈ score.movements, ∀ item ∈ movement.expressions,
      Without isRepetition item) : score.unroll limit = (score, []) := by
  have bodies : changeAll (Macro.unroll limit) score.macros = (score.macros, []) := by
    apply changeAll_of_same
    intro definition member
    unfold Macro.unroll
    rw [Expression.unroll_of_without limit (macros definition member)]
  have tracks : changeAll (Track.unroll limit) score.tracks = (score.tracks, []) := by
    apply changeAll_of_same
    intro track trackMember
    have inTrack : changeAll (Movement.unroll limit) track.movements =
        (track.movements, []) := by
      apply changeAll_of_same
      intro movement member
      unfold Movement.unroll
      rw [Expression.unroll_of_without limit
        (movements movement (List.mem_flatMap.mpr ⟨track, trackMember, member⟩))]
    unfold Track.unroll
    rw [inTrack]
  unfold unroll
  rw [bodies, tracks]
  rfl

/-- A score without groups has none to splice. -/
theorem flatten_of_without
    (macros : ∀ definition ∈ score.macros, ∀ item ∈ definition.body, Without isGroup item)
    (movements : ∀ movement ∈ score.movements, ∀ item ∈ movement.expressions,
      Without isGroup item) : score.flatten = score := by
  have bodies : score.macros.map Macro.flatten = score.macros := by
    apply map_of_same
    intro definition member
    unfold Macro.flatten
    rw [Expression.flatten_of_without (macros definition member)]
  have tracks : score.tracks.map Track.flatten = score.tracks := by
    apply map_of_same
    intro track trackMember
    have inTrack : track.movements.map Movement.flatten = track.movements := by
      apply map_of_same
      intro movement member
      unfold Movement.flatten
      rw [Expression.flatten_of_without
        (movements movement (List.mem_flatMap.mpr ⟨track, trackMember, member⟩))]
    unfold Track.flatten
    rw [inTrack]
  unfold flatten
  rw [bodies, tracks]

/-- A score whose movements are settled, and paid for, has nothing to inline. -/
theorem inlineMacros_of_settled {limit : Nat}
    (settled : ∀ movement ∈ score.movements, ∀ item ∈ movement.expressions, Settled item)
    (affordable : ∀ movement ∈ score.movements,
      Inlining.chargeAll movement.expressions ≤ limit) :
    score.inlineMacros limit = (score, []) := by
  have tracks : changeAll (Track.inlineMacros score limit) score.tracks =
      (score.tracks, []) := by
    apply changeAll_of_same
    intro track trackMember
    have inTrack : changeAll (Movement.inlineMacros score limit) track.movements =
        (track.movements, []) := by
      apply changeAll_of_same
      intro movement member
      have here : movement ∈ score.movements :=
        List.mem_flatMap.mpr ⟨track, trackMember, member⟩
      have affordableHere : Inlining.chargeAll movement.expressions ≤
          (score.around limit movement).limit := affordable movement here
      have same := Inlining.ofList_of_settled (settled movement here) affordableHere
      unfold Movement.inlineMacros
      dsimp only
      rw [same, Inlining.emitted_adding, Inlining.problems_adding]
      simp [Inlining.start]
    unfold Track.inlineMacros
    rw [inTrack]
  rw [inlineMacros_eq, tracks]
  rfl

/-! ### What the passes leave -/

theorem settled_of_mem_inlineMacros {limit : Nat} {movement : Movement}
    (member : movement ∈ (score.inlineMacros limit).1.movements) :
    ∀ item ∈ movement.expressions, Settled item := by
  obtain ⟨before, _, rfl⟩ := exists_of_mem_inlineMacros member
  intro item reversed
  exact Inlining.settled_ofList (score.around limit before) before.expressions item
    (List.mem_reverse.mp reversed)

theorem chargeAll_of_mem_inlineMacros_le {limit : Nat} {movement : Movement}
    (member : movement ∈ (score.inlineMacros limit).1.movements) :
    Inlining.chargeAll movement.expressions ≤ limit := by
  obtain ⟨before, _, rfl⟩ := exists_of_mem_inlineMacros member
  have paid := Inlining.chargeAll_ofList_le (score.around limit before) before.expressions
  rw [← Inlining.chargeAll_reverse] at paid
  exact paid

/-- Inlining once more changes nothing, under the same budget or a larger one. -/
theorem inlineMacros_inlineMacros (score : Score) {small large : Nat} (le : small ≤ large) :
    (score.inlineMacros small).1.inlineMacros large = ((score.inlineMacros small).1, []) := by
  apply inlineMacros_of_settled
  · intro movement member
    exact settled_of_mem_inlineMacros member
  · intro movement member
    exact Nat.le_trans (chargeAll_of_mem_inlineMacros_le member) le

/-- The bodies of macros are left without repetitions and without groups. -/
theorem without_of_mem_macros_expand {limit : Nat} (silent : (score.expand limit).2 = [])
    {definition : Macro} (member : definition ∈ (score.expand limit).1.macros) :
    ∀ item ∈ definition.body, Without isRepetition item ∧ Without isGroup item := by
  rw [expand_of_silent (unroll_silent_of_expand silent)] at member
  obtain ⟨unrolled, unrolledMember, rfl⟩ := List.mem_map.mp member
  rw [unroll_macros] at unrolledMember
  obtain ⟨original, _, rfl⟩ := List.mem_map.mp unrolledMember
  intro item inBody
  constructor
  · exact without_flatten_repetitions (without_unroll limit original.body) item inBody
  · exact without_flatten_groups _ item inBody

/-- Expanding once more changes nothing, bodies of macros included. -/
theorem expand_expand {small large : Nat} (le : small ≤ large)
    (silent : (score.expand small).2 = []) :
    (score.expand small).1.expand large = ((score.expand small).1, []) := by
  have expanded := expand_of_silent (unroll_silent_of_expand silent)
  have settled : ∀ movement ∈ (score.expand small).1.movements,
      ∀ item ∈ movement.expressions, Settled item := by
    rw [expanded]
    intro movement member
    exact settled_of_mem_inlineMacros member
  have unrolled : (score.expand small).1.unroll large = ((score.expand small).1, []) := by
    apply unroll_of_without
    · intro definition member item inBody
      exact (without_of_mem_macros_expand silent member item inBody).1
    · intro movement member item inMovement
      exact (settled movement member item inMovement).without.1
  have flattened : (score.expand small).1.flatten = (score.expand small).1 := by
    apply flatten_of_without
    · intro definition member item inBody
      exact (without_of_mem_macros_expand silent member item inBody).2
    · intro movement member item inMovement
      exact (settled movement member item inMovement).without.2
  have quiet : ((score.expand small).1.unroll large).2 = [] := by rw [unrolled]
  rw [expand_of_silent quiet, unrolled]
  dsimp only
  rw [flattened, expanded]
  exact inlineMacros_inlineMacros _ le

end Score

/-! ### Main result -/

/-- **Expansion reaches a fixed point.** What inlining made of a score, with problems or
without, is inlined to itself and without problems, under the same budget or a larger one.
And a score that was expanded without problems is expanded to itself, the bodies of its
macros included. -/
theorem expansion_reaches_fixed_point (score : Score) {small large : Nat} (le : small ≤ large) :
    (score.inlineMacros small).1.inlineMacros large = ((score.inlineMacros small).1, []) ∧
      ((score.expand small).2 = [] →
        (score.expand small).1.expand large = ((score.expand small).1, [])) :=
  ⟨score.inlineMacros_inlineMacros le, Score.expand_expand le⟩

/-- The call `outer(mi)` is cut off under a budget of two, and not under one of five. -/
theorem expansion_reaches_fixed_point_passed_on :
    (PassedOn.score.inlineMacros 2).2 ≠ [] ∧
      (PassedOn.score.inlineMacros 2).1.inlineMacros 5 =
        ((PassedOn.score.inlineMacros 2).1, []) ∧
      (PassedOn.score.expand 5).1.expand 9 = ((PassedOn.score.expand 5).1, []) := by
  have small : 2 ≤ 5 := by decide
  have large : 5 ≤ 9 := by decide
  have silent : (PassedOn.score.expand 5).2 = [] := rfl
  refine ⟨?_, (expansion_reaches_fixed_point PassedOn.score small).1,
    (expansion_reaches_fixed_point PassedOn.score large).2 silent⟩
  decide

end Solfege
