import Solfege.Proofs.Inlining.Congruence
import Solfege.Proofs.Inlining.Turn

/-!
Contract: macros that behave alike can stand for each other.

Owns:
- when two macros are alike: they have one name, take as many arguments, and have the same
  body once arguments are in place;
- the proof that inlining among macros that are alike takes the same steps, emits the same
  and spends the same, and meets problems in the same places;
- the consequence for scores whose macros are alike one by one.

Does not own: which macros are alike. The texts of the problems may differ, so only whether
there are any is compared.
-/

namespace Solfege

open Expression

/-- The macros have one name and the same body once as many arguments are in place as both
have parameters. -/
structure Macro.IsAlike (definition other : Macro) : Prop where
  name : other.name = definition.name
  arity : other.parameters.length = definition.parameters.length
  body : ∀ arguments : List Expression, arguments.length = definition.parameters.length →
    substituteAll (other.parameters.zip arguments) other.body =
      substituteAll (definition.parameters.zip arguments) definition.body
  problems : ∀ arguments : List Expression,
    arguments.length = definition.parameters.length →
    (chordProblems (other.parameters.zip arguments) other.body).length =
      (chordProblems (definition.parameters.zip arguments) definition.body).length

theorem Macro.IsAlike.refl (definition : Macro) : definition.IsAlike definition :=
  ⟨rfl, rfl, fun _ _ => rfl, fun _ _ => rfl⟩

namespace Inlining

/-- The states are the same but for the problems listed in them, and either both list some
or none does. -/
structure Alike (left right : Inlining) : Prop where
  emitted : right.emitted = left.emitted
  spent : right.spent = left.spent
  exhausted : right.exhausted = left.exhausted
  active : right.active = left.active
  failures : right.failures = left.failures
  silent : right.problems = [] ↔ left.problems = []

namespace Alike

variable {left right : Inlining}

theorem refl (state : Inlining) : Alike state state :=
  ⟨rfl, rfl, rfl, rfl, rfl, Iff.rfl⟩

/-- Whatever the problem is on either side, both list one. -/
theorem fail (alike : Alike left right) (diagnostic other : Diagnostic) :
    Alike (left.fail diagnostic) (right.fail other) where
  emitted := alike.emitted
  spent := alike.spent
  exhausted := alike.exhausted
  active := alike.active
  failures := congrArg Nat.succ alike.failures
  silent := iff_of_false (problems_fail_ne_nil right other) (problems_fail_ne_nil left diagnostic)

theorem fails (alike : Alike left right) {diagnostics others : List Diagnostic}
    (same : others.length = diagnostics.length) :
    Alike (diagnostics.foldl Inlining.fail left) (others.foldl Inlining.fail right) := by
  induction diagnostics generalizing left right others with
  | nil =>
      rw [List.eq_nil_of_length_eq_zero same]
      exact alike
  | cons diagnostic rest inductionHypothesis =>
      cases others with
      | nil => contradiction
      | cons other others => exact inductionHypothesis (alike.fail _ _) (Nat.succ.inj same)

end Alike

theorem congruence_alike : Congruence Alike where
  emitted alike := alike.emitted
  spent alike := alike.spent
  exhausted alike := alike.exhausted
  active alike := alike.active
  louder alike after := by rw [alike.failures, after.failures]
  fail alike diagnostic := alike.fail diagnostic diagnostic
  emitting alike _ := { alike with emitted := rfl }
  spending alike _ := { alike with spent := rfl }
  exhausting alike := { alike with exhausted := rfl }
  activating alike _ := { alike with active := rfl }

/-- Inlining macros that are alike, to however many levels. -/
theorem unfoldTo_alike {around other : Surroundings}
    (pairs : around.Pairs Macro.IsAlike other) (level : Nat) :
    UnfoldsTied Macro.IsAlike Alike (unfoldTo around level) (unfoldTo other level) := by
  induction level with
  | zero =>
      intro definition variant arguments left right same arity alike
      exact alike.fail _ _
  | succ level inductionHypothesis =>
      intro definition variant arguments left right same arity alike
      have warned := alike.fails (same.problems arguments arity)
      have entered := congruence_alike.entering warned definition.name
      have inside := congruence_alike.placeAll pairs inductionHypothesis entered
        (substituteAll (definition.parameters.zip arguments) definition.body)
      rw [unfoldTo, unfoldTo, same.body arguments arity, same.name]
      exact congruence_alike.leaving inside

/-- One list, inlined among macros that are alike. -/
theorem ofList_alike {around other : Surroundings}
    (pairs : around.Pairs Macro.IsAlike other) (list : List Expression) :
    Alike (ofList around list) (ofList other list) := by
  unfold ofList
  rw [pairs.macros.length_eq]
  exact congruence_alike.placeAll pairs (unfoldTo_alike pairs _) (.refl start) list

end Inlining

/-! ### Scores -/

/-- The scores are the same but for their macros, and those are alike one by one. -/
structure Score.IsAlike (score other : Score) : Prop where
  names : other.names = score.names
  tracks : other.tracks = score.tracks
  macros : List.Forall₂ Macro.IsAlike score.macros other.macros

section Scores

variable {score other : Score} (alike : score.IsAlike other)

include alike

theorem Movement.inlineMacros_alike (limit : Nat) (movement : Movement) :
    ((movement.inlineMacros other limit).2 = [] ↔ (movement.inlineMacros score limit).2 = []) ∧
      (movement.inlineMacros other limit).1 = (movement.inlineMacros score limit).1 := by
  have pairs : (score.around limit movement).Pairs Macro.IsAlike (other.around limit movement) :=
    ⟨alike.names, rfl, rfl, alike.macros, fun same => same.name, fun same => same.arity⟩
  have inlined := Inlining.ofList_alike pairs movement.expressions
  constructor
  · exact inlined.silent
  · unfold inlineMacros
    dsimp only
    rw [inlined.emitted]

theorem Track.inlineMacros_alike (limit : Nat) (track : Track) :
    (track.inlineMacros other limit).1 = (track.inlineMacros score limit).1 := by
  have movements : (changeAll (Movement.inlineMacros other limit) track.movements).1 =
      (changeAll (Movement.inlineMacros score limit) track.movements).1 := by
    rw [changeAll_fst, changeAll_fst]
    exact List.map_congr_left fun movement _ => (movement.inlineMacros_alike alike limit).2
  unfold inlineMacros
  dsimp only
  rw [movements]

/-- Macros that are alike are inlined into the same movements, and with problems or
without. -/
theorem Score.inlineMacros_alike (limit : Nat) :
    ((other.inlineMacros limit).2 = [] ↔ (score.inlineMacros limit).2 = []) ∧
      (other.inlineMacros limit).1.tracks = (score.inlineMacros limit).1.tracks := by
  constructor
  · rw [inlineMacros_snd_eq_nil_iff, inlineMacros_snd_eq_nil_iff]
    unfold movements
    rw [alike.tracks]
    exact forall₂_congr fun movement _ => (movement.inlineMacros_alike alike limit).1
  · rw [inlineMacros_tracks, inlineMacros_tracks, alike.tracks]
    exact List.map_congr_left fun track _ => track.inlineMacros_alike alike limit

end Scores

end Solfege
