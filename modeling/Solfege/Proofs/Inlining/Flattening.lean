import Solfege.Proofs.Inlining.Congruence
import Solfege.Proofs.Inlining.Turn

/-!
Contract: whether groups are spliced first makes no difference to the inlining of macros.

Owns:
- the proof that a spliced list is inlined as the list itself: in the same order, with the
  same problems and to the same point where the budget is spent;
- the proof that splicing a body before or after arguments are put in place comes to the
  same;
- the consequence for scores.

Does not own: the order of the passes. A group that is an argument stays one, and inlining
it leaves what it leaves of the items.
-/

namespace Solfege

open Expression

namespace Inlining

/-! ### Spliced lists -/

section Placing

variable (around : Surroundings) (unfolding : Unfolding)

theorem placeAll_append (left right : List Expression) (state : Inlining) :
    placeAll around unfolding (left ++ right) state =
      placeAll around unfolding right (placeAll around unfolding left state) := by
  induction left generalizing state with
  | nil => rfl
  | cons item rest inductionHypothesis =>
      rw [List.cons_append, placeAll, placeAll]
      split
      · rename_i exhausted
        exact (placeAll_of_exhausted right exhausted).symm
      · exact inductionHypothesis _

/-- An opened group is inlined as the group. -/
theorem placeAll_opened (expression : Expression) (state : Inlining) :
    placeAll around unfolding (opened expression) state =
      placeAll around unfolding [expression] state := by
  cases expression with
  | group items token =>
      rw [opened, placeAll, placeAll, place]
      split
      · rename_i exhausted
        exact placeAll_of_exhausted items exhausted
      · rfl
  | _ => rfl

mutual

/-- Splicing within an expression does not change what it is inlined to. -/
theorem place_settle (expression : Expression) (state : Inlining) :
    place around unfolding (settle expression) state =
      place around unfolding expression state := by
  cases expression with
  | group items token =>
      rw [settle_group, place, place]
      exact placeAll_flatten items state
  | call name arguments token =>
      rw [settle, place, place, placeArguments_settleAll arguments state, settleAll_eq,
        List.length_map]
  | hold inner token =>
      rw [settle, place, place, place_settle inner]
  | _ => rfl

/-- A spliced list is inlined as the list itself. -/
theorem placeAll_flatten (list : List Expression) (state : Inlining) :
    placeAll around unfolding (flatten list) state = placeAll around unfolding list state := by
  cases list with
  | nil => rfl
  | cons item rest =>
      rw [flatten_cons, placeAll_append, placeAll_opened, placeAll_flatten rest, placeAll,
        place_settle item, placeAll, placeAll]
      split
      · rename_i exhausted
        exact placeAll_of_exhausted rest exhausted
      · rfl

theorem placeArguments_settleAll (arguments : List Expression) (state : Inlining) :
    placeArguments around unfolding (settleAll arguments) state =
      placeArguments around unfolding arguments state := by
  cases arguments with
  | nil => rfl
  | cons argument rest =>
      rw [settleAll, placeArguments, placeArguments, place_settle argument, token_settle]
      dsimp only
      rw [placeArguments_settleAll rest]

end

end Placing

end Inlining

/-! ### Spliced bodies -/

namespace Expression

section Bodies

variable (bindings : Bindings)

/-- A group may be opened before arguments are put in place. -/
theorem flatten_map_opened (expression : Expression) :
    flatten ((opened expression).map (substitute bindings)) =
      flatten [substitute bindings expression] := by
  cases expression with
  | group items token => rw [substitute_group, flatten_singleton, settle_group, opened, opened]
  | _ => rfl

mutual

/-- Splicing within an expression may come before arguments are put in place. -/
theorem settle_substitute_settle (expression : Expression) :
    settle (substitute bindings (settle expression)) =
      settle (substitute bindings expression) := by
  cases expression with
  | group items token =>
      rw [settle_group, substitute_group, substitute_group, settle_group, settle_group,
        flatten_map_flatten items]
  | call name arguments token =>
      rw [settle, substitute_call, substitute_call, settle, settle,
        settleAll_map_settleAll arguments]
  | hold inner token =>
      rw [settle, substitute, substitute, settle, settle, settle_substitute_settle inner]
  | _ => rfl

theorem flatten_map_flatten (list : List Expression) :
    flatten ((flatten list).map (substitute bindings)) =
      flatten (list.map (substitute bindings)) := by
  cases list with
  | nil => rfl
  | cons item rest =>
      rw [flatten_cons, List.map_append, flatten_append, flatten_map_opened, flatten_singleton,
        settle_substitute_settle item, flatten_map_flatten rest, List.map_cons, flatten_cons]

theorem settleAll_map_settleAll (arguments : List Expression) :
    settleAll ((settleAll arguments).map (substitute bindings)) =
      settleAll (arguments.map (substitute bindings)) := by
  cases arguments with
  | nil => rfl
  | cons argument rest =>
      rw [settleAll, List.map_cons, List.map_cons, settleAll, settleAll,
        settle_substitute_settle argument, settleAll_map_settleAll rest]

end

/-- A body may be spliced before arguments are put in place. -/
theorem flatten_substituteAll_flatten (body : List Expression) :
    flatten (substituteAll bindings (flatten body)) = flatten (substituteAll bindings body) := by
  rw [substituteAll_eq, substituteAll_eq, flatten_map_flatten]

theorem chordProblemsAllOnto_append (found : List Diagnostic) (left right : List Expression) :
    chordProblemsAllOnto bindings found (left ++ right) =
      chordProblemsAllOnto bindings (chordProblemsAllOnto bindings found left) right := by
  induction left generalizing found with
  | nil => rfl
  | cons item rest inductionHypothesis => exact inductionHypothesis _

theorem chordProblemsAllOnto_opened (found : List Diagnostic) (expression : Expression) :
    chordProblemsAllOnto bindings found (opened expression) =
      chordProblemsOnto bindings found expression := by
  cases expression <;> rfl

mutual

theorem chordProblemsOnto_settle (found : List Diagnostic) (expression : Expression) :
    chordProblemsOnto bindings found (settle expression) =
      chordProblemsOnto bindings found expression := by
  cases expression with
  | group items token => exact chordProblemsAllOnto_flatten found items
  | call name arguments token => exact chordProblemsAllOnto_settleAll found arguments
  | hold inner token => exact chordProblemsOnto_settle found inner
  | _ => rfl

theorem chordProblemsAllOnto_flatten (found : List Diagnostic) (list : List Expression) :
    chordProblemsAllOnto bindings found (flatten list) =
      chordProblemsAllOnto bindings found list := by
  cases list with
  | nil => rfl
  | cons item rest =>
      rw [flatten_cons, chordProblemsAllOnto_append, chordProblemsAllOnto_opened,
        chordProblemsOnto_settle found item, chordProblemsAllOnto_flatten _ rest,
        chordProblemsAllOnto]

theorem chordProblemsAllOnto_settleAll (found : List Diagnostic) (arguments : List Expression) :
    chordProblemsAllOnto bindings found (settleAll arguments) =
      chordProblemsAllOnto bindings found arguments := by
  cases arguments with
  | nil => rfl
  | cons argument rest =>
      rw [settleAll, chordProblemsAllOnto, chordProblemsAllOnto,
        chordProblemsOnto_settle found argument, chordProblemsAllOnto_settleAll _ rest]

end

/-- The chords of a spliced body have the problems of the body, in the same order. -/
theorem chordProblems_flatten (body : List Expression) :
    chordProblems bindings (flatten body) = chordProblems bindings body := by
  unfold chordProblems
  rw [chordProblemsAllOnto_flatten]

end Bodies

end Expression

/-! ### Spliced macros -/

/-- The surroundings whose macros are spliced. -/
def Surroundings.flatten (around : Surroundings) : Surroundings :=
  { around with macros := around.macros.map Macro.flatten }

theorem Surroundings.pairs_flatten (around : Surroundings) :
    around.Pairs (fun definition variant => variant = definition.flatten) around.flatten where
  names := rfl
  limit := rfl
  site := rfl
  macros := by simp [flatten, List.forall₂_map_right_iff]
  name same := by rw [same, Macro.flatten]
  arity same := by rw [same, Macro.flatten]

namespace Inlining

/-- Spliced macros are inlined as the macros themselves. -/
theorem unfoldTo_flatten (around : Surroundings) (level : Nat) :
    UnfoldsTied (fun definition variant => variant = definition.flatten) (· = ·)
      (unfoldTo around level) (unfoldTo around.flatten level) := by
  induction level with
  | zero =>
      rintro definition _ arguments state _ rfl - rfl
      rfl
  | succ level inductionHypothesis =>
      rintro definition _ arguments state _ rfl - rfl
      have bodies : ∀ bindings inside,
          placeAll around.flatten (unfoldTo around.flatten level)
              (substituteAll bindings (Expression.flatten definition.body)) inside =
            placeAll around (unfoldTo around level)
              (substituteAll bindings definition.body) inside := by
        intro bindings inside
        rw [← placeAll_flatten, flatten_substituteAll_flatten, placeAll_flatten]
        exact (congruence_eq.placeAll around.pairs_flatten inductionHypothesis rfl _).symm
      rw [unfoldTo, unfoldTo]
      dsimp only [Macro.flatten]
      rw [chordProblems_flatten, bodies]

theorem ofList_flatten (around : Surroundings) (list : List Expression) :
    ofList around.flatten (Expression.flatten list) = ofList around list := by
  have levels : around.flatten.macros.length = around.macros.length := List.length_map _
  unfold ofList
  rw [placeAll_flatten, levels]
  exact (congruence_eq.placeAll around.pairs_flatten (unfoldTo_flatten around _) rfl list).symm

end Inlining

/-! ### Spliced scores -/

theorem Movement.flatten_inlineMacros (score : Score) (limit : Nat) (movement : Movement) :
    movement.flatten.inlineMacros score.flatten limit = movement.inlineMacros score limit := by
  have inlined := Inlining.ofList_flatten (score.around limit movement) movement.expressions
  unfold inlineMacros
  dsimp only
  rw [← inlined]
  rfl

theorem Track.flatten_inlineMacros (score : Score) (limit : Nat) (track : Track) :
    track.flatten.inlineMacros score.flatten limit = track.inlineMacros score limit := by
  unfold inlineMacros flatten
  dsimp only
  rw [changeAll_map_of_eq (Movement.flatten_inlineMacros score limit)]

/-- **Splicing is invisible to the inlining of macros.** A score has the same problems, in
the same order, whether its groups were spliced before or not, and its movements become the
same. -/
theorem Score.inlineMacros_flatten (limit : Nat) (score : Score) :
    (score.flatten.inlineMacros limit).2 = (score.inlineMacros limit).2 ∧
      (score.flatten.inlineMacros limit).1.tracks = (score.inlineMacros limit).1.tracks := by
  have changed : changeAll (Track.inlineMacros score.flatten limit) score.flatten.tracks =
      changeAll (Track.inlineMacros score limit) score.tracks :=
    changeAll_map_of_eq (Track.flatten_inlineMacros score limit) _
  rw [inlineMacros_eq, inlineMacros_eq, changed]
  exact ⟨rfl, rfl⟩

end Solfege
