import Solfege.Proofs.Evaluation.Completeness
import Solfege.Proofs.Evaluation.Soundness
import Solfege.Proofs.Inlining.Turn
import Solfege.Proofs.Repetition.Limit

/-!
Contract: inlining and evaluation agree on whole scores.

Owns:
- the value of a movement;
- the proof that a movement whose macros are inlined without problems has become its
  value, and that a score all of whose movements have a value is inlined without problems
  under every budget that is large enough.

Does not own: the two halves for single expressions.
-/

namespace Solfege

/-- What a movement stands for: the values of its expressions, one after another, where no
parameter is known. -/
def Movement.EvaluatesTo (score : Score) (movement : Movement) (value : List Expression) :
    Prop :=
  ∃ values, EvaluatesEach score.macro? [] movement.expressions values ∧ value = values.flatten

theorem Movement.EvaluatesTo.deterministic {score : Score} {movement : Movement}
    {value other : List Expression} (first : movement.EvaluatesTo score value)
    (second : movement.EvaluatesTo score other) : value = other := by
  obtain ⟨values, each, rfl⟩ := first
  obtain ⟨others, otherEach, rfl⟩ := second
  rw [each.deterministic otherEach]

theorem Movement.evaluatesTo_of_silent {score : Score} {limit : Nat} {movement : Movement}
    (silent : (movement.inlineMacros score limit).2 = []) :
    movement.EvaluatesTo score (movement.inlineMacros score limit).1.expressions := by
  obtain ⟨values, each, emitted⟩ := Inlining.ofList_sound silent
  refine ⟨values, each, ?_⟩
  change (Inlining.ofList (score.around limit movement)
    movement.expressions).emitted.reverse = values.flatten
  rw [emitted, List.reverse_reverse]

theorem Movement.silent_of_evaluatesTo {score : Score} {movement : Movement}
    {value : List Expression}
    (faithful : ∀ name definition, score.macro? name = some definition →
      definition.name = name)
    (evaluates : movement.EvaluatesTo score value) :
    ∃ budget, ∀ limit, budget ≤ limit → (movement.inlineMacros score limit).2 = [] := by
  obtain ⟨values, each, _⟩ := evaluates
  obtain ⟨toll, silent⟩ := each.exists_toll faithful
  exact ⟨toll, fun limit enough => silent (score.around limit movement) rfl enough⟩

/-! ### A macro that passes its argument on -/

namespace PassedOn

/-- The token of everything in this score. -/
def token : Token := ⟨"x", .word, ⟨1, 1⟩⟩

/-- A note of the given name. -/
def sounding (name : Syllable) : Expression := .note ⟨name, 0, none, none, token⟩

/-- The macros `inner(y) = y do` and `outer(x) = inner(x) x`. -/
def macros : List Macro :=
  [⟨"inner", ["y"], [.reference "y" token, sounding .ut], token⟩,
    ⟨"outer", ["x"],
      [.call "inner" [.reference "x" token] token, .reference "x" token], token⟩]

/-- A movement that consists of the call `outer(mi)`. -/
def movement : Movement := ⟨"piano", none, [.call "outer" [sounding .mi] token], token⟩

/-- The score with these macros and this movement. -/
def score : Score where
  metadata := []
  macros := macros
  tracks := [⟨"global", [movement]⟩]
  names := ⟨[("inner", .macroAt 1), ("outer", .macroAt 2), ("piano", .movementAt 1 1)]⟩
  diagnostics := []

theorem name_eq_of_macro? {name : String} {definition : Macro}
    (found : score.macro? name = some definition) : definition.name = name := by
  by_cases inner : name = "inner"
  · subst inner
    rw [← Option.some.inj found]
  · by_cases outer : name = "outer"
    · subst outer
      rw [← Option.some.inj found]
    · by_cases piano : name = "piano"
      · subst piano
        contradiction
      · have unknown : score.names.get? name = none := by
          simp [score, NameTable.get?, List.lookup_cons, beq_false_of_ne inner, beq_false_of_ne outer,
            beq_false_of_ne piano]
        unfold Score.macro? NameTable.macroIndex? at found
        rw [unknown] at found
        contradiction

end PassedOn

/-! ### Main result -/

/-- **Inlining is evaluation.** Where the macros of a score are inlined without problems,
each movement has become its value, which is the only one that it has. Conversely, where
every name of a macro stands for a macro of that name and every movement has a value, the
macros are inlined without problems under all budgets from a certain one on. -/
theorem inlineMacros_agrees_with_evaluation (score : Score) :
    (∀ limit, (score.inlineMacros limit).2 = [] →
      List.Forall₂ (fun before after => ∀ value,
          before.EvaluatesTo score value ↔ value = after.expressions)
        score.movements (score.inlineMacros limit).1.movements) ∧
      ((∀ name definition, score.macro? name = some definition → definition.name = name) →
        (∀ movement ∈ score.movements, ∃ value, movement.EvaluatesTo score value) →
        ∃ budget, ∀ limit, budget ≤ limit → (score.inlineMacros limit).2 = []) := by
  constructor
  · intro limit silent
    rw [Score.inlineMacros_snd_eq_nil_iff] at silent
    rw [Score.inlineMacros_movements, List.forall₂_map_right_iff, List.forall₂_same]
    intro movement member value
    have became := Movement.evaluatesTo_of_silent (silent movement member)
    constructor
    · exact fun evaluates => evaluates.deterministic became
    · rintro rfl
      exact became
  · intro faithful evaluate
    have each : ∀ movement ∈ score.movements, ∃ budget, ∀ limit, budget ≤ limit →
        (movement.inlineMacros score limit).2 = [] := by
      intro movement member
      obtain ⟨value, evaluates⟩ := evaluate movement member
      exact Movement.silent_of_evaluatesTo faithful evaluates
    obtain ⟨budget, silent⟩ := exists_bound_of_forall_mem each
    exact ⟨budget, fun limit enough =>
      Score.inlineMacros_snd_eq_nil_iff.mpr (silent limit enough)⟩

theorem inlineMacros_agrees_with_evaluation_passed_on :
    (PassedOn.score.inlineMacros 5).2 = [] ∧
      PassedOn.movement.EvaluatesTo PassedOn.score
        [PassedOn.sounding .mi, PassedOn.sounding .ut, PassedOn.sounding .mi] ∧
      ∃ budget, ∀ limit, budget ≤ limit → (PassedOn.score.inlineMacros limit).2 = [] := by
  have agrees : List.Forall₂ (fun before after => ∀ value,
        before.EvaluatesTo PassedOn.score value ↔ value = after.expressions)
      [PassedOn.movement] [(PassedOn.movement.inlineMacros PassedOn.score 5).1] :=
    (inlineMacros_agrees_with_evaluation PassedOn.score).1 5 rfl
  have evaluates := ((List.forall₂_cons.mp agrees).1 _).mpr rfl
  refine ⟨rfl, evaluates, ?_⟩
  refine (inlineMacros_agrees_with_evaluation PassedOn.score).2
    (fun _ _ => PassedOn.name_eq_of_macro?) ?_
  exact List.forall_mem_singleton.mpr ⟨_, evaluates⟩

end Solfege
