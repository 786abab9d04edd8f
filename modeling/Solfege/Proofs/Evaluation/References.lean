import Solfege.Proofs.Evaluation.Basic
import Solfege.Proofs.Names.Table
import Mathlib.Logic.Relation

/-!
Contract: which macros an expression refers to.

Owns:
- the names that an expression uses, apart from parameters, at any depth;
- the relation between a macro and the names that its body uses;
- the law that references which come to an end run in no circle;
- the names that an environment gives a value.

Does not own: which references come to an end, or the problem that a macro within itself
is.
-/

namespace Solfege

namespace Expression

/-- The name that a member of a chord uses, unless it is a parameter. -/
def memberUses (parameters : List String) : ChordMember → List String
  | .note _ => []
  | .reference name _ => if name ∈ parameters then [] else [name]

mutual

/-- The names that an expression uses and that are not parameters. The name of a call
never is. -/
def uses (parameters : List String) : Expression → List String
  | .reference name _ => if name ∈ parameters then [] else [name]
  | .call name arguments _ => name :: usesOfAll parameters arguments
  | .group items _ => usesOfAll parameters items
  | .hold inner _ => uses parameters inner
  | .chord members _ => members.flatMap (memberUses parameters)
  | _ => []

/-- The names that the elements of a list use. -/
def usesOfAll (parameters : List String) : List Expression → List String
  | [] => []
  | item :: rest => uses parameters item ++ usesOfAll parameters rest

end

end Expression

open Expression

/-- The body of the macro that a name stands for uses another name. -/
def IsUsedBy (find : String → Option Macro) (name user : String) : Prop :=
  ∃ definition, find user = some definition ∧
    name ∈ usesOfAll definition.parameters definition.body

section References

variable {find : String → Option Macro}

/-- A name whose references come to an end does not lead back to itself. -/
theorem IsUsedBy.not_circular {name : String} (ends : Acc (IsUsedBy find) name) :
    ¬ Relation.TransGen (IsUsedBy find) name name := by
  have every := ends.transGen
  induction every with
  | intro name _ inductionHypothesis =>
      intro circle
      exact inductionHypothesis name circle (ends.inv_of_transGen circle) circle

/-- The references of a name end if those of the body that it stands for do. -/
theorem IsUsedBy.acc_of_body {name : String} {definition : Macro}
    (found : find name = some definition)
    (ends : ∀ used ∈ usesOfAll definition.parameters definition.body,
      Acc (IsUsedBy find) used) : Acc (IsUsedBy find) name := by
  refine Acc.intro name fun used isUsed => ?_
  obtain ⟨other, otherFound, member⟩ := isUsed
  rw [found] at otherFound
  rw [← Option.some.inj otherFound] at member
  exact ends used member

/-- The names that an environment gives a value. -/
def Environment.names (environment : Environment) : List String :=
  environment.map Prod.fst

theorem Environment.mem_names_iff {environment : Environment} {name : String} :
    name ∈ environment.names ↔ environment.lookup name ≠ none :=
  mem_map_fst_iff_lookup_ne_none

theorem Environment.not_mem_names {environment : Environment} {name : String}
    (free : environment.lookup name = none) : name ∉ environment.names := by
  rw [mem_names_iff]
  exact not_not_intro free

theorem EvaluatesEach.length_eq {environment : Environment} {list : List Expression}
    {values : List (List Expression)} (each : EvaluatesEach find environment list values) :
    values.length = list.length := by
  induction list generalizing values with
  | nil => cases each; rfl
  | cons item rest inductionHypothesis =>
      cases each with
      | cons _ tail => rw [List.length_cons, List.length_cons, inductionHypothesis tail]

/-- The environment of a body gives all parameters a value, and no other name. -/
theorem EvaluatesEach.names_zip {environment : Environment} {arguments : List Expression}
    {given : List (List Expression)} {parameters : List String}
    (each : EvaluatesEach find environment arguments given)
    (arity : arguments.length = parameters.length) :
    Environment.names (parameters.zip given) = parameters := by
  unfold Environment.names
  rw [List.map_fst_zip (Nat.le_of_eq (arity.symm.trans each.length_eq.symm))]

end References

end Solfege
