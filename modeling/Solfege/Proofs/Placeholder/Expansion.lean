import Solfege.Expansion.Score
import Solfege.Proofs.Evaluation.Basic
import Solfege.Proofs.Placeholder.Basic
import Solfege.Proofs.Repetition.Copies

/-!
Contract: expansion makes no placeholders.

Owns:
- the proof for each pass that where a score has no placeholder, the pass puts none into
  it: repetitions copy what is there, splicing keeps it, and what macros evaluate to comes
  from their bodies and from the movement.

Does not own: that a score has no placeholder when expansion begins.
-/

namespace Solfege

namespace Expression

/-! ### Repetitions -/

theorem placeholders_unrollWithin (limit : Nat) (expression : Expression)
    (free : expression.placeholders = 0) :
    (unrollWithin limit expression).1.placeholders = 0 := by
  induction expression using partsInduction with
  | group items token others =>
      rw [unrollWithin_group]
      refine placeholdersOfAll_eq_zero_iff.mpr fun copy member => ?_
      obtain ⟨element, inList, rfl⟩ := exists_of_mem_unroll member
      exact others element inList (placeholdersOfAll_eq_zero_iff.mp free element inList)
  | call name arguments token others =>
      rw [unrollWithin, unrollArguments_eq]
      refine placeholdersOfAll_eq_zero_iff.mpr (List.forall_mem_map.mpr fun argument member => ?_)
      exact others argument member (placeholdersOfAll_eq_zero_iff.mp free argument member)
  | hold inner token here => exact here free
  | _ => exact free

/-- Expanding repetitions makes no placeholders. -/
theorem placeholders_unroll (limit : Nat) {list : List Expression}
    (free : placeholdersOfAll list = 0) : placeholdersOfAll (unroll limit list).1 = 0 := by
  rw [placeholdersOfAll_eq_zero_iff] at free ⊢
  intro copy member
  obtain ⟨element, inList, rfl⟩ := exists_of_mem_unroll member
  exact placeholders_unrollWithin limit element (free element inList)

/-! ### Groups -/

mutual

theorem placeholders_spliceOnto (spliced : List Expression) (expression : Expression) :
    placeholdersOfAll (spliceOnto spliced expression) =
      expression.placeholders + placeholdersOfAll spliced := by
  cases expression with
  | group items token => exact placeholders_spliceAllOnto spliced items
  | call name arguments token =>
      exact congrArg (· + placeholdersOfAll spliced) (placeholders_settleAll arguments)
  | hold inner token =>
      exact congrArg (· + placeholdersOfAll spliced) (placeholders_settle inner)
  | _ => rfl

theorem placeholders_spliceAllOnto (spliced list : List Expression) :
    placeholdersOfAll (spliceAllOnto spliced list) =
      placeholdersOfAll list + placeholdersOfAll spliced := by
  cases list with
  | nil => exact (Nat.zero_add _).symm
  | cons item rest =>
      rw [spliceAllOnto, placeholders_spliceAllOnto, placeholders_spliceOnto,
        placeholdersOfAll_cons]
      omega

theorem placeholders_settle (expression : Expression) :
    (settle expression).placeholders = expression.placeholders := by
  cases expression with
  | group items token =>
      change placeholdersOfAll (spliceAllOnto [] items).reverse = placeholdersOfAll items
      rw [placeholdersOfAll_reverse, placeholders_spliceAllOnto]
      rfl
  | call name arguments token => exact placeholders_settleAll arguments
  | hold inner token => exact placeholders_settle inner
  | _ => rfl

theorem placeholders_settleAll (arguments : List Expression) :
    placeholdersOfAll (settleAll arguments) = placeholdersOfAll arguments := by
  cases arguments with
  | nil => rfl
  | cons argument rest =>
      rw [settleAll, placeholdersOfAll_cons, placeholdersOfAll_cons, placeholders_settle,
        placeholders_settleAll]

end

/-- Splicing groups keeps the placeholders that there are. -/
theorem placeholders_flatten (list : List Expression) :
    placeholdersOfAll (flatten list) = placeholdersOfAll list := by
  unfold flatten
  rw [placeholdersOfAll_reverse, placeholders_spliceAllOnto]
  rfl

end Expression

open Expression (placeholdersOfAll)

/-! ### Macros -/

theorem placeholdersOfAll_flatten {values : List (List Expression)}
    (free : ∀ value ∈ values, placeholdersOfAll value = 0) :
    placeholdersOfAll values.flatten = 0 := by
  rw [Expression.placeholdersOfAll_eq_zero_iff, List.forall_mem_flatten]
  exact fun value member => Expression.placeholdersOfAll_eq_zero_iff.mp (free value member)

/-- An environment in whose values nothing could not be read. -/
def Environment.IsFree (environment : Environment) : Prop :=
  ∀ name value, environment.lookup name = some value → placeholdersOfAll value = 0

theorem Environment.isFree_zip {given : List (List Expression)}
    (free : ∀ value ∈ given, placeholdersOfAll value = 0) (parameters : List String) :
    Environment.IsFree (parameters.zip given) := by
  intro name value bound
  exact free value (mem_of_lookup_zip bound)

theorem Environment.isFree_nil : Environment.IsFree [] := by
  intro _ _ impossible
  contradiction

section Values

variable {find : String → Option Macro}

mutual

/-- What an expression without placeholders evaluates to has none, if the bodies of macros
have none. -/
theorem Evaluates.free {environment : Environment} {expression : Expression}
    {value : List Expression}
    (bodies : ∀ name definition, find name = some definition → definition.placeholders = 0)
    (known : environment.IsFree) (free : expression.placeholders = 0) :
    Evaluates find environment expression value → placeholdersOfAll value = 0
  | .note _ => rfl
  | .release _ => rfl
  | .directive _ _ => rfl
  | .bar _ => rfl
  | .placeholder _ => by contradiction
  | .parameter _ bound => known _ _ bound
  | .name _ _ found _ body =>
      placeholdersOfAll_flatten (body.free bodies Environment.isFree_nil (bodies _ _ found))
  | .call _ found _ each body =>
      placeholdersOfAll_flatten (body.free bodies
        (Environment.isFree_zip (each.free bodies known free) _) (bodies _ _ found))
  | .group _ each => placeholdersOfAll_flatten (each.free bodies known free)
  | .hold _ inside _ => by
      have single := inside.free bodies known (by exact free)
      exact single
  | .chord _ _ => rfl

theorem EvaluatesEach.free {environment : Environment} {list : List Expression}
    {values : List (List Expression)}
    (bodies : ∀ name definition, find name = some definition → definition.placeholders = 0)
    (known : environment.IsFree) (free : placeholdersOfAll list = 0) :
    EvaluatesEach find environment list values → ∀ value ∈ values, placeholdersOfAll value = 0
  | .nil => List.forall_mem_nil _
  | .cons head tail => by
      rw [Expression.placeholdersOfAll_cons, Nat.add_eq_zero_iff] at free
      exact List.forall_mem_cons.mpr
        ⟨head.free bodies known free.1, tail.free bodies known free.2⟩

end

end Values

/-! ### Scores -/

namespace Score

variable {score : Score}

theorem placeholders_unroll (limit : Nat) (free : score.placeholders = 0) :
    (score.unroll limit).1.placeholders = 0 := by
  rw [placeholders_eq_zero_iff] at free ⊢
  rw [unroll_macros, unroll_movements, List.forall_mem_map, List.forall_mem_map]
  exact ⟨fun definition member => Expression.placeholders_unroll limit (free.1 definition member),
    fun movement member => Expression.placeholders_unroll limit (free.2 movement member)⟩

theorem placeholders_flatten (free : score.placeholders = 0) :
    score.flatten.placeholders = 0 := by
  rw [placeholders_eq_zero_iff] at free ⊢
  rw [flatten_movements, List.forall_mem_map]
  refine ⟨?_, ?_⟩
  · exact List.forall_mem_map.mpr fun definition member =>
      (Expression.placeholders_flatten definition.body).trans (free.1 definition member)
  · exact fun movement member =>
      (Expression.placeholders_flatten movement.expressions).trans (free.2 movement member)

end Score

end Solfege
