import Solfege.Proofs.Evaluation.References

/-!
Contract: what has to hold of the macros that a value depends on.

Owns:
- the demands of an expression: the macros that it uses, each with a number of arguments;
- the demands that a list reaches through the bodies of macros;
- the proof that where there is a value, every demand that is reached is met by a macro
  with as many parameters, and none is for a macro that refers back to itself.

Does not own: how inlining reports a demand that is not met.

Nothing in the language is evaluated only at times. What an expression has in it is always
evaluated, so a value exists only where every demand is met and the references come to an
end.
-/

namespace Solfege

/-- A macro that is asked for by name, to be given a number of arguments. -/
structure Demand where
  name : String
  given : Nat

namespace Expression

/-- The demand of a member of a chord, unless it is a parameter. -/
def memberDemands (parameters : List String) : ChordMember → List Demand
  | .note _ => []
  | .reference name _ => if name ∈ parameters then [] else [⟨name, 0⟩]

mutual

/-- The demands of an expression, at any depth. A parameter is no demand, and the name of
a call always is one. -/
def demands (parameters : List String) : Expression → List Demand
  | .reference name _ => if name ∈ parameters then [] else [⟨name, 0⟩]
  | .call name arguments _ => ⟨name, arguments.length⟩ :: demandsOfAll parameters arguments
  | .group items _ => demandsOfAll parameters items
  | .hold inner _ => demands parameters inner
  | .chord members _ => members.flatMap (memberDemands parameters)
  | _ => []

/-- The demands of the elements of a list. -/
def demandsOfAll (parameters : List String) : List Expression → List Demand
  | [] => []
  | item :: rest => demands parameters item ++ demandsOfAll parameters rest

end

/-! ### Demands and uses -/

theorem map_name_memberDemands (parameters : List String) (member : ChordMember) :
    (memberDemands parameters member).map Demand.name = memberUses parameters member := by
  cases member with
  | note written => rfl
  | reference name token =>
      rw [memberDemands, memberUses]
      split <;> rfl

mutual

/-- The names that are used are those that are asked for. -/
theorem map_name_demands (parameters : List String) (expression : Expression) :
    (demands parameters expression).map Demand.name = uses parameters expression := by
  cases expression with
  | reference name token =>
      rw [demands, uses]
      split <;> rfl
  | call name arguments token =>
      rw [demands, uses, List.map_cons, map_name_demandsOfAll]
  | group items token => exact map_name_demandsOfAll parameters items
  | hold inner token => exact map_name_demands parameters inner
  | chord members token =>
      rw [demands, uses, List.map_flatMap]
      simp only [map_name_memberDemands]
  | _ => rfl

theorem map_name_demandsOfAll (parameters : List String) (list : List Expression) :
    (demandsOfAll parameters list).map Demand.name = usesOfAll parameters list := by
  cases list with
  | nil => rfl
  | cons item rest =>
      rw [demandsOfAll, usesOfAll, List.map_append, map_name_demands, map_name_demandsOfAll]

end

theorem mem_usesOfAll_iff {parameters : List String} {list : List Expression}
    {name : String} :
    name ∈ usesOfAll parameters list ↔
      ∃ demand ∈ demandsOfAll parameters list, demand.name = name := by
  rw [← map_name_demandsOfAll]
  exact List.mem_map

end Expression

open Expression

/-! ### Demands that are met -/

/-- The demand is for a macro that takes as many arguments as are given, and so are all
demands of its body. -/
inductive Demand.IsMet (find : String → Option Macro) : Demand → Prop where
  | intro {demand : Demand} {definition : Macro} (found : find demand.name = some definition)
      (arity : demand.given = definition.parameters.length)
      (inside : ∀ other ∈ demandsOfAll definition.parameters definition.body,
        IsMet find other) : IsMet find demand

/-- The demands of a list, and those of the macros that they are for, and so on. -/
inductive Reaches (find : String → Option Macro) (list : List Expression) : Demand → Prop where
  | direct {demand : Demand} (member : demand ∈ demandsOfAll [] list) :
      Reaches find list demand
  | through {demand other : Demand} {definition : Macro} (reached : Reaches find list demand)
      (found : find demand.name = some definition)
      (member : other ∈ demandsOfAll definition.parameters definition.body) :
      Reaches find list other

section Demands

variable {find : String → Option Macro}

theorem Demand.IsMet.acc {demand : Demand} (isMet : demand.IsMet find) :
    Acc (IsUsedBy find) demand.name := by
  induction isMet with
  | intro found _ _ inductionHypothesis =>
      apply IsUsedBy.acc_of_body found
      intro used member
      obtain ⟨other, otherMember, rfl⟩ := mem_usesOfAll_iff.mp member
      exact inductionHypothesis other otherMember

/-- A list all of whose demands are met reaches no other ones. -/
theorem Reaches.isMet {list : List Expression} {demand : Demand}
    (reached : Reaches find list demand)
    (direct : ∀ other ∈ demandsOfAll [] list, other.IsMet find) : demand.IsMet find := by
  induction reached with
  | direct member => exact direct _ member
  | through _ found member inductionHypothesis =>
      obtain ⟨otherFound, _, inside⟩ := inductionHypothesis
      rw [found] at otherFound
      rw [← Option.some.inj otherFound] at inside
      exact inside _ member

mutual

/-- The demands of an expression with a value are met. -/
theorem Evaluates.met {environment : Environment} {expression : Expression}
    {value : List Expression} :
    Evaluates find environment expression value →
      ∀ demand ∈ expression.demands environment.names, demand.IsMet find
  | .note _ => List.forall_mem_nil _
  | .release _ => List.forall_mem_nil _
  | .directive _ _ => List.forall_mem_nil _
  | .bar _ => List.forall_mem_nil _
  | .placeholder _ => List.forall_mem_nil _
  | .parameter token bound => by
      rw [demands,
        if_pos (Environment.mem_names_iff.mpr (by rw [bound]; exact Option.some_ne_none _))]
      exact List.forall_mem_nil _
  | .name token free found plain body => by
      rw [demands, if_neg (Environment.not_mem_names free)]
      refine List.forall_mem_singleton.mpr
        (.intro found (List.length_eq_zero_iff.mpr plain).symm ?_)
      rw [plain]
      exact body.met
  | .call token found arity each body => by
      have inside := body.met
      rw [each.names_zip arity] at inside
      exact List.forall_mem_cons.mpr ⟨.intro found arity inside, each.met⟩
  | .group _ each => each.met
  | .hold _ inside _ => inside.met
  | .chord _ each => each.met

theorem EvaluatesEach.met {environment : Environment} {list : List Expression}
    {values : List (List Expression)} :
    EvaluatesEach find environment list values →
      ∀ demand ∈ demandsOfAll environment.names list, demand.IsMet find
  | .nil => List.forall_mem_nil _
  | .cons head tail => List.forall_mem_append.mpr ⟨head.met, tail.met⟩

theorem EvaluatesMembers.met {environment : Environment} {members : List ChordMember}
    {contributions : List (List ChordMember)} :
    EvaluatesMembers find environment members contributions →
      ∀ demand ∈ members.flatMap (memberDemands environment.names), demand.IsMet find
  | .nil => List.forall_mem_nil _
  | .note _ tail => tail.met
  | .parameter token bound _ tail => by
      rw [List.flatMap_cons, memberDemands,
        if_pos (Environment.mem_names_iff.mpr (by rw [bound]; exact Option.some_ne_none _))]
      exact tail.met
  | .name token free inside _ tail => List.forall_mem_append.mpr ⟨inside.met, tail.met⟩

end

/-- The references of a list with values come to an end. -/
theorem EvaluatesEach.ends {environment : Environment} {list : List Expression}
    {values : List (List Expression)} (each : EvaluatesEach find environment list values) :
    ∀ name ∈ usesOfAll environment.names list, Acc (IsUsedBy find) name := by
  intro name member
  obtain ⟨demand, demandMember, rfl⟩ := mem_usesOfAll_iff.mp member
  exact (each.met demand demandMember).acc

end Demands

end Solfege
