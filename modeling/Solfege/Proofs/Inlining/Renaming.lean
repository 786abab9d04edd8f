import Solfege.Proofs.Evaluation.Agreement
import Solfege.Proofs.Inlining.Alike

/-!
Contract: the names of parameters do not matter.

Owns:
- the renaming of the names in an expression, and of the parameters of a macro;
- the names that the body of a macro mentions, which a renaming must not run into;
- the proof that a macro with other names for its parameters is alike to the one before,
  so that every score with it is inlined as before.

Does not own: the names of calls, which are never parameters.
-/

namespace Solfege

/-! ### Renaming -/

def ChordMember.rename (change : String → String) : ChordMember → ChordMember
  | .note written => .note written
  | .reference name token => .reference (change name) token

/-- The name that a member of a chord mentions. -/
def ChordMember.mentions : ChordMember → List String
  | .note _ => []
  | .reference name _ => [name]

namespace Expression

mutual

/-- The expression with other names, at any depth. The names of calls stay. -/
def rename (change : String → String) : Expression → Expression
  | .reference name token => .reference (change name) token
  | .call name arguments token => .call name (renameAll change arguments) token
  | .group items token => .group (renameAll change items) token
  | .hold inner token => .hold (rename change inner) token
  | .chord members token => .chord (members.map (ChordMember.rename change)) token
  | other => other

def renameAll (change : String → String) : List Expression → List Expression
  | [] => []
  | item :: rest => rename change item :: renameAll change rest

end

mutual

/-- The names in an expression, at any depth. The names of calls do not count. -/
def mentions : Expression → List String
  | .reference name _ => [name]
  | .call _ arguments _ => mentionsOfAll arguments
  | .group items _ => mentionsOfAll items
  | .hold inner _ => mentions inner
  | .chord members _ => members.flatMap ChordMember.mentions
  | _ => []

def mentionsOfAll : List Expression → List String
  | [] => []
  | item :: rest => mentions item ++ mentionsOfAll rest

end

end Expression

/-- The name that takes the place of a name in the body of a macro. -/
def Macro.newName (definition : Macro) (change : String → String) (name : String) : String :=
  if name ∈ definition.parameters then change name else name

/-- The macro with other names for its parameters, where they are listed and wherever they
are mentioned. -/
def Macro.rename (change : String → String) (definition : Macro) : Macro :=
  { definition with
    parameters := definition.parameters.map change
    body := Expression.renameAll (definition.newName change) definition.body }

/-! ### Arguments in place of renamed parameters -/

open Expression

/-- For the names listed, other bindings give to the new name what the bindings give to the
name, and a name that is not bound stays the same. -/
structure Expression.Bindings.Renamed (change : String → String) (bindings other : Bindings)
    (names : List String) : Prop where
  lookup : ∀ name ∈ names, other.lookup (change name) = bindings.lookup name
  free : ∀ name ∈ names, bindings.lookup name = none → change name = name

namespace Expression

section Renamed

variable {change : String → String} {bindings other : Bindings}

theorem Bindings.Renamed.of_subset {names fewer : List String}
    (renamed : Bindings.Renamed change bindings other names) (subset : fewer ⊆ names) :
    Bindings.Renamed change bindings other fewer where
  lookup name member := renamed.lookup name (subset member)
  free name member := renamed.free name (subset member)

theorem substituteMember_rename {member : ChordMember}
    (renamed : Bindings.Renamed change bindings other member.mentions) :
    substituteMember other (member.rename change) = substituteMember bindings member := by
  cases member with
  | note written => rfl
  | reference name token =>
      have listed : name ∈ [name] := List.mem_singleton_self name
      rw [ChordMember.rename, substituteMember, substituteMember, renamed.lookup name listed]
      cases bound : bindings.lookup name with
      | none => rw [renamed.free name listed bound]
      | some argument => cases argument <;> rfl

theorem substituteMembers_rename {members : List ChordMember}
    (renamed : Bindings.Renamed change bindings other (members.flatMap ChordMember.mentions)) :
    (members.map (ChordMember.rename change)).flatMap (substituteMember other) =
      members.flatMap (substituteMember bindings) := by
  rw [List.flatMap_map]
  apply List.flatMap_congr
  intro member listed
  apply substituteMember_rename
  apply renamed.of_subset
  intro name mentioned
  exact List.mem_flatMap.mpr ⟨member, listed, mentioned⟩

mutual

/-- The same argument is put in place of a parameter, whatever its name is. -/
theorem substitute_rename {expression : Expression}
    (renamed : Bindings.Renamed change bindings other expression.mentions) :
    substitute other (expression.rename change) = substitute bindings expression := by
  cases expression with
  | reference name token =>
      have listed : name ∈ [name] := List.mem_singleton_self name
      rw [rename, substitute, substitute, renamed.lookup name listed]
      cases bound : bindings.lookup name with
      | none => rw [renamed.free name listed bound]
      | some argument => rfl
  | call name arguments token =>
      rw [rename, substitute_call, substitute_call, map_substitute_renameAll renamed]
  | group items token =>
      rw [rename, substitute_group, substitute_group, map_substitute_renameAll renamed]
  | hold inner token =>
      have inside : Bindings.Renamed change bindings other inner.mentions := renamed
      rw [rename, substitute, substitute, substitute_rename inside]
  | chord members token => rw [rename, substitute, substitute, substituteMembers_rename renamed]
  | _ => rfl

theorem map_substitute_renameAll {list : List Expression}
    (renamed : Bindings.Renamed change bindings other (mentionsOfAll list)) :
    (renameAll change list).map (substitute other) = list.map (substitute bindings) := by
  cases list with
  | nil => rfl
  | cons item rest =>
      have here := renamed.of_subset (List.subset_append_left item.mentions (mentionsOfAll rest))
      have others :=
        renamed.of_subset (List.subset_append_right item.mentions (mentionsOfAll rest))
      rw [renameAll, List.map_cons, List.map_cons, substitute_rename here,
        map_substitute_renameAll others]

end

theorem isSome_memberProblem?_rename {member : ChordMember}
    (renamed : Bindings.Renamed change bindings other member.mentions) :
    (memberProblem? other (member.rename change)).isSome =
      (memberProblem? bindings member).isSome := by
  cases member with
  | note written => rfl
  | reference name token =>
      rw [ChordMember.rename, memberProblem?, memberProblem?,
        renamed.lookup name (List.mem_singleton_self name)]
      cases bindings.lookup name with
      | none => rfl
      | some argument => cases argument <;> rfl

theorem length_memberProblems_rename {members : List ChordMember}
    (renamed : Bindings.Renamed change bindings other (members.flatMap ChordMember.mentions)) :
    ((members.map (ChordMember.rename change)).filterMap (memberProblem? other)).length =
      (members.filterMap (memberProblem? bindings)).length := by
  rw [List.length_filterMap_eq_countP, List.length_filterMap_eq_countP, List.countP_map]
  apply List.countP_congr
  intro member listed
  rw [Function.comp_apply, isSome_memberProblem?_rename]
  apply renamed.of_subset
  intro name mentioned
  exact List.mem_flatMap.mpr ⟨member, listed, mentioned⟩

mutual

theorem length_chordProblemsOnto_rename (expression : Expression)
    (renamed : Bindings.Renamed change bindings other expression.mentions) :
    (chordProblemsOnto other [] (expression.rename change)).length =
      (chordProblemsOnto bindings [] expression).length := by
  cases expression with
  | call name arguments token => exact length_chordProblemsAllOnto_rename arguments renamed
  | group items token => exact length_chordProblemsAllOnto_rename items renamed
  | hold inner token => exact length_chordProblemsOnto_rename inner renamed
  | chord members token =>
      rw [rename, chordProblemsOnto, chordProblemsOnto, List.append_nil, List.append_nil,
        List.length_reverse, List.length_reverse]
      exact length_memberProblems_rename renamed
  | _ => rfl

theorem length_chordProblemsAllOnto_rename (list : List Expression)
    (renamed : Bindings.Renamed change bindings other (mentionsOfAll list)) :
    (chordProblemsAllOnto other [] (renameAll change list)).length =
      (chordProblemsAllOnto bindings [] list).length := by
  cases list with
  | nil => rfl
  | cons item rest =>
      have here := renamed.of_subset (List.subset_append_left item.mentions (mentionsOfAll rest))
      have others :=
        renamed.of_subset (List.subset_append_right item.mentions (mentionsOfAll rest))
      rw [renameAll, chordProblemsAllOnto, chordProblemsAllOnto, chordProblemsAllOnto_eq,
        chordProblemsAllOnto_eq bindings (chordProblemsOnto bindings [] item),
        List.length_append, List.length_append, length_chordProblemsOnto_rename item here,
        length_chordProblemsAllOnto_rename rest others]

end

end Renamed

/-! ### Parameters -/

/-- A name is looked up by its place in a list of parameters. -/
theorem lookup_zip_map {change : String → String} {name renamed : String}
    {parameters : List String}
    (same : ∀ parameter ∈ parameters, renamed = change parameter ↔ name = parameter)
    (arguments : List Expression) :
    ((parameters.map change).zip arguments).lookup renamed =
      (parameters.zip arguments).lookup name := by
  induction parameters generalizing arguments with
  | nil => rfl
  | cons parameter rest inductionHypothesis =>
      obtain ⟨here, others⟩ := List.forall_mem_cons.mp same
      cases arguments with
      | nil => rfl
      | cons argument arguments =>
          rw [List.map_cons, List.zip_cons_cons, List.zip_cons_cons, List.lookup_cons,
            List.lookup_cons, inductionHypothesis others]
          by_cases equal : name = parameter
          · rw [beq_iff_eq.mpr equal, beq_iff_eq.mpr (here.mpr equal)]
          · rw [beq_eq_false_iff_ne.mpr equal, beq_eq_false_iff_ne.mpr (mt here.mp equal)]

end Expression

section Macros

variable {definition : Macro} {change : String → String}
  (distinct : ∀ parameter ∈ definition.parameters, ∀ other ∈ definition.parameters,
    change parameter = change other → parameter = other)
  (fresh : ∀ parameter ∈ definition.parameters,
    change parameter ∈ mentionsOfAll definition.body →
      change parameter ∈ definition.parameters)

include distinct fresh

/-- A mentioned name takes the new name of a parameter only if it is that parameter. -/
theorem Macro.newName_eq_iff {name : String} (mentioned : name ∈ mentionsOfAll definition.body) :
    ∀ parameter ∈ definition.parameters,
      definition.newName change name = change parameter ↔ name = parameter := by
  intro parameter isParameter
  unfold newName
  by_cases bound : name ∈ definition.parameters
  · rw [if_pos bound]
    constructor
    · exact distinct name bound parameter isParameter
    · exact congrArg change
  · rw [if_neg bound]
    constructor
    · intro taken
      rw [taken] at mentioned bound
      exact absurd (fresh parameter isParameter mentioned) bound
    · intro same
      rw [same] at bound
      exact absurd isParameter bound

theorem Macro.renamed_zip {arguments : List Expression}
    (arity : arguments.length = definition.parameters.length) :
    Bindings.Renamed (definition.newName change) (definition.parameters.zip arguments)
      ((definition.parameters.map change).zip arguments) (mentionsOfAll definition.body) where
  lookup name mentioned :=
    lookup_zip_map (Macro.newName_eq_iff distinct fresh mentioned) arguments
  free name mentioned unbound := by
    have other : name ∉ definition.parameters := by
      rw [← List.map_fst_zip (Nat.le_of_eq arity.symm), mem_map_fst_iff_lookup_ne_none]
      exact not_not_intro unbound
    exact if_neg other

/-- A macro with other names for its parameters is alike to the one before. -/
theorem Macro.isAlike_rename : definition.IsAlike (definition.rename change) where
  name := rfl
  arity := List.length_map change
  body arguments arity := by
    rw [substituteAll_eq, substituteAll_eq]
    exact map_substitute_renameAll (Macro.renamed_zip distinct fresh arity)
  problems arguments arity := by
    unfold chordProblems
    rw [List.length_reverse, List.length_reverse]
    exact length_chordProblemsAllOnto_rename _ (Macro.renamed_zip distinct fresh arity)

end Macros

/-! ### Scores -/

theorem forall₂_isAlike_set {macros : List Macro} {index : Nat} {definition variant : Macro}
    (there : macros[index]? = some definition) (alike : definition.IsAlike variant) :
    List.Forall₂ Macro.IsAlike macros (macros.set index variant) := by
  induction macros generalizing index with
  | nil => contradiction
  | cons first rest inductionHypothesis =>
      cases index with
      | zero =>
          rw [← Option.some.inj there] at alike
          exact .cons alike (List.forall₂_same.mpr fun other _ => .refl other)
      | succ index => exact .cons (.refl first) (inductionHypothesis there)

/-- The score with other names for the parameters of one macro. -/
def Score.renameParameters (score : Score) (index : Nat) (definition : Macro)
    (change : String → String) : Score :=
  { score with macros := score.macros.set index (definition.rename change) }

/-! ### Main result -/

/-- **The names of parameters do not matter.** Take a macro of a score, and give its
parameters other names, each one its own, that the body does not mention unless they are
those of parameters, too. Whatever the budget is, the macros of the score are inlined with
problems as before or without as before, and into the same tracks. -/
theorem inlineMacros_renameParameters {score : Score} {index : Nat} {definition : Macro}
    (there : score.macros[index]? = some definition) (change : String → String)
    (distinct : ∀ parameter ∈ definition.parameters, ∀ other ∈ definition.parameters,
      change parameter = change other → parameter = other)
    (fresh : ∀ parameter ∈ definition.parameters,
      change parameter ∈ mentionsOfAll definition.body →
        change parameter ∈ definition.parameters) (limit : Nat) :
    (((score.renameParameters index definition change).inlineMacros limit).2 = [] ↔
        (score.inlineMacros limit).2 = []) ∧
      ((score.renameParameters index definition change).inlineMacros limit).1.tracks =
        (score.inlineMacros limit).1.tracks := by
  have alike : score.IsAlike (score.renameParameters index definition change) :=
    ⟨rfl, rfl, forall₂_isAlike_set there (Macro.isAlike_rename distinct fresh)⟩
  exact Score.inlineMacros_alike alike limit

/-- The parameter of `outer(x) = inner(x) x` takes the name that `inner` gives its own. -/
theorem inlineMacros_renameParameters_passed_on :
    ((PassedOn.score.renameParameters 1 PassedOn.macros[1] fun _ => "y").inlineMacros 5).2 =
        [] ∧
      ((PassedOn.score.renameParameters 1 PassedOn.macros[1] fun _ => "y").inlineMacros
          5).1.tracks =
        (PassedOn.score.inlineMacros 5).1.tracks := by
  have there : PassedOn.score.macros[1]? = some PassedOn.macros[1] := rfl
  have same := inlineMacros_renameParameters there (fun _ => "y") (by decide) (by decide) 5
  exact ⟨same.1.mpr rfl, same.2⟩

end Solfege
