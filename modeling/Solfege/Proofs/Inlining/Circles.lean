import Solfege.Proofs.Evaluation.Agreement
import Solfege.Proofs.Names.Expansion
import Solfege.Token.Lexeme
import Mathlib.Data.List.Chain

/-!
Contract: a macro within itself is reported exactly where the references run in a circle.

Owns:
- the names that are left once arguments are in place of parameters;
- the proof that every macro being inlined is used by the one around it, so that the
  problem of a macro within itself names a way around a circle;
- the other direction on scores: where inlining meets no problem, every demand that is
  reached is met, and none is part of a circle.

Does not own: references in the bodies of macros that no movement reaches.

Arguments are inlined before the macro that they are given to is entered. So the names
that are met inside are those of its body, and not those that the caller wrote.
-/

namespace Solfege

open Expression

/-! ### Names left in place of parameters -/

/-- The arguments that are bound use no names. -/
def Expression.Bindings.Nameless (bindings : Bindings) : Prop :=
  ∀ name argument, bindings.lookup name = some argument → argument.uses [] = []

theorem Expression.Bindings.not_mem_names {bindings : Bindings} {name : String}
    (free : bindings.lookup name = none) : name ∉ bindings.map Prod.fst := by
  rw [mem_map_fst_iff_lookup_ne_none]
  exact not_not_intro free

section Substitution

variable {bindings : Bindings} (nameless : bindings.Nameless)

include nameless

theorem memberUses_substituteMember (member : ChordMember) :
    (substituteMember bindings member).flatMap (memberUses []) ⊆
      memberUses (bindings.map Prod.fst) member := by
  cases member with
  | note written => exact List.Subset.refl _
  | reference name token =>
      unfold substituteMember
      dsimp only
      split
      · rename_i free
        rw [memberUses, if_neg (Bindings.not_mem_names free)]
        exact List.Subset.refl _
      · exact List.nil_subset _
      · rename_i members _ bound
        have none : members.flatMap (memberUses []) = [] := nameless name _ bound
        rw [none]
        exact List.nil_subset _
      · exact List.nil_subset _

theorem uses_reference_substitute (name : String) (token : Token) :
    (substitute bindings (.reference name token)).uses [] ⊆
      uses (bindings.map Prod.fst) (.reference name token) := by
  rw [substitute]
  split
  · rename_i argument bound
    rw [nameless name argument bound]
    exact List.nil_subset _
  · rename_i free
    rw [uses, uses, if_neg (Bindings.not_mem_names free)]
    exact List.Subset.refl _

/-- With arguments in place of parameters the names are left that are no parameters. -/
theorem uses_substitute (expression : Expression) :
    (substitute bindings expression).uses [] ⊆ expression.uses (bindings.map Prod.fst) := by
  induction expression using Expression.rec
    (motive_2 := fun list =>
      usesOfAll [] (list.map (substitute bindings)) ⊆ usesOfAll (bindings.map Prod.fst) list) with
  | nil => exact List.Subset.refl _
  | cons item rest here others =>
      rw [List.map_cons, usesOfAll, usesOfAll]
      apply List.append_subset.mpr
      constructor
      · exact List.subset_append_of_subset_left _ here
      · exact List.subset_append_of_subset_right _ others
  | reference name token => exact uses_reference_substitute nameless name token
  | call name arguments token others =>
      rw [substitute_call]
      exact List.cons_subset_cons name others
  | group items token others =>
      rw [substitute_group]
      exact others
  | hold inner token here => exact here
  | chord members token =>
      intro name member
      rw [substitute, uses, List.flatMap_assoc] at member
      obtain ⟨written, writtenMember, found⟩ := List.mem_flatMap.mp member
      exact List.mem_flatMap.mpr
        ⟨written, writtenMember, memberUses_substituteMember nameless written found⟩
  | _ => exact List.nil_subset _

theorem usesOfAll_substituteAll (list : List Expression) :
    usesOfAll [] (substituteAll bindings list) ⊆ usesOfAll (bindings.map Prod.fst) list := by
  have grouped := uses_substitute nameless (.group list default)
  rw [substitute_group] at grouped
  rw [substituteAll_eq]
  exact grouped

end Substitution

theorem Expression.Bindings.nameless_zip {arguments : List Expression}
    (nameless : ∀ argument ∈ arguments, argument.uses [] = []) (parameters : List String) :
    Bindings.Nameless (parameters.zip arguments) := by
  intro name argument bound
  exact nameless argument (mem_of_lookup_zip bound)

/-! ### Ways around a circle -/

/-- Each name of a trail is used by the one behind it. -/
def IsTrail (find : String → Option Macro) (names : List String) : Prop :=
  names.IsChain (IsUsedBy find)

/-- Each name leads to the next one, and the last one is the first. -/
structure IsRoundTrip (find : String → Option Macro) (name : String) (chain : List String) :
    Prop where
  closed : ∃ between, chain = name :: between ++ [name]
  leads : chain.IsChain fun user used => IsUsedBy find used user

/-- If the problem is that of a macro within itself, it names a way around a circle. -/
def Diagnostic.IsTraced (find : String → Option Macro) (diagnostic : Diagnostic) : Prop :=
  ∀ name chain, diagnostic.problem = .ofExpansion (.selfReference name chain) →
    IsRoundTrip find name chain

namespace Inlining

theorem takeWhile_concat_isPrefix {name : String} {active : List String}
    (member : name ∈ active) :
    ∃ rest, active = (active.takeWhile fun other => other ≠ name) ++ [name] ++ rest := by
  induction active with
  | nil => contradiction
  | cons first active inductionHypothesis =>
      by_cases same : first = name
      · refine ⟨active, ?_⟩
        rw [List.takeWhile_cons_of_neg (by simp [same]), same]
        rfl
      · obtain ⟨rest, split⟩ :=
          inductionHypothesis ((List.mem_cons.mp member).resolve_left (Ne.symm same))
        refine ⟨rest, ?_⟩
        rw [List.takeWhile_cons_of_pos (by simp [same]), List.cons_append, List.cons_append,
          ← split]

/-- Where a trail leads back to a macro that is being inlined, the part of it up to there is
a way around a circle. -/
theorem isRoundTrip_chain {find : String → Option Macro} {name : String}
    {active : List String} (member : name ∈ active) (trail : IsTrail find (name :: active)) :
    IsRoundTrip find name (chain active name) where
  closed := ⟨_, rfl⟩
  leads := by
    obtain ⟨rest, split⟩ := takeWhile_concat_isPrefix member
    have backwards : (chain active name).reverse =
        name :: ((active.takeWhile fun other => other ≠ name) ++ [name]) := by
      simp [chain]
    apply List.isChain_reverse.mp
    rw [backwards]
    unfold IsTrail at trail
    rw [split, ← List.cons_append] at trail
    exact trail.left_of_append

section Problems

variable {around : Surroundings}
  (faithful : ∀ name definition, around.macro? name = some definition → definition.name = name)

theorem isTraced_of_ne {find : String → Option Macro} {diagnostic : Diagnostic}
    (other : ∀ name chain, diagnostic.problem ≠ .ofExpansion (.selfReference name chain)) :
    diagnostic.IsTraced find :=
  fun name chain same => absurd same (other name chain)

include faithful

/-- A use is refused at the end of a trail. -/
theorem isTraced_callee {active : List String} {name : String} {given : Nat} {token : Token}
    {diagnostic : Diagnostic} (trail : IsTrail around.macro? (name :: active))
    (refused : callee around active name given token = .error diagnostic) :
    diagnostic.IsTraced around.macro? := by
  unfold callee at refused
  cases named : macroNamed around name token with
  | error cause =>
      rw [named] at refused
      rw [← Except.error.inj refused]
      apply isTraced_of_ne
      intro other chain
      unfold macroNamed at named
      split at named
      · split at named
        · contradiction
        · rw [← Except.error.inj named]
          exact Problem.noConfusion
      · rw [← Except.error.inj named]
        simp [Diagnostic.expansionAt]
      · rw [← Except.error.inj named]
        simp [Diagnostic.expansionAt]
  | ok definition =>
      have found := (macroNamed_eq_ok_iff token).mp named
      rw [named] at refused
      dsimp only at refused
      rw [faithful name definition found] at refused
      split at refused
      · rename_i running
        rw [← Except.error.inj refused]
        intro other chain same
        obtain ⟨rfl, rfl⟩ : name = other ∧ Inlining.chain active name = chain := by
          simpa [Diagnostic.expansionAt] using same
        exact isRoundTrip_chain (List.contains_iff_mem.mp running) trail
      · split at refused
        · rw [← Except.error.inj refused]
          apply isTraced_of_ne
          simp [Diagnostic.expansionAt]
        · contradiction

end Problems

/-! ### Inlining keeps to the trail -/

/-- Every problem met so far of a macro within itself names a way around a circle. -/
def Traced (around : Surroundings) (state : Inlining) : Prop :=
  ∀ diagnostic ∈ state.problems, diagnostic.IsTraced around.macro?

/-- The name comes next on the trail of the macros being inlined. -/
def Continues (around : Surroundings) (active : List String) (name : String) : Prop :=
  IsTrail around.macro? (name :: active)

theorem traced_invariant {around : Surroundings}
    (faithful : ∀ name definition, around.macro? name = some definition →
      definition.name = name) :
    Invariant around (Continues around) (Diagnostic.IsTraced around.macro?)
      (Traced around) where
  fail _ _ traced isTraced := forall_mem_problems_fail traced isTraced
  emitting _ _ traced := traced
  spending _ _ _ traced := traced
  fine_expansion token problem other := by
    apply isTraced_of_ne
    intro name chain same
    exact other name chain (Problem.ofExpansion.inj same)
  fine_callee _ _ _ _ _ trail refused := isTraced_callee faithful trail refused

/-- Macros are inlined along the trail, to however many levels. -/
theorem unfoldTo_keeps_traced {around : Surroundings}
    (faithful : ∀ name definition, around.macro? name = some definition →
      definition.name = name) (level : Nat) :
    UnfoldsKeeping around (Continues around) (Traced around) (unfoldTo around level) := by
  have invariant := traced_invariant faithful
  induction level with
  | zero =>
      intro name token definition arguments state _ _ _ traced
      exact invariant.fail _ _ traced (isTraced_of_ne fun _ _ => Problem.noConfusion)
  | succ level inductionHypothesis =>
      intro name token definition arguments state trail accepted nameless traced
      obtain ⟨found, _, arity⟩ := callee_eq_ok_iff.mp accepted
      have named := faithful name definition found
      subst named
      let bindings := definition.parameters.zip arguments
      let warned := (chordProblems bindings definition.body).foldl fail state
      have areTraced : ∀ diagnostic ∈ chordProblems bindings definition.body,
          diagnostic.IsTraced around.macro? :=
        forall_mem_chordProblems (fun token name =>
          invariant.fine_expansion token _ fun _ _ => ExpansionProblem.noConfusion) _ _
      have entered : Traced around { warned with active := definition.name :: warned.active } :=
        invariant.fails traced areTraced
      have still : warned.active = state.active := (fails_course around _ state).active_eq
      apply invariant.placeAll (unfoldTo_course around level) inductionHypothesis _ entered
      intro used member
      have inBody := usesOfAll_substituteAll
        (Bindings.nameless_zip nameless definition.parameters) definition.body member
      rw [List.map_fst_zip (Nat.le_of_eq arity.symm)] at inBody
      have isUsed : IsUsedBy around.macro? used definition.name := ⟨definition, found, inBody⟩
      change IsTrail around.macro? (used :: definition.name :: warned.active)
      rw [still]
      exact .cons_cons isUsed trail

/-- A list that stands in no macro is inlined along trails that begin in it. -/
theorem isTraced_ofList {around : Surroundings}
    (faithful : ∀ name definition, around.macro? name = some definition →
      definition.name = name) (list : List Expression) :
    ∀ diagnostic ∈ (ofList around list).problems, diagnostic.IsTraced around.macro? := by
  have begun : Traced around start := List.forall_mem_nil _
  exact (traced_invariant faithful).placeAll (unfoldTo_course around _)
    (unfoldTo_keeps_traced faithful _) list begun fun _ _ => .singleton _

end Inlining

/-! ### Scores -/

/-- Where a movement is inlined without problems, every demand that it reaches is met. -/
theorem Movement.isMet_of_silent {score : Score} {limit : Nat} {movement : Movement}
    (silent : (movement.inlineMacros score limit).2 = []) {demand : Demand}
    (reached : Reaches score.macro? movement.expressions demand) :
    demand.IsMet score.macro? := by
  obtain ⟨values, each, _⟩ := Movement.evaluatesTo_of_silent silent
  exact reached.isMet each.met

namespace Score

/-- Every name of a macro stands for a macro of that name. -/
def Faithful (score : Score) : Prop :=
  ∀ name definition, score.macro? name = some definition → definition.name = name

theorem macroAt?_map (change : Macro → Macro) (macros : List Macro) (index : Nat) :
    macroAt? (macros.map change) index = (macroAt? macros index).map change := by
  cases index with
  | zero => rfl
  | succ index => exact List.getElem?_map

theorem NamedBy.faithful_macros {score : Score} {written : List Stored}
    (named : score.NamedBy written) : score.Faithful := by
  intro name definition found
  obtain ⟨index, isIndex, isThere⟩ := Option.bind_eq_some_iff.mp found
  have entry : score.names.get? name = some (.macroAt index) := by
    unfold NameTable.macroIndex? at isIndex
    split at isIndex
    · rename_i same
      rw [same, Option.some.inj isIndex]
    · contradiction
  obtain ⟨_, other, otherThere, bears⟩ := named.defines entry
  cases index with
  | zero => contradiction
  | succ index =>
      have same := Option.some.inj (isThere.symm.trans otherThere)
      rw [same]
      exact bears

/-- Macros stay what their names stand for when their bodies are changed. -/
theorem Faithful.of_map {before after : Score} (faithful : before.Faithful)
    (names : after.names = before.names) {change : Macro → Macro}
    (macros : after.macros = before.macros.map change)
    (keeps : ∀ definition, (change definition).name = definition.name) : after.Faithful := by
  intro name definition found
  unfold macro? at found
  rw [names, macros] at found
  obtain ⟨index, isIndex, isThere⟩ := Option.bind_eq_some_iff.mp found
  rw [macroAt?_map] at isThere
  obtain ⟨original, originalThere, rfl⟩ := Option.map_eq_some_iff.mp isThere
  rw [keeps]
  exact faithful name original (Option.bind_eq_some_iff.mpr ⟨index, isIndex, originalThere⟩)

theorem Faithful.after {score : Score} (faithful : score.Faithful) (pass : Pass) :
    (score.after pass).1.Faithful := by
  cases pass with
  | repetitions limit =>
      exact faithful.of_map rfl (score.unroll_macros limit) fun _ => rfl
  | groups => exact faithful.of_map rfl rfl fun _ => rfl
  | macros limit => exact faithful

theorem Faithful.afterAll {score : Score} (faithful : score.Faithful) (passes : List Pass) :
    (score.afterAll passes).1.Faithful := by
  induction passes generalizing score with
  | nil => exact faithful
  | cons pass others inductionHypothesis => exact inductionHypothesis (faithful.after pass)

theorem Faithful.isTraced_of_mem {score : Score} (faithful : score.Faithful) (limit : Nat) :
    ∀ diagnostic ∈ (score.inlineMacros limit).2, diagnostic.IsTraced score.macro? := by
  apply forall_mem_inlineMacros
  intro movement _
  have faithfulHere : ∀ name definition,
      (score.around limit movement).macro? name = some definition → definition.name = name :=
    faithful
  exact Inlining.isTraced_ofList faithfulHere movement.expressions

end Score

/-! ### Main result -/

/-- **Circles of macros.** Take a score that was read, before or after any passes. Where its
macros are inlined without problems, every demand that a movement reaches is met by the
macro of its name with as many parameters, and that macro is in no circle of references.
And every problem of a macro within itself names a way from the macro back to it, on which
the body of each macro uses the next one. -/
theorem inlineMacros_circles {tokens : List Token} {trackName : String} {read : Score}
    (wasRead : Score.ofTokens tokens trackName = .ok read) (passes : List Score.Pass)
    {score : Score} (passed : score = (read.afterAll passes).1) (limit : Nat) :
    ((score.inlineMacros limit).2 = [] →
      ∀ movement ∈ score.movements, ∀ demand,
        Reaches score.macro? movement.expressions demand →
          (∃ definition ∈ score.macros, score.macro? demand.name = some definition ∧
            definition.name = demand.name ∧
            demand.given = definition.parameters.length) ∧
          ¬ Relation.TransGen (IsUsedBy score.macro?) demand.name demand.name) ∧
      ∀ diagnostic ∈ (score.inlineMacros limit).2, ∀ name chain,
        diagnostic.problem = .ofExpansion (.selfReference name chain) →
          (∃ between, chain = name :: between ++ [name]) ∧
            chain.IsChain fun user used => IsUsedBy score.macro? used user := by
  obtain ⟨written, named⟩ := Score.exists_namedBy_of_read wasRead
  have faithful : score.Faithful := passed ▸ named.faithful_macros.afterAll passes
  constructor
  · intro silent movement member demand reached
    rw [Score.inlineMacros_snd_eq_nil_iff] at silent
    have isMet := Movement.isMet_of_silent (silent movement member) reached
    refine ⟨?_, IsUsedBy.not_circular isMet.acc⟩
    obtain ⟨found, arity, _⟩ := isMet
    exact ⟨_, Score.mem_of_macro? found, found, faithful _ _ found, arity⟩
  · intro diagnostic member name chain same
    have roundTrip := faithful.isTraced_of_mem limit diagnostic member name chain same
    exact ⟨roundTrip.closed, roundTrip.leads⟩

/-- A macro that is given to a macro within its own body: `f(x) = x` and `m = f(m)`. -/
theorem inlineMacros_circles_argument :
    ∃ tokens read, Score.ofTokens tokens "global" = .ok read ∧
      ∃ diagnostic ∈ (read.inlineMacros 1).2,
        diagnostic.problem = .ofExpansion (.selfReference "m" ["m", "m"]) ∧
        IsUsedBy read.macro? "m" "m" := by
  let tokens := (Token.tokenize "f(x) = x\nm = f(m)\npiano: m").toOption.getD []
  cases result : Score.ofTokens tokens "global" with
  | error halt =>
      have isOk : (Score.ofTokens tokens "global").isOk = true := by decide +kernel
      rw [result] at isOk
      contradiction
  | ok read =>
      have met : ((Score.ofTokens tokens "global").toOption.map fun score =>
          (score.inlineMacros 1).2.map Diagnostic.problem) =
            some [.ofExpansion (.selfReference "m" ["m", "m"])] := by
        decide +kernel
      rw [result] at met
      have problems : (read.inlineMacros 1).2.map Diagnostic.problem =
          [.ofExpansion (.selfReference "m" ["m", "m"])] := Option.some.inj met
      obtain ⟨diagnostic, member, same⟩ := List.mem_map.mp
        (problems ▸ List.mem_singleton_self _)
      have leads : ["m", "m"].IsChain fun user used => IsUsedBy read.macro? used user :=
        ((inlineMacros_circles result [] rfl 1).2 diagnostic member "m" ["m", "m"] same).2
      have edge := List.isChain_pair.mp leads
      exact ⟨tokens, read, result, diagnostic, member, same, edge⟩

end Solfege
