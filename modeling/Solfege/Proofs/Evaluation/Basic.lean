import Solfege.Score.Basic

/-!
Contract: what the expressions of a score stand for, told without a state or a budget.

Owns:
- the evaluation of an expression in an environment, which gives each parameter the
  value of its argument, with one rule for each sort of expression;
- the evaluation of lists and of the members of chords;
- the proof that an expression has at most one value.

Does not own: when an expression has a value at all. An expression without one is one
that no rule applies to, and one that would go on forever.

The name of a call is never a parameter, and the body of a macro knows its own parameters
only.
-/

namespace Solfege

/-- The members that an expression contributes to a chord: a note itself, and a chord all
of its own. -/
def Expression.contribution? : Expression → Option (List ChordMember)
  | .note written => some [.note written]
  | .chord members _ => some members
  | _ => none

/-- What the parameters of a macro stand for. Of two entries for a name the first one
counts. -/
abbrev Environment := List (String × List Expression)

/-- A parameter stands for one of the things that the parameters were given. -/
theorem mem_of_lookup_zip {α : Type} {parameters : List String} {given : List α}
    {name : String} {value : α}
    (bound : List.lookup name (parameters.zip given) = some value) : value ∈ given := by
  obtain ⟨before, after, split, _⟩ := List.lookup_eq_some_iff.mp bound
  have member : (name, value) ∈ parameters.zip given := by
    rw [split]
    exact List.mem_append_right _ List.mem_cons_self
  exact (List.of_mem_zip member).2

mutual

/-- The value of an expression in an environment, where `find` gives the macro of a name. -/
inductive Evaluates (find : String → Option Macro) :
    Environment → Expression → List Expression → Prop where
  | note {environment : Environment} (written : Note) :
      Evaluates find environment (.note written) [.note written]
  | release {environment : Environment} (token : Token) :
      Evaluates find environment (.release token) [.release token]
  | directive {environment : Environment} (directive : Directive) (token : Token) :
      Evaluates find environment (.directive directive token) [.directive directive token]
  | bar {environment : Environment} (token : Token) :
      Evaluates find environment (.bar token) [.bar token]
  | placeholder {environment : Environment} (token : Token) :
      Evaluates find environment (.placeholder token) [.placeholder token]
  | parameter {environment : Environment} {name : String} {value : List Expression}
      (token : Token) (bound : environment.lookup name = some value) :
      Evaluates find environment (.reference name token) value
  /-- A name that is no parameter has to be a macro without any. -/
  | name {environment : Environment} {name : String} {definition : Macro}
      {values : List (List Expression)} (token : Token)
      (free : environment.lookup name = none) (found : find name = some definition)
      (plain : definition.parameters = [])
      (body : EvaluatesEach find [] definition.body values) :
      Evaluates find environment (.reference name token) values.flatten
  /-- Arguments are evaluated where the call stands, and the body where nothing but the
  parameters is known. -/
  | call {environment : Environment} {name : String} {arguments : List Expression}
      {definition : Macro} {given values : List (List Expression)} (token : Token)
      (found : find name = some definition)
      (arity : arguments.length = definition.parameters.length)
      (each : EvaluatesEach find environment arguments given)
      (body : EvaluatesEach find (definition.parameters.zip given) definition.body values) :
      Evaluates find environment (.call name arguments token) values.flatten
  | group {environment : Environment} {items : List Expression}
      {values : List (List Expression)} (token : Token)
      (each : EvaluatesEach find environment items values) :
      Evaluates find environment (.group items token) values.flatten
  /-- What is held has to be one note or one chord. -/
  | hold {environment : Environment} {inner single : Expression} (token : Token)
      (inside : Evaluates find environment inner [single])
      (holdable : single.contribution?.isSome) :
      Evaluates find environment (.hold inner token) [.hold single token]
  | chord {environment : Environment} {members : List ChordMember}
      {contributions : List (List ChordMember)} (token : Token)
      (each : EvaluatesMembers find environment members contributions) :
      Evaluates find environment (.chord members token) [.chord contributions.flatten token]

/-- The values of the elements of a list, one by one. -/
inductive EvaluatesEach (find : String → Option Macro) :
    Environment → List Expression → List (List Expression) → Prop where
  | nil {environment : Environment} : EvaluatesEach find environment [] []
  | cons {environment : Environment} {item : Expression} {rest : List Expression}
      {value : List Expression} {values : List (List Expression)}
      (head : Evaluates find environment item value)
      (tail : EvaluatesEach find environment rest values) :
      EvaluatesEach find environment (item :: rest) (value :: values)

/-- What the members of a chord contribute to it, one by one. -/
inductive EvaluatesMembers (find : String → Option Macro) :
    Environment → List ChordMember → List (List ChordMember) → Prop where
  | nil {environment : Environment} : EvaluatesMembers find environment [] []
  | note {environment : Environment} {rest : List ChordMember}
      {contributions : List (List ChordMember)} (written : Note)
      (tail : EvaluatesMembers find environment rest contributions) :
      EvaluatesMembers find environment (.note written :: rest)
        ([.note written] :: contributions)
  /-- A parameter has to stand for one note or one chord. -/
  | parameter {environment : Environment} {name : String} {rest : List ChordMember}
      {single : Expression} {contribution : List ChordMember}
      {contributions : List (List ChordMember)} (token : Token)
      (bound : environment.lookup name = some [single])
      (contributed : single.contribution? = some contribution)
      (tail : EvaluatesMembers find environment rest contributions) :
      EvaluatesMembers find environment (.reference name token :: rest)
        (contribution :: contributions)
  /-- Any other name may stand for any number of notes and chords. -/
  | name {environment : Environment} {name : String} {rest : List ChordMember}
      {value : List Expression} {parts : List (List ChordMember)}
      {contributions : List (List ChordMember)} (token : Token)
      (free : environment.lookup name = none)
      (inside : Evaluates find environment (.reference name token) value)
      (contributed : value.mapM Expression.contribution? = some parts)
      (tail : EvaluatesMembers find environment rest contributions) :
      EvaluatesMembers find environment (.reference name token :: rest)
        (parts.flatten :: contributions)

end

/-! ### At most one value -/

section Determinism

variable {find : String → Option Macro}

mutual

theorem Evaluates.deterministic {environment : Environment} {expression : Expression}
    {value other : List Expression} :
    Evaluates find environment expression value →
      Evaluates find environment expression other → value = other
  | .note _, second => by cases second; rfl
  | .release _, second => by cases second; rfl
  | .directive _ _, second => by cases second; rfl
  | .bar _, second => by cases second; rfl
  | .placeholder _, second => by cases second; rfl
  | .parameter _ bound, second => by
      cases second with
      | parameter _ otherBound => exact Option.some.inj (bound.symm.trans otherBound)
      | name _ free => rw [bound] at free; contradiction
  | .name _ free found _ body, second => by
      cases second with
      | parameter _ bound => rw [bound] at free; contradiction
      | name _ _ otherFound _ otherBody =>
          have same := Option.some.inj (found.symm.trans otherFound)
          rw [← same] at otherBody
          rw [body.deterministic otherBody]
  | .call _ found _ each body, second => by
      cases second with
      | call _ otherFound _ otherEach otherBody =>
          have same := Option.some.inj (found.symm.trans otherFound)
          rw [← same, ← each.deterministic otherEach] at otherBody
          rw [body.deterministic otherBody]
  | .group _ each, second => by
      cases second with
      | group _ otherEach => rw [each.deterministic otherEach]
  | .hold _ inside _, second => by
      cases second with
      | hold _ otherInside => rw [List.singleton_inj.mp (inside.deterministic otherInside)]
  | .chord _ each, second => by
      cases second with
      | chord _ otherEach => rw [each.deterministic otherEach]

theorem EvaluatesEach.deterministic {environment : Environment} {list : List Expression}
    {values others : List (List Expression)} :
    EvaluatesEach find environment list values →
      EvaluatesEach find environment list others → values = others
  | .nil, second => by cases second; rfl
  | .cons head tail, second => by
      cases second with
      | cons otherHead otherTail =>
          rw [head.deterministic otherHead, tail.deterministic otherTail]

theorem EvaluatesMembers.deterministic {environment : Environment}
    {members : List ChordMember} {contributions others : List (List ChordMember)} :
    EvaluatesMembers find environment members contributions →
      EvaluatesMembers find environment members others → contributions = others
  | .nil, second => by cases second; rfl
  | .note _ tail, second => by
      cases second with
      | note _ otherTail => rw [tail.deterministic otherTail]
  | .parameter _ bound contributed tail, second => by
      cases second with
      | parameter _ otherBound otherContributed otherTail =>
          have same := Option.some.inj (bound.symm.trans otherBound)
          rw [← List.singleton_inj.mp same] at otherContributed
          rw [Option.some.inj (contributed.symm.trans otherContributed),
            tail.deterministic otherTail]
      | name _ free => rw [bound] at free; contradiction
  | .name _ free inside contributed tail, second => by
      cases second with
      | parameter _ bound => rw [bound] at free; contradiction
      | name _ _ otherInside otherContributed otherTail =>
          rw [← inside.deterministic otherInside] at otherContributed
          rw [Option.some.inj (contributed.symm.trans otherContributed),
            tail.deterministic otherTail]

end

end Determinism

end Solfege
