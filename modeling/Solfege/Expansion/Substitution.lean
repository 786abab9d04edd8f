import Solfege.Score.Basic

/-!
Contract: arguments in place of parameters.

Owns:
- the replacement of parameters in an expression, as names and as members of chords;
- the members of chords whose argument is neither a note nor a chord.

Does not own: the resolution of arguments, which happens before they are put in place.
The name of a call is never a parameter.
-/

namespace Solfege.Expression

/-- What each parameter of a macro stands for. -/
abbrev Bindings := List (String × Expression)

/-- The members that a member of a chord becomes. A parameter contributes the notes of
its argument. -/
def substituteMember (bindings : Bindings) : ChordMember → List ChordMember
  | .note written => [.note written]
  | .reference name token =>
      match bindings.lookup name with
      | none => [.reference name token]
      | some (.note written) => [.note written]
      | some (.chord members _) => members
      | some _ => []

/-- The problem of a member of a chord whose argument is neither a note nor a chord. -/
def memberProblem? (bindings : Bindings) : ChordMember → Option Diagnostic
  | .note _ => none
  | .reference name token =>
      match bindings.lookup name with
      | none => none
      | some (.note _) => none
      | some (.chord _ _) => none
      | some _ => some (Diagnostic.expansionAt token (.argumentInChord name))

mutual

/-- Puts arguments in place of parameters. -/
def substitute (bindings : Bindings) : Expression → Expression
  | .reference name token =>
      match bindings.lookup name with
      | some argument => argument
      | none => .reference name token
  | .call name arguments token =>
      .call name (substituteOnto bindings [] arguments).reverse token
  | .group items token => .group (substituteOnto bindings [] items).reverse token
  | .hold inner token => .hold (substitute bindings inner) token
  | .chord members token => .chord (members.flatMap (substituteMember bindings)) token
  | other => other

/-- Puts arguments in place of parameters throughout a list, behind what is already
made, which is given latest first. -/
def substituteOnto (bindings : Bindings) (made : List Expression) :
    List Expression → List Expression
  | [] => made
  | item :: rest => substituteOnto bindings (substitute bindings item :: made) rest

end

def substituteAll (bindings : Bindings) (list : List Expression) : List Expression :=
  (substituteOnto bindings [] list).reverse

theorem substituteOnto_eq (bindings : Bindings) (made list : List Expression) :
    substituteOnto bindings made list = (list.map (substitute bindings)).reverse ++ made := by
  induction list generalizing made with
  | nil => rfl
  | cons item rest inductionHypothesis =>
      rw [substituteOnto, inductionHypothesis, List.map_cons, List.reverse_cons,
        List.append_assoc, List.singleton_append]

theorem substituteAll_eq (bindings : Bindings) (list : List Expression) :
    substituteAll bindings list = list.map (substitute bindings) := by
  unfold substituteAll
  rw [substituteOnto_eq, List.append_nil, List.reverse_reverse]

theorem substitute_call (bindings : Bindings) (name : String) (arguments : List Expression)
    (token : Token) :
    substitute bindings (.call name arguments token) =
      .call name (arguments.map (substitute bindings)) token := by
  rw [substitute, substituteOnto_eq, List.append_nil, List.reverse_reverse]

theorem substitute_group (bindings : Bindings) (items : List Expression) (token : Token) :
    substitute bindings (.group items token) =
      .group (items.map (substitute bindings)) token := by
  rw [substitute, substituteOnto_eq, List.append_nil, List.reverse_reverse]

theorem flatMap_substituteMember_nil (members : List ChordMember) :
    members.flatMap (substituteMember []) = members := by
  induction members with
  | nil => rfl
  | cons member rest inductionHypothesis =>
      rw [List.flatMap_cons, inductionHypothesis]
      cases member <;> rfl

/-- Without parameters there is nothing to replace. -/
theorem substitute_nil (expression : Expression) : substitute [] expression = expression := by
  induction expression using Expression.rec
    (motive_2 := fun list => list.map (substitute []) = list) with
  | nil => rfl
  | cons item rest here others => rw [List.map_cons, here, others]
  | call name arguments token others => rw [substitute_call, others]
  | group items token others => rw [substitute_group, others]
  | hold inner token here => rw [substitute, here]
  | chord members token =>
      rw [substitute, flatMap_substituteMember_nil]
  | _ => rfl

mutual

/-- The problems of the chords in an expression, behind those already found, which are
given latest first. -/
def chordProblemsOnto (bindings : Bindings) (found : List Diagnostic) :
    Expression → List Diagnostic
  | .call _ arguments _ => chordProblemsAllOnto bindings found arguments
  | .group items _ => chordProblemsAllOnto bindings found items
  | .hold inner _ => chordProblemsOnto bindings found inner
  | .chord members _ => (members.filterMap (memberProblem? bindings)).reverse ++ found
  | _ => found

/-- The problems of the chords in a list, in the same way. -/
def chordProblemsAllOnto (bindings : Bindings) (found : List Diagnostic) :
    List Expression → List Diagnostic
  | [] => found
  | item :: rest => chordProblemsAllOnto bindings (chordProblemsOnto bindings found item) rest

end

/-- The problems of the chords in a list, in reading order. -/
def chordProblems (bindings : Bindings) (list : List Expression) : List Diagnostic :=
  (chordProblemsAllOnto bindings [] list).reverse

mutual

theorem chordProblemsOnto_eq (bindings : Bindings) (found : List Diagnostic)
    (expression : Expression) :
    chordProblemsOnto bindings found expression =
      chordProblemsOnto bindings [] expression ++ found := by
  cases expression with
  | call name arguments token => exact chordProblemsAllOnto_eq bindings found arguments
  | group items token => exact chordProblemsAllOnto_eq bindings found items
  | hold inner token => exact chordProblemsOnto_eq bindings found inner
  | chord members token => simp [chordProblemsOnto]
  | _ => rfl

theorem chordProblemsAllOnto_eq (bindings : Bindings) (found : List Diagnostic)
    (list : List Expression) :
    chordProblemsAllOnto bindings found list =
      chordProblemsAllOnto bindings [] list ++ found := by
  cases list with
  | nil => rfl
  | cons item rest =>
      rw [chordProblemsAllOnto, chordProblemsAllOnto, chordProblemsAllOnto_eq,
        chordProblemsOnto_eq bindings found,
        chordProblemsAllOnto_eq bindings (chordProblemsOnto bindings [] item),
        List.append_assoc]

end

/-- No chord in the expression has a problem. -/
def Clear (bindings : Bindings) (expression : Expression) : Prop :=
  chordProblemsOnto bindings [] expression = []

theorem chordProblemsAllOnto_eq_nil_iff {bindings : Bindings} {list : List Expression} :
    chordProblemsAllOnto bindings [] list = [] ↔ ∀ item ∈ list, Clear bindings item := by
  induction list with
  | nil => simp [chordProblemsAllOnto]
  | cons item rest inductionHypothesis =>
      rw [chordProblemsAllOnto, chordProblemsAllOnto_eq, List.append_eq_nil_iff,
        inductionHypothesis, List.forall_mem_cons]
      exact and_comm

theorem chordProblems_eq_nil_iff {bindings : Bindings} {list : List Expression} :
    chordProblems bindings list = [] ↔ ∀ item ∈ list, Clear bindings item := by
  unfold chordProblems
  rw [List.reverse_eq_nil_iff, chordProblemsAllOnto_eq_nil_iff]

theorem clear_call_iff {bindings : Bindings} {name : String} {arguments : List Expression}
    {token : Token} :
    Clear bindings (.call name arguments token) ↔
      ∀ argument ∈ arguments, Clear bindings argument :=
  chordProblemsAllOnto_eq_nil_iff

theorem clear_group_iff {bindings : Bindings} {items : List Expression} {token : Token} :
    Clear bindings (.group items token) ↔ ∀ item ∈ items, Clear bindings item :=
  chordProblemsAllOnto_eq_nil_iff

theorem clear_hold_iff {bindings : Bindings} {inner : Expression} {token : Token} :
    Clear bindings (.hold inner token) ↔ Clear bindings inner := Iff.rfl

theorem clear_chord_iff {bindings : Bindings} {members : List ChordMember} {token : Token} :
    Clear bindings (.chord members token) ↔
      ∀ member ∈ members, memberProblem? bindings member = none := by
  unfold Clear
  rw [chordProblemsOnto, List.append_nil, List.reverse_eq_nil_iff, List.filterMap_eq_nil_iff]

/-- Without parameters no chord has a problem. -/
theorem clear_nil (expression : Expression) : Clear [] expression := by
  induction expression using partsInduction with
  | call name arguments token others => exact clear_call_iff.mpr others
  | group items token others => exact clear_group_iff.mpr others
  | hold inner token here => exact clear_hold_iff.mpr here
  | chord members token =>
      refine clear_chord_iff.mpr fun member _ => ?_
      cases member <;> rfl
  | _ => rfl

end Solfege.Expression
