import Solfege.Proofs.Evaluation.Chords
import Solfege.Proofs.Inlining.Budget
import Solfege.Proofs.Inlining.Circles
import Solfege.Proofs.Inlining.Renaming

/-!
Contract: a macro that is passed as an argument, and the same macro mentioned by its name.

Owns:
- the macro in whose body a name stands in place of the parameter of another one;
- the proof that the body with the parameter and the body with the name have the same value,
  if what the name stands for is a single note or chord wherever the parameter is a member of
  a chord;
- scores with a single movement, and what they become under every budget that is large
  enough.

Does not own: the evaluation itself, and its agreement with inlining.

A parameter and a name differ in chords only. There a name may stand for any number of notes
and chords, and a parameter for a single one. The value of a name is known as soon as the name
is mentioned anywhere, because everything that a body mentions is evaluated.
-/

namespace Solfege

open Expression

/-! ### A name in place of a parameter -/

/-- The name that takes the place of a name, where another one is put for a parameter. -/
def putName (parameter passed name : String) : String :=
  if name = parameter then passed else name

theorem putName_self (parameter passed : String) : putName parameter passed parameter = passed :=
  if_pos rfl

theorem putName_of_ne {parameter name : String} (other : name ≠ parameter) (passed : String) :
    putName parameter passed name = name :=
  if_neg other

/-- The second macro is the first one with a name in place of its only parameter. -/
structure Macro.Mentions (definition variant : Macro) (parameter passed : String) : Prop where
  parameters : definition.parameters = [parameter]
  plain : variant.parameters = []
  body : variant.body = renameAll (putName parameter passed) definition.body

section Values

variable {find : String → Option Macro} {parameter passed : String} {value : List Expression}

theorem lookup_singleton_of_ne {name : String} (other : name ≠ parameter) :
    List.lookup name [(parameter, value)] = none := by
  rw [List.lookup_cons, beq_false_of_ne other]
  rfl

theorem lookup_singleton_self : List.lookup parameter [(parameter, value)] = some value := by
  rw [List.lookup_cons, beq_self_eq_true]

theorem eq_of_lookup_singleton {name : String} {bound : List Expression}
    (found : List.lookup name [(parameter, value)] = some bound) :
    name = parameter ∧ bound = value := by
  by_cases same : name = parameter
  · subst same
    rw [lookup_singleton_self] at found
    exact ⟨rfl, (Option.some.inj found).symm⟩
  · rw [lookup_singleton_of_ne same] at found
    contradiction

theorem ne_of_lookup_singleton {name : String}
    (free : List.lookup name [(parameter, value)] = none) : name ≠ parameter := by
  rintro rfl
  rw [lookup_singleton_self] at free
  contradiction

/-- The value of a name does not depend on where the name stands. -/
theorem Evaluates.reference_anywhere {name : String} {token : Token}
    (evaluates : Evaluates find [] (.reference name token) value) (other : Token) :
    Evaluates find [] (.reference name other) value := by
  cases evaluates with
  | parameter _ bound => contradiction
  | name _ free found plain body => exact .name other free found plain body

/-- What every name in a chord contributes if it stands for a single note or chord. -/
theorem mapM_contribution?_singleton {single : Expression} {contribution : List ChordMember}
    (contributed : single.contribution? = some contribution) :
    [single].mapM contribution? = some [contribution] :=
  mapM_contribution?_cons_iff.mpr ⟨contribution, [], contributed, rfl, rfl⟩

/-! ### What is mentioned -/

mutual

/-- Everything that is mentioned in an expression with a value has a value itself. -/
theorem Evaluates.exists_of_mention {environment : Environment} {expression : Expression}
    {result : List Expression} {name : String} :
    Evaluates find environment expression result → name ∈ expression.mentions →
      ∃ token value, Evaluates find environment (.reference name token) value
  | .note _, mentioned => absurd mentioned List.not_mem_nil
  | .release _, mentioned => absurd mentioned List.not_mem_nil
  | .directive _ _, mentioned => absurd mentioned List.not_mem_nil
  | .bar _, mentioned => absurd mentioned List.not_mem_nil
  | .placeholder _, mentioned => absurd mentioned List.not_mem_nil
  | .parameter token bound, mentioned => by
      rw [List.mem_singleton.mp mentioned]
      exact ⟨token, _, .parameter token bound⟩
  | .name token free found plain body, mentioned => by
      rw [List.mem_singleton.mp mentioned]
      exact ⟨token, _, .name token free found plain body⟩
  | .call _ _ _ each _, mentioned => each.exists_of_mention mentioned
  | .group _ each, mentioned => each.exists_of_mention mentioned
  | .hold _ inside _, mentioned => inside.exists_of_mention mentioned
  | .chord _ each, mentioned => each.exists_of_mention mentioned

theorem EvaluatesEach.exists_of_mention {environment : Environment} {list : List Expression}
    {results : List (List Expression)} {name : String} :
    EvaluatesEach find environment list results → name ∈ mentionsOfAll list →
      ∃ token value, Evaluates find environment (.reference name token) value
  | .nil, mentioned => absurd mentioned List.not_mem_nil
  | .cons head tail, mentioned => by
      rcases List.mem_append.mp mentioned with here | behind
      · exact head.exists_of_mention here
      · exact tail.exists_of_mention behind

theorem EvaluatesMembers.exists_of_mention {environment : Environment}
    {members : List ChordMember} {contributions : List (List ChordMember)} {name : String} :
    EvaluatesMembers find environment members contributions →
      name ∈ members.flatMap ChordMember.mentions →
      ∃ token value, Evaluates find environment (.reference name token) value
  | .nil, mentioned => absurd mentioned List.not_mem_nil
  | .note _ tail, mentioned => tail.exists_of_mention mentioned
  | .parameter token bound _ tail, mentioned => by
      rcases List.mem_append.mp mentioned with here | behind
      · rw [List.mem_singleton.mp here]
        exact ⟨token, _, .parameter token bound⟩
      · exact tail.exists_of_mention behind
  | .name token _ inside _ tail, mentioned => by
      rcases List.mem_append.mp mentioned with here | behind
      · rw [List.mem_singleton.mp here]
        exact ⟨token, _, inside⟩
      · exact tail.exists_of_mention behind

end

theorem mentions_members_rename (change : String → String) (members : List ChordMember) :
    (members.map (ChordMember.rename change)).flatMap ChordMember.mentions =
      (members.flatMap ChordMember.mentions).map change := by
  rw [List.flatMap_map, List.map_flatMap]
  apply List.flatMap_congr
  intro member _
  cases member <;> rfl

mutual

theorem mentions_rename (change : String → String) (expression : Expression) :
    (expression.rename change).mentions = expression.mentions.map change := by
  cases expression with
  | call name arguments token => exact mentionsOfAll_renameAll change arguments
  | group items token => exact mentionsOfAll_renameAll change items
  | hold inner token => exact mentions_rename change inner
  | chord members token => exact mentions_members_rename change members
  | _ => rfl

theorem mentionsOfAll_renameAll (change : String → String) (list : List Expression) :
    mentionsOfAll (renameAll change list) = (mentionsOfAll list).map change := by
  cases list with
  | nil => rfl
  | cons item rest =>
      rw [renameAll, mentionsOfAll, mentionsOfAll, mentions_rename, mentionsOfAll_renameAll,
        List.map_append]

end

/-! ### From the parameter to the name -/

mutual

/-- Where a parameter has the value of a name, the name may take its place. -/
theorem Evaluates.mention {expression : Expression} {result : List Expression}
    (known : ∀ token, Evaluates find [] (.reference passed token) value) :
    Evaluates find [(parameter, value)] expression result →
      Evaluates find [] (expression.rename (putName parameter passed)) result
  | .note written => .note written
  | .release token => .release token
  | .directive setting token => .directive setting token
  | .bar token => .bar token
  | .placeholder token => .placeholder token
  | .parameter token bound => by
      obtain ⟨same, here⟩ := eq_of_lookup_singleton bound
      rw [rename, same, putName_self, here]
      exact known token
  | .name token free found plain body => by
      rw [rename, putName_of_ne (ne_of_lookup_singleton free)]
      exact .name token rfl found plain body
  | .call token found arity each body => by
      have inside := each.mention known
      have length := inside.length_eq.symm.trans each.length_eq
      exact .call token found (length.trans arity) inside body
  | .group token each => .group token (each.mention known)
  | .hold token inside holdable => .hold token (inside.mention known) holdable
  | .chord token each => .chord token (each.mention known)

theorem EvaluatesEach.mention {list : List Expression} {results : List (List Expression)}
    (known : ∀ token, Evaluates find [] (.reference passed token) value) :
    EvaluatesEach find [(parameter, value)] list results →
      EvaluatesEach find [] (renameAll (putName parameter passed) list) results
  | .nil => .nil
  | .cons head tail => .cons (head.mention known) (tail.mention known)

theorem EvaluatesMembers.mention {members : List ChordMember}
    {contributions : List (List ChordMember)}
    (known : ∀ token, Evaluates find [] (.reference passed token) value) :
    EvaluatesMembers find [(parameter, value)] members contributions →
      EvaluatesMembers find []
        (members.map (ChordMember.rename (putName parameter passed))) contributions
  | .nil => .nil
  | .note written tail => .note written (tail.mention known)
  | .parameter token bound contributed tail => by
      obtain ⟨same, here⟩ := eq_of_lookup_singleton bound
      have single := known token
      rw [← here] at single
      have member := EvaluatesMembers.name token rfl single
        (mapM_contribution?_singleton contributed) (tail.mention known)
      rw [List.flatten_singleton] at member
      rw [List.map_cons, ChordMember.rename, same, putName_self]
      exact member
  | .name token free inside contributed tail => by
      rw [List.map_cons, ChordMember.rename, putName_of_ne (ne_of_lookup_singleton free)]
      exact .name token rfl (inside.of_free free) contributed (tail.mention known)

end

mutual

/-- A parameter that is a member of a chord stands for a single note or chord. -/
theorem Evaluates.single_of_member {expression : Expression} {result : List Expression} :
    Evaluates find [(parameter, value)] expression result →
      parameter ∈ expression.memberNames [] →
        ∃ single, value = [single] ∧ single.contribution?.isSome
  | .note _, member => absurd member List.not_mem_nil
  | .release _, member => absurd member List.not_mem_nil
  | .directive _ _, member => absurd member List.not_mem_nil
  | .bar _, member => absurd member List.not_mem_nil
  | .placeholder _, member => absurd member List.not_mem_nil
  | .parameter _ _, member => absurd member List.not_mem_nil
  | .name _ _ _ _ _, member => absurd member List.not_mem_nil
  | .call _ _ _ each _, member => each.single_of_member member
  | .group _ each, member => each.single_of_member member
  | .hold _ inside _, member => inside.single_of_member member
  | .chord _ each, member => each.single_of_member member

theorem EvaluatesEach.single_of_member {list : List Expression}
    {results : List (List Expression)} :
    EvaluatesEach find [(parameter, value)] list results →
      parameter ∈ memberNamesOfAll [] list →
        ∃ single, value = [single] ∧ single.contribution?.isSome
  | .nil, member => absurd member List.not_mem_nil
  | .cons head tail, member => by
      rcases List.mem_append.mp member with here | behind
      · exact head.single_of_member here
      · exact tail.single_of_member behind

theorem EvaluatesMembers.single_of_member {members : List ChordMember}
    {contributions : List (List ChordMember)} :
    EvaluatesMembers find [(parameter, value)] members contributions →
      parameter ∈ members.flatMap (memberUses []) →
        ∃ single, value = [single] ∧ single.contribution?.isSome
  | .nil, member => absurd member List.not_mem_nil
  | .note _ tail, member => tail.single_of_member member
  | .parameter _ bound contributed tail, _ =>
      ⟨_, (eq_of_lookup_singleton bound).2.symm, Option.isSome_of_eq_some contributed⟩
  | .name _ free _ _ tail, member => by
      rcases List.mem_append.mp member with here | behind
      · have same : parameter = _ := List.mem_singleton.mp here
        exact absurd same.symm (ne_of_lookup_singleton free)
      · exact tail.single_of_member behind

end

/-! ### From the name to the parameter -/

/-- A name other than the parameter stands for the same in the body of both macros. -/
theorem Evaluates.beside_parameter {name : String} {token : Token} {result : List Expression}
    (other : name ≠ parameter)
    (evaluates : Evaluates find [] (.reference name token) result) :
    Evaluates find [(parameter, value)] (.reference name token) result := by
  cases evaluates with
  | parameter _ bound => contradiction
  | name _ _ found plain body =>
      exact .name token (lookup_singleton_of_ne other) found plain body

mutual

/-- Where a name has taken the place of a parameter, the parameter may have the value of the
name, unless it is a member of a chord and the value is not a single note or chord. -/
theorem Evaluates.pass (known : ∀ token, Evaluates find [] (.reference passed token) value)
    (expression : Expression) {result : List Expression}
    (single : parameter ∈ expression.memberNames [] →
      ∃ single, value = [single] ∧ single.contribution?.isSome)
    (evaluates : Evaluates find [] (expression.rename (putName parameter passed)) result) :
    Evaluates find [(parameter, value)] expression result := by
  cases expression with
  | reference name token =>
      by_cases same : name = parameter
      · rw [rename, same, putName_self] at evaluates
        rw [evaluates.deterministic (known token), same]
        exact .parameter token lookup_singleton_self
      · rw [rename, putName_of_ne same] at evaluates
        exact evaluates.beside_parameter same
  | call name arguments token =>
      cases evaluates with
      | call _ found arity each body =>
          have inside := EvaluatesEach.pass known arguments single each
          have length := inside.length_eq.symm.trans each.length_eq
          exact .call token found (length.trans arity) inside body
  | group items token =>
      cases evaluates with
      | group _ each => exact .group token (EvaluatesEach.pass known items single each)
  | hold inner token =>
      cases evaluates with
      | hold _ inside holdable =>
          exact .hold token (Evaluates.pass known inner single inside) holdable
  | chord members token =>
      cases evaluates with
      | chord _ each => exact .chord token (EvaluatesMembers.pass known members single each)
  | note written => cases evaluates; exact .note written
  | release token => cases evaluates; exact .release token
  | directive setting token => cases evaluates; exact .directive setting token
  | bar token => cases evaluates; exact .bar token
  | placeholder token => cases evaluates; exact .placeholder token
  | repetition count token => contradiction

theorem EvaluatesEach.pass
    (known : ∀ token, Evaluates find [] (.reference passed token) value)
    (list : List Expression) {results : List (List Expression)}
    (single : parameter ∈ memberNamesOfAll [] list →
      ∃ single, value = [single] ∧ single.contribution?.isSome)
    (each : EvaluatesEach find [] (renameAll (putName parameter passed) list) results) :
    EvaluatesEach find [(parameter, value)] list results := by
  cases list with
  | nil => cases each; exact .nil
  | cons item rest =>
      cases each with
      | cons head tail =>
          have here := Evaluates.pass known item
            (fun member => single (List.mem_append_left _ member)) head
          exact .cons here (EvaluatesEach.pass known rest
            (fun member => single (List.mem_append_right _ member)) tail)

theorem EvaluatesMembers.pass
    (known : ∀ token, Evaluates find [] (.reference passed token) value)
    (members : List ChordMember) {contributions : List (List ChordMember)}
    (single : parameter ∈ members.flatMap (memberUses []) →
      ∃ single, value = [single] ∧ single.contribution?.isSome)
    (each : EvaluatesMembers find []
      (members.map (ChordMember.rename (putName parameter passed))) contributions) :
    EvaluatesMembers find [(parameter, value)] members contributions := by
  cases members with
  | nil => cases each; exact .nil
  | cons member rest =>
      have behind := fun listed => single (List.mem_append_right _ listed)
      cases member with
      | note written =>
          cases each with
          | note _ tail => exact .note written (EvaluatesMembers.pass known rest behind tail)
      | reference name token =>
          by_cases same : name = parameter
          · obtain ⟨only, isOnly, contributes⟩ :=
              single (List.mem_append_left _ (List.mem_singleton.mpr same.symm))
            obtain ⟨contribution, contributed⟩ := Option.isSome_iff_exists.mp contributes
            rw [List.map_cons, ChordMember.rename, same, putName_self] at each
            cases each with
            | parameter _ bound => contradiction
            | name _ _ inside parts tail =>
                have onlyPart := mapM_contribution?_singleton contributed
                rw [← isOnly, ← inside.deterministic (known token), parts] at onlyPart
                rw [Option.some.inj onlyPart, List.flatten_singleton, same]
                refine .parameter token ?_ contributed
                  (EvaluatesMembers.pass known rest behind tail)
                rw [lookup_singleton_self, isOnly]
          · rw [List.map_cons, ChordMember.rename, putName_of_ne same] at each
            cases each with
            | parameter _ bound => contradiction
            | name _ _ inside parts tail =>
                exact .name token (lookup_singleton_of_ne same)
                  (inside.beside_parameter same) parts
                  (EvaluatesMembers.pass known rest behind tail)

end

/-! ### Bodies -/

/-- Where the parameter is mentioned, the body with the name in place of it has a value only
if the name has one. -/
theorem Macro.Mentions.exists_known {definition variant : Macro}
    (mentions : definition.Mentions variant parameter passed)
    (mentioned : parameter ∈ mentionsOfAll definition.body) {values : List (List Expression)}
    (each : EvaluatesEach find [] variant.body values) :
    ∃ value, ∀ token, Evaluates find [] (.reference passed token) value := by
  have member : passed ∈ mentionsOfAll variant.body := by
    rw [mentions.body, mentionsOfAll_renameAll]
    exact List.mem_map.mpr ⟨parameter, mentioned, putName_self parameter passed⟩
  obtain ⟨token, value, evaluates⟩ := each.exists_of_mention member
  exact ⟨value, evaluates.reference_anywhere⟩

variable {name newName : String} {definition variant : Macro}

/-- The call of the first macro has the value of the second macro, if the value of the name is
fit for the chords that the parameter is a member of. -/
theorem Macro.Mentions.evaluates_call_iff
    (mentions : definition.Mentions variant parameter passed)
    (mentioned : parameter ∈ mentionsOfAll definition.body)
    (isDefinition : find name = some definition) (isVariant : find newName = some variant)
    (argumentToken callToken token : Token) (result : List Expression) :
    Evaluates find [] (.call name [.reference passed argumentToken] callToken) result ↔
      Evaluates find [] (.reference newName token) result ∧
        (parameter ∈ memberNamesOfAll [] definition.body →
          ∃ single, single.contribution?.isSome ∧
            Evaluates find [] (.reference passed argumentToken) [single]) := by
  constructor
  · intro evaluates
    cases evaluates with
    | call _ found arity given body =>
        rw [isDefinition] at found
        obtain rfl := Option.some.inj found
        cases given with
        | cons here none =>
            cases none
            rw [mentions.parameters] at body
            have inside := body.mention here.reference_anywhere
            rw [← mentions.body] at inside
            refine ⟨.name token rfl isVariant mentions.plain inside, fun member => ?_⟩
            obtain ⟨single, rfl, contributes⟩ := body.single_of_member member
            exact ⟨single, contributes, here⟩
  · rintro ⟨evaluates, fit⟩
    cases evaluates with
    | parameter _ bound => contradiction
    | name _ _ found _ body =>
        rw [isVariant] at found
        obtain rfl := Option.some.inj found
        obtain ⟨value, known⟩ := mentions.exists_known mentioned body
        rw [mentions.body] at body
        have inside := EvaluatesEach.pass known definition.body (fun member => by
          obtain ⟨single, contributes, here⟩ := fit member
          exact ⟨single, (known argumentToken).deterministic here, contributes⟩) body
        refine .call callToken isDefinition ?_ (.cons (known argumentToken) .nil) ?_
        · rw [mentions.parameters]
          rfl
        · rw [mentions.parameters]
          exact inside

end Values

/-! ### Scores with a single movement -/

/-- The score with a single movement, which consists of the given expressions. -/
def Score.playing (score : Score) (place : Movement) (list : List Expression) : Score :=
  { score with tracks := [⟨place.instrument, [{ place with expressions := list }]⟩] }

namespace Score

variable {score : Score} {place : Movement} {list value : List Expression} {limit : Nat}

theorem playing_inj {others : List Expression}
    (same : score.playing place list = score.playing place others) : list = others := by
  have tracks := congrArg tracks same
  unfold playing at tracks
  injection tracks with track
  injection track with _ movements
  injection movements with movement
  injection movement

/-- Inlining makes of the single movement what it stands for. -/
theorem inlineMacros_playing_of_silent
    (silent : ((score.playing place list).inlineMacros limit).2 = []) :
    ∃ values, EvaluatesEach score.macro? [] list values ∧
      (score.playing place list).inlineMacros limit =
        (score.playing place values.flatten, []) := by
  have alone : (Movement.inlineMacros (score.playing place list) limit
      { place with expressions := list }).2 = [] :=
    inlineMacros_snd_eq_nil_iff.mp silent _ (List.mem_singleton_self _)
  obtain ⟨values, each, became⟩ := Movement.evaluatesTo_of_silent alone
  refine ⟨values, each, Prod.ext ?_ silent⟩
  rw [← became, inlineMacros_eq]
  rfl

theorem silent_of_evaluates (faithful : score.Faithful) (place : Movement)
    {values : List (List Expression)} (each : EvaluatesEach score.macro? [] list values) :
    ∃ budget, ∀ limit, budget ≤ limit →
      ((score.playing place list).inlineMacros limit).2 = [] := by
  have evaluates : Movement.EvaluatesTo (score.playing place list)
      { place with expressions := list } values.flatten := ⟨values, each, rfl⟩
  obtain ⟨budget, silent⟩ := Movement.silent_of_evaluatesTo faithful evaluates
  refine ⟨budget, fun limit enough => inlineMacros_snd_eq_nil_iff.mpr ?_⟩
  exact List.forall_mem_singleton.mpr (silent limit enough)

/-- What the macros of a score make of an expression that is the only one. -/
def inlineAlone (score : Score) (place : Movement) (limit : Nat) (expression : Expression) :
    Score × List Diagnostic :=
  (score.playing place [expression]).inlineMacros limit

theorem evaluates_of_inlineAlone {expression : Expression}
    (became : score.inlineAlone place limit expression = (score.playing place value, [])) :
    Evaluates score.macro? [] expression value := by
  obtain ⟨values, each, known⟩ := inlineMacros_playing_of_silent (congrArg Prod.snd became)
  have same := playing_inj (congrArg Prod.fst (known.symm.trans became))
  cases each with
  | cons head none =>
      cases none
      rw [List.flatten_singleton] at same
      rw [← same]
      exact head

theorem inlineAlone_silent_iff {expression : Expression} :
    (score.inlineAlone place limit expression).2 = [] ↔
      ∃ value, score.inlineAlone place limit expression = (score.playing place value, []) := by
  constructor
  · intro silent
    obtain ⟨values, _, became⟩ := inlineMacros_playing_of_silent silent
    exact ⟨values.flatten, became⟩
  · rintro ⟨value, became⟩
    rw [became]

/-- From a certain budget on, an expression becomes its value if it has one, and otherwise is
not inlined without a problem. -/
theorem exists_budget (faithful : score.Faithful) (place : Movement)
    (expression : Expression) :
    ∃ budget, ∀ limit, budget ≤ limit → ∀ value,
      score.inlineAlone place limit expression = (score.playing place value, []) ↔
        Evaluates score.macro? [] expression value := by
  by_cases defined : ∃ value, Evaluates score.macro? [] expression value
  · obtain ⟨value, evaluates⟩ := defined
    obtain ⟨budget, silent⟩ := silent_of_evaluates faithful place (.cons evaluates .nil)
    refine ⟨budget, fun limit enough other => ⟨evaluates_of_inlineAlone, fun otherwise => ?_⟩⟩
    obtain ⟨values, each, became⟩ := inlineMacros_playing_of_silent (silent limit enough)
    rw [inlineAlone, became, each.deterministic (.cons otherwise .nil), List.flatten_singleton]
  · exact ⟨0, fun limit _ value => ⟨evaluates_of_inlineAlone, fun evaluates =>
      absurd ⟨value, evaluates⟩ defined⟩⟩

theorem faithful_of_entries
    (entries : ∀ entry ∈ score.names.entries, ∀ index, entry.2 = .macroAt index →
      ∀ definition ∈ macroAt? score.macros index, definition.name = entry.1) :
    score.Faithful := by
  intro name definition found
  obtain ⟨index, isIndex, isThere⟩ := Option.bind_eq_some_iff.mp found
  unfold NameTable.macroIndex? at isIndex
  split at isIndex
  · rename_i entry
    obtain rfl := Option.some.inj isIndex
    obtain ⟨before, behind, split, _⟩ := List.lookup_eq_some_iff.mp entry
    refine entries (name, .macroAt _) ?_ _ rfl definition isThere
    rw [split]
    exact List.mem_append_right _ List.mem_cons_self
  · contradiction

end Score

/-! ### Macros for members of chords -/

namespace Thirds

/-- The macro `third(x) = x/mi`. -/
def third : Macro :=
  ⟨"third", ["x"], [.chord [.reference "x" default, .note ⟨.mi, 0, none, none, default⟩]
    default], default⟩

/-- The macro of the given name with `passed/mi` as its body. -/
def thirdOf (name passed : String) : Macro :=
  ⟨name, [], [.chord [.reference passed default, .note ⟨.mi, 0, none, none, default⟩] default],
    default⟩

/-- The score with these macros, and with a note and two notes under the names `one` and
`two`. -/
def score : Score where
  metadata := []
  macros := [third, ⟨"one", [], [.note ⟨.ut, 0, none, none, default⟩], default⟩,
    ⟨"two", [], [.note ⟨.ut, 0, none, none, default⟩, .note ⟨.re, 0, none, none, default⟩],
      default⟩, thirdOf "thirdOfOne" "one", thirdOf "thirdOfTwo" "two"]
  tracks := []
  names := ⟨[("one", .macroAt 2), ("third", .macroAt 1), ("thirdOfOne", .macroAt 4),
    ("thirdOfTwo", .macroAt 5), ("two", .macroAt 3)]⟩
  diagnostics := []

theorem faithful : score.Faithful := by
  apply Score.faithful_of_entries
  simp [score, third, thirdOf, Score.macroAt?]

theorem mentions (name passed : String) : third.Mentions (thirdOf name passed) "x" passed :=
  ⟨rfl, rfl, rfl⟩

end Thirds

/-! ### Main result -/

/-- **A macro that is passed, and the same macro by its name.** Take a macro with one parameter,
which its body mentions, and a macro without any, whose body has a name in place of this
parameter. Under every budget that is large enough, the call of the first one with the name is
inlined without problems if, and only if, the second one is and the name stands for a single
note or chord, in case the parameter is a member of a chord. Both give the same then. -/
theorem inlineMacros_passed_iff_mentioned {score : Score} (faithful : score.Faithful)
    {name newName parameter passed : String} {definition variant : Macro}
    (isDefinition : score.macro? name = some definition)
    (isVariant : score.macro? newName = some variant)
    (mentions : definition.Mentions variant parameter passed)
    (mentioned : parameter ∈ mentionsOfAll definition.body)
    (place : Movement) (argumentToken callToken token : Token) :
    ∃ budget, ∀ limit, budget ≤ limit →
      ((score.inlineAlone place limit
            (.call name [.reference passed argumentToken] callToken)).2 = [] ↔
          (score.inlineAlone place limit (.reference newName token)).2 = [] ∧
            (parameter ∈ memberNamesOfAll [] definition.body →
              ∃ single, single.contribution?.isSome ∧
                score.inlineAlone place limit (.reference passed argumentToken) =
                  (score.playing place [single], []))) ∧
        ((score.inlineAlone place limit
            (.call name [.reference passed argumentToken] callToken)).2 = [] →
          score.inlineAlone place limit
              (.call name [.reference passed argumentToken] callToken) =
            score.inlineAlone place limit (.reference newName token)) := by
  obtain ⟨forCall, called⟩ := Score.exists_budget faithful place
    (.call name [.reference passed argumentToken] callToken)
  obtain ⟨forVariant, named⟩ := Score.exists_budget faithful place (.reference newName token)
  obtain ⟨forPassed, alone⟩ :=
    Score.exists_budget faithful place (.reference passed argumentToken)
  refine ⟨max forCall (max forVariant forPassed), fun limit enough => ?_⟩
  replace called := called limit (by omega)
  replace named := named limit (by omega)
  replace alone := alone limit (by omega)
  have same := mentions.evaluates_call_iff mentioned isDefinition isVariant argumentToken
    callToken token
  constructor
  · simp only [Score.inlineAlone_silent_iff, called, named, alone, same, exists_and_right]
  · intro silent
    obtain ⟨value, became⟩ := Score.inlineAlone_silent_iff.mp silent
    have evaluates := ((same value).mp ((called value).mp became)).1
    rw [became, (named value).mpr evaluates]

/-- Once it is known that `one` is a note, the call `third(one)` is as good as the macro
`one/mi`. -/
theorem inlineMacros_passed_iff_mentioned_third :
    ∃ budget, ∀ limit, budget ≤ limit →
      Thirds.score.inlineAlone PassedOn.movement limit
          (.call "third" [.reference "one" default] default) =
        Thirds.score.inlineAlone PassedOn.movement limit (.reference "thirdOfOne" default) := by
  obtain ⟨budget, agree⟩ := inlineMacros_passed_iff_mentioned Thirds.faithful
    (show Thirds.score.macro? "third" = some Thirds.third from rfl)
    (show Thirds.score.macro? "thirdOfOne" = some (Thirds.thirdOf "thirdOfOne" "one") from rfl)
    (Thirds.mentions "thirdOfOne" "one") (by decide) PassedOn.movement default default default
  refine ⟨max budget 9, fun limit enough => ?_⟩
  have named : Thirds.score.inlineAlone PassedOn.movement limit
      (.reference "thirdOfOne" default) = _ :=
    Score.inlineMacros_of_le (show 9 ≤ limit by omega) rfl
  have one : Thirds.score.inlineAlone PassedOn.movement limit (.reference "one" default) = _ :=
    Score.inlineMacros_of_le (show 9 ≤ limit by omega) rfl
  have both := agree limit (by omega)
  apply both.2
  rw [both.1, named]
  exact ⟨rfl, fun _ => ⟨.note ⟨.ut, 0, none, none, default⟩, rfl, one⟩⟩

/-! ### Where the two differ -/

/-- From a certain budget on, the call of a macro with a name is inlined without problems just
where another macro is. -/
def Score.PassesAlike (score : Score) (name newName passed : String) : Prop :=
  ∀ place argumentToken callToken token, ∃ budget, ∀ limit, budget ≤ limit →
    ((score.inlineAlone place limit
        (.call name [.reference passed argumentToken] callToken)).2 = [] ↔
      (score.inlineAlone place limit (.reference newName token)).2 = [])

/-- The macros `twice(x) = x again`, `one = do` and `twiceOne = one again`, where `again` is
another name for a second macro `twice = re`. -/
def Thirds.aliased : Score where
  metadata := []
  macros := [⟨"twice", ["x"], [.reference "x" default, .reference "again" default], default⟩,
    ⟨"twice", [], [.note ⟨.re, 0, none, none, default⟩], default⟩,
    ⟨"one", [], [.note ⟨.ut, 0, none, none, default⟩], default⟩,
    ⟨"twiceOne", [], [.reference "one" default, .reference "again" default], default⟩]
  tracks := []
  names := ⟨[("again", .macroAt 2), ("one", .macroAt 3), ("twice", .macroAt 1),
    ("twiceOne", .macroAt 4)]⟩
  diagnostics := []

/-- A name for two notes can be a member of a chord, and a parameter that stands for them
cannot. And outside of chords, a name for a macro of another name may be taken for a circle in
the one case only. -/
theorem not_inlineMacros_passed_iff_mentioned :
    (Thirds.score.Faithful ∧ Thirds.third.Mentions (Thirds.thirdOf "thirdOfTwo" "two") "x" "two" ∧
      Thirds.score.macro? "third" = some Thirds.third ∧
      Thirds.score.macro? "thirdOfTwo" = some (Thirds.thirdOf "thirdOfTwo" "two") ∧
      ¬ Thirds.score.PassesAlike "third" "thirdOfTwo" "two") ∧
    ∃ definition variant,
      Thirds.aliased.macro? "twice" = some definition ∧
        Thirds.aliased.macro? "twiceOne" = some variant ∧
        definition.Mentions variant "x" "one" ∧ "x" ∈ mentionsOfAll definition.body ∧
        "x" ∉ memberNamesOfAll [] definition.body ∧
        ¬ Thirds.aliased.PassesAlike "twice" "twiceOne" "one" := by
  refine ⟨⟨Thirds.faithful, Thirds.mentions "thirdOfTwo" "two", rfl, rfl, ?_⟩,
    ⟨_, _, rfl, rfl, ⟨rfl, rfl, rfl⟩, by decide, by decide, ?_⟩⟩
  · intro alike
    obtain ⟨budget, iff⟩ := alike PassedOn.movement default default default
    have silent := (iff (budget + 9) (by omega)).mpr rfl
    have reports : (Thirds.score.inlineAlone PassedOn.movement (budget + 9)
        (.call "third" [.reference "two" default] default)).2.length = 1 := rfl
    rw [silent] at reports
    contradiction
  · intro alike
    obtain ⟨budget, iff⟩ := alike PassedOn.movement default default default
    have silent := (iff (budget + 9) (by omega)).mpr rfl
    have reports : (Thirds.aliased.inlineAlone PassedOn.movement (budget + 9)
        (.call "twice" [.reference "one" default] default)).2.length = 1 := rfl
    rw [silent] at reports
    contradiction

end Solfege
